import ChangeQuery.Proofs.Tree.Links
import ChangeQuery.Proofs.Tree.Outline

/-!
## Trees that grow together

Trees can grow over one vocabulary, taking turns, or each over a vocabulary of its own.  A vocabulary
decides on the symbols of the constructs only, not on what is refused, what number a node gets and
where it stands.  So the trees have the same outlines either way.

* `Tree.link?_congr`: trees of equal outline have the same links.
* `Tree.attempt_congr`: one more node for trees of equal outline.
* `Tree.outline_together`: trees that grow together and the same trees apart.
-/

namespace ChangeQuery

namespace Node

variable {parent : ℕ} {new new' : Node}

mutual
/-- Appending to nodes of equal outline gives nodes of equal outline. -/
theorem graft_congr (hnew : new.outline = new'.outline) : ∀ a b : Node, a.outline = b.outline →
    (graft parent new a).outline = (graft parent new' b).outline
  | .node entry cs, .node entry' cs', h => by
    obtain ⟨hid, hlabel, hcs⟩ := outline_eq_iff.mp h
    have hid : entry.id = entry'.id := hid
    have hgrafted := map_graft_congr hnew cs cs' hcs
    rw [graft_node, graft_node, outline_eq_iff]
    refine ⟨hid, hlabel, ?_⟩
    rw [Rose.children_node, Rose.children_node, hid]
    split_ifs
    · rw [List.map_append, List.map_append, hgrafted, List.map_singleton, List.map_singleton, hnew]
    · exact hgrafted
/-- Appending to the nodes of a list. -/
theorem map_graft_congr (hnew : new.outline = new'.outline) : ∀ cs cs' : List Node,
    cs.map outline = cs'.map outline →
      (cs.map (graft parent new)).map outline = (cs'.map (graft parent new')).map outline
  | [], [], _ => rfl
  | c :: cs, c' :: cs', h => by
    obtain ⟨hc, hcs⟩ := List.cons.inj h
    rw [List.map_cons, List.map_cons, List.map_cons, List.map_cons, graft_congr hnew c c' hc,
      map_graft_congr hnew cs cs' hcs]
end

end Node

/-! ### Links -/

/-- Links are known from outlines. -/
theorem Site.link_congr {s s' : Site} (h : s.outline = s'.outline) : s.link = s'.link := by
  have hlink : ∀ s : Site, s.link = ⟨s.outline.1.value.1, s.outline.1.value.2,
      s.outline.2.map fun above => above.value.1,
      s.outline.1.children.map fun child => child.value.1⟩ := by
    rintro ⟨⟨entry, cs⟩, parent?⟩
    have hcs : cs.map Node.id = (cs.map Node.outline).map fun child => child.value.1 := by
      rw [List.map_map]
      exact List.map_congr_left fun c _ => by rw [Function.comp, Node.outline_eq_node]; rfl
    have hparent : parent?.map Node.id =
        (parent?.map Node.outline).map fun above => above.value.1 := by
      cases parent? with
      | none => rfl
      | some parent =>
        rw [Option.map_some, Option.map_some, Option.map_some, Node.outline_eq_node]
        rfl
    rw [link, outline, Node.outline_eq_node]
    exact congrArg₂ (Link.mk entry.id entry.category.label) hparent hcs
  rw [hlink, hlink, h]

namespace Tree

theorem link?_congr {t t' : Tree} (h : t.outline = t'.outline) (i : ℕ) : t.link? i = t'.link? i := by
  rw [link?, link?]
  rcases option_cases_of_map_eq (map_outline_site? h i) with ⟨hs, hs'⟩ | ⟨s, s', hs, hs', houtline⟩
  · rw [hs, hs']
  · rw [hs, hs', Option.map_some, Option.map_some, Site.link_congr houtline]

/-! ### One more node -/

/-- Appending a node with one label to trees of equal outline: it is refused for the same reason, or
the grown trees have equal outlines. -/
theorem add_congr {t t' : Tree} {c c' : Category} (hlabel : c.label = c'.label)
    (h : t.outline = t'.outline) (parent? : Option ℕ) :
    (t.add c parent?).map outline = (t'.add c' parent?).map outline := by
  obtain ⟨root?, size⟩ := t
  obtain ⟨root?', size'⟩ := t'
  obtain rfl : size = size' := size_congr h
  have hnew : Node.outline (.leaf ⟨size, c⟩) = Node.outline (.leaf ⟨size, c'⟩) :=
    Node.outline_eq_iff.mpr ⟨rfl, hlabel, rfl⟩
  rcases option_cases_of_map_eq (root?_congr h) with ⟨rfl, rfl⟩ | ⟨root, root', rfl, rfl, hroot⟩
  · cases parent? with
    | none => exact congrArg Except.ok (Prod.ext (congrArg some hnew) rfl)
    | some parent =>
      rw [add, add]
      dsimp only
      split_ifs <;> rfl
  · cases parent? with
    | none =>
      have hid : Node.id root = Node.id root' := (Node.outline_eq_iff.mp hroot).1
      have hcause : TreeError.duplicateRoot (Node.id root) = .duplicateRoot (Node.id root') := by
        rw [hid]
      exact congrArg Except.error hcause
    | some parent =>
      have hgrafted : (Node.graft parent (.leaf ⟨size, c⟩) root).outline =
          (Node.graft parent (.leaf ⟨size, c'⟩) root').outline :=
        Node.graft_congr hnew root root' hroot
      rw [add, add]
      dsimp only
      split_ifs
      · exact congrArg Except.ok (Prod.ext (congrArg some hgrafted) rfl)
      · rfl

/-- **One more node** keeps outlines equal, over any two vocabularies. -/
theorem attempt_congr {t t' : Tree} (v v' : Vocabulary) (h : t.outline = t'.outline)
    (a : Addition) : (attempt (v, t) a).2.outline = (attempt (v', t') a).2.outline := by
  have hadd : (t.addLabel v a.label a.parent?).2.map outline =
      (t'.addLabel v' a.label a.parent?).2.map outline := by
    rw [addLabel_eq, addLabel_eq]
    exact add_congr (by rw [Vocabulary.label_category, Vocabulary.label_category]) h _
  rw [snd_attempt, snd_attempt]
  rcases except_cases_of_map_eq hadd with ⟨cause, hok, hok'⟩ | ⟨u, u', hok, hok', houtline⟩
  · rw [hok, hok']
    exact h
  · rw [hok, hok']
    exact houtline

/-- The name of a construct enters the vocabulary, whether the node is accepted or not. -/
theorem fst_attempt (v : Vocabulary) (t : Tree) (a : Addition) :
    (attempt (v, t) a).1 = v.insertMany a.label.construct?.toList := by
  have hfst := congrArg Prod.fst (addLabel_eq t v a.label a.parent?)
  refine Eq.trans ?_ hfst
  rw [attempt]
  cases t.addLabel v a.label a.parent? with
  | mk w outcome => cases outcome <;> rfl

/-- What is appended to one tree leaves another one a tree over the vocabulary. -/
theorem grown_fst_attempt {v : Vocabulary} {t : Tree} (h : t.Grown v) (u : Tree) (a : Addition) :
    t.Grown (attempt (v, u) a).1 := by
  rw [fst_attempt]
  cases a.label with
  | token text => exact h
  | construct name => exact h.insert name

theorem owner_attemptAll (additions : List Addition) : ∀ s : Vocabulary × Tree,
    (attemptAll s additions).1.owner = s.1.owner := by
  induction additions with
  | nil => exact fun _ => rfl
  | cons a additions ih =>
    intro s
    rw [attemptAll, List.foldl_cons]
    refine (ih (attempt s a)).trans ?_
    rw [fst_attempt, Vocabulary.owner_insertMany]

/-! ### Taking turns -/

variable {ι : Type} [DecidableEq ι]

/-- One more node for one of the trees, over the vocabulary that all of them share. -/
def takeTurn (s : Vocabulary × (ι → Tree)) (turn : ι × Addition) : Vocabulary × (ι → Tree) :=
  let grown := attempt (s.1, s.2 turn.1) turn.2
  (grown.1, Function.update s.2 turn.1 grown.2)

/-- Trees that grow over one vocabulary, in turns. -/
def together (v : Vocabulary) (turns : List (ι × Addition)) : Vocabulary × (ι → Tree) :=
  turns.foldl takeTurn (v, fun _ => .empty)

/-- What is appended to the tree `k`. -/
def turnsOf (k : ι) (turns : List (ι × Addition)) : List Addition :=
  (turns.filter fun turn => turn.1 = k).map Prod.snd

theorem takeTurn_self (s : Vocabulary × (ι → Tree)) (k : ι) (a : Addition) :
    (takeTurn s (k, a)).2 k = (attempt (s.1, s.2 k) a).2 :=
  Function.update_self ..

theorem takeTurn_of_ne (s : Vocabulary × (ι → Tree)) {j k : ι} (h : j ≠ k) (a : Addition) :
    (takeTurn s (k, a)).2 j = s.2 j :=
  Function.update_of_ne h ..

theorem grown_takeTurn {s : Vocabulary × (ι → Tree)} (h : ∀ k, (s.2 k).Grown s.1)
    (turn : ι × Addition) (k : ι) : ((takeTurn s turn).2 k).Grown (takeTurn s turn).1 := by
  obtain ⟨j, a⟩ := turn
  by_cases hk : k = j
  · subst hk
    rw [takeTurn_self]
    exact (h k).attempt a
  · rw [takeTurn_of_ne s hk]
    exact grown_fst_attempt (h k) (s.2 j) a

/-- Trees that grow together are grown trees over the vocabulary that they share. -/
theorem grown_together (v : Vocabulary) (turns : List (ι × Addition)) (k : ι) :
    ((together v turns).2 k).Grown (together v turns).1 := by
  have hrun : ∀ {s : Vocabulary × (ι → Tree)}, (∀ k, (s.2 k).Grown s.1) →
      ∀ k, ((turns.foldl takeTurn s).2 k).Grown (turns.foldl takeTurn s).1 := by
    induction turns with
    | nil => exact fun h => h
    | cons turn turns ih => exact fun h => ih (grown_takeTurn h turn)
  exact hrun (fun _ => .empty v) k

theorem outline_foldl_takeTurn (k : ι) (turns : List (ι × Addition)) :
    ∀ (s : Vocabulary × (ι → Tree)) (s' : Vocabulary × Tree), (s.2 k).outline = s'.2.outline →
      ((turns.foldl takeTurn s).2 k).outline =
        (attemptAll s' (turnsOf k turns)).2.outline := by
  induction turns with
  | nil => exact fun _ _ h => h
  | cons turn turns ih =>
    obtain ⟨j, a⟩ := turn
    intro s s' h
    by_cases hk : k = j
    · subst hk
      have hturns : turnsOf k ((k, a) :: turns) = a :: turnsOf k turns := by simp [turnsOf]
      rw [hturns]
      refine ih _ (attempt s' a) ?_
      rw [takeTurn_self]
      exact attempt_congr s.1 s'.1 h a
    · have hturns : turnsOf k ((j, a) :: turns) = turnsOf k turns := by
        rw [turnsOf, List.filter_cons_of_neg fun heq => hk (decide_eq_true_eq.mp heq).symm]
        rfl
      rw [hturns]
      refine ih _ s' ?_
      rw [takeTurn_of_ne s hk]
      exact h

/-- **Trees that grow together** have the outlines that they have apart. -/
theorem outline_together (v w : Vocabulary) (turns : List (ι × Addition)) (k : ι) :
    ((together v turns).2 k).outline = (ofAdditions w (turnsOf k turns)).outline :=
  outline_foldl_takeTurn k turns (v, fun _ => .empty) (w, .empty) rfl

end Tree

end ChangeQuery
