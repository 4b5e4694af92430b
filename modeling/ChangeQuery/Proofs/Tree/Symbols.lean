import ChangeQuery.Proofs.Tree.Planting
import ChangeQuery.Proofs.Tree.Sites

/-!
## Symbols of a tree

The constructs of a tree are symbols of the vocabulary that it grew over, and they remain symbols of
it while the vocabulary grows further (`Tree.Grown.over`).  Between two vocabularies, or one
vocabulary at two times, symbols agree exactly when their names do.  So whether two nodes agree can be
read off their labels.

* `Category.same_eq`: two categories agree exactly when their labels do.
-/

namespace ChangeQuery

/-- Constructs agree when their names do; all tokens agree. -/
def Label.same : Label → Label → Bool
  | .construct a, .construct b => a == b
  | .token _, .token _ => true
  | _, _ => false

/-! ### Names and positions -/

namespace Vocabulary

theorem GrowsTo.lists {v w : Vocabulary} (h : v.GrowsTo w) {c : Category} (hc : v.Lists c) :
    w.Lists c := by
  cases c with
  | token text => trivial
  | construct symbol =>
    obtain ⟨hname, hsymbol⟩ := hc
    have hcategory : w.category (.construct symbol.name) = v.category (.construct symbol.name) := by
      refine h.category_eq fun name heq => ?_
      obtain rfl := Option.some.inj heq
      exact hname
    have hsame : w.symbol symbol.name = v.symbol symbol.name := Category.construct.inj hcategory
    exact ⟨h.2.subset hname, hsymbol.trans hsame.symm⟩

/-- A name that is listed at two times has the same position at both. -/
theorem Compatible.idxOf_eq {v w : Vocabulary} (h : v.Compatible w) (howner : v.owner = w.owner)
    {name : String} (hv : name ∈ v.names) (hw : name ∈ w.names) :
    v.names.idxOf name = w.names.idxOf name := by
  rcases h howner with ⟨added, hadded⟩ | ⟨added, hadded⟩
  · rw [← hadded, idxOf_append hv]
  · rw [← hadded, idxOf_append hw]

/-- **Listed symbols agree** exactly when their names are equal. -/
theorem Compatible.same_symbol_eq {v w : Vocabulary} (h : v.Compatible w) {a b : String}
    (ha : a ∈ v.names) (hb : b ∈ w.names) : (v.symbol a).same (w.symbol b) = (a == b) := by
  rw [Bool.eq_iff_iff, beq_iff_eq]
  constructor
  · exact eq_of_same_symbol h ha hb
  · rintro rfl
    unfold Symbol.same symbol
    split_ifs with howner
    · exact beq_iff_eq.mpr (h.idxOf_eq howner ha hb)
    · exact beq_self_eq_true a

end Vocabulary

/-- **Categories agree** exactly when their labels do. -/
theorem Category.same_eq {v w : Vocabulary} (h : v.Compatible w) {a b : Category}
    (ha : v.Lists a) (hb : w.Lists b) : a.same b = a.label.same b.label := by
  cases a with
  | token text => cases b <;> rfl
  | construct s =>
    cases b with
    | token text => rfl
    | construct t =>
      obtain ⟨hs, hs'⟩ := ha
      obtain ⟨ht, ht'⟩ := hb
      rw [Category.same, hs', ht']
      exact h.same_symbol_eq hs ht

/-! ### Grown trees -/

namespace Node

theorem over_node_iff {v : Vocabulary} {entry : Entry} {cs : List Node} :
    Over v (.node entry cs) ↔ v.Lists entry.category ∧ ∀ c ∈ cs, Over v c := by
  simp only [Over, Rose.preorder_node, List.forall_mem_cons, List.mem_flatMap,
    forall_exists_index, and_imp]
  exact and_congr_right fun _ => ⟨fun h c hc m hm => h m c hc hm, fun h m c hc hm => h c hc m hm⟩

/-- **Nodes that agree** are constructs of the same name, or both tokens. -/
theorem sameCategory_eq {v w : Vocabulary} (h : v.Compatible w) {a b : Node} (ha : a.Over v)
    (hb : b.Over w) : a.sameCategory b = a.category.label.same b.category.label :=
  Category.same_eq h ha.self hb.self

theorem Over.growsTo {v w : Vocabulary} {n : Node} (h : n.Over v) (hgrows : v.GrowsTo w) :
    n.Over w :=
  fun m hm => hgrows.lists (h m hm)

theorem Over.graft {v : Vocabulary} {parent : ℕ} {new n : Node} (hnew : new.Over v)
    (h : n.Over v) : (graft parent new n).Over v := by
  induction n using Rose.induct with
  | node entry cs ih =>
    obtain ⟨hentry, hcs⟩ := over_node_iff.mp h
    have hgrafted : ∀ c ∈ cs.map (Node.graft parent new), Over v c := by
      intro c hc
      obtain ⟨c, hmem, rfl⟩ := List.mem_map.mp hc
      exact ih c hmem (hcs c hmem)
    rw [graft_node, over_node_iff]
    refine ⟨hentry, fun c hc => ?_⟩
    split_ifs at hc
    · rcases List.mem_append.mp hc with hc | hc
      · exact hgrafted c hc
      · obtain rfl := List.mem_singleton.mp hc
        exact hnew
    · exact hgrafted c hc

end Node

namespace Tree

/-- The constructs of a tree are listed. -/
def Over (v : Vocabulary) (t : Tree) : Prop :=
  ∀ root ∈ t.root?, Node.Over v root

theorem Over.of_mem_sites {v : Vocabulary} {t : Tree} (h : t.Over v) {s : Site}
    (hs : s ∈ t.sites) : s.node.Over v := by
  obtain ⟨root, hroot, hmem⟩ := exists_root_of_mem_sites hs
  intro m hm
  exact h root hroot m (Rose.mem_preorder_trans hmem hm)

theorem Over.add {v : Vocabulary} {t t' : Tree} {category : Category} {parent? : Option ℕ}
    (h : t.Over v) (hcategory : v.Lists category) (hadd : t.add category parent? = .ok t') :
    t'.Over v := by
  have hnew : Node.Over v (.leaf ⟨t.size, category⟩) :=
    Node.over_node_iff.mpr ⟨hcategory, fun c hc => absurd hc List.not_mem_nil⟩
  obtain ⟨root?, size⟩ := t
  cases parent? with
  | none =>
    cases root? with
    | none =>
      obtain rfl := Except.ok.inj hadd
      rintro root ⟨⟩
      exact hnew
    | some root => cases hadd
  | some parent =>
    simp only [Tree.add] at hadd
    split_ifs at hadd with hparent
    obtain rfl := Except.ok.inj hadd
    intro root hroot
    obtain ⟨root, hroot', rfl⟩ := Option.map_eq_some_iff.mp hroot
    exact hnew.graft (h root hroot')

/-- **The constructs of a grown tree** are symbols of its vocabulary. -/
theorem Grown.over {v : Vocabulary} {t : Tree} (h : t.Grown v) : t.Over v := by
  have hinsert : ∀ (v : Vocabulary) (name : String), v.GrowsTo (v.insert name) :=
    fun v name => v.growsTo_insertMany [name]
  induction h with
  | empty => exact fun _ hroot => nomatch hroot
  | @insert v _ name _ ih => exact fun root hroot => (ih root hroot).growsTo (hinsert v name)
  | @token v _ _ text _ _ hadd ih =>
    have htoken : v.Lists (.token text) := trivial
    exact ih.add htoken hadd
  | @construct v _ _ _ name _ _ hadd ih =>
    obtain ⟨rfl, hok⟩ := Prod.mk.inj hadd
    have hgrown : Over (v.insert name) _ :=
      fun root hroot => (ih root hroot).growsTo (hinsert v name)
    have hconstruct : (v.insert name).Lists (.construct ((v.insert name).symbol name)) :=
      ⟨v.mem_insert_self name, rfl⟩
    exact hgrown.add hconstruct hok

end Tree

end ChangeQuery
