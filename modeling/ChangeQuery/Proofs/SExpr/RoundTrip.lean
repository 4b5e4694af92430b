import ChangeQuery.Proofs.SExpr.Reading
import ChangeQuery.Proofs.Tree.Outline
import ChangeQuery.Proofs.Tree.Planting
import ChangeQuery.Parser

/-!
## Trees written and read back

A tree that is written as an s-expression and read back has the same labels in the same places, and
its nodes have the numbers of their positions in pre-order.

The numbers are not written.  A tree whose numbers are the positions in pre-order, as in every tree
that a parser makes, loses nothing: its outline is determined by the labels alone
(`Tree.outline?_eq`).  In a tree that was put together in another order the
numbers change.

* `Rose.number_eq_self`: a tree of pairs with the numbers of a numbering is this numbering.
* `Tree.ReadsBack`: what a tree has in common with what is read from its written form.
* `Tree.toSExpr_roundTrip`: a grown tree with nothing below its tokens is read back over every
  vocabulary, and only trees with the same labels are written alike.
-/

namespace ChangeQuery

/-! ### Numbers and labels -/

namespace Rose

variable {α β : Type}

theorem size_map (f : α → β) (t : Rose α) : (t.map f).size = t.size := by
  rw [← length_preorder, preorder_map, List.length_map, length_preorder]

/-- **A numbering** is known from its numbers. -/
theorem number_eq_self (t : Rose (ℕ × α)) : ∀ {start : ℕ},
    t.values.map Prod.fst = List.range' start t.size → (t.map Prod.snd).number start = t := by
  induction t using induct with
  | node v cs ih =>
    intro start h
    -- The numbers of the children start one later and follow each other.
    have hcs : ∀ {start : ℕ}, (cs.flatMap values).map Prod.fst = List.range' start (sizeAll cs) →
        numberAll start (cs.map (map Prod.snd)) = cs := by
      clear h
      induction cs with
      | nil => exact fun _ => rfl
      | cons c cs ihcs =>
        intro start h
        have hlength : (c.values.map Prod.fst).length = (List.range' start c.size).length := by
          rw [List.length_map, values, List.length_map, length_preorder, List.length_range']
        rw [List.flatMap_cons, List.map_append, sizeAll, ← List.range'_append_1] at h
        obtain ⟨hfirst, hrest⟩ := List.append_inj h hlength
        rw [List.map_cons, numberAll, size_map, ih c List.mem_cons_self hfirst,
          ihcs (fun c' hc' => ih c' (List.mem_cons_of_mem c hc')) hrest]
    rw [values_node, List.map_cons, size, Nat.add_comm, List.range'_succ] at h
    obtain ⟨hstart, hrest⟩ := List.cons.inj h
    rw [map_node, number, hcs hrest, ← hstart]

end Rose

namespace Node

theorem map_fst_values_outline (n : Node) : n.outline.values.map Prod.fst = n.ids := by
  rw [outline, Rose.values_map, Rose.values, List.map_map, List.map_map]
  rfl

theorem size_labels (n : Node) : n.labels.size = n.size :=
  Rose.size_map _ n

end Node

namespace Tree

/-- The labels of the root and of what is below it. -/
def labels? (t : Tree) : Option (Rose Label) :=
  t.root?.map Node.labels

/-- **With numbers in pre-order** the outline is known from the labels. -/
theorem outline?_eq {t : Tree} (h : t.InPreorder) : t.outline? = t.labels?.map (Rose.number 0) := by
  obtain ⟨root?, size⟩ := t
  cases root? with
  | none => rfl
  | some root =>
    have hids : Node.ids root = List.range size := h
    have hsize : root.size = size := by
      rw [← Node.length_ids, hids, List.length_range]
    have houtline : (root.outline.map Prod.snd).number 0 = root.outline := by
      refine root.outline.number_eq_self ?_
      rw [Node.map_fst_values_outline, hids, List.range_eq_range', Node.outline, Rose.size_map,
        hsize]
    rw [Node.map_snd_outline] at houtline
    exact congrArg some houtline.symm

/-! ### Reading back -/

theorem TokensBare.labels {t : Tree} {root : Node} (h : t.TokensBare)
    (hroot : t.root? = some root) :
    SExpr.TokensBare root.labels := by
  intro l hl htoken
  rw [Node.labels, Rose.preorder_map] at hl
  obtain ⟨n, hn, rfl⟩ := List.mem_map.mp hl
  have hbare : n.children = [] := by
    refine h root hroot n hn ?_
    rw [Node.isToken_of_labels (Node.labels_eq_node n), ← Node.value_labels]
    exact htoken
  rw [Rose.children_map, hbare]
  rfl

/-- A tree `t` and a tree `u` over `w` that was read from its written form. -/
structure ReadsBack (t : Tree) (w : Vocabulary) (u : Tree) : Prop where
  grown : u.Grown w
  /-- The same shape, with the same constructs and the same texts. -/
  labels?_eq : u.labels? = t.labels?
  size_eq : u.size = t.size
  inPreorder : u.InPreorder
  /-- The same nodes with the same numbers, if these could be read back. -/
  outline?_eq : t.InPreorder → u.outline? = t.outline?

/-- What is written was written from the root. -/
theorem labels?_of_grown {t : Tree} {v : Vocabulary} (h : t.Grown v) (hne : t.isEmpty = false)
    (hbare : t.TokensBare) :
    ∃ labels, t.labels? = some labels ∧ labels.size = t.size ∧
      SExpr.read? t.toSExpr = some labels := by
  obtain ⟨root, hroot, hsize⟩ := h.exists_root hne
  refine ⟨root.labels, ?_, ?_, ?_⟩
  · rw [labels?, hroot, Option.map_some]
  · rw [Node.size_labels, hsize]
  · rw [toSExpr, hroot]
    exact SExpr.read?_write (hbare.labels hroot)

theorem readsBack_ofLabels {t : Tree} {labels : Rose Label} (hlabels : t.labels? = some labels)
    (hsize : labels.size = t.size) (w : Vocabulary) :
    t.ReadsBack (ofLabels w labels).1 (ofLabels w labels).2 := by
  have hofLabels : ofLabels w labels = ((ofLabels w labels).1, (ofLabels w labels).2) := rfl
  obtain ⟨root, hroot, hrootLabels, -⟩ := labels_ofLabels hofLabels
  have heq : (ofLabels w labels).2.labels? = t.labels? := by
    rw [labels?, hroot, Option.map_some, hrootLabels, hlabels]
  have hpreorder := inPreorder_ofLabels w labels
  refine ⟨grown_ofLabels w labels, heq, hsize, hpreorder, fun ht => ?_⟩
  rw [Tree.outline?_eq hpreorder, Tree.outline?_eq ht, heq]

/-- **Numbers of a parser**: in every tree that a parser makes they are the positions in
pre-order. -/
theorem inPreorder_tree {p : Parser} {v w : Vocabulary} {source : String} {u : Tree}
    (h : p.tree v source = .ok (w, u)) : u.InPreorder := by
  rw [Parser.tree] at h
  cases hread : p.read source with
  | error cause =>
    rw [hread] at h
    cases h
  | ok labels? =>
    rw [hread] at h
    cases labels? with
    | none =>
      cases Except.ok.inj h
      rfl
    | some labels =>
      have htree : ofLabels v labels = (w, u) := Except.ok.inj h
      have hpreorder := inPreorder_ofLabels v labels
      rw [htree] at hpreorder
      exact hpreorder

/-- **Trees survive writing and reading**, over every vocabulary and with nodes that are numbered
in pre-order.  Two trees that are written alike have the same labels, and also the same numbers if
both are numbered in pre-order, as all trees of parsers are. -/
theorem toSExpr_roundTrip {v : Vocabulary} {t : Tree} (h : t.Grown v) (hne : t.isEmpty = false)
    (hbare : t.TokensBare) (delimiter : String) (w : Vocabulary) :
    (∃ w' u, (Parser.sexpr delimiter).tree w t.toSExpr = .ok (w', u) ∧ t.ReadsBack w' u) ∧
    (∀ v' t', Grown v' t' → t'.isEmpty = false → t'.TokensBare → t'.toSExpr = t.toSExpr →
      t'.labels? = t.labels? ∧ (t.InPreorder → t'.InPreorder → t'.outline? = t.outline?)) ∧
    (∀ p v source w u, Parser.tree p v source = .ok (w, u) → u.InPreorder) := by
  obtain ⟨labels, hlabels, hsize, hread⟩ := labels?_of_grown h hne hbare
  refine ⟨?_, ?_, fun _ _ _ _ _ => inPreorder_tree⟩
  · have htree : (Parser.sexpr delimiter).tree w t.toSExpr = .ok (ofLabels w labels) := by
      simp only [Parser.tree, Parser.sexpr, hread]
      rfl
    exact ⟨_, _, htree, readsBack_ofLabels hlabels hsize w⟩
  · intro v' t' h' hne' hbare' heq
    obtain ⟨labels', hlabels', -, hread'⟩ := labels?_of_grown h' hne' hbare'
    rw [heq, hread] at hread'
    have hsame : t'.labels? = t.labels? := by rw [hlabels', hlabels, ← hread']
    refine ⟨hsame, fun ht ht' => ?_⟩
    rw [outline?_eq ht', outline?_eq ht, hsame]

/-- Labels that need quotes. -/
def quotedLabels : Rose Label :=
  .node (.construct "call it")
    [.leaf (.token ""), .leaf (.construct ""), .leaf (.token "→ (")]

/-- A tree with these labels, and a token that was put below its second construct at the end. -/
def lateToken : Tree where
  root? := some (.node ⟨0, .construct ⟨0, 0, "call it"⟩⟩ [.leaf ⟨1, .token ""⟩,
    .node ⟨2, .construct ⟨0, 1, ""⟩⟩ [.leaf ⟨4, .token "\\\""⟩], .leaf ⟨3, .token "→ ("⟩])
  size := 5

theorem lateToken_roundTrip :
    lateToken.ids = [0, 1, 2, 4, 3] ∧
    (∃ w u, (Parser.sexpr "->").tree ⟨1, []⟩ lateToken.toSExpr = .ok (w, u) ∧
      u.labels? = lateToken.labels? ∧ u.ids = [0, 1, 2, 3, 4]) ∧
    (ofLabels ⟨1, [""]⟩ quotedLabels).2.outline? = (ofLabels ⟨0, []⟩ quotedLabels).2.outline? := by
  have hearlier := grown_ofLabels ⟨0, []⟩ quotedLabels
  have hother := grown_ofLabels ⟨1, [""]⟩ quotedLabels
  have hlate : lateToken.Grown (ofLabels ⟨0, []⟩ quotedLabels).1 := by
    have hadd : (ofLabels ⟨0, []⟩ quotedLabels).2.addToken "\\\"" (some 2) = .ok lateToken := rfl
    exact .token hearlier hadd
  have hbare : ∀ v, (ofLabels v quotedLabels).2.TokensBare := by
    rintro v _ ⟨rfl⟩
    simp [quotedLabels, Rose.number, Rose.numberAll, Rose.map, Rose.mapAll, Rose.preorder,
      Rose.preorderAll, Rose.leaf, Node.isToken, Node.category, Category.isToken,
      Vocabulary.category]
  have hbareLate : lateToken.TokensBare := by
    rintro _ ⟨rfl⟩
    decide
  obtain ⟨⟨w, u, htree, hu⟩, -, -⟩ := toSExpr_roundTrip hlate rfl hbareLate "->" ⟨1, []⟩
  obtain ⟨-, hsame, -⟩ := toSExpr_roundTrip hearlier rfl (hbare _) "->" ⟨1, []⟩
  refine ⟨rfl, ⟨w, u, htree, hu.labels?_eq, ?_⟩, ?_⟩
  · exact hu.inPreorder.trans (congrArg List.range hu.size_eq)
  · exact (hsame _ _ hother rfl (hbare _) rfl).2 (inPreorder_ofLabels _ _) (inPreorder_ofLabels _ _)

end Tree

end ChangeQuery
