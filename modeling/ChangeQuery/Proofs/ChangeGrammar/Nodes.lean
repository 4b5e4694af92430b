import ChangeQuery.Parser
import ChangeQuery.Proofs.Change.Split
import ChangeQuery.Proofs.ChangeGrammar.Sides

/-!
## The nodes of parsed changes

What is known of the trees of labels that the grammar leaves holds of the syntax trees made from
them.  Every text that follows the grammar is a change, and both ways to split it find its sides.

* `OfSide`: the nodes at and below a node are those of a side.
* `exists_splits_of_read?`: the tree of a text that follows the grammar splits into two sides.
* `exists_splits_of_change`: so does every parsed change.
-/

namespace ChangeQuery

open ChangeGrammar (IsSide IsSideNode AreBreaks singleNames bareNames)

/-- All nodes at and below a node are nodes of a side. -/
def OfSide (n : Node) : Prop :=
  ∀ m ∈ n.labels.preorder, IsSideNode m

namespace OfSide

variable {n c : Node}

theorem self (h : OfSide n) : IsSideNode n.labels :=
  h _ (Rose.mem_preorder_self _)

theorem child (h : OfSide n) (hc : c ∈ n.children) : OfSide c := by
  intro m hm
  refine h m (Rose.mem_preorder_child ?_ hm)
  rw [Node.children_labels]
  exact List.mem_map_of_mem hc

/-- A token has nothing below it. -/
theorem labels_of_token (h : OfSide n) {t : String} (ht : n.labels.value = .token t) :
    n.labels = .leaf (.token t) := by
  have hself := h.self
  rw [← n.labels.node_value_children, ht] at hself ⊢
  rw [hself.token.1]
  rfl

theorem labels_of_isToken (h : OfSide n) (htoken : n.isToken = true) :
    n.labels = .leaf (.token n.label) := by
  refine h.labels_of_token ?_
  rw [Node.labels_of_isToken htoken, Rose.value_node]

/-- A node that is labelled like an operator has one token. -/
theorem length_texts_of_operator (h : OfSide n)
    (hlabel : n.label = "binary_operators" ∨ n.label = "assign_operators") :
    n.labels.texts.length = 1 := by
  have hself := h.self
  rw [← n.labels.node_value_children] at hself
  cases hvalue : n.labels.value with
  | token t =>
    rw [h.labels_of_token hvalue, Rose.texts_leaf]
    rfl
  | construct name =>
    rw [hvalue] at hself
    have hname : name = n.label := by
      rw [Node.label_of_labels (n.labels.node_value_children.symm.trans (by rw [hvalue]))]
      rfl
    obtain ⟨t, ht⟩ := hself.single (by rw [hname]; rcases hlabel with h | h <;> rw [h] <;> decide)
    rw [← n.labels.node_value_children, hvalue, ht, Rose.texts_construct, List.flatMap_singleton,
      Rose.texts_leaf]
    rfl

/-- A node that is labelled like an expression has a token. -/
theorem length_texts_of_expression (h : OfSide n) (hlabel : n.label = "expression") :
    1 ≤ n.labels.texts.length := by
  have hself := h.self
  rw [← n.labels.node_value_children] at hself
  cases hvalue : n.labels.value with
  | token t =>
    rw [h.labels_of_token hvalue, Rose.texts_leaf]
    exact Nat.le_refl 1
  | construct name =>
    rw [hvalue] at hself
    have hname : name = n.label := by
      rw [Node.label_of_labels (n.labels.node_value_children.symm.trans (by rw [hvalue]))]
      rfl
    have hne := hself.texts_ne_nil (by rw [hname, hlabel]; decide)
    rw [← n.labels.node_value_children, hvalue, Rose.texts_construct]
    exact List.length_pos_iff.mpr hne

/-- The tokens of a side are neither layout nor arrows. -/
theorem of_mem_texts (h : OfSide n) {t : String} (ht : t ∈ n.labels.texts) :
    isLayout t = false ∧ t ≠ "->" := by
  obtain ⟨⟨_, cs⟩, hm, rfl⟩ := Rose.mem_texts_iff.mp ht
  obtain ⟨-, harrow, c, hc, hblank⟩ := (h _ hm).token
  refine ⟨?_, harrow⟩
  cases hchars : t.toList with
  | nil =>
    rw [hchars] at hc
    cases hc
  | cons d rest =>
    rw [hchars] at hc
    obtain rfl := Option.some.inj hc
    rw [isLayout, hchars, List.all_cons, hblank, Bool.false_and]

/-- Every text of a side is that of a token below the root. -/
theorem exists_mem_tokens {root : Node} (h : OfSide n) (hn : n ∈ root.children) {t : String}
    (ht : t ∈ n.labels.texts) : ∃ m ∈ root.tokens, Node.labels m = .leaf (.token t) := by
  obtain ⟨_, hm, hvalue⟩ := Rose.mem_texts_iff.mp ht
  have hself := h _ hm
  rw [Node.labels, Rose.preorder_map] at hm
  obtain ⟨m, hmem, rfl⟩ := List.mem_map.mp hm
  have hlabels : Node.labels m = .leaf (.token t) := by
    show Rose.map _ m = _
    rw [← Rose.node_value_children (Rose.map _ m), hvalue] at hself ⊢
    rw [hself.token.1]
    rfl
  refine ⟨m, List.mem_filter.mpr ⟨Rose.mem_preorder_child hn hmem, ?_⟩, hlabels⟩
  rw [Node.isToken_of_labels hlabels]
  rfl

end OfSide

theorem ofSide_of_isSide {n : Node} (h : IsSide n.labels) : OfSide n := h.2

/-! ### Parsing -/

namespace Parser

variable {v w : Vocabulary} {source delimiter : String} {change : Change}

/-- A text is a change if it has a tree and the tree splits. -/
theorem change_eq_ok_iff {p : Parser} : p.change v source delimiter = .ok (w, change) ↔
    ∃ tree, p.tree v source = .ok (w, tree) ∧ Change.ofTree tree delimiter = .ok change := by
  unfold Parser.change
  cases p.tree v source with
  | error cause => exact ⟨nofun, nofun⟩
  | ok parsed =>
    obtain ⟨u, tree⟩ := parsed
    dsimp only
    cases hof : Change.ofTree tree delimiter with
    | error cause =>
      refine ⟨nofun, ?_⟩
      rintro ⟨tree', htree, hof'⟩
      obtain ⟨rfl, rfl⟩ := Prod.mk.inj (Except.ok.inj htree)
      rw [hof] at hof'
      cases hof'
    | ok split =>
      constructor
      · intro h
        obtain ⟨rfl, rfl⟩ := Prod.mk.inj (Except.ok.inj h)
        exact ⟨tree, rfl, hof⟩
      · rintro ⟨tree', htree, hof'⟩
        obtain ⟨rfl, rfl⟩ := Prod.mk.inj (Except.ok.inj htree)
        rw [hof] at hof'
        obtain rfl := Except.ok.inj hof'
        rfl

/-- What a check accepts is a change. -/
theorem exists_change_of_any {p : Parser} {check : Vocabulary × Change → Bool}
    (h : (p.change v source delimiter).toOption.any check = true) :
    ∃ w change, p.change v source delimiter = .ok (w, change) ∧ check (w, change) = true := by
  cases hchange : p.change v source delimiter with
  | error cause =>
    rw [hchange] at h
    cases h
  | ok parsed =>
    rw [hchange] at h
    exact ⟨parsed.1, parsed.2, rfl, h⟩

/-- A tree comes from labels that follow the grammar. -/
theorem exists_read?_of_tree {tree : Tree} (h : java.tree v source = .ok (w, tree)) :
    ∃ labels, ChangeGrammar.read? source = some labels ∧ Tree.ofLabels v labels = (w, tree) := by
  unfold Parser.tree java at h
  dsimp only at h
  cases hread : ChangeGrammar.read? source with
  | none =>
    rw [hread] at h
    cases h
  | some labels =>
    rw [hread] at h
    exact ⟨labels, rfl, Except.ok.inj h⟩

end Parser

/-! ### Whole changes -/

theorem isLayout_of_areBreaks {nodes : List Node} (h : AreBreaks (nodes.map Node.labels)) :
    ∀ n ∈ nodes, Node.IsLayout n :=
  fun _ hn => ⟨"\n", h _ (List.mem_map_of_mem hn), by decide⟩

/-- **Every text that follows the grammar** is a change with two sides. -/
theorem exists_splits_of_read? {source : String} {labels : Rose Label} {v w : Vocabulary}
    {tree : Tree} (hread : ChangeGrammar.read? source = some labels)
    (htree : Tree.ofLabels v labels = (w, tree)) :
    ∃ root old new, tree.root? = some root ∧ root.label = "change" ∧ Splits "->" root old new ∧
      IsSide old.labels ∧ IsSide new.labels ∧ old.Over w ∧ new.Over w := by
  obtain ⟨root, hroot, hrootLabels, hover⟩ := Tree.labels_ofLabels htree
  obtain ⟨l₁, l₂, l₃, l₄, oldLabels, newLabels, hlabels, h₁, h₂, h₃, h₄, hold, hnew⟩ :=
    ChangeGrammar.exists_sides hread
  rw [← hrootLabels, Node.labels_eq_node] at hlabels
  obtain ⟨hlabel, hchildren⟩ := Rose.node.inj hlabels
  -- The children of the root are taken apart like their labels.
  obtain ⟨n₁, r₁, hrest₁, rfl, hr₁⟩ := List.map_eq_append_iff.mp hchildren
  obtain ⟨old, r₂, rfl, rfl, hr₂⟩ := List.map_eq_cons_iff.mp hr₁
  obtain ⟨n₂, r₃, rfl, rfl, hr₃⟩ := List.map_eq_append_iff.mp hr₂
  obtain ⟨arrow, r₄, rfl, harrow, hr₄⟩ := List.map_eq_cons_iff.mp hr₃
  obtain ⟨n₃, r₅, rfl, rfl, hr₅⟩ := List.map_eq_append_iff.mp hr₄
  obtain ⟨new, n₄, rfl, rfl, rfl⟩ := List.map_eq_cons_iff.mp hr₅
  have holdMem : old ∈ root.children := by simp [hrest₁]
  have hnewMem : new ∈ root.children := by simp [hrest₁]
  have hrootLabel : root.label = "change" := by
    rw [Node.label, hlabel]
    rfl
  refine ⟨root, old, new, hroot, hrootLabel, ?_, hold, hnew, hover.child holdMem,
    hover.child hnewMem⟩
  exact
    { isToken_root := by
        rw [Node.isToken_of_labels (root.labels_eq_node.trans (by rw [hlabel]))]
        rfl
      exists_children := ⟨n₁, n₂, n₃, n₄, arrow, hrest₁, ⟨isLayout_of_areBreaks h₁,
        isLayout_of_areBreaks h₂, isLayout_of_areBreaks h₃, isLayout_of_areBreaks h₄⟩, harrow⟩
      isLayout_delimiter := by decide
      old_texts := fun t ht => (ofSide_of_isSide hold).of_mem_texts ht
      new_texts := fun t ht => ((ofSide_of_isSide hnew).of_mem_texts ht).1 }

/-- **Every parsed change** splits into its two sides. -/
theorem exists_splits_of_change {source : String} {v w : Vocabulary} {change : Change}
    (h : Parser.java.change v source "->" = .ok (w, change)) :
    ∃ root old new, change.tree.root? = some root ∧ root.label = "change" ∧
      change.old = ⟨old, some root⟩ ∧ change.new = ⟨new, some root⟩ ∧
      Splits "->" root old new ∧ IsSide old.labels ∧ IsSide new.labels ∧
      old.Over w ∧ new.Over w := by
  obtain ⟨tree, htree, hchange⟩ := Parser.change_eq_ok_iff.mp h
  obtain ⟨labels, hread, hlabels⟩ := Parser.exists_read?_of_tree htree
  obtain ⟨root, old, new, hroot, hlabel, hsplits, hold, hnew, hoverOld, hoverNew⟩ :=
    exists_splits_of_read? hread hlabels
  rw [hsplits.change hroot] at hchange
  obtain rfl := Except.ok.inj hchange
  exact ⟨root, old, new, hroot, hlabel, rfl, rfl, hsplits, hold, hnew, hoverOld, hoverNew⟩

end ChangeQuery
