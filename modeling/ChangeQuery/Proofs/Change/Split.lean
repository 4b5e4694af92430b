import ChangeQuery.Change
import ChangeQuery.Proofs.Tree.Labels
import Mathlib.Data.List.TakeDrop

/-!
## Splitting a change in two ways

A change is split along its tree and, without regard to the tree, along its list of tokens.  If the
root has an old side, a delimiter and a new side below it, with layout around them, and the sides
themselves hold neither layout nor delimiters, then both splits find the same two sides.

* `Splits.change`: the sides in the tree.
* `Splits.sides`: the tokens of the sides.
-/

namespace ChangeQuery

/-- The text only carries layout. -/
def isLayout (text : String) : Bool :=
  text.toList.all Text.isBlank

namespace Node

theorem isToken_of_mem_tokens {n m : Node} (h : m ∈ n.tokens) : isToken m = true :=
  (List.mem_filter.mp h).2

/-- A node only carries layout if it is a token that does. -/
theorem isFormatting_of_labels {n : Node} {t : String} {cs : List (Rose Label)}
    (h : n.labels = .node (.token t) cs) : n.isFormatting = isLayout t := by
  rw [isFormatting, isToken_of_labels h, label_of_labels h]
  rfl

/-- A node whose tokens are more than layout is more than layout. -/
theorem isFormatting_eq_false {n : Node} (h : ∀ t ∈ n.labels.texts, isLayout t = false) :
    n.isFormatting = false := by
  rw [labels_eq_node] at h
  cases hlabel : n.category.label with
  | construct name =>
    rw [isFormatting, isToken_of_labels (n.labels_eq_node.trans (by rw [hlabel]))]
    rfl
  | token t =>
    rw [isFormatting_of_labels (n.labels_eq_node.trans (by rw [hlabel]))]
    rw [hlabel, Rose.texts_token] at h
    exact h t List.mem_cons_self

/-- The tokens that are not layout have the texts that are not layout. -/
theorem map_label_significant (n : Node) :
    (n.tokens.filter fun token => !isFormatting token).map label =
      n.labels.texts.filter fun text => !isLayout text := by
  rw [← map_label_tokens, List.filter_map]
  refine congrArg (List.map label) (List.filter_congr fun m hm => ?_)
  rw [isFormatting, isToken_of_mem_tokens hm, Bool.true_and]
  rfl

/-- The node is a token that only carries layout, with nothing below it. -/
def IsLayout (n : Node) : Prop :=
  ∃ t, n.labels = .leaf (.token t) ∧ isLayout t = true

theorem filter_sites_of_isLayout {nodes : List Node} (h : ∀ n ∈ nodes, IsLayout n)
    (parent? : Option Node) : (nodes.map fun child => Site.mk child parent?).filter
      (fun site => !site.node.isFormatting) = [] := by
  rw [List.filter_eq_nil_iff]
  intro site hsite
  obtain ⟨n, hn, rfl⟩ := List.mem_map.mp hsite
  obtain ⟨t, hlabels, ht⟩ := h n hn
  rw [isFormatting_of_labels hlabels, ht]
  exact Bool.false_ne_true

theorem filter_texts_of_isLayout {nodes : List Node} (h : ∀ n ∈ nodes, IsLayout n) :
    ((nodes.map labels).flatMap Rose.texts).filter (fun text => !isLayout text) = [] := by
  rw [List.filter_eq_nil_iff]
  intro text htext
  obtain ⟨_, hmap, htext⟩ := List.mem_flatMap.mp htext
  obtain ⟨n, hn, rfl⟩ := List.mem_map.mp hmap
  obtain ⟨t, hlabels, ht⟩ := h n hn
  rw [hlabels, Rose.texts_leaf] at htext
  obtain rfl := List.mem_singleton.mp htext
  rw [ht]
  exact Bool.false_ne_true

end Node

/-- A root with two sides: `old`, a delimiter and `new`, with layout around them. -/
structure Splits (delimiter : String) (root old new : Node) : Prop where
  isToken_root : root.isToken = false
  exists_children : ∃ l₁ l₂ l₃ l₄ arrow,
    root.children = l₁ ++ old :: (l₂ ++ arrow :: (l₃ ++ new :: l₄)) ∧
      ((∀ n ∈ l₁, Node.IsLayout n) ∧ (∀ n ∈ l₂, Node.IsLayout n) ∧
        (∀ n ∈ l₃, Node.IsLayout n) ∧ ∀ n ∈ l₄, Node.IsLayout n) ∧
      Node.labels arrow = .leaf (.token delimiter)
  isLayout_delimiter : isLayout delimiter = false
  old_texts : ∀ t ∈ old.labels.texts, isLayout t = false ∧ t ≠ delimiter
  new_texts : ∀ t ∈ new.labels.texts, isLayout t = false

namespace Splits

variable {delimiter : String} {root old new : Node} {tree : Tree}

theorem old_mem_children (h : Splits delimiter root old new) : old ∈ root.children := by
  obtain ⟨l₁, l₂, l₃, l₄, arrow, hchildren, -⟩ := h.exists_children
  simp [hchildren]

theorem new_mem_children (h : Splits delimiter root old new) : new ∈ root.children := by
  obtain ⟨l₁, l₂, l₃, l₄, arrow, hchildren, -⟩ := h.exists_children
  simp [hchildren]

/-- A node is the root, stands between the sides, or stands in one of them. -/
theorem mem_preorder_cases (h : Splits delimiter root old new) {n : Node}
    (hn : n ∈ root.preorder) :
    n = root ∨ n.IsLayout ∨ n.labels = .leaf (.token delimiter) ∨ n ∈ old.preorder ∨
      n ∈ new.preorder := by
  obtain ⟨l₁, l₂, l₃, l₄, arrow, hchildren, ⟨h₁, h₂, h₃, h₄⟩, harrow⟩ := h.exists_children
  -- There is nothing below a token.
  have heq : ∀ {c : Node} {t : String}, c.labels = .leaf (.token t) → n ∈ c.preorder → n = c := by
    intro c t hc hmem
    have hnil := Node.children_eq_nil hc
    rw [← c.node_value_children, Rose.preorder_node, hnil, List.flatMap_nil,
      List.mem_singleton] at hmem
    rw [hmem, ← hnil, c.node_value_children]
  have hlayout : ∀ {l : List Node}, (∀ c ∈ l, Node.IsLayout c) → n ∈ l.flatMap Rose.preorder →
      n.IsLayout := by
    intro l hl hmem
    obtain ⟨c, hc, hmem⟩ := List.mem_flatMap.mp hmem
    obtain ⟨t, ht, -⟩ := hl c hc
    rw [heq ht hmem]
    exact hl c hc
  rw [← root.node_value_children, Rose.preorder_node, root.node_value_children, hchildren,
    List.mem_cons] at hn
  simp only [List.flatMap_append, List.flatMap_cons, List.mem_append] at hn
  rcases hn with rfl | hn | hn | hn | hn | hn | hn | hn
  · exact .inl rfl
  · exact .inr (.inl (hlayout h₁ hn))
  · exact .inr (.inr (.inr (.inl hn)))
  · exact .inr (.inl (hlayout h₂ hn))
  · exact .inr (.inr (.inl (heq harrow hn ▸ harrow)))
  · exact .inr (.inl (hlayout h₃ hn))
  · exact .inr (.inr (.inr (.inr hn)))
  · exact .inr (.inl (hlayout h₄ hn))

/-- **The sides in the tree** are the old side and the new side. -/
theorem change (h : Splits delimiter root old new) (hroot : tree.root? = some root) :
    Change.ofTree tree delimiter = .ok ⟨tree, ⟨old, some root⟩, ⟨new, some root⟩⟩ := by
  obtain ⟨l₁, l₂, l₃, l₄, arrow, hchildren, ⟨h₁, h₂, h₃, h₄⟩, harrow⟩ := h.exists_children
  have harrow' : arrow.isFormatting = false :=
    (Node.isFormatting_of_labels harrow).trans h.isLayout_delimiter
  have hold : old.isFormatting = false :=
    Node.isFormatting_eq_false fun t ht => (h.old_texts t ht).1
  have hnew : new.isFormatting = false := Node.isFormatting_eq_false h.new_texts
  -- Without layout, three children are left.
  have hsides : (Site.mk root none).children.filter (fun site => !site.node.isFormatting) =
      [⟨old, some root⟩, ⟨arrow, some root⟩, ⟨new, some root⟩] := by
    rw [Site.children, hchildren]
    simp only [List.map_append, List.map_cons, List.filter_append]
    rw [Node.filter_sites_of_isLayout h₁, List.filter_cons_of_pos (by rw [hold]; rfl),
      List.filter_append, Node.filter_sites_of_isLayout h₂,
      List.filter_cons_of_pos (by rw [harrow']; rfl), List.filter_append,
      Node.filter_sites_of_isLayout h₃, List.filter_cons_of_pos (by rw [hnew]; rfl),
      Node.filter_sites_of_isLayout h₄]
    rfl
  -- The old side is not taken for the delimiter, even if it is a token.
  have hdelimiter : (old.isToken && old.label == delimiter) = false := by
    cases hlabel : old.category.label with
    | construct name =>
      rw [Node.isToken_of_labels (old.labels_eq_node.trans (by rw [hlabel]))]
      rfl
    | token t =>
      have hlabels := old.labels_eq_node
      rw [hlabel] at hlabels
      have hne : t ≠ delimiter := by
        refine (h.old_texts t ?_).2
        rw [hlabels, Rose.texts_token]
        exact List.mem_cons_self
      rw [Node.label_of_labels hlabels, Label.text, beq_eq_false_iff_ne.mpr hne, Bool.and_false]
  have hfound : (arrow.isToken && arrow.label == delimiter) = true := by
    rw [Node.isToken_of_labels harrow, Node.label_of_labels harrow]
    exact beq_self_eq_true delimiter
  rw [Change.ofTree, hroot]
  dsimp only
  rw [hsides]
  simp only [List.span, List.span.loop, hdelimiter, hfound, Bool.not_false, Bool.not_true,
    List.reverse_cons, List.reverse_nil, List.nil_append, List.getLast?_singleton, List.head?_cons]

/-- The texts of the root that are not layout are those of the sides, with the delimiter between
them. -/
theorem significantTexts (h : Splits delimiter root old new) (hroot : tree.root? = some root) :
    TokenSides.significantTexts tree = old.labels.texts ++ delimiter :: new.labels.texts := by
  obtain ⟨l₁, l₂, l₃, l₄, arrow, hchildren, ⟨h₁, h₂, h₃, h₄⟩, harrow⟩ := h.exists_children
  have hold : old.labels.texts.filter (fun text => !isLayout text) = old.labels.texts :=
    List.filter_eq_self.mpr fun t ht => by rw [(h.old_texts t ht).1]; rfl
  have hnew : new.labels.texts.filter (fun text => !isLayout text) = new.labels.texts :=
    List.filter_eq_self.mpr fun t ht => by rw [h.new_texts t ht]; rfl
  -- The root is a construct, so its tokens are those of its children.
  have htexts : root.labels.texts = (root.children.map Node.labels).flatMap Rose.texts := by
    rw [root.labels_eq_node]
    cases hlabel : root.category.label with
    | construct name => exact Rose.texts_construct _ _
    | token t =>
      have htoken := h.isToken_root
      rw [Node.isToken_of_labels (root.labels_eq_node.trans (by rw [hlabel]))] at htoken
      cases htoken
  rw [TokenSides.significantTexts, hroot]
  show (root.tokens.filter fun token => !Node.isFormatting token).map Node.label = _
  rw [Node.map_label_significant, htexts, hchildren]
  simp only [List.map_append, List.map_cons, List.flatMap_append, List.flatMap_cons,
    List.filter_append, Node.filter_texts_of_isLayout h₁, Node.filter_texts_of_isLayout h₂,
    Node.filter_texts_of_isLayout h₃, Node.filter_texts_of_isLayout h₄, hold, hnew, harrow,
    List.nil_append, List.append_nil]
  rw [Rose.texts_leaf, List.filter_cons_of_pos (by rw [h.isLayout_delimiter]; rfl)]
  rfl

/-- **The tokens of the sides** are those of the old side and of the new side. -/
theorem sides (h : Splits delimiter root old new) (hroot : tree.root? = some root) :
    TokenSides.ofTree tree delimiter = ⟨old.labels.texts, new.labels.texts⟩ := by
  have hspan : (old.labels.texts ++ delimiter :: new.labels.texts).span
      (fun text => text != delimiter) = (old.labels.texts, delimiter :: new.labels.texts) := by
    have hold : ∀ t ∈ old.labels.texts, (t != delimiter) = true :=
      fun t ht => bne_iff_ne.mpr (h.old_texts t ht).2
    have hstop : (delimiter != delimiter) = false := bne_self_eq_false delimiter
    rw [List.span_eq_takeWhile_dropWhile, List.takeWhile_append_of_pos hold,
      List.dropWhile_append_of_pos hold,
      List.takeWhile_cons_of_neg (by rw [hstop]; exact Bool.false_ne_true),
      List.dropWhile_cons_of_neg (by rw [hstop]; exact Bool.false_ne_true), List.append_nil]
  rw [TokenSides.ofTree, h.significantTexts hroot, TokenSides.ofTexts, hspan]
  rfl

end Splits

end ChangeQuery
