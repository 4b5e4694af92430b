import ChangeQuery.Placeholder.Table
import ChangeQuery.Proofs.Change.Split
import ChangeQuery.Proofs.Tree.Sites

/-!
## Outlines

The *outline* of a node is the tree of the numbers and labels at and below it.  It holds all that can
be said about the node without looking at a vocabulary, and so does the outline of a site, which takes
in the node above.

Each lemma `_congr` below says that a question about nodes or sites is answered by their outlines, and
where the numbers do not matter either, by their labels.  What is left for the vocabularies is to say
whether two nodes agree in construct.

* `Node.outline_eq_iff`: equal outlines, one node at a time.
* `Table.kind_congr`, `Table.ruleHolds_congr`: classification and placeholders.
* `Tree.map_outline_sites`: trees of equal outline have sites of equal outlines.
-/

namespace ChangeQuery

/-- Two options of equal images are both empty, or hold values of equal images. -/
theorem option_cases_of_map_eq {α β : Type} {f : α → β} {a b : Option α} (h : a.map f = b.map f) :
    (a = none ∧ b = none) ∨ ∃ x y, a = some x ∧ b = some y ∧ f x = f y := by
  cases a with
  | none => exact .inl ⟨rfl, Option.map_eq_none_iff.mp h.symm⟩
  | some x =>
    obtain ⟨y, hy, heq⟩ := Option.map_eq_some_iff.mp h.symm
    exact .inr ⟨x, y, rfl, hy, heq.symm⟩

/-- Two outcomes of equal images are the same error, or values of equal images. -/
theorem except_cases_of_map_eq {ε α β : Type} {f : α → β} {a b : Except ε α}
    (h : a.map f = b.map f) :
    (∃ cause, a = .error cause ∧ b = .error cause) ∨ ∃ x y, a = .ok x ∧ b = .ok y ∧ f x = f y := by
  cases a with
  | error cause =>
    cases b with
    | error cause' => exact .inl ⟨cause, rfl, congrArg Except.error (Except.error.inj h).symm⟩
    | ok y => cases h
  | ok x =>
    cases b with
    | error cause' => cases h
    | ok y => exact .inr ⟨x, y, rfl, rfl, Except.ok.inj h⟩

namespace Node

/-- The tree of the numbers and labels at and below a node. -/
def outline (n : Node) : Rose (ℕ × Label) :=
  n.map fun entry => (entry.id, entry.category.label)

theorem map_snd_outline (n : Node) : n.outline.map Prod.snd = n.labels := by
  rw [outline, Rose.map_map]
  rfl

theorem outline_eq_node (n : Node) :
    n.outline = .node (n.id, n.category.label) (n.children.map outline) := by
  cases n
  rw [outline, Rose.map_node]
  rfl

/-- **Equal outlines**: the same number, the same label, and equal outlines of the children. -/
theorem outline_eq_iff {a b : Node} : a.outline = b.outline ↔
    a.id = b.id ∧ a.category.label = b.category.label ∧
      a.children.map outline = b.children.map outline := by
  rw [outline_eq_node a, outline_eq_node b, Rose.node.injEq, Prod.mk.injEq, and_assoc]

variable {a b : Node}

theorem labels_congr (h : a.outline = b.outline) : a.labels = b.labels := by
  rw [← map_snd_outline, ← map_snd_outline, h]

/-! ### Questions answered by labels -/

theorem labels_eq_iff : a.labels = b.labels ↔
    a.category.label = b.category.label ∧ a.children.map labels = b.children.map labels := by
  rw [labels_eq_node a, labels_eq_node b, Rose.node.injEq]

theorem label_congr (h : a.labels = b.labels) : a.label = b.label := by
  rw [label, label, (labels_eq_iff.mp h).1]

theorem isToken_congr (h : a.labels = b.labels) : a.isToken = b.isToken := by
  rw [isToken_of_labels (labels_eq_node a), isToken_of_labels (labels_eq_node b),
    (labels_eq_iff.mp h).1]

theorem length_children_congr (h : a.labels = b.labels) :
    a.children.length = b.children.length := by
  have hlength := congrArg List.length (labels_eq_iff.mp h).2
  rwa [List.length_map, List.length_map] at hlength

theorem isLeaf_congr (h : a.labels = b.labels) : Rose.isLeaf a = Rose.isLeaf b := by
  rw [Rose.isLeaf, Rose.isLeaf, Bool.eq_iff_iff, List.isEmpty_iff_length_eq_zero,
    List.isEmpty_iff_length_eq_zero, length_children_congr h]

theorem isFormatting_congr (h : a.labels = b.labels) : a.isFormatting = b.isFormatting := by
  rw [isFormatting, isFormatting, isToken_congr h, label_congr h]

theorem textIs_congr (h : a.labels = b.labels) (expected : String) :
    a.textIs expected = b.textIs expected := by
  rw [textIs, textIs, map_label_tokens, map_label_tokens, h]

end Node

namespace Placeholder.Table

/-- **The kind of a node** is known from its labels. -/
theorem kind_congr (table : Table) {a b : Node} (h : a.labels = b.labels) :
    table.kind a = table.kind b := by
  rw [kind, kind, kindOfNode, kindOfNode, Node.textIs_congr h, Node.isLeaf_congr h,
    Node.isToken_congr h, Node.label_congr h]

end Placeholder.Table

/-! ### Sites -/

namespace Site

/-- The outline of the node and of the node above it. -/
def outline (s : Site) : Rose (ℕ × Label) × Option (Rose (ℕ × Label)) :=
  (s.node.outline, s.parent?.map Node.outline)

variable {s s' : Site}

theorem node_congr (h : s.outline = s'.outline) : s.node.outline = s'.node.outline :=
  (Prod.mk.inj h).1

theorem labels_congr (h : s.outline = s'.outline) : s.node.labels = s'.node.labels :=
  Node.labels_congr (node_congr h)

/-- The children of sites of equal outline stand at sites of equal outlines. -/
theorem children_congr (h : s.outline = s'.outline) :
    s.children.map outline = s'.children.map outline := by
  have hnode := node_congr h
  have houtline : ∀ s : Site, s.children.map outline =
      (s.node.children.map Node.outline).map fun child => (child, some s.node.outline) := by
    intro s
    rw [children, List.map_map, List.map_map]
    rfl
  rw [houtline, houtline, hnode, (Node.outline_eq_iff.mp hnode).2.2]

/-- The sites below nodes of equal outline have equal outlines. -/
theorem map_outline_below (n : Node) : ∀ {n' : Node} {parent? parent?' : Option Node},
    n.outline = n'.outline → parent?.map Node.outline = parent?'.map Node.outline →
      (below parent? n).map outline = (below parent?' n').map outline := by
  induction n using Rose.induct with
  | node entry cs ih =>
    rintro ⟨entry', cs'⟩ parent? parent?' h hparent
    have hcs : cs.map Node.outline = cs'.map Node.outline := (Node.outline_eq_iff.mp h).2.2
    have habove : (some (Rose.node entry cs)).map Node.outline =
        (some (Rose.node entry' cs')).map Node.outline := congrArg some h
    rw [below_node, below_node, List.map_cons, List.map_cons, List.map_flatMap, List.map_flatMap]
    refine congrArg₂ List.cons (Prod.ext h hparent) ?_
    generalize some (Rose.node entry cs) = above at habove ⊢
    generalize some (Rose.node entry' cs') = above' at habove ⊢
    clear h
    induction cs generalizing cs' with
    | nil =>
      rw [List.map_eq_nil_iff.mp hcs.symm]
      rfl
    | cons c cs ihcs =>
      cases cs' with
      | nil => cases hcs
      | cons c' cs' =>
        obtain ⟨hc, hcs⟩ := List.cons.inj hcs
        rw [List.flatMap_cons, List.flatMap_cons, ih c List.mem_cons_self hc habove,
          ihcs (fun d hd => ih d (List.mem_cons_of_mem c hd)) cs' hcs]

end Site

namespace Placeholder

/-- **The rule of a placeholder** looks at the labels of a node and of the node above it. -/
theorem Condition.holds_congr (condition : Condition) {s s' : Site} (h : s.outline = s'.outline) :
    condition.holds s = condition.holds s' := by
  cases condition with
  | below labels =>
    have hany : ∀ s : Site, (below labels).holds s =
        (s.parent?.map Node.outline).any fun above => labels.contains above.value.2.text := by
      rintro ⟨node, parent?⟩
      cases parent? with
      | none => rfl
      | some parent =>
        rw [Option.map_some, Node.outline_eq_node]
        rfl
    rw [hany, hany, (Prod.mk.inj h).2]
  | childless => exact Node.isLeaf_congr (Site.labels_congr h)
  | labelled labels => rw [holds, holds, Node.label_congr (Site.labels_congr h)]

namespace Table

variable {table : Table} {s s' : Site} {a b : Node}

theorem ruleHolds_congr (h : s.outline = s'.outline) (name : String) :
    table.ruleHolds name s = table.ruleHolds name s' := by
  rw [ruleHolds, ruleHolds]
  exact congrArg (Option.any · _) (funext fun rule => rule.condition.holds_congr h)

theorem isEmptySide_congr (h : s.outline = s'.outline) :
    table.isEmptySide s = table.isEmptySide s' := by
  rw [isEmptySide, isEmptySide, Node.isLeaf_congr (Site.labels_congr h),
    Node.label_congr (Site.labels_congr h)]

theorem matchesPlaceholder_congr (hquery : a.outline = b.outline) (h : s.outline = s'.outline) :
    table.matchesPlaceholder a s = table.matchesPlaceholder b s' := by
  rw [matchesPlaceholder, matchesPlaceholder, table.kind_congr (Node.labels_congr hquery)]
  exact congrArg (Option.any · _) (funext fun name => ruleHolds_congr h name)

theorem matchesEmpty_congr (hquery : a.outline = b.outline) (h : s.outline = s'.outline) :
    table.matchesEmpty a s = table.matchesEmpty b s' := by
  rw [matchesEmpty, matchesEmpty, table.kind_congr (Node.labels_congr hquery), isEmptySide_congr h]

end Table

end Placeholder

/-! ### Trees -/

namespace Tree

/-- The numbers and labels of the root and of what is below it. -/
def outline? (t : Tree) : Option (Rose (ℕ × Label)) :=
  t.root?.map Node.outline

/-- The outline of the root, and the number of nodes. -/
def outline (t : Tree) : Option (Rose (ℕ × Label)) × ℕ :=
  (t.outline?, t.size)

variable {t t' : Tree}

theorem root?_congr (h : t.outline = t'.outline) :
    t.root?.map Node.outline = t'.root?.map Node.outline :=
  (Prod.mk.inj h).1

theorem size_congr (h : t.outline = t'.outline) : t.size = t'.size :=
  (Prod.mk.inj h).2

/-- **Trees of equal outline** have sites of equal outlines. -/
theorem map_outline_sites (h : t.outline = t'.outline) :
    t.sites.map Site.outline = t'.sites.map Site.outline := by
  unfold sites
  rcases option_cases_of_map_eq (root?_congr h) with ⟨hroot, hroot'⟩ |
    ⟨root, root', hroot, hroot', houtline⟩
  · rw [hroot, hroot']
  · rw [hroot, hroot']
    exact Site.map_outline_below root houtline rfl

/-- Numbers belong to sites of equal outlines. -/
theorem map_outline_site? (h : t.outline = t'.outline) (i : ℕ) :
    (t.site? i).map Site.outline = (t'.site? i).map Site.outline := by
  have hfind : ∀ t : Tree, (t.site? i).map Site.outline =
      (t.sites.map Site.outline).find? fun outline => outline.1.value.1 == i := by
    intro t
    rw [List.find?_map, site?]
    refine congrArg (fun p => (t.sites.find? p).map Site.outline) (funext fun s => ?_)
    rw [Function.comp, Site.outline, Node.outline_eq_node]
    rfl
  rw [hfind, hfind, map_outline_sites h]

end Tree

end ChangeQuery
