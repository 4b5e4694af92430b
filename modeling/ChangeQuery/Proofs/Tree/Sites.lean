import ChangeQuery.Proofs.Tree.Labels

/-!
## Sites of a tree

The sites of a tree are its nodes in pre-order, each with the node above it.  What holds of everything
at and below the root holds of the nodes of the sites (`Tree.exists_root_of_mem_sites`).  Every site
but the first is that of a child of a node (`Tree.cases_of_mem_sites`).
-/

namespace ChangeQuery

/-- What stands below something below a node stands below the node. -/
theorem Rose.mem_preorder_trans {α : Type} {t n m : Rose α} (hn : n ∈ t.preorder)
    (hm : m ∈ n.preorder) : m ∈ t.preorder := by
  induction t using Rose.induct with
  | node v cs ih =>
    rw [preorder_node, List.mem_cons, List.mem_flatMap] at hn
    rcases hn with rfl | ⟨c, hc, hn⟩
    · exact hm
    · exact mem_preorder_child hc (ih c hc hn)

namespace Site

theorem belowAll_eq_flatMap (parent? : Option Node) (nodes : List Node) :
    belowAll parent? nodes = nodes.flatMap (below parent?) := by
  induction nodes with
  | nil => rfl
  | cons n nodes ih => rw [belowAll, ih, List.flatMap_cons]

theorem below_node (parent? : Option Node) (entry : Entry) (cs : List Node) :
    below parent? (.node entry cs) =
      ⟨.node entry cs, parent?⟩ :: cs.flatMap (below (some (.node entry cs))) := by
  rw [below, belowAll_eq_flatMap]

/-- The sites at and below a node are those of the nodes in pre-order. -/
theorem map_node_below (n : Node) : ∀ parent? : Option Node,
    (below parent? n).map Site.node = n.preorder := by
  induction n using Rose.induct with
  | node entry children ih =>
    intro parent?
    rw [below, belowAll_eq_flatMap, List.map_cons, List.map_flatMap, Rose.preorder_node]
    exact congrArg _ (List.flatMap_congr fun c hc => ih c hc _)

/-- The site of a node below another one is that of a child of the node above it. -/
theorem cases_of_mem_below {s : Site} {n : Node} : ∀ {parent? : Option Node},
    s ∈ below parent? n → s = ⟨n, parent?⟩ ∨
      ∃ p ∈ n.preorder, s.parent? = some p ∧ s.node ∈ p.children := by
  induction n using Rose.induct with
  | node entry children ih =>
    intro parent? h
    rw [below_node, List.mem_cons, List.mem_flatMap] at h
    rcases h with rfl | ⟨c, hc, h⟩
    · exact .inl rfl
    · right
      rcases ih c hc h with rfl | ⟨p, hp, hs⟩
      · exact ⟨_, Rose.mem_preorder_self _, rfl, hc⟩
      · exact ⟨p, Rose.mem_preorder_child hc hp, hs⟩

end Site

namespace Tree

/-- There is nothing below a token of the tree. -/
def TokensBare (t : Tree) : Prop :=
  ∀ root ∈ t.root?, ∀ n ∈ root.preorder, Node.isToken n = true → n.children = []

/-- The node of a site stands at or below the root. -/
theorem exists_root_of_mem_sites {t : Tree} {s : Site} (h : s ∈ t.sites) :
    ∃ root, t.root? = some root ∧ s.node ∈ root.preorder := by
  cases hroot : t.root? with
  | none =>
    rw [sites, hroot] at h
    exact absurd h List.not_mem_nil
  | some root =>
    rw [sites, hroot] at h
    exact ⟨root, rfl, Site.map_node_below root none ▸ List.mem_map_of_mem h⟩

/-- A site is that of the root, or of a child of a node at or below the root. -/
theorem cases_of_mem_sites {t : Tree} {root : Node} {s : Site} (hroot : t.root? = some root)
    (h : s ∈ t.sites) : s = ⟨root, none⟩ ∨
      ∃ p ∈ root.preorder, s.parent? = some p ∧ s.node ∈ p.children := by
  rw [sites, hroot] at h
  exact Site.cases_of_mem_below h

end Tree

end ChangeQuery
