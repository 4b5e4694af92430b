import ChangeQuery.Proofs.Tree.Growth
import ChangeQuery.Proofs.Tree.Sites
import Mathlib.Data.List.Perm.Basic

/-!
## Post-order

`Rose.postorder` lists the subtrees of a tree, a node after its children.  They are those of the
pre-order in another arrangement (`Rose.perm_postorder`).  `Rose.prune` drops what stands below the
nodes of one kind.

In a tree without repeated numbers, what comes later in post-order does not stand at or below what
comes earlier (`Node.pairwise_postorder`).
-/

namespace ChangeQuery

namespace Rose

variable {α : Type}

mutual
/-- The subtrees, a node after its children and the children from left to right. -/
def postorder : Rose α → List (Rose α)
  | node v cs => postorderAll cs ++ [node v cs]
/-- The subtrees of all trees, from left to right. -/
def postorderAll : List (Rose α) → List (Rose α)
  | [] => []
  | c :: cs => c.postorder ++ postorderAll cs
end

mutual
/-- The tree without what stands below the nodes that `stops` accepts. -/
def prune (stops : Rose α → Bool) : Rose α → Rose α
  | node v cs => node v (if stops (node v cs) then [] else pruneAll stops cs)
/-- The trees without what stands below the nodes that `stops` accepts. -/
def pruneAll (stops : Rose α → Bool) : List (Rose α) → List (Rose α)
  | [] => []
  | c :: cs => c.prune stops :: pruneAll stops cs
end

theorem postorder_node (v : α) (cs : List (Rose α)) :
    (node v cs).postorder = cs.flatMap postorder ++ [node v cs] := by
  have hall : postorderAll cs = cs.flatMap postorder := by
    induction cs with
    | nil => rfl
    | cons c cs ih => rw [postorderAll, ih, List.flatMap_cons]
  rw [postorder, hall]

theorem prune_node (stops : Rose α → Bool) (v : α) (cs : List (Rose α)) :
    (node v cs).prune stops =
      node v (if stops (node v cs) then [] else cs.map (prune stops)) := by
  have hall : pruneAll stops cs = cs.map (prune stops) := by
    induction cs with
    | nil => rfl
    | cons c cs ih => rw [pruneAll, ih, List.map_cons]
  rw [prune, hall]

/-- **The post-order** is the pre-order in another arrangement. -/
theorem perm_postorder (t : Rose α) : t.postorder.Perm t.preorder := by
  induction t using induct with
  | node v cs ih =>
    have hcs : (cs.flatMap postorder).Perm (cs.flatMap preorder) :=
      List.Perm.flatMap_left cs ih
    rw [postorder_node, preorder_node]
    exact (List.perm_append_singleton _ _).trans (hcs.cons _)

end Rose

namespace Node

/-- The numbers below a node are among those below a node above it. -/
theorem ids_subset {n m : Node} (h : m ∈ n.preorder) : m.ids ⊆ n.ids := by
  intro i hi
  obtain ⟨k, hk, rfl⟩ := List.mem_map.mp hi
  exact List.mem_map_of_mem (Rose.mem_preorder_trans h hk)

theorem mem_ids_of_mem_postorder {n m : Node} (h : m ∈ n.postorder) : m.id ∈ n.ids :=
  List.mem_map_of_mem (n.perm_postorder.mem_iff.mp h)

/-- **Later nodes** of the post-order do not stand at or below earlier ones. -/
theorem pairwise_postorder {n : Node} (h : n.ids.Nodup) :
    n.postorder.Pairwise fun earlier later => Node.id later ∉ Node.ids earlier := by
  induction n using Rose.induct with
  | node entry cs ih =>
    rw [ids_node, List.nodup_cons, List.nodup_flatMap] at h
    obtain ⟨hentry, hcs, hdisjoint⟩ := h
    rw [Rose.postorder_node, List.pairwise_append, List.pairwise_flatMap]
    refine ⟨⟨fun c hc => ih c hc (hcs c hc), ?_⟩, List.pairwise_singleton _ _, ?_⟩
    · -- What stands below one child does not stand below another.
      refine hdisjoint.imp fun {c c'} hcc' m hm m' hm' hmem => ?_
      have hbelow : Node.id m' ∈ ids c :=
        ids_subset (c.perm_postorder.mem_iff.mp hm) hmem
      exact hcc' hbelow (mem_ids_of_mem_postorder hm')
    · -- The node itself stands below none of its children.
      intro m hm m' hm' hmem
      obtain rfl := List.mem_singleton.mp hm'
      obtain ⟨c, hc, hm⟩ := List.mem_flatMap.mp hm
      exact hentry (List.mem_flatMap.mpr
        ⟨c, hc, ids_subset (c.perm_postorder.mem_iff.mp hm) hmem⟩)

end Node

end ChangeQuery
