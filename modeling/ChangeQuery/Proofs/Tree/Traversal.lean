import ChangeQuery.Proofs.Tree.Links
import Mathlib.Logic.Relation

/-!
## Walking through a tree

`Node.ids` lists the nodes at and below a node by recursion on the tree.  The same list comes from a
walk along the links with a stack of numbers: the topmost number is visited, and its children take its
place on the stack.  `Tree.Walks` is such a walk until the stack is empty.

The numbers on the stack are those of disjoint subtrees that wait to be visited, so the walk is
followed by induction on the tree: below a node it visits the numbers of the subtree and then goes on
with the rest of the stack (`Tree.walks_ids`).

* `Tree.Traversed`: what the walks from the nodes of a tree visit.
* `Tree.ofAdditions_linked`: the links and the walks of every tree that comes about by appending.
-/

namespace ChangeQuery

theorem Rose.preorder_sublist {α : Type} {t n : Rose α} (hn : n ∈ t.preorder) :
    n.preorder.Sublist t.preorder := by
  induction t using Rose.induct with
  | node v cs ih =>
    rw [preorder_node] at hn ⊢
    rcases List.mem_cons.mp hn with rfl | hn
    · rw [preorder_node]
    · obtain ⟨c, hc, hn⟩ := List.mem_flatMap.mp hn
      exact ((ih c hc hn).trans (List.sublist_flatten_of_mem (List.mem_map_of_mem hc))).cons _

namespace Tree

/-- A walk from the numbers on a stack, the topmost first, and the numbers that it visits. -/
inductive Walks (t : Tree) : List ℕ → List ℕ → Prop
  | done : Walks t [] []
  | visit {i : ℕ} {l : Link} {stack visited : List ℕ} (hl : t.link? i = some l)
      (h : Walks t (l.children ++ stack) visited) : Walks t (i :: stack) (i :: visited)

/-- The number stands directly above another one. -/
def Above (t : Tree) (p c : ℕ) : Prop :=
  ∃ l, t.link? p = some l ∧ c ∈ l.children

/-- The numbers at and below a number, in pre-order. -/
def visits (t : Tree) (i : ℕ) : List ℕ :=
  match t.site? i with
  | none => []
  | some s => s.node.ids

/-- From every number there is exactly one walk, and it visits the number itself and every number
below it once: a number before those below it, and what is below one child before what is below the
next.  From the root it visits all numbers. -/
structure Traversed (t : Tree) : Prop where
  walks_iff : ∀ i < t.size, ∀ visited, t.Walks [i] visited ↔ visited = t.visits i
  visits_eq : ∀ i l, t.link? i = some l → t.visits i = i :: l.children.flatMap t.visits
  nodup : ∀ i < t.size, (t.visits i).Nodup
  mem_iff : ∀ i < t.size, ∀ j, j ∈ t.visits i ↔ Relation.ReflTransGen t.Above i j
  visits_root : 0 < t.size → (t.visits 0).Perm (List.range t.size)

variable {t : Tree} {root n : Node} {i : ℕ} {l : Link}

/-- There is no choice in a walk. -/
theorem Walks.unique {stack visited visited' : List ℕ} (h : t.Walks stack visited)
    (h' : t.Walks stack visited') : visited = visited' := by
  induction h generalizing visited' with
  | done =>
    cases h'
    rfl
  | visit hl _ ih =>
    cases h' with
    | visit hl' h' =>
      obtain rfl := Option.some.inj (hl.symm.trans hl')
      rw [ih h']

/-! ### From numbers to nodes -/

theorem site?_of_mem_preorder (h : t.ids.Perm (List.range t.size)) (hroot : t.root? = some root)
    (hn : n ∈ root.preorder) : ∃ s, t.site? n.id = some s ∧ s.node = n := by
  rw [← Site.map_node_below root none] at hn
  obtain ⟨s, hs, rfl⟩ := List.mem_map.mp hn
  refine ⟨s, (site?_eq_some_iff h).mpr ⟨?_, rfl⟩, rfl⟩
  rw [sites, hroot]
  exact hs

theorem visits_id (h : t.ids.Perm (List.range t.size)) (hroot : t.root? = some root)
    (hn : n ∈ root.preorder) : t.visits n.id = n.ids := by
  obtain ⟨s, hs, rfl⟩ := site?_of_mem_preorder h hroot hn
  rw [visits, hs]

theorem exists_link (h : t.ids.Perm (List.range t.size)) (hroot : t.root? = some root)
    (hn : n ∈ root.preorder) :
    ∃ l, t.link? n.id = some l ∧ l.children = n.children.map Node.id := by
  obtain ⟨s, hs, rfl⟩ := site?_of_mem_preorder h hroot hn
  exact ⟨s.link, by rw [link?, hs]; rfl, rfl⟩

theorem children_of_link? (h : t.ids.Perm (List.range t.size)) (hroot : t.root? = some root)
    (hn : n ∈ root.preorder) (hl : t.link? n.id = some l) :
    l.children = n.children.map Node.id := by
  obtain ⟨l', hl', hchildren⟩ := exists_link h hroot hn
  rw [← Option.some.inj (hl'.symm.trans hl), hchildren]

/-- Every number below the size is that of a node. -/
theorem exists_mem_preorder (h : t.ids.Perm (List.range t.size)) (hi : i < t.size) :
    ∃ root n, t.root? = some root ∧ n ∈ Rose.preorder root ∧ Node.id n = i := by
  have hmem : i ∈ t.ids := h.mem_iff.mpr (List.mem_range.mpr hi)
  rw [ids] at hmem
  cases hroot : t.root? with
  | none =>
    rw [hroot] at hmem
    exact absurd hmem List.not_mem_nil
  | some root =>
    rw [hroot] at hmem
    obtain ⟨n, hn, hid⟩ := List.mem_map.mp hmem
    exact ⟨root, n, rfl, hn, hid⟩

/-! ### The walk from a node -/

/-- **The walk below a node** visits the numbers of its subtree and goes on with the stack. -/
theorem walks_ids (h : t.ids.Perm (List.range t.size)) (hroot : t.root? = some root) (n : Node) :
    n ∈ root.preorder → ∀ {stack visited : List ℕ}, t.Walks stack visited →
      t.Walks (n.id :: stack) (n.ids ++ visited) := by
  induction n using Rose.induct with
  | node entry cs ih =>
    intro hn stack visited hstack
    obtain ⟨l, hl, hchildren⟩ := exists_link h hroot hn
    -- The subtrees of the children wait on the stack, the first one on top.
    have hcs : ∀ nodes ⊆ cs,
        t.Walks (nodes.map Node.id ++ stack) (nodes.flatMap Node.ids ++ visited) := by
      intro nodes hnodes
      induction nodes with
      | nil => exact hstack
      | cons c nodes ihNodes =>
        obtain ⟨hc, hnodes⟩ := List.cons_subset.mp hnodes
        have hmem : c ∈ root.preorder :=
          Rose.mem_preorder_trans hn (Rose.mem_preorder_child hc c.mem_preorder_self)
        rw [List.flatMap_cons, List.append_assoc]
        exact ih c hc hmem (ihNodes hnodes)
    rw [Node.ids_node]
    refine .visit hl ?_
    rw [hchildren]
    exact hcs cs (List.Subset.refl cs)

theorem reflTransGen_of_mem_ids (h : t.ids.Perm (List.range t.size)) (hroot : t.root? = some root)
    (n : Node) : n ∈ root.preorder → ∀ j ∈ n.ids, Relation.ReflTransGen t.Above n.id j := by
  induction n using Rose.induct with
  | node entry cs ih =>
    intro hn j hj
    rw [Node.ids_node, List.mem_cons, List.mem_flatMap] at hj
    rcases hj with rfl | ⟨c, hc, hj⟩
    · exact .refl
    · obtain ⟨l, hl, hchildren⟩ := exists_link h hroot hn
      have hmem : c ∈ root.preorder :=
        Rose.mem_preorder_trans hn (Rose.mem_preorder_child hc c.mem_preorder_self)
      exact .head ⟨l, hl, hchildren ▸ List.mem_map_of_mem hc⟩ (ih c hc hmem j hj)

/-- **What is below a node** along the links is what stands in its subtree. -/
theorem mem_ids_iff (h : t.ids.Perm (List.range t.size)) (hroot : t.root? = some root)
    (hn : n ∈ root.preorder) (j : ℕ) :
    j ∈ n.ids ↔ Relation.ReflTransGen t.Above n.id j := by
  refine ⟨reflTransGen_of_mem_ids h hroot n hn j, fun hj => ?_⟩
  induction hj with
  | refl => exact List.mem_map_of_mem n.mem_preorder_self
  | tail _ habove ih =>
    obtain ⟨l, hl, hc⟩ := habove
    obtain ⟨m, hm, rfl⟩ := List.mem_map.mp ih
    rw [children_of_link? h hroot (Rose.mem_preorder_trans hn hm) hl] at hc
    obtain ⟨c, hchild, rfl⟩ := List.mem_map.mp hc
    have hmem : c ∈ m.preorder := Rose.mem_preorder_child hchild c.mem_preorder_self
    exact List.mem_map_of_mem (Rose.mem_preorder_trans hm hmem)

/-- **The walks of a grown tree** visit what is below a number in pre-order. -/
theorem Grown.traversed {v : Vocabulary} (hgrown : t.Grown v) : t.Traversed := by
  have h := hgrown.perm_ids
  refine ⟨?_, ?_, ?_, ?_, ?_⟩
  · intro i hi visited
    obtain ⟨root, n, hroot, hn, rfl⟩ := exists_mem_preorder h hi
    have hwalks := walks_ids h hroot n hn .done
    rw [List.append_nil] at hwalks
    rw [visits_id h hroot hn]
    exact ⟨fun hvisited => hvisited.unique hwalks, fun heq => heq ▸ hwalks⟩
  · intro i l hl
    obtain ⟨root, n, hroot, hn, rfl⟩ := exists_mem_preorder h (hgrown.linked.lt_size hl)
    have hcs : ∀ c ∈ n.children, Node.ids c = t.visits (Node.id c) := fun c hc =>
      (visits_id h hroot
        (Rose.mem_preorder_trans hn (Rose.mem_preorder_child hc c.mem_preorder_self))).symm
    rw [visits_id h hroot hn, children_of_link? h hroot hn hl, List.flatMap_map,
      ← List.flatMap_congr hcs]
    cases n
    exact Node.ids_node _ _
  · intro i hi
    obtain ⟨root, n, hroot, hn, rfl⟩ := exists_mem_preorder h hi
    rw [visits_id h hroot hn]
    exact (hgrown.nodup_ids hroot).sublist ((Rose.preorder_sublist hn).map Node.id)
  · intro i hi j
    obtain ⟨root, n, hroot, hn, rfl⟩ := exists_mem_preorder h hi
    rw [visits_id h hroot hn]
    exact mem_ids_iff h hroot hn j
  · intro hpos
    obtain ⟨root, -, hroot, -, -⟩ := exists_mem_preorder h hpos
    have hempty : ¬ t.isEmpty = true := fun heq => Nat.ne_of_gt hpos (beq_iff_eq.mp heq)
    have hid := hgrown.map_id_root?
    rw [hroot, if_neg hempty, Option.map_some] at hid
    have hvisits := visits_id h hroot root.mem_preorder_self
    rw [Option.some.inj hid] at hvisits
    rw [ids, hroot] at h
    rw [hvisits]
    exact h

/-- **Every tree that comes about by appending**, with refused nodes in between: its root has the
number 0, its links keep the invariant, and the walks along its links visit what they should.  One
more node gets the next free number below its parent, or is refused without any effect. -/
theorem ofAdditions_linked (v : Vocabulary) (additions : List Addition) :
    (ofAdditions v additions).Linked ∧
    (ofAdditions v additions).root?.map Node.id =
      (if (ofAdditions v additions).isEmpty then none else some 0) ∧
    (∀ w a, (ofAdditions v additions).Answers w a) ∧
    (ofAdditions v additions).Traversed := by
  have hgrown : (ofAdditions v additions).Grown (attemptAll (v, .empty) additions).1 :=
    Grown.attemptAll additions (.empty v)
  exact ⟨hgrown.linked, hgrown.map_id_root?, fun w a => answers hgrown.perm_ids w a,
    hgrown.traversed⟩

end Tree

end ChangeQuery
