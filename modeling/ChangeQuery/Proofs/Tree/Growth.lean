import ChangeQuery.Proofs.Tree.Labels
import Mathlib.Data.List.Nodup

/-!
## Trees that grow

A tree grows by one node at a time; the new node takes the next free number.  `Tree.Grown` holds of
the trees that come about in this way over a growing vocabulary.

`Node.count_ids_graft` says what appending does to the numbers in a tree: every node with the number
of the parent takes the new numbers once.  In a grown tree every number below the size belongs to
exactly one node (`Tree.Grown.perm_ids`), so there is exactly one such node, the size of the tree is
that of its root, and the tree is empty only if it has no root.
-/

namespace ChangeQuery

namespace Node

/-- The numbers of the nodes in pre-order. -/
def ids (n : Node) : List ℕ :=
  n.preorder.map id

theorem ids_node (entry : Entry) (cs : List Node) :
    ids (.node entry cs) = entry.id :: cs.flatMap ids := by
  rw [ids, Rose.preorder_node, List.map_cons, List.map_flatMap]
  rfl

theorem length_ids (n : Node) : n.ids.length = n.size := by
  rw [ids, List.length_map, Rose.length_preorder]

/-- Nodes with different numbers are told apart by them. -/
theorem eq_of_id_eq {root n m : Node} (h : root.ids.Nodup) (hn : n ∈ root.preorder)
    (hm : m ∈ root.preorder) (hid : n.id = m.id) : n = m :=
  List.inj_on_of_nodup_map h hn hm hid

/-! ### Appending -/

theorem graftAll_eq_map (parent : ℕ) (new : Node) (cs : List Node) :
    graftAll parent new cs = cs.map (graft parent new) := by
  induction cs with
  | nil => rfl
  | cons c cs ih => rw [graftAll, ih, List.map_cons]

theorem graft_node (parent : ℕ) (new : Node) (entry : Entry) (cs : List Node) :
    graft parent new (.node entry cs) = .node entry
      (if entry.id = parent then cs.map (graft parent new) ++ [new]
        else cs.map (graft parent new)) := by
  rw [graft, graftAll_eq_map]

/-- Nothing is appended where the parent does not occur. -/
theorem graft_of_notMem {parent : ℕ} (new : Node) {n : Node} (h : parent ∉ n.ids) :
    graft parent new n = n := by
  induction n using Rose.induct with
  | node entry cs ih =>
    rw [ids_node, List.mem_cons, List.mem_flatMap, not_or, not_exists] at h
    have hcs : cs.map (graft parent new) = cs :=
      (List.map_congr_left fun c hc => ih c hc fun hmem => h.2 c ⟨hc, hmem⟩).trans cs.map_id
    rw [graft_node, if_neg (Ne.symm h.1), hcs]

/-- Below a node that occurs only in what was appended, it does not matter which comes first. -/
theorem graft_graft {p q : ℕ} (x y : Node) {n : Node} (h : q ∉ n.ids) :
    graft q y (graft p x n) = graft p (graft q y x) n := by
  induction n using Rose.induct with
  | node entry cs ih =>
    rw [ids_node, List.mem_cons, List.mem_flatMap, not_or, not_exists] at h
    have hcs : (cs.map (graft p x)).map (graft q y) = cs.map (graft p (graft q y x)) := by
      rw [List.map_map]
      exact List.map_congr_left fun c hc => ih c hc fun hmem => h.2 c ⟨hc, hmem⟩
    rw [graft_node, graft_node, graft_node, if_neg (Ne.symm h.1), apply_ite (List.map (graft q y)),
      List.map_append, hcs]
    rfl

/-- **The numbers after appending**: what is appended comes in once for each node that has the
number of the parent. -/
theorem count_ids_graft (parent : ℕ) (new n : Node) (i : ℕ) :
    (graft parent new n).ids.count i =
      n.ids.count i + n.ids.count parent * new.ids.count i := by
  induction n using Rose.induct with
  | node entry cs ih =>
    -- First the children, then what is appended to the node itself.
    have hcs : ((cs.map (graft parent new)).flatMap ids).count i =
        (cs.flatMap ids).count i + (cs.flatMap ids).count parent * new.ids.count i := by
      clear entry
      induction cs with
      | nil => simp
      | cons c cs ihcs =>
        have hc := ih c List.mem_cons_self
        have hrest := ihcs fun c' hc' => ih c' (List.mem_cons_of_mem c hc')
        simp only [List.map_cons, List.flatMap_cons, List.count_append, Nat.add_mul]
        omega
    rw [graft_node]
    by_cases hentry : entry.id = parent
    · simp only [ids_node, List.flatMap_append, List.flatMap_singleton,
        List.count_cons, List.count_append, hcs, hentry, beq_self_eq_true, if_true, Nat.add_mul,
        Nat.one_mul]
      omega
    · simp only [if_neg hentry, ids_node, List.count_cons, hcs, beq_eq_false_iff_ne.mpr hentry,
        Bool.false_eq_true, if_false, Nat.add_zero]
      omega

end Node

/-! ### Growing -/

namespace Tree

/-- The numbers of the nodes in pre-order. -/
def ids (t : Tree) : List ℕ :=
  match t.root? with
  | none => []
  | some root => Node.ids root

/-- The trees over a vocabulary that come about by appending nodes.  The vocabulary may grow without
the tree, when other trees grow over it or when a construct is refused. -/
inductive Grown : Vocabulary → Tree → Prop
  | empty (v : Vocabulary) : Grown v .empty
  | insert {v : Vocabulary} {t : Tree} (name : String) : Grown v t → Grown (v.insert name) t
  | token {v : Vocabulary} {t t' : Tree} {text : String} {parent? : Option ℕ} :
    Grown v t → t.addToken text parent? = .ok t' → Grown v t'
  | construct {v w : Vocabulary} {t t' : Tree} {name : String} {parent? : Option ℕ} :
    Grown v t → t.addConstruct v name parent? = (w, .ok t') → Grown w t'

/-- **One node** keeps the numbers those below the size. -/
theorem perm_ids_add {t t' : Tree} {category : Category} {parent? : Option ℕ}
    (h : t.ids.Perm (List.range t.size)) (hadd : t.add category parent? = .ok t') :
    t'.ids.Perm (List.range t'.size) := by
  obtain ⟨root?, size⟩ := t
  cases root? with
  | none =>
    -- A tree without a root has no nodes.
    have hsize : 0 = size := by simpa [ids] using h.length_eq
    subst hsize
    cases parent? with
    | none =>
      obtain rfl := Except.ok.inj hadd
      exact List.Perm.refl _
    | some parent => simp [add] at hadd
  | some root =>
    cases parent? with
    | none => cases hadd
    | some parent =>
      simp only [add] at hadd
      split_ifs at hadd with hparent
      obtain rfl := Except.ok.inj hadd
      have hcount : ∀ i, (Node.ids root).count i = (List.range size).count i := h.count_eq
      have hone : (Node.ids root).count parent = 1 := by
        rw [hcount]
        exact List.count_eq_one_of_mem List.nodup_range (List.mem_range.mpr hparent)
      rw [List.perm_iff_count]
      intro i
      show (Node.graft parent _ root).ids.count i = _
      rw [Node.count_ids_graft, hone, Nat.one_mul, List.range_succ, List.count_append, hcount]
      rfl

/-- **The numbers of a grown tree** are those below its size, each once. -/
theorem Grown.perm_ids {v : Vocabulary} {t : Tree} (h : t.Grown v) :
    t.ids.Perm (List.range t.size) := by
  induction h with
  | empty => exact List.Perm.refl _
  | insert _ _ ih => exact ih
  | token _ hadd ih => exact perm_ids_add ih hadd
  | construct _ hadd ih => exact perm_ids_add ih (Prod.mk.inj hadd).2

/-- No two nodes of a grown tree have the same number. -/
theorem Grown.nodup_ids {v : Vocabulary} {t : Tree} (h : t.Grown v) {root : Node}
    (hroot : t.root? = some root) : root.ids.Nodup := by
  have hids := h.perm_ids.nodup_iff.mpr List.nodup_range
  rwa [ids, hroot] at hids

/-- The nodes of a grown tree are those of its root. -/
theorem Grown.size_root {v : Vocabulary} {t : Tree} (h : t.Grown v) {root : Node}
    (hroot : t.root? = some root) : root.size = t.size := by
  have hlength := h.perm_ids.length_eq
  rwa [List.length_range, ids, hroot, Node.length_ids] at hlength

/-- A grown tree with nodes has a root, and the nodes are those of the root. -/
theorem Grown.exists_root {v : Vocabulary} {t : Tree} (h : t.Grown v) (hne : t.isEmpty = false) :
    ∃ root, t.root? = some root ∧ root.size = t.size := by
  cases hroot : t.root? with
  | none =>
    have hlength := h.perm_ids.length_eq
    rw [List.length_range, ids, hroot] at hlength
    rw [isEmpty, ← hlength] at hne
    cases hne
  | some root => exact ⟨root, rfl, h.size_root hroot⟩

end Tree

end ChangeQuery
