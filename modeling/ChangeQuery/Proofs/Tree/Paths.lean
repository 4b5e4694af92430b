import ChangeQuery.Proofs.Tree.Labels

/-!
## Paths in a tree

A path leads from the root of a tree to one of its nodes: it lists the positions of the children to go
down to.  The nodes above the end of a path are at the ends of the shorter paths that it begins with.
Two nodes may have equal subtrees, but they never have the same path, so a place in a tree is a path
and not a subtree.

* `subtreeAt?`: the subtree at the end of a path, and `exists_subtreeAt?` that every subtree is at the
  end of some path.
* `replaceAt`: another tree in the place of the subtree at the end of a path.
* `subtreeAt?_replaceAt`: what is above the place keeps its path, and the other tree stands in it.
-/

namespace ChangeQuery.Rose

variable {α β : Type}

/-- The subtree at the end of a path, if the path does not leave the tree. -/
def subtreeAt? (t : Rose α) : List ℕ → Option (Rose α)
  | [] => some t
  | i :: path => t.children[i]?.bind fun c => c.subtreeAt? path

/-- Puts `new` in the place of the subtree at the end of a path. -/
def replaceAt (t : Rose α) : List ℕ → Rose α → Rose α
  | [], new => new
  | i :: path, new => .node t.value (t.children.modify i fun c => c.replaceAt path new)

theorem subtreeAt?_cons (t : Rose α) (i : ℕ) (path : List ℕ) :
    t.subtreeAt? (i :: path) = t.children[i]?.bind fun c => c.subtreeAt? path := rfl

/-- To go down a path is to go down its first part and then the rest. -/
theorem subtreeAt?_append (above below : List ℕ) : ∀ t : Rose α,
    t.subtreeAt? (above ++ below) = (t.subtreeAt? above).bind fun s => s.subtreeAt? below := by
  induction above with
  | nil => exact fun _ => rfl
  | cons i above ih =>
    intro t
    rw [List.cons_append, subtreeAt?_cons, subtreeAt?_cons, Option.bind_assoc]
    congr 1
    funext c
    exact ih c

/-- **Every subtree has a path.** -/
theorem exists_subtreeAt? {t s : Rose α} (h : s ∈ t.preorder) :
    ∃ path, t.subtreeAt? path = some s := by
  induction t using induct with
  | node v cs ih =>
    rw [preorder_node, List.mem_cons, List.mem_flatMap] at h
    rcases h with rfl | ⟨c, hc, hs⟩
    · exact ⟨[], rfl⟩
    · obtain ⟨path, hpath⟩ := ih c hc hs
      obtain ⟨i, hi⟩ := List.mem_iff_getElem?.mp hc
      refine ⟨i :: path, ?_⟩
      rw [subtreeAt?_cons, children_node, hi, Option.bind_some, hpath]

/-- Changing the values keeps the paths. -/
theorem subtreeAt?_map (f : α → β) (path : List ℕ) : ∀ t : Rose α,
    (t.map f).subtreeAt? path = (t.subtreeAt? path).map (map f) := by
  induction path with
  | nil => exact fun _ => rfl
  | cons i path ih =>
    intro t
    rw [subtreeAt?_cons, subtreeAt?_cons, children_map, List.getElem?_map]
    cases t.children[i]? with
    | none => rfl
    | some c => exact ih c

/-- **One step down a path**: the children on both sides of the one that the path goes down to stay as
they are. -/
theorem exists_child_of_subtreeAt? {t old : Rose α} {i : ℕ} {path : List ℕ}
    (h : t.subtreeAt? (i :: path) = some old) :
    ∃ v before c after, t = .node v (before ++ c :: after) ∧ c.subtreeAt? path = some old ∧
      ∀ new, t.replaceAt (i :: path) new = .node v (before ++ c.replaceAt path new :: after) := by
  obtain ⟨v, cs⟩ := t
  obtain ⟨c, hc, hold⟩ := Option.bind_eq_some_iff.mp h
  rw [children_node] at hc
  obtain ⟨hi, rfl⟩ := List.getElem?_eq_some_iff.mp hc
  refine ⟨v, cs.take i, cs[i], cs.drop (i + 1), ?_, hold, fun new => ?_⟩
  · rw [← List.drop_eq_getElem_cons hi, List.take_append_drop]
  · rw [replaceAt, children_node, value_node, List.modify_eq_take_cons_drop hi]

/-- **What is above the place of a replacement** keeps its path. -/
theorem subtreeAt?_replaceAt (new : Rose α) (above below : List ℕ) : ∀ t : Rose α,
    (t.replaceAt (above ++ below) new).subtreeAt? above =
      (t.subtreeAt? above).map fun s => s.replaceAt below new := by
  induction above with
  | nil => exact fun _ => rfl
  | cons i above ih =>
    intro t
    have hchild : (t.replaceAt (i :: above ++ below) new).children[i]? =
        t.children[i]?.map fun c => c.replaceAt (above ++ below) new := by
      rw [List.cons_append, replaceAt, children_node, List.getElem?_modify_eq]
      rfl
    rw [subtreeAt?_cons, subtreeAt?_cons, hchild]
    cases t.children[i]? with
    | none => rfl
    | some c => exact ih c

end ChangeQuery.Rose
