/-!
## Rose trees

`Rose α` is the type of finite ordered trees with a value at every node and any number of children.
Texts of trees (`SExpr`), results of parsing (`Grammar`) and syntax trees with numbered nodes
(`Tree`) are rose trees over different values.

The functions come in pairs, one for a tree and one for a list of trees, because a node holds a list
of children.  `Rose.induct` is the induction principle for statements about a tree alone.

* `preorder` lists the subtrees, a node before its children and the children from left to right;
  `length_preorder` says that there are `size` many.
* `number` gives the nodes the numbers of their pre-order positions (`preorder_number`).
-/

namespace ChangeQuery

/-- A tree with a value at every node and a list of children below it. -/
inductive Rose (α : Type) where
  | node (value : α) (children : List (Rose α))
  deriving Repr

namespace Rose

variable {α β : Type}

/-- The value at the root. -/
def value : Rose α → α
  | node v _ => v

/-- The trees directly below the root. -/
def children : Rose α → List (Rose α)
  | node _ cs => cs

/-- A tree with nothing below its root. -/
def leaf (v : α) : Rose α :=
  node v []

/-- The root has no children. -/
def isLeaf (t : Rose α) : Bool :=
  t.children.isEmpty

@[simp] theorem value_node (v : α) (cs : List (Rose α)) : (node v cs).value = v := rfl
@[simp] theorem children_node (v : α) (cs : List (Rose α)) : (node v cs).children = cs := rfl

theorem node_value_children (t : Rose α) : node t.value t.children = t := by
  cases t; rfl

/-- **Induction over rose trees**: a statement holds of every tree if it holds of a node whenever it
holds of its children. -/
theorem induct {motive : Rose α → Prop}
    (node : ∀ v cs, (∀ c ∈ cs, motive c) → motive (node v cs)) (t : Rose α) : motive t :=
  Rose.rec (motive_1 := motive) (motive_2 := fun cs => ∀ c ∈ cs, motive c)
    (fun v cs ih => node v cs ih)
    (fun _ h => absurd h List.not_mem_nil)
    (fun _ _ hc hcs _ h => (List.mem_cons.mp h).elim (fun heq => heq ▸ hc) (hcs _))
    t

/-! ### Functions on every node -/

mutual
/-- Changes every value and keeps the shape. -/
def map (f : α → β) : Rose α → Rose β
  | node v cs => node (f v) (mapAll f cs)
/-- Changes every value of every tree. -/
def mapAll (f : α → β) : List (Rose α) → List (Rose β)
  | [] => []
  | c :: cs => c.map f :: mapAll f cs
end

mutual
/-- The number of nodes. -/
def size : Rose α → Nat
  | node _ cs => 1 + sizeAll cs
/-- The number of nodes of all trees together. -/
def sizeAll : List (Rose α) → Nat
  | [] => 0
  | c :: cs => c.size + sizeAll cs
end

mutual
/-- The subtrees, a node before its children and the children from left to right. -/
def preorder : Rose α → List (Rose α)
  | node v cs => node v cs :: preorderAll cs
/-- The subtrees of all trees, from left to right. -/
def preorderAll : List (Rose α) → List (Rose α)
  | [] => []
  | c :: cs => c.preorder ++ preorderAll cs
end

/-- The values in pre-order. -/
def values (t : Rose α) : List α :=
  t.preorder.map value

mutual
/-- Pairs every value with the pre-order position of its node, counted from `start`. -/
def number (start : Nat) : Rose α → Rose (Nat × α)
  | node v cs => node (start, v) (numberAll (start + 1) cs)
/-- Numbers the nodes of all trees one after another. -/
def numberAll (start : Nat) : List (Rose α) → List (Rose (Nat × α))
  | [] => []
  | c :: cs => c.number start :: numberAll (start + c.size) cs
end

/-! ### The list versions -/

theorem mapAll_eq_map (f : α → β) (cs : List (Rose α)) : mapAll f cs = cs.map (map f) := by
  induction cs with
  | nil => rfl
  | cons c cs ih => rw [mapAll, ih, List.map_cons]

theorem preorderAll_eq_flatMap (cs : List (Rose α)) : preorderAll cs = cs.flatMap preorder := by
  induction cs with
  | nil => rfl
  | cons c cs ih => rw [preorderAll, ih, List.flatMap_cons]

theorem size_pos (t : Rose α) : 0 < t.size := by
  cases t
  rw [size]
  omega

/-! ### Counting and numbering -/

mutual
/-- There are as many subtrees as nodes. -/
theorem length_preorder : ∀ t : Rose α, t.preorder.length = t.size
  | node v cs => by rw [preorder, size, List.length_cons, length_preorderAll cs, Nat.add_comm]
/-- There are as many subtrees in a list of trees as nodes. -/
theorem length_preorderAll : ∀ cs : List (Rose α), (preorderAll cs).length = sizeAll cs
  | [] => rfl
  | c :: cs => by
    rw [preorderAll, sizeAll, List.length_append, length_preorder c, length_preorderAll cs]
end

mutual
/-- **Numbers are pre-order positions**: the numbers of the nodes in pre-order count up from
`start`. -/
theorem values_number : ∀ (start : Nat) (t : Rose α),
    (t.number start).values.map Prod.fst = List.range' start t.size
  | start, node v cs => by
    have ih := values_numberAll (start + 1) cs
    simp only [number, values, preorder, size, List.map_cons, value_node] at ih ⊢
    rw [ih, Nat.add_comm 1, List.range'_succ]
/-- The numbers of the nodes of a list of trees count up from `start`. -/
theorem values_numberAll : ∀ (start : Nat) (cs : List (Rose α)),
    ((preorderAll (numberAll start cs)).map value).map Prod.fst = List.range' start (sizeAll cs)
  | _, [] => rfl
  | start, c :: cs => by
    have hc := values_number start c
    have hcs := values_numberAll (start + c.size) cs
    simp only [values] at hc
    rw [numberAll, preorderAll, sizeAll, List.map_append, List.map_append, hc, hcs,
      List.range'_append_1]
end

mutual
/-- Forgetting the numbers gives the tree back. -/
theorem map_snd_number : ∀ (start : Nat) (t : Rose α), (t.number start).map Prod.snd = t
  | start, node v cs => by rw [number, map, mapAll_snd_numberAll (start + 1) cs]
/-- Forgetting the numbers gives the list of trees back. -/
theorem mapAll_snd_numberAll : ∀ (start : Nat) (cs : List (Rose α)),
    mapAll Prod.snd (numberAll start cs) = cs
  | _, [] => rfl
  | start, c :: cs => by
    rw [numberAll, mapAll, map_snd_number start c, mapAll_snd_numberAll (start + c.size) cs]
end

end Rose

end ChangeQuery
