/-!
## Vocabularies of construct names

Syntax trees name their inner nodes by constructs of the grammar (`expression`, `block`, …).  A
`Vocabulary` lists the construct names met so far, in the order of their first use, and a `Symbol`
is an entry of such a list: two symbols of one vocabulary are compared by position alone.

Trees may be built over different vocabularies.  `Symbol.same` compares positions within one
vocabulary and names across two.  Both come to the same because a vocabulary only grows at its end:

* `Vocabulary.names_insertMany_eq_append`: adding names keeps the listed names where they are.
* `Vocabulary.idxOf_append`: a listed name keeps its position.
-/

namespace ChangeQuery

/-- A construct name as an entry of the vocabulary called `owner`, at position `position`. -/
structure Symbol where
  owner : Nat
  position : Nat
  name : String
  deriving DecidableEq, Repr

/-- The construct names met so far, in the order of their first use.  The number `owner` tells
vocabularies apart. -/
structure Vocabulary where
  owner : Nat
  names : List String := []
  deriving DecidableEq, Repr

namespace Symbol

/-- Symbols of one vocabulary agree when they hold the same position, symbols of two vocabularies
when they have the same name. -/
def same (a b : Symbol) : Bool :=
  if a.owner = b.owner then a.position == b.position else a.name == b.name

end Symbol

namespace Vocabulary

/-- The number of names. -/
def size (v : Vocabulary) : Nat :=
  v.names.length

/-- Adds a name at the end, unless it is there already. -/
def insert (v : Vocabulary) (name : String) : Vocabulary :=
  if name ∈ v.names then v else { v with names := v.names ++ [name] }

/-- Adds names in the given order. -/
def insertMany (v : Vocabulary) (names : List String) : Vocabulary :=
  names.foldl insert v

/-- The symbol of a name.  A name that is not listed gets the position it would be added at. -/
def symbol (v : Vocabulary) (name : String) : Symbol :=
  ⟨v.owner, v.names.idxOf name, name⟩

/-- The symbol of a name, if the name is listed. -/
def find? (v : Vocabulary) (name : String) : Option Symbol :=
  if name ∈ v.names then some (v.symbol name) else none

/-! ### Growing vocabularies -/

@[simp] theorem owner_insert (v : Vocabulary) (name : String) : (v.insert name).owner = v.owner := by
  unfold insert; split <;> rfl

@[simp] theorem owner_insertMany (v : Vocabulary) (names : List String) :
    (v.insertMany names).owner = v.owner := by
  induction names generalizing v with
  | nil => rfl
  | cons name names ih => exact (ih (v.insert name)).trans (owner_insert v name)

/-- Adding a name keeps the listed names at their positions. -/
theorem names_insert_eq_append (v : Vocabulary) (name : String) :
    ∃ added, (v.insert name).names = v.names ++ added := by
  unfold insert
  split
  · exact ⟨[], by simp⟩
  · exact ⟨[name], rfl⟩

theorem names_insertMany_eq_append (v : Vocabulary) (names : List String) :
    ∃ added, (v.insertMany names).names = v.names ++ added := by
  induction names generalizing v with
  | nil => exact ⟨[], by simp [insertMany]⟩
  | cons name names ih =>
    obtain ⟨a, ha⟩ := v.names_insert_eq_append name
    obtain ⟨b, hb⟩ := ih (v.insert name)
    refine ⟨a ++ b, ?_⟩
    rw [← List.append_assoc, ← ha, ← hb]
    rfl

theorem mem_insert_self (v : Vocabulary) (name : String) : name ∈ (v.insert name).names := by
  unfold insert
  split
  · assumption
  · simp

theorem idxOf_append {names : List String} {name : String} (h : name ∈ names)
    (added : List String) : (names ++ added).idxOf name = names.idxOf name := by
  induction names with
  | nil => exact absurd h List.not_mem_nil
  | cons first names ih =>
    rw [List.cons_append, List.idxOf_cons, List.idxOf_cons]
    by_cases heq : first = name
    · simp [heq]
    · rw [ih ((List.mem_cons.mp h).resolve_left (Ne.symm heq))]

end Vocabulary

end ChangeQuery
