/-!
## Selecting by rank

Finding the least elements of a list does not need the whole list sorted.  `byPivot` rearranges a list so
that one position holds the element that it would hold in the sorted list, with no greater element in
front of it and no smaller one behind it.
-/

namespace ChangeQuery.Selection

variable {α : Type}

/-- The elements that come before a pivot. -/
def before (le : α → α → Bool) (pivot : α) (l : List α) : List α :=
  l.filter fun x => !le pivot x

/-- The elements that do not come before a pivot. -/
def notBefore (le : α → α → Bool) (pivot : α) (l : List α) : List α :=
  l.filter fun x => le pivot x

/-- Puts the element of a rank at its position.  The list is split around its first element, and the
selection goes on in the part where the position lies; beyond the end nothing is selected. -/
def byPivot (le : α → α → Bool) : Nat → List α → List α
  | _, [] => []
  | position, pivot :: rest =>
    let front := before le pivot rest
    let back := notBefore le pivot rest
    if position < front.length then byPivot le position front ++ pivot :: back
    else if position = front.length then front ++ pivot :: back
    else front ++ pivot :: byPivot le (position - front.length - 1) back
termination_by _ l => l.length
decreasing_by
  all_goals exact Nat.lt_succ_of_le (List.length_filter_le ..)

end ChangeQuery.Selection
