import ChangeQuery.Selection
import Mathlib.Data.List.Basic

/-!
## Selecting and sorting

What a selection by rank has to do is little: rearrange the list so that nothing greater stands in front
of the position, and nothing smaller behind it (`Selects`).  It is enough to find the least elements:
sorting what stands at the position and in front of it gives the beginning of the sorted list.

* `selects_byPivot`: splitting around a pivot selects.
* `Selects.mergeSort_take`: the least elements, in order.
-/

namespace ChangeQuery.Selection

variable {α : Type} {le : α → α → Bool}

/-- The function selects by rank: it rearranges a list so that a position holds an element with nothing
greater in front of it and nothing smaller behind it.  Nothing is said about the order in either
part. -/
structure Selects (le : α → α → Bool) (selectAt : ℕ → List α → List α) : Prop where
  perm : ∀ {position : ℕ} {l : List α}, position < l.length → (selectAt position l).Perm l
  split : ∀ {position : ℕ} {l : List α}, position < l.length →
    ∃ front chosen back, selectAt position l = front ++ chosen :: back ∧ front.length = position ∧
      (∀ a ∈ front, le a chosen) ∧ ∀ b ∈ back, le chosen b

/-- An order in which any two elements can be compared. -/
structure IsTotal (le : α → α → Bool) : Prop where
  trans : ∀ a b c, le a b → le b c → le a c
  total : ∀ a b, le a b || le b a

/-! ### Splitting around a pivot -/

theorem IsTotal.le_of_mem_before (hle : IsTotal le) {pivot x : α} {l : List α}
    (h : x ∈ before le pivot l) : le x pivot := by
  have hnot : le pivot x = false := by simpa using (List.mem_filter.mp h).2
  simpa [hnot] using hle.total x pivot

theorem le_of_mem_notBefore {pivot x : α} {l : List α} (h : x ∈ notBefore le pivot l) :
    le pivot x :=
  (List.mem_filter.mp h).2

/-- The two parts make up the list. -/
theorem perm_before_notBefore (pivot : α) (l : List α) :
    (before le pivot l ++ pivot :: notBefore le pivot l).Perm (pivot :: l) := by
  refine List.perm_middle.trans (List.Perm.cons pivot ?_)
  exact List.perm_append_comm.trans (List.filter_append_perm (fun x => le pivot x) l)

theorem perm_byPivot (position : ℕ) (l : List α) : (byPivot le position l).Perm l := by
  fun_induction byPivot le position l with
  | case1 => exact List.Perm.refl _
  | case2 position pivot rest front back hfront ih =>
    exact (ih.append_right _).trans (perm_before_notBefore pivot rest)
  | case3 pivot rest front back hfront => exact perm_before_notBefore pivot rest
  | case4 position pivot rest front back hfront hne ih =>
    exact (List.Perm.append_left _ (List.Perm.cons pivot ih)).trans
      (perm_before_notBefore pivot rest)

/-- **Selection by pivots** puts an element at the position that nothing in front of it exceeds and that
exceeds nothing behind it. -/
theorem exists_split_byPivot (hle : IsTotal le) {position : ℕ} {l : List α}
    (h : position < l.length) :
    ∃ front chosen back, byPivot le position l = front ++ chosen :: back ∧
      front.length = position ∧ (∀ a ∈ front, le a chosen) ∧ ∀ b ∈ back, le chosen b := by
  fun_induction byPivot le position l with
  | case1 => exact absurd h (Nat.not_lt_zero _)
  | case2 position pivot rest front back hfront ih =>
    -- The position lies in front of the pivot; what stands there comes before the pivot.
    obtain ⟨f, x, b, hsplit, hlength, hf, hb⟩ := ih hfront
    have hx : x ∈ byPivot le position front := by rw [hsplit]; simp
    have hpivot : le x pivot := hle.le_of_mem_before ((perm_byPivot position front).mem_iff.mp hx)
    refine ⟨f, x, b ++ pivot :: back, by rw [hsplit, List.append_assoc, List.cons_append],
      hlength, hf, fun c hc => ?_⟩
    rcases List.mem_append.mp hc with hc | hc
    · exact hb c hc
    rcases List.mem_cons.mp hc with rfl | hc
    · exact hpivot
    · exact hle.trans _ _ _ hpivot (le_of_mem_notBefore hc)
  | case3 pivot rest front back hfront =>
    exact ⟨front, pivot, back, rfl, rfl, fun _ ha => hle.le_of_mem_before ha,
      fun _ hb => le_of_mem_notBefore hb⟩
  | case4 position pivot rest front back hfront hne ih =>
    -- The position lies behind the pivot.
    have hlength : front.length + back.length = rest.length := by
      have hperm : (front ++ pivot :: back).length = (pivot :: rest).length :=
        (perm_before_notBefore pivot rest).length_eq
      simp only [List.length_append, List.length_cons] at hperm
      omega
    rw [List.length_cons] at h
    obtain ⟨f, x, b, hsplit, hf, hle_x, hx_le⟩ := ih (by omega)
    have hx : x ∈ byPivot le (position - front.length - 1) back := by rw [hsplit]; simp
    have hpivot : le pivot x :=
      le_of_mem_notBefore ((perm_byPivot (position - front.length - 1) back).mem_iff.mp hx)
    refine ⟨front ++ pivot :: f, x, b, by rw [hsplit, List.append_assoc, List.cons_append],
      by rw [List.length_append, List.length_cons, hf]; omega, fun a ha => ?_, hx_le⟩
    rcases List.mem_append.mp ha with ha | ha
    · exact hle.trans _ _ _ (hle.le_of_mem_before ha) hpivot
    rcases List.mem_cons.mp ha with rfl | ha
    · exact hpivot
    · exact hle_x a ha

theorem selects_byPivot (hle : IsTotal le) : Selects le (byPivot le) where
  perm _ := perm_byPivot _ _
  split h := exists_split_byPivot hle h

/-! ### The least elements -/

/-- What stands at the position or in front of it exceeds nothing behind it. -/
theorem Selects.le_of_mem {selectAt : ℕ → List α → List α} (h : Selects le selectAt)
    (hle : IsTotal le) {position : ℕ} {l : List α} (hposition : position < l.length) {a b : α}
    (ha : a ∈ (selectAt position l).take (position + 1))
    (hb : b ∈ (selectAt position l).drop (position + 1)) : le a b := by
  obtain ⟨front, chosen, back, hsplit, rfl, hfront, hback⟩ := h.split hposition
  have hself : le chosen chosen := by simpa using hle.total chosen chosen
  have hhead : front ++ chosen :: back = (front ++ [chosen]) ++ back := by simp
  have hlength : (front ++ [chosen]).length = front.length + 1 := by simp
  rw [hsplit, hhead, List.take_left' hlength] at ha
  rw [hsplit, hhead, List.drop_left' hlength] at hb
  refine hle.trans a chosen b ?_ (hback b hb)
  rcases List.mem_append.mp ha with ha | ha
  · exact hfront a ha
  · obtain rfl := List.mem_singleton.mp ha
    exact hself

/-- **Selecting before sorting**: what a selection brings to the front, in order, is the beginning of
the sorted list. -/
theorem Selects.mergeSort_take {selectAt : ℕ → List α → List α} (h : Selects le selectAt)
    (hle : IsTotal le) (hantisymm : ∀ a b, le a b → le b a → a = b) {position : ℕ} {l : List α}
    (hposition : position < l.length) :
    ((selectAt position l).take (position + 1)).mergeSort le =
      (l.mergeSort le).take (position + 1) := by
  have hlength : (((selectAt position l).take (position + 1)).mergeSort le).length =
      position + 1 := by
    rw [List.length_mergeSort, List.length_take, (h.perm hposition).length_eq]
    omega
  -- Sorted by itself, either part takes its place in the sorted list.
  have hsorted : ((selectAt position l).take (position + 1)).mergeSort le ++
      ((selectAt position l).drop (position + 1)).mergeSort le = l.mergeSort le := by
    refine List.Perm.eq_of_pairwise (fun a b _ _ => hantisymm a b) ?_
      (List.pairwise_mergeSort hle.trans hle.total l) ?_
    · refine List.pairwise_append.mpr ⟨List.pairwise_mergeSort hle.trans hle.total _,
        List.pairwise_mergeSort hle.trans hle.total _, fun a ha b hb => ?_⟩
      exact h.le_of_mem hle hposition (List.mem_mergeSort.mp ha) (List.mem_mergeSort.mp hb)
    · refine ((List.mergeSort_perm _ _).append (List.mergeSort_perm _ _)).trans ?_
      rw [List.take_append_drop]
      exact (h.perm hposition).trans (List.mergeSort_perm l le).symm
  rw [← hsorted, List.take_left' hlength]

end ChangeQuery.Selection
