import ChangeQuery.Similarity
import Mathlib.Order.Compare

/-!
## Comparing numbers

Binary64 numbers are ordered except for the one that is no number.  So a similarity that is a number
either reaches a threshold that is a number or lies below it, and the two tests that a search and an
explanation make never agree.

* `lt_iff_not_ge`: `<` and `≥` are complementary on numbers.
-/

namespace ChangeQuery.Similarity

open Float.Model (UnpackedFloat)

/-- Taken the other way round, a comparison comes out the other way round. -/
theorem compare_swap (a b : UnpackedFloat) :
    b.compare a = (a.compare b).map Ordering.swap := by
  cases a with
  | notANumber => cases b <;> rfl
  | infinity s =>
    cases b with
    | infinity s' => cases s <;> cases s' <;> rfl
    | notANumber | zero | finite => cases s <;> rfl
  | zero s =>
    cases b with
    | infinity s' | finite s' => cases s' <;> rfl
    | notANumber | zero => rfl
  | finite s m e =>
    cases b with
    | infinity s' => cases s' <;> rfl
    | notANumber => rfl
    | zero => cases s <;> rfl
    | finite s' m' e' =>
      have hswap : ((compare e e').then (compare m m')).swap =
          (compare e' e).then (compare m' m) := by
        rw [Ordering.swap_then, Int.compare_swap, Nat.compare_swap]
      -- Between negative numbers, the order of the magnitudes is reversed.
      cases s with
      | positive =>
        cases s' with
        | positive => exact congrArg some hswap.symm
        | negative => rfl
      | negative =>
        cases s' with
        | positive => rfl
        | negative => exact congrArg (fun order => some order.swap) hswap.symm

/-- Two numbers can be compared. -/
theorem isSome_compare {a b : UnpackedFloat} (ha : a.isNaN = false) (hb : b.isNaN = false) :
    (a.compare b).isSome = true := by
  cases a with
  | notANumber => cases ha
  | infinity s =>
    cases b with
    | notANumber => cases hb
    | infinity | zero | finite => cases s <;> rfl
  | zero s =>
    cases b with
    | notANumber => cases hb
    | infinity s' | finite s' => cases s' <;> rfl
    | zero => rfl
  | finite s m e =>
    cases b with
    | notANumber => cases hb
    | infinity s' | finite s' => cases s <;> cases s' <;> rfl
    | zero => cases s <;> rfl

/-- What is no number cannot be compared. -/
theorem compare_notANumber (a : UnpackedFloat) : a.compare .notANumber = none := by
  cases a <;> rfl

/-- What something does not exceed is a number. -/
theorem isNaN_of_le {a b : Float} (h : a ≤ b) : b.isNaN = false := by
  have hle : (a.toModel.unpack.compare b.toModel.unpack).any (·.isLE) = true :=
    of_decide_eq_true (p := a.toModel ≤ b.toModel) h
  show b.toModel.unpack.isNaN = false
  cases hb : b.toModel.unpack with
  | notANumber =>
    rw [hb, compare_notANumber] at hle
    cases hle
  | _ => rfl

/-- **Below or not**: of two numbers, the first lies below the second or reaches it, and never
both. -/
theorem lt_iff_not_ge {a b : Float} (ha : a.isNaN = false) (hb : b.isNaN = false) :
    a < b ↔ ¬ a ≥ b := by
  have hlt : a < b ↔ a.toModel.unpack.compare b.toModel.unpack = some .lt := by
    refine (decide_eq_true_iff (p := a.toModel < b.toModel)).trans ?_
    exact beq_iff_eq
  have hge : a ≥ b ↔ (b.toModel.unpack.compare a.toModel.unpack).any (·.isLE) = true :=
    decide_eq_true_iff (p := b.toModel ≤ a.toModel)
  rw [hlt, hge, compare_swap a.toModel.unpack]
  obtain ⟨order, horder⟩ := Option.isSome_iff_exists.mp (isSome_compare ha hb)
  rw [horder]
  cases order <;> decide

end ChangeQuery.Similarity
