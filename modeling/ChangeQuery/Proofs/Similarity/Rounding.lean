import ChangeQuery.Similarity
import Mathlib.Algebra.Order.Ring.Int
import Mathlib.Tactic.Common

/-!
## Rounding large mantissas

Sums and products are computed exactly and then rounded to 53 binary digits.  For an exact result of at
least 53 digits the outcome is a normal number again, whose exponent is the expected one or, if the
digits overflow, the next.

* `roundWithAccuracy_normal`: the outcome of rounding.
* `roundWithAccuracy_of_roundBit`: rounding down, if the first digit that is cut off is 0.
* `unpack_pack_of_normal`: normal numbers survive being stored.
-/

namespace ChangeQuery.Similarity

open Float.Model (UnpackedFloat Format)
open Float.Model.UnpackedFloat (Sign Accuracy ExtendedMantissa)

/-! ### Shifting -/

theorem mantissa_shiftRight (em : ExtendedMantissa) (n : ℕ) :
    (em >>> n).mantissa = em.mantissa / 2 ^ n := by
  induction n with
  | zero => exact (Nat.div_one _).symm
  | succ n ih =>
    show (em >>> n).mantissa / 2 = _
    rw [ih, Nat.div_div_eq_div_mul, ← Nat.pow_succ]

/-- The round bit is the last digit that was cut off. -/
theorem roundBit_shiftRight_succ (em : ExtendedMantissa) (n : ℕ) :
    (em >>> (n + 1)).roundBit = (em.mantissa / 2 ^ n % 2 != 0) := by
  show ((em >>> n).mantissa % 2 != 0) = _
  rw [mantissa_shiftRight]

theorem mantissa_ofMantissaAndAccuracy (m : ℕ) (accuracy : Accuracy) :
    (ExtendedMantissa.ofMantissaAndAccuracy m accuracy).mantissa = m := by
  rcases accuracy with _ | (_ | _ | _) <;> rfl

/-- Rounding leaves a mantissa as it is or adds one. -/
theorem roundedMantissa_eq_or (em : ExtendedMantissa) :
    em.roundedMantissa = em.mantissa ∨ em.roundedMantissa = em.mantissa + 1 := by
  obtain ⟨m, roundBit, stickyBit⟩ := em
  cases roundBit with
  | false => cases stickyBit <;> exact .inl rfl
  | true =>
    cases stickyBit with
    | true => exact .inr rfl
    | false =>
      have hparity : (ExtendedMantissa.mk m true false).roundedMantissa = m + m % 2 := rfl
      rw [hparity]
      dsimp only
      omega

theorem roundedMantissa_of_roundBit {em : ExtendedMantissa} (h : em.roundBit = false) :
    em.roundedMantissa = em.mantissa := by
  obtain ⟨m, roundBit, stickyBit⟩ := em
  cases h
  cases stickyBit <;> rfl

/-! ### Rounding -/

/-- The exponent of a number with 53 digits, unless it is too small. -/
theorem targetExponent_eq {m : ℕ} {e : ℤ} (h : -1074 ≤ e + m.log2 - 52) :
    Format.binary64.targetExponent (Float.Model.totalExponent m e) = e + m.log2 - 52 := by
  show max ((m.log2 : ℤ) + 1 + e - (1 + 52 : ℕ)) (3 - 2 ^ (11 - 1) - (1 + 52 : ℕ)) = _
  push_cast
  omega

/-- A mantissa of at least 53 digits is cut down to 53, unless the exponent is too small. -/
theorem shiftToTargetExponent_eq {m : ℕ} {e : ℤ} {n : ℕ} (accuracy : Accuracy)
    (hn : m.log2 = 52 + n) (he : -1074 ≤ e + n) :
    UnpackedFloat.shiftToTargetExponent .binary64 m e accuracy =
      (ExtendedMantissa.ofMantissaAndAccuracy m accuracy >>> n, e + n) := by
  have htarget : Format.binary64.targetExponent (Float.Model.totalExponent m e) = e + n := by
    rw [targetExponent_eq (by omega), hn]
    omega
  have hshift : (e + n - e).toNat = n := by omega
  rw [UnpackedFloat.shiftToTargetExponent, htarget, UnpackedFloat.shiftToExponent, hshift]

variable {m : ℕ} {e : ℤ} {n : ℕ}

/-- What is left of a mantissa has 53 digits. -/
theorem div_two_pow_bounds (hn : m.log2 = 52 + n) : 2 ^ 52 ≤ m / 2 ^ n ∧ m / 2 ^ n < 2 ^ 53 := by
  have hpos : m ≠ 0 := by
    rintro rfl
    rw [Nat.log2_zero] at hn
    omega
  constructor
  · rw [Nat.le_div_iff_mul_le (Nat.two_pow_pos n), ← Nat.pow_add, ← hn]
    exact Nat.log2_self_le hpos
  · rw [Nat.div_lt_iff_lt_mul (Nat.two_pow_pos n), ← Nat.pow_add]
    have hlt : m < 2 ^ (m.log2 + 1) := Nat.lt_log2_self
    rwa [hn, show 52 + n + 1 = 53 + n by omega] at hlt

theorem log2_eq_of_bounds {m k : ℕ} (hlow : 2 ^ k ≤ m) (hhigh : m < 2 ^ (k + 1)) : m.log2 = k :=
  (Nat.log2_eq_iff (Nat.pos_iff_ne_zero.mp (Nat.lt_of_lt_of_le (Nat.two_pow_pos k) hlow))).mpr
    ⟨hlow, hhigh⟩

theorem finite_congr (sign : Sign) {m m' : ℕ} {e e' : ℤ} {hpos : 0 < m} {hpos' : 0 < m'}
    (hm : m = m') (he : e = e') :
    UnpackedFloat.finite sign m e hpos = .finite sign m' e' hpos' := by
  subst hm he
  rfl

/-- The rounded digits, when they are not too many. -/
theorem roundWithAccuracy_of_lt (sign : Sign) {accuracy : Accuracy} (hn : m.log2 = 52 + n)
    (he : -1074 ≤ e + n) {r : ℕ} (hpos : 0 < r)
    (hr : (ExtendedMantissa.ofMantissaAndAccuracy m accuracy >>> n).roundedMantissa = r)
    (hlow : 2 ^ 52 ≤ r) (hhigh : r < 2 ^ 53) :
    UnpackedFloat.roundWithAccuracy .binary64 sign m e accuracy = .finite sign r (e + n) hpos := by
  have hagain : UnpackedFloat.shiftToTargetExponent .binary64 r (e + n) .exact =
      (ExtendedMantissa.ofMantissaAndAccuracy r .exact >>> 0, e + n + (0 : ℕ)) :=
    shiftToTargetExponent_eq .exact (log2_eq_of_bounds hlow hhigh) (by omega)
  have hmantissa : (ExtendedMantissa.ofMantissaAndAccuracy r .exact >>> 0).mantissa = r := rfl
  rw [UnpackedFloat.roundWithAccuracy, shiftToTargetExponent_eq accuracy hn he]
  dsimp only
  rw [hr, hagain]
  dsimp only
  rw [dif_neg (by rw [hmantissa]; omega)]
  exact finite_congr sign hmantissa (Int.add_zero _)

/-- The rounded digits, when they overflow. -/
theorem roundWithAccuracy_of_eq (sign : Sign) {accuracy : Accuracy} (hn : m.log2 = 52 + n)
    (he : -1074 ≤ e + n)
    (hr : (ExtendedMantissa.ofMantissaAndAccuracy m accuracy >>> n).roundedMantissa = 2 ^ 53) :
    UnpackedFloat.roundWithAccuracy .binary64 sign m e accuracy =
      .finite sign (2 ^ 52) (e + n + 1) (Nat.two_pow_pos 52) := by
  have hagain : UnpackedFloat.shiftToTargetExponent .binary64 (2 ^ 53) (e + n) .exact =
      (ExtendedMantissa.ofMantissaAndAccuracy (2 ^ 53) .exact >>> 1, e + n + (1 : ℕ)) :=
    shiftToTargetExponent_eq .exact (log2_eq_of_bounds (Nat.le_refl _) (by decide)) (by omega)
  have hmantissa : (ExtendedMantissa.ofMantissaAndAccuracy (2 ^ 53) .exact >>> 1).mantissa =
      2 ^ 52 := by
    rw [mantissa_shiftRight, mantissa_ofMantissaAndAccuracy]
    decide
  rw [UnpackedFloat.roundWithAccuracy, shiftToTargetExponent_eq accuracy hn he]
  dsimp only
  rw [hr, hagain]
  dsimp only
  rw [dif_neg (by rw [hmantissa]; decide)]
  exact finite_congr sign hmantissa rfl

/-- **Rounding at least 53 digits** gives a normal number. -/
theorem roundWithAccuracy_normal (sign : Sign) (accuracy : Accuracy) (hn : m.log2 = 52 + n)
    (he : -1074 ≤ e + n) : ∃ m' e' hpos,
      UnpackedFloat.roundWithAccuracy .binary64 sign m e accuracy = .finite sign m' e' hpos ∧
        2 ^ 52 ≤ m' ∧ m' < 2 ^ 53 ∧ e + n ≤ e' ∧ e' ≤ e + n + 1 := by
  obtain ⟨hlow, hhigh⟩ := div_two_pow_bounds hn
  have hrounded := roundedMantissa_eq_or (ExtendedMantissa.ofMantissaAndAccuracy m accuracy >>> n)
  rw [mantissa_shiftRight, mantissa_ofMantissaAndAccuracy] at hrounded
  generalize hr : (ExtendedMantissa.ofMantissaAndAccuracy m accuracy >>> n).roundedMantissa = r
    at hrounded
  by_cases hoverflow : r = 2 ^ 53
  · exact ⟨_, _, _, roundWithAccuracy_of_eq sign hn he (hr.trans hoverflow), Nat.le_refl _,
      by decide, by omega, Int.le_refl _⟩
  · exact ⟨r, _, _, roundWithAccuracy_of_lt sign hn he (by omega) hr (by omega) (by omega),
      by omega, by omega, Int.le_refl _, by omega⟩

/-- **Rounding down**: if the first digit that is cut off is 0, the others do not matter. -/
theorem roundWithAccuracy_of_roundBit (sign : Sign) (accuracy : Accuracy)
    (hn : m.log2 = 52 + (n + 1)) (he : -1074 ≤ e + (n + 1 : ℕ)) (hbit : m / 2 ^ n % 2 = 0)
    (hpos : 0 < m / 2 ^ (n + 1)) :
    UnpackedFloat.roundWithAccuracy .binary64 sign m e accuracy =
      .finite sign (m / 2 ^ (n + 1)) (e + (n + 1 : ℕ)) hpos := by
  obtain ⟨hlow, hhigh⟩ := div_two_pow_bounds hn
  refine roundWithAccuracy_of_lt sign hn he hpos ?_ hlow hhigh
  rw [roundedMantissa_of_roundBit, mantissa_shiftRight, mantissa_ofMantissaAndAccuracy]
  rw [roundBit_shiftRight_succ, mantissa_ofMantissaAndAccuracy, hbit]
  rfl

/-- Before it is rounded, a mantissa is filled up to 53 digits. -/
theorem round_eq (sign : Sign) (h : -1074 ≤ e + m.log2 - 52) :
    UnpackedFloat.round .binary64 sign m e = UnpackedFloat.roundWithAccuracy .binary64 sign
      (m <<< (52 - m.log2)) (e - (52 - m.log2 : ℕ)) .exact := by
  have hshift : (e - (e + m.log2 - 52)).toNat = 52 - m.log2 := by omega
  rw [UnpackedFloat.round, targetExponent_eq h, UnpackedFloat.decreaseExponent, hshift]

/-- The digits that are filled in behind a mantissa count in full. -/
theorem log2_shiftLeft_add (hm : m ≠ 0) {k j : ℕ} (hk : k < 2 ^ j) :
    (m <<< j + k).log2 = m.log2 + j := by
  rw [Nat.shiftLeft_eq]
  apply log2_eq_of_bounds
  · calc 2 ^ (m.log2 + j) = 2 ^ m.log2 * 2 ^ j := Nat.pow_add ..
      _ ≤ m * 2 ^ j := Nat.mul_le_mul_right _ (Nat.log2_self_le hm)
      _ ≤ m * 2 ^ j + k := Nat.le_add_right ..
  · calc m * 2 ^ j + k < (m + 1) * 2 ^ j := by rw [Nat.succ_mul]; omega
      _ ≤ 2 ^ (m.log2 + 1) * 2 ^ j := Nat.mul_le_mul_right _ Nat.lt_log2_self
      _ = 2 ^ (m.log2 + j + 1) := by rw [← Nat.pow_add, Nat.add_right_comm]

theorem isNaN_dite {p : Prop} [Decidable p] {u : p → UnpackedFloat} {w : ¬ p → UnpackedFloat}
    (hu : ∀ h, (u h).isNaN = false) (hw : ∀ h, (w h).isNaN = false) :
    (dite p u w).isNaN = false := by
  by_cases h : p
  · rw [dif_pos h, hu]
  · rw [dif_neg h, hw]

/-- Rounding gives a number. -/
theorem isNaN_roundWithAccuracy (sign : Sign) (m : ℕ) (e : ℤ) (accuracy : Accuracy) :
    (UnpackedFloat.roundWithAccuracy .binary64 sign m e accuracy).isNaN = false :=
  isNaN_dite (fun _ => rfl) (fun _ => rfl)

/-! ### Storing -/

theorem sign_packComponents (sign : Sign) (exponent : BitVec 11) (mantissa : BitVec 52) :
    Sign.ofBitVec (UnpackedFloat.unpackSign
      (UnpackedFloat.packComponents .binary64 sign exponent mantissa)) = sign := by
  have hbit : UnpackedFloat.unpackSign
      (UnpackedFloat.packComponents .binary64 sign exponent mantissa) = sign.toBitVec := by
    show (sign.toBitVec ++ exponent ++ mantissa).extractLsb' 63 1 = sign.toBitVec
    rw [BitVec.extractLsb'_append_eq_of_le (by decide),
      BitVec.extractLsb'_append_eq_of_le (by decide)]
    cases sign <;> rfl
  rw [hbit]
  cases sign <;> rfl

theorem toNat_one_append (v : BitVec 52) : (1#1 ++ v).toNat = 2 ^ 52 + v.toNat := by
  rw [BitVec.toNat_append, ← Nat.shiftLeft_add_eq_or_of_lt v.isLt]
  rfl

/-- How a finite number is stored: as infinity, as a normal number, or as one that is too small. -/
theorem pack_finite (sign : Sign) (m : ℕ) (e : ℤ) (hpos : 0 < m) :
    UnpackedFloat.pack .binary64 (.finite sign m e hpos) =
      if 2 ^ 11 ≤ (e + 1023 + 52).toNat + 1 then UnpackedFloat.packedInfinity .binary64 sign
      else if m.log2 + 1 = 53 then UnpackedFloat.packComponents .binary64 sign
        (.ofNat 11 (e + 1023 + 52).toNat) (.ofNat 52 m)
      else UnpackedFloat.packComponents .binary64 sign 0#11 (.ofNat 52 m) := rfl

/-- What is read, unless the exponent is the least or the greatest. -/
theorem unpack_packComponents (sign : Sign) {exponent : BitVec 11} (hlast : exponent ≠ -1#11)
    (hzero : exponent ≠ 0#11) (mantissa : BitVec 52) :
    UnpackedFloat.unpack .binary64 (UnpackedFloat.packComponents .binary64 sign exponent mantissa) =
      .finite sign (2 ^ 52 + mantissa.toNat) (exponent.toNat - 1075)
        (Nat.add_pos_left (Nat.two_pow_pos 52) _) := by
  have hread : ∀ b : BitVec Format.binary64.numBits, UnpackedFloat.unpackExponent b = exponent →
      UnpackedFloat.unpackMantissa b = mantissa → Sign.ofBitVec (UnpackedFloat.unpackSign b) = sign →
        UnpackedFloat.unpack .binary64 b = .finite sign (2 ^ 52 + mantissa.toNat)
          (exponent.toNat - 1075) (Nat.add_pos_left (Nat.two_pow_pos 52) _) := by
    rintro b rfl rfl rfl
    exact ((if_neg hlast).trans (if_neg hzero)).trans
      (finite_congr _ (toNat_one_append _) rfl)
  exact hread _ UnpackedFloat.unpackExponent_packComponents
    UnpackedFloat.unpackMantissa_packComponents (sign_packComponents ..)

/-- Only the greatest exponent marks what is no number. -/
theorem isNaN_unpack_packComponents (sign : Sign) {exponent : BitVec 11} (h : exponent ≠ -1#11)
    (mantissa : BitVec 52) :
    (UnpackedFloat.unpack .binary64
      (UnpackedFloat.packComponents .binary64 sign exponent mantissa)).isNaN = false := by
  have hread : ∀ b : BitVec Format.binary64.numBits, UnpackedFloat.unpackExponent b ≠ -1#11 →
      (UnpackedFloat.unpack .binary64 b).isNaN = false := by
    intro b hlast
    refine (congrArg UnpackedFloat.isNaN (if_neg hlast)).trans ?_
    by_cases hzero : UnpackedFloat.unpackExponent b = 0#11
    · rw [if_pos hzero]
      exact isNaN_dite (fun _ => rfl) (fun _ => rfl)
    · rw [if_neg hzero]
      rfl
  exact hread _ (by rwa [UnpackedFloat.unpackExponent_packComponents])

/-- **Normal numbers** survive being stored. -/
theorem unpack_pack_of_normal (sign : Sign) (hpos : 0 < m) (hlow : 2 ^ 52 ≤ m) (hhigh : m < 2 ^ 53)
    (he : -1074 ≤ e) (he' : e ≤ 971) :
    (Float.Model.pack (.finite sign m e hpos)).unpack = .finite sign m e hpos := by
  have hexponent : (BitVec.ofNat 11 (e + 1023 + 52).toNat).toNat = (e + 1023 + 52).toNat := by
    rw [BitVec.toNat_ofNat]
    omega
  have hlast : BitVec.ofNat 11 (e + 1023 + 52).toNat ≠ -1#11 := by
    intro h
    have hvalue := hexponent.symm.trans (congrArg BitVec.toNat h)
    have hall : (-1#11).toNat = 2047 := rfl
    omega
  have hzero : BitVec.ofNat 11 (e + 1023 + 52).toNat ≠ 0#11 := by
    intro h
    have hvalue := hexponent.symm.trans (congrArg BitVec.toNat h)
    have hnone : (0#11).toNat = 0 := rfl
    omega
  show UnpackedFloat.unpack .binary64 (UnpackedFloat.pack .binary64 (.finite sign m e hpos)) = _
  rw [pack_finite, if_neg (by omega), log2_eq_of_bounds hlow hhigh, if_pos rfl,
    unpack_packComponents sign hlast hzero]
  refine finite_congr sign ?_ ?_
  · rw [BitVec.toNat_ofNat]
    omega
  · rw [hexponent]
    omega

/-- **Numbers are numbers** after they were stored. -/
theorem isNaN_unpack_pack {u : UnpackedFloat} (h : u.isNaN = false) :
    (Float.Model.pack u).unpack.isNaN = false := by
  cases u with
  | notANumber => cases h
  | infinity sign => cases sign <;> rfl
  | zero sign => cases sign <;> rfl
  | finite sign m e hpos =>
    show (UnpackedFloat.unpack .binary64 (UnpackedFloat.pack .binary64 _)).isNaN = false
    rw [pack_finite]
    split_ifs with hlarge hnormal
    · cases sign <;> rfl
    · refine isNaN_unpack_packComponents sign (fun hlast => ?_) _
      have hvalue := congrArg BitVec.toNat hlast
      have hall : (-1#11).toNat = 2047 := rfl
      rw [BitVec.toNat_ofNat, hall] at hvalue
      omega
    · exact isNaN_unpack_packComponents sign (by decide) _

end ChangeQuery.Similarity
