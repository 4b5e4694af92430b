import ChangeQuery.Proofs.Similarity.Rounding
import Mathlib.Data.Nat.Sqrt

/-!
## Similarities are numbers

A similarity is computed from three sums.  A sum of so many terms could be expected to exceed all
numbers, and a quotient of two infinities would be no number.  It does not come to that: from 2^121 on,
a sum is so large that a term is less than half of its last digit, so adding the term changes nothing.

* `Small.mul`, `Small.add`, `Normal.sqrt`: products, sums and roots stay in bounds.
* `isNaN_cosine`: a similarity is a number.
-/

namespace ChangeQuery.Similarity

open Float.Model (UnpackedFloat Format)
open Float.Model.UnpackedFloat (Sign Accuracy)

/-! ### Numbers in bounds -/

/-- A number of 53 digits from 1 up to, but not including, 2^bound. -/
inductive Normal (bound : ℤ) (x : Float) : Prop
  | intro {m : ℕ} {e : ℤ} {hpos : 0 < m} (unpack_eq : x.toModel.unpack = .finite .positive m e hpos)
    (low : 2 ^ 52 ≤ m) (high : m < 2 ^ 53) (exponent_low : -52 ≤ e)
    (exponent_high : e + 53 ≤ bound)

/-- Zero, or a number from 1 up to, but not including, 2^bound. -/
def Small (bound : ℤ) (x : Float) : Prop :=
  x.toModel.unpack = .zero .positive ∨ Normal bound x

theorem Small.mono {a b : ℤ} {x : Float} (hx : Small a x) (hab : a ≤ b) : Small b x := by
  rcases hx with hx | ⟨hx, hm, hm', he, he'⟩
  · exact .inl hx
  · exact .inr ⟨hx, hm, hm', he, by omega⟩

variable {bound : ℤ} {m : ℕ} {e : ℤ}

/-- Zero is stored and read as it is. -/
theorem unpack_pack_zero : (Float.Model.pack (.zero .positive)).unpack = .zero .positive := rfl

/-- A number in bounds that is stored again stays the same. -/
theorem Small.unpack_pack {x : Float} (hx : Small bound x) (hbound : bound ≤ 1000) :
    (Float.Model.pack x.toModel.unpack).unpack = x.toModel.unpack := by
  rcases hx with hx | @⟨m, e, hpos, hx, hm, hm', he, he'⟩
  · rw [hx, unpack_pack_zero]
  · have hhigh : e ≤ 971 := by omega
    rw [hx, unpack_pack_of_normal .positive hpos hm hm' (by omega) hhigh]

theorem Small.congr {x y : Float} (hy : Small bound y)
    (h : x.toModel.unpack = y.toModel.unpack) : Small bound x := by
  rcases hy with hy | ⟨hy, hm, hm', he, he'⟩
  · exact .inl (h.trans hy)
  · exact .inr ⟨h.trans hy, hm, hm', he, he'⟩

/-- Rounding a number in bounds, and storing the outcome. -/
theorem normal_of_roundWithAccuracy (accuracy : Accuracy) {n : ℕ} (hn : m.log2 = 52 + n)
    (hlow : -52 ≤ e + n) (hhigh : e + n + 54 ≤ bound) (hbound : bound ≤ 1000) :
    Normal bound
      (.ofModel (.pack (UnpackedFloat.roundWithAccuracy .binary64 .positive m e accuracy))) := by
  have hnormal : -1074 ≤ e + n := by omega
  obtain ⟨m', e', hpos, hrounded, hm, hm', he, he'⟩ :=
    roundWithAccuracy_normal .positive accuracy hn hnormal
  have hstored : (Float.Model.pack (.finite .positive m' e' hpos)).unpack =
      .finite .positive m' e' hpos :=
    unpack_pack_of_normal .positive hpos hm hm' (by omega) (by omega)
  rw [hrounded]
  exact ⟨hstored, hm, hm', by omega, by omega⟩

/-- Rounding a number in bounds that may have too few digits, and storing the outcome. -/
theorem normal_of_round (hm : m ≠ 0) (hlow : 0 ≤ e + m.log2) (hhigh : e + m.log2 + 2 ≤ bound)
    (hbound : bound ≤ 1000) :
    Normal bound (.ofModel (.pack (UnpackedFloat.round .binary64 .positive m e))) := by
  have hfilled : (m <<< (52 - m.log2)).log2 = 52 + (m.log2 - 52) :=
    (log2_shiftLeft_add hm (Nat.two_pow_pos _)).trans (by omega)
  rw [round_eq .positive (by omega)]
  exact normal_of_roundWithAccuracy .exact hfilled (by omega) (by omega) hbound

/-! ### Arithmetic -/

/-- A counter as a number. -/
theorem small_toFloat (count : UInt32) : Small 33 count.toFloat := by
  have hlt : count.toNat < 2 ^ 32 := count.toNat_lt
  have hnumber : count.toFloat =
      .ofModel (.pack (UnpackedFloat.normalize .binary64 count.toNat 0 .positive)) := rfl
  rw [hnumber]
  cases hcount : count.toNat with
  | zero => exact .inl unpack_pack_zero
  | succ n =>
    rw [hcount] at hlt
    have hlog : (n + 1).log2 < 32 := (Nat.log2_lt (Nat.succ_ne_zero n)).mpr hlt
    have hnormal : Normal 33 (.ofModel (.pack (UnpackedFloat.round .binary64 .positive (n + 1) 0))) :=
      normal_of_round (Nat.succ_ne_zero n) (by omega) (by omega) (by omega)
    exact .inr hnormal

theorem Normal.mul {a b : ℤ} {x y : Float} (hx : Normal a x) (hy : Normal b y)
    (hbound : a + b + 1 ≤ 1000) : Normal (a + b + 1) (x * y) := by
  obtain @⟨m, e, hpos, hx, hm, hm', he, he'⟩ := hx
  obtain @⟨k, f, hpos', hy, hk, hk', hf, hf'⟩ := hy
  have hlow : 2 ^ 52 * 2 ^ 52 ≤ m * k := Nat.mul_le_mul hm hk
  have hhigh : m * k < 2 ^ 53 * 2 ^ 53 := Nat.mul_lt_mul'' hm' hk'
  rw [← Nat.pow_add] at hlow hhigh
  have hne : m * k ≠ 0 := by omega
  have hlog : 104 ≤ (m * k).log2 := (Nat.le_log2 hne).mpr hlow
  have hlog' : (m * k).log2 < 106 := (Nat.log2_lt hne).mpr hhigh
  have hn : (m * k).log2 = 52 + ((m * k).log2 - 52) := by omega
  show Normal _ (.ofModel (.pack (UnpackedFloat.mul .binary64 x.toModel.unpack y.toModel.unpack)))
  rw [hx, hy]
  exact normal_of_roundWithAccuracy .exact hn (by omega) (by omega) hbound

theorem Small.mul {a b : ℤ} {x y : Float} (hx : Small a x) (hy : Small b y)
    (hbound : a + b + 1 ≤ 1000) : Small (a + b + 1) (x * y) := by
  -- A factor zero gives zero.
  have hzero : UnpackedFloat.mul .binary64 x.toModel.unpack y.toModel.unpack = .zero .positive →
      Small (a + b + 1) (x * y) := by
    intro hproduct
    refine .inl ?_
    show (Float.Model.pack (UnpackedFloat.mul .binary64 x.toModel.unpack y.toModel.unpack)).unpack = _
    rw [hproduct, unpack_pack_zero]
  rcases hx with hx | hx
  · rcases hy with hy | ⟨hy, -, -, -, -⟩
    all_goals exact hzero (by rw [hx, hy]; rfl)
  · rcases hy with hy | hy
    · obtain ⟨hx, -, -, -, -⟩ := hx
      exact hzero (by rw [hx, hy]; rfl)
    · exact .inr (hx.mul hy hbound)

/-- The sum of two positive numbers, before it is rounded. -/
theorem add_finite {m k : ℕ} (e f : ℤ) (hm : 0 < m) (hk : 0 < k) :
    UnpackedFloat.add .binary64 (.finite .positive m e hm) (.finite .positive k f hk) =
      UnpackedFloat.round .binary64 .positive
        (m <<< (e - min e f).toNat + k <<< (f - min e f).toNat) (min e f) := by
  have hround : ∀ (n : ℕ) (g : ℤ), n ≠ 0 → UnpackedFloat.normalize .binary64 n g .positive =
      UnpackedFloat.round .binary64 .positive n g := by
    intro n g hn
    obtain ⟨n, rfl⟩ := Nat.exists_eq_succ_of_ne_zero hn
    rfl
  have hpos : m <<< (e - min e f).toNat + k <<< (f - min e f).toNat ≠ 0 := by
    rw [Nat.shiftLeft_eq]
    exact Nat.ne_of_gt (Nat.add_pos_left (Nat.mul_pos hm (Nat.two_pow_pos _)) _)
  exact hround _ _ hpos

/-- **A term changes a very large sum in no digit.** -/
theorem add_absorbed {m k : ℕ} {e f : ℤ} {hm : 0 < m} {hk : 0 < k} (hlow : 2 ^ 52 ≤ m)
    (hhigh : m < 2 ^ 53) (he : 68 ≤ e) (hk' : k < 2 ^ 53) (hf : -52 ≤ f) (hf' : f + 53 ≤ 67) :
    UnpackedFloat.add .binary64 (.finite .positive m e hm) (.finite .positive k f hk) =
      .finite .positive m e hm := by
  -- The term stands behind the digits of the sum, and a digit 0 between them.
  obtain ⟨n, hn⟩ : ∃ n : ℕ, e - f = (n + 1 : ℕ) := ⟨(e - f - 1).toNat, by omega⟩
  have hterm : k < 2 ^ n := Nat.lt_of_lt_of_le hk' (Nat.pow_le_pow_right (by decide) (by omega))
  have hsplit : m <<< (n + 1) + k = 2 ^ n * (2 * m) + k := by
    rw [Nat.shiftLeft_eq, Nat.pow_succ, Nat.mul_comm m, Nat.mul_assoc]
  have hcut : (m <<< (n + 1) + k) / 2 ^ n = 2 * m := by
    rw [hsplit, Nat.mul_add_div (Nat.two_pow_pos n), Nat.div_eq_of_lt hterm, Nat.add_zero]
  have hquotient : (m <<< (n + 1) + k) / 2 ^ (n + 1) = m := by
    rw [Nat.pow_succ, ← Nat.div_div_eq_div_mul, hcut, Nat.mul_div_cancel_left m (by decide)]
  have hlog : (m <<< (n + 1) + k).log2 = 52 + (n + 1) := by
    rw [log2_shiftLeft_add (Nat.ne_of_gt hm) (Nat.lt_trans hterm (by rw [Nat.pow_succ]; omega)),
      log2_eq_of_bounds hlow hhigh]
  have hexponent : f + (n + 1 : ℕ) = e := by omega
  rw [add_finite, min_eq_right (by omega), hn, Int.toNat_natCast, Int.sub_self, Int.toNat_zero,
    Nat.shiftLeft_zero, round_eq .positive (by omega), hlog, Nat.sub_eq_zero_of_le (by omega),
    Nat.shiftLeft_zero, Nat.cast_zero, sub_zero]
  have hpos : 0 < (m <<< (n + 1) + k) / 2 ^ (n + 1) := by rwa [hquotient]
  rw [roundWithAccuracy_of_roundBit .positive .exact hlog (by omega) (by rw [hcut]; omega) hpos]
  exact finite_congr .positive hquotient hexponent

/-- The magnitude of a sum, before it is rounded. -/
theorem log2_add_bounds {m k : ℕ} {e f : ℤ} (hm : 2 ^ 52 ≤ m) (hm' : m < 2 ^ 53)
    (hk : k < 2 ^ 53) :
    52 ≤ (m <<< (e - min e f).toNat + k <<< (f - min e f).toNat).log2 ∧
      min e f + (m <<< (e - min e f).toNat + k <<< (f - min e f).toNat).log2 ≤ max e f + 53 := by
  have hshifted : ∀ (n : ℕ) (g : ℤ), n < 2 ^ 53 → g ≤ max e f →
      n <<< (g - min e f).toNat < 2 ^ (53 + (max e f - min e f).toNat) := by
    intro n g hn hg
    rw [Nat.shiftLeft_eq, Nat.pow_add]
    exact Nat.mul_lt_mul_of_lt_of_le hn (Nat.pow_le_pow_right (by decide) (by omega))
      (Nat.two_pow_pos _)
  have hlow : 2 ^ 52 ≤ m <<< (e - min e f).toNat + k <<< (f - min e f).toNat := by
    refine Nat.le_trans hm (Nat.le_trans ?_ (Nat.le_add_right ..))
    rw [Nat.shiftLeft_eq]
    exact Nat.le_mul_of_pos_right m (Nat.two_pow_pos _)
  have hhigh : m <<< (e - min e f).toNat + k <<< (f - min e f).toNat <
      2 ^ (54 + (max e f - min e f).toNat) := by
    have hleft := hshifted m e hm' (le_max_left ..)
    have hright := hshifted k f hk (le_max_right ..)
    rw [show 54 + (max e f - min e f).toNat = 53 + (max e f - min e f).toNat + 1 by omega,
      Nat.pow_succ]
    omega
  generalize m <<< (e - min e f).toNat + k <<< (f - min e f).toNat = sum at hlow hhigh ⊢
  have hne : sum ≠ 0 := by omega
  have hlog : 52 ≤ sum.log2 := (Nat.le_log2 hne).mpr hlow
  have hlog' : sum.log2 < 54 + (max e f - min e f).toNat := (Nat.log2_lt hne).mpr hhigh
  omega

/-- Adding a term to a sum. -/
theorem Normal.add {s x : Float} (hs : Normal 122 s) (hx : Normal 67 x) : Normal 122 (s + x) := by
  obtain @⟨m, e, hpos, hs, hm, hm', he, he'⟩ := hs
  obtain @⟨k, f, hpos', hx, hk, hk', hf, hf'⟩ := hx
  show Normal _ (.ofModel (.pack (UnpackedFloat.add .binary64 s.toModel.unpack x.toModel.unpack)))
  rw [hs, hx]
  by_cases hlarge : 68 ≤ e
  · rw [add_absorbed hm hm' hlarge hk' hf hf']
    exact ⟨unpack_pack_of_normal .positive hpos hm hm' (by omega) (by omega), hm, hm', he, he'⟩
  · obtain ⟨hlog, hlog'⟩ := log2_add_bounds (e := e) (f := f) hm hm' hk'
    rw [add_finite]
    refine normal_of_round (fun hzero => ?_) (by omega) (by omega) (by omega)
    rw [hzero, Nat.log2_zero] at hlog
    omega

theorem Small.add {s x : Float} (hs : Small 122 s) (hx : Small 67 x) : Small 122 (s + x) := by
  have hkept : ∀ {y : Float}, Small 122 y →
      UnpackedFloat.add .binary64 s.toModel.unpack x.toModel.unpack = y.toModel.unpack →
        Small 122 (s + x) := by
    intro y hy hsum
    have hstored : (s + x).toModel.unpack = (Float.Model.pack y.toModel.unpack).unpack :=
      congrArg (fun u => (Float.Model.pack u).unpack) hsum
    exact hy.congr (hstored.trans (hy.unpack_pack (by omega)))
  rcases hs with hs | hs
  · refine hkept (hx.mono (by omega)) ?_
    rcases hx with hx | ⟨hx, -, -, -, -⟩
    all_goals rw [hs, hx]; rfl
  · rcases hx with hx | hx
    · refine hkept (.inr hs) ?_
      obtain ⟨hs, -, -, -, -⟩ := hs
      rw [hs, hx]
      rfl
    · exact .inr (hs.add hx)

/-- The digits of a root, and their exponent, before rounding. -/
theorem sqrtCore_eq (hlow : 2 ^ 52 ≤ m) (hhigh : m < 2 ^ 53) (he : -52 ≤ e) :
    (UnpackedFloat.sqrtCore .binary64 m e).1 = Nat.sqrt (m <<< (e - 2 * (e / 2 - 26)).toNat) ∧
      (UnpackedFloat.sqrtCore .binary64 m e).2.1 = e / 2 - 26 := by
  have htarget : min (e.ediv 2) (Format.binary64.targetExponent
      ((Float.Model.totalExponent m e + 1).ediv 2)) = e / 2 - 26 := by
    have hlog := log2_eq_of_bounds hlow hhigh
    show min (e / 2) (max (((m.log2 : ℤ) + 1 + e + 1) / 2 - (1 + 52 : ℕ))
      (3 - 2 ^ (11 - 1) - (1 + 52 : ℕ))) = _
    rw [hlog]
    push_cast
    omega
  rw [UnpackedFloat.sqrtCore, htarget]
  exact ⟨rfl, rfl⟩

theorem Normal.sqrt {x : Float} (hx : Normal bound x) (hbound : bound ≤ 900) :
    Normal (bound + 1) x.sqrt := by
  obtain @⟨m, e, hpos, hx, hm, hm', he, he'⟩ := hx
  obtain ⟨hroot, hexponent⟩ := sqrtCore_eq hm hm' he
  have hlog : (Nat.sqrt (m <<< (e - 2 * (e / 2 - 26)).toNat)).log2 = 52 + 0 := by
    obtain hparity | hparity : (e - 2 * (e / 2 - 26)).toNat = 52 ∨
        (e - 2 * (e / 2 - 26)).toNat = 53 := by omega
    all_goals
      rw [hparity, Nat.shiftLeft_eq]
      refine log2_eq_of_bounds (Nat.le_sqrt.mpr ?_) (Nat.sqrt_lt.mpr ?_) <;> omega
  show Normal _ (.ofModel (.pack (UnpackedFloat.sqrt .binary64 x.toModel.unpack)))
  rw [hx]
  show Normal _ (.ofModel (.pack (UnpackedFloat.roundWithAccuracy .binary64 .positive
    (UnpackedFloat.sqrtCore .binary64 m e).1 (UnpackedFloat.sqrtCore .binary64 m e).2.1 _)))
  rw [hroot, hexponent]
  exact normal_of_roundWithAccuracy _ hlog (by omega) (by omega) (by omega)

theorem isNaN_div {a b : ℤ} {x y : Float} (hx : Small a x) (hy : Normal b y) :
    (x / y).isNaN = false := by
  obtain ⟨hy, -, -, -, -⟩ := hy
  show (Float.Model.pack (UnpackedFloat.div .binary64 x.toModel.unpack y.toModel.unpack)).unpack.isNaN
    = false
  apply isNaN_unpack_pack
  rw [hy]
  rcases hx with hx | ⟨hx, -, -, -, -⟩
  · rw [hx]
    rfl
  · rw [hx]
    exact isNaN_roundWithAccuracy ..

/-! ### Similarities -/

/-- The three sums are in bounds. -/
structure Sums.AreSmall (s : Sums) : Prop where
  product : Small 122 s.product
  leftSquare : Small 122 s.leftSquare
  rightSquare : Small 122 s.rightSquare

theorem Sums.AreSmall.add {s : Sums} (hs : s.AreSmall) (pair : UInt32 × UInt32) :
    (s.add pair).AreSmall := by
  have hterm : ∀ x y : UInt32, Small 67 (x.toFloat * y.toFloat) :=
    fun x y => (small_toFloat x).mul (small_toFloat y) (by omega)
  exact ⟨hs.product.add (hterm _ _), hs.leftSquare.add (hterm _ _),
    hs.rightSquare.add (hterm _ _)⟩

theorem areSmall_sums (v w : FeatureVector) : (sums v w).AreSmall := by
  have hfold : ∀ (pairs : List (UInt32 × UInt32)) (s : Sums), s.AreSmall →
      (pairs.foldl Sums.add s).AreSmall := by
    intro pairs
    induction pairs with
    | nil => exact fun s hs => hs
    | cons pair pairs ih => exact fun s hs => ih _ (hs.add pair)
  exact hfold _ _ ⟨.inl rfl, .inl rfl, .inl rfl⟩

theorem Small.normal_of_ne_zero {x : Float} (hx : Small bound x) (hne : (x == 0) = false) :
    Normal bound x := by
  rcases hx with hx | hx
  · have hzero : (x == 0) = true := by
      show (x.toModel.unpack.compare (0 : Float).toModel.unpack == some .eq) = true
      rw [hx]
      rfl
    rw [hzero] at hne
    cases hne
  · exact hx

theorem Sums.AreSmall.isNaN_cosine {s : Sums} (hs : s.AreSmall) : s.cosine.isNaN = false := by
  unfold Sums.cosine
  split_ifs with hzero
  · rfl
  · rw [Bool.or_eq_true, not_or, Bool.not_eq_true, Bool.not_eq_true] at hzero
    have hleft := (hs.leftSquare.normal_of_ne_zero hzero.1).sqrt (by omega)
    have hright := (hs.rightSquare.normal_of_ne_zero hzero.2).sqrt (by omega)
    have hquotient := isNaN_div hs.product (hleft.mul hright (by omega))
    dsimp only
    split_ifs
    · rfl
    · exact hquotient

/-- **A similarity is a number.** -/
theorem isNaN_cosine {v w : FeatureVector} {similarity : Float}
    (h : cosine v w = .ok similarity) : similarity.isNaN = false := by
  unfold cosine at h
  split_ifs at h
  obtain rfl := Except.ok.inj h
  exact (areSmall_sums v w).isNaN_cosine

end ChangeQuery.Similarity
