import ChangeQuery.Text.Utf8
import Mathlib.Tactic.Common

/-!
## Text and its bytes

Every text survives being written in UTF-8 and read again.  Reading never refuses, so what has to be
shown is that no byte of a written character is taken for one that cannot be read: the first byte of a
character of several bytes announces how many follow, and bounds the second one so that exactly the
values written that way get through.

* `start_of_two`, `start_of_three`, `start_of_four`: what the first byte of a written character tells.
* `decode_encode`: reading the bytes of a text gives the text.
-/

namespace ChangeQuery.Text.Utf8

/-! ### One byte -/

/-- A byte holds every number below 256. -/
theorem toNat_byte {n : ℕ} (h : n < 256) : (UInt8.ofNat n).toNat = n := by
  rw [UInt8.toNat_ofNat', Nat.mod_eq_of_lt h]

/-- A byte behind the first one adds six bits to the value, if it lies within the bounds. -/
theorem decodeFrom_continuation {value missing low high n : ℕ} (bytes : List UInt8)
    (hlow : low ≤ n % 0x40 + 0x80) (hhigh : n % 0x40 + 0x80 ≤ high) :
    decodeFrom (some ⟨value, missing + 2, low, high⟩) (UInt8.ofNat (n % 0x40 + 0x80) :: bytes) =
      decodeFrom (some ⟨value * 64 + n % 0x40, missing + 1, 0x80, 0xBF⟩) bytes := by
  rw [decodeFrom, toNat_byte (by omega), if_pos ⟨hlow, hhigh⟩, Nat.add_sub_cancel]
  exact if_neg (show missing + 2 ≠ 1 by omega)

/-- The last byte completes the character. -/
theorem decodeFrom_last {value low high n : ℕ} (bytes : List UInt8)
    (hlow : low ≤ n % 0x40 + 0x80) (hhigh : n % 0x40 + 0x80 ≤ high) :
    decodeFrom (some ⟨value, 1, low, high⟩) (UInt8.ofNat (n % 0x40 + 0x80) :: bytes) =
      Char.ofNat (value * 64 + n % 0x40) :: decodeFrom none bytes := by
  rw [decodeFrom, toNat_byte (by omega), if_pos ⟨hlow, hhigh⟩, Nat.add_sub_cancel]
  exact if_pos rfl

/-- The first byte of a character of several bytes. -/
theorem decodeFrom_first {n : ℕ} {p : Pending} (bytes : List UInt8) (hn : n < 256)
    (h : start n = .first p) :
    decodeFrom none (UInt8.ofNat n :: bytes) = decodeFrom (some p) bytes := by
  rw [decodeFrom, toNat_byte hn, begin, h]

/-! ### First bytes

The bounds on the second byte depend on the first: they leave out overlong forms, surrogates and
values beyond the last character. -/

theorem start_of_two {v : ℕ} (hlow : 0x7F < v) (hhigh : v ≤ 0x7FF) :
    start (v / 64 % 0x20 + 0xC0) = .first ⟨v / 64, 1, 0x80, 0xBF⟩ := by
  have hmod : v / 64 % 0x20 = v / 64 := by omega
  rw [hmod, start, if_neg (by omega), if_neg (by omega), if_pos (by omega), Nat.add_sub_cancel]

theorem start_of_three {v : ℕ} (hlow : 0x7FF < v) (hhigh : v ≤ 0xFFFF)
    (hscalar : v < 0xD800 ∨ 0xDFFF < v) :
    ∃ low high, start (v / 4096 % 0x10 + 0xE0) = .first ⟨v / 4096, 2, low, high⟩ ∧
      low ≤ v / 64 % 0x40 + 0x80 ∧ v / 64 % 0x40 + 0x80 ≤ high := by
  have hmod : v / 4096 % 0x10 = v / 4096 := by omega
  rw [hmod, start, if_neg (by omega), if_neg (by omega), if_neg (by omega)]
  by_cases hfirst : v / 4096 = 0
  · exact ⟨0xA0, 0xBF, by rw [if_pos (by omega), hfirst], by omega, by omega⟩
  rw [if_neg (by omega)]
  by_cases hsurrogate : v / 4096 = 0xD
  · exact ⟨0x80, 0x9F, by rw [if_pos (by omega), hsurrogate], by omega, by omega⟩
  · exact ⟨0x80, 0xBF, by rw [if_neg (by omega), if_pos (by omega), Nat.add_sub_cancel],
      by omega, by omega⟩

theorem start_of_four {v : ℕ} (hlow : 0xFFFF < v) (hhigh : v < 0x110000) :
    ∃ low high, start (v / 262144 % 0x08 + 0xF0) = .first ⟨v / 262144, 3, low, high⟩ ∧
      low ≤ v / 4096 % 0x40 + 0x80 ∧ v / 4096 % 0x40 + 0x80 ≤ high := by
  have hmod : v / 262144 % 0x08 = v / 262144 := by omega
  rw [hmod, start, if_neg (by omega), if_neg (by omega), if_neg (by omega), if_neg (by omega),
    if_neg (by omega), if_neg (by omega)]
  by_cases hfirst : v / 262144 = 0
  · exact ⟨0x90, 0xBF, by rw [if_pos (by omega), hfirst], by omega, by omega⟩
  rw [if_neg (by omega)]
  by_cases hlast : v / 262144 = 4
  · exact ⟨0x80, 0x8F, by rw [if_neg (by omega), if_pos (by omega), hlast], by omega, by omega⟩
  · exact ⟨0x80, 0xBF, by rw [if_pos (by omega), Nat.add_sub_cancel], by omega, by omega⟩

/-! ### Characters and texts -/

/-- A character is no surrogate and not beyond the last code point. -/
theorem scalar_of_char (c : Char) : c.toNat < 0xD800 ∨ 0xDFFF < c.toNat ∧ c.toNat < 0x110000 :=
  c.valid

/-- **A written character** is read as that character, whatever follows it. -/
theorem decodeFrom_utf8EncodeChar (c : Char) (bytes : List UInt8) :
    decodeFrom none (String.utf8EncodeChar c ++ bytes) = c :: decodeFrom none bytes := by
  have hscalar := scalar_of_char c
  have hchar : ∀ n, n = c.toNat → Char.ofNat n = c := by
    rintro n rfl
    exact Char.ofNat_toNat c
  unfold String.utf8EncodeChar
  change decodeFrom none ((if c.toNat ≤ 0x7F then _ else
    if c.toNat ≤ 0x7FF then _ else if c.toNat ≤ 0xFFFF then _ else _) ++ bytes) = _
  -- One case for each number of bytes; the value is put together again from groups of six bits.
  split_ifs with hone htwo hthree
  · change decodeFrom none (UInt8.ofNat c.toNat :: bytes) = _
    rw [decodeFrom, toNat_byte (by omega), begin, start, if_pos (by omega), hchar _ rfl]
  · change decodeFrom none (UInt8.ofNat (c.toNat / 64 % 0x20 + 0xC0) ::
      UInt8.ofNat (c.toNat % 0x40 + 0x80) :: bytes) = _
    rw [decodeFrom_first _ (by omega) (start_of_two (by omega) htwo),
      decodeFrom_last _ (by omega) (by omega), hchar _ (by omega)]
  · change decodeFrom none (UInt8.ofNat (c.toNat / 4096 % 0x10 + 0xE0) ::
      UInt8.ofNat (c.toNat / 64 % 0x40 + 0x80) :: UInt8.ofNat (c.toNat % 0x40 + 0x80) :: bytes) = _
    obtain ⟨low, high, hfirst, hlow, hhigh⟩ :=
      start_of_three (v := c.toNat) (by omega) hthree (hscalar.imp_right And.left)
    rw [decodeFrom_first _ (by omega) hfirst, decodeFrom_continuation _ hlow hhigh,
      decodeFrom_last _ (by omega) (by omega), hchar _ (by omega)]
  · change decodeFrom none (UInt8.ofNat (c.toNat / 262144 % 0x08 + 0xF0) ::
      UInt8.ofNat (c.toNat / 4096 % 0x40 + 0x80) :: UInt8.ofNat (c.toNat / 64 % 0x40 + 0x80) ::
        UInt8.ofNat (c.toNat % 0x40 + 0x80) :: bytes) = _
    obtain ⟨low, high, hfirst, hlow, hhigh⟩ := start_of_four (v := c.toNat) (by omega) (by omega)
    rw [decodeFrom_first _ (by omega) hfirst, decodeFrom_continuation _ hlow hhigh,
      decodeFrom_continuation _ (by omega) (by omega), decodeFrom_last _ (by omega) (by omega),
      hchar _ (by omega)]

/-- **Reading what was written**: the bytes of a text in UTF-8 are read as the text. -/
theorem decode_encode (cs : List Char) : decode (encode cs) = cs := by
  induction cs with
  | nil => rfl
  | cons c cs ih => exact (decodeFrom_utf8EncodeChar c _).trans (congrArg _ ih)

end ChangeQuery.Text.Utf8
