import ChangeQuery.Proofs.Text.Lines
import ChangeQuery.Text.Utf8
import Mathlib

/-!
## Lines of bytes

Bytes can be split into lines before or after they are read as text.  A byte below 128 never belongs to
a character of several bytes: it ends one that is cut short and is a character of its own.  So the text
falls apart at such a byte, and no such character comes from any other bytes, since the bounds on the
second byte of a character leave out overlong forms.  This holds for any bytes, damaged ones included.

* `decode_append_cons`: the text on both sides of a byte below 128.
* `fields_decode`: splitting at such a byte.
* `lines_decode`: the lines of the text are the texts of the lines.
-/

namespace ChangeQuery.Text.Utf8

variable {b : UInt8}

/-! ### Characters of one byte -/

/-- The bounds and the value of a character whose next byte is awaited: the next byte is none below
128, and the whole value is at least 128. -/
structure Pending.Proper (p : Pending) : Prop where
  low_ge : 0x80 ≤ p.low
  value_ge : 2 ≤ p.value * 64 + (p.low - 0x80)
  last_ge : p.missing = 1 → 2 ≤ p.value

/-- **What a first byte tells**: it is a character of its own below 128 only, and every character of
several bytes is begun properly. -/
theorem start_cases (n : ℕ) : (n < 0x80 ∧ start n = .whole (Char.ofNat n)) ∨ start n = .invalid ∨
    ∃ p : Pending, p.Proper ∧ start n = .first p := by
  by_cases h80 : n < 0x80
  · exact .inl ⟨h80, if_pos h80⟩
  right
  rw [start, if_neg h80]
  by_cases hC2 : n < 0xC2
  · exact .inl (if_pos hC2)
  rw [if_neg hC2]
  have hfirst : ∀ {c : Prop} [Decidable c] {q : Pending} {s : Start}, (c → q.Proper) →
      (¬ c → s = .invalid ∨ ∃ p : Pending, p.Proper ∧ s = .first p) →
      (if c then .first q else s) = .invalid ∨
        ∃ p : Pending, p.Proper ∧ (if c then .first q else s) = .first p := by
    intro c _ q s hq hs
    by_cases hc : c
    · exact .inr ⟨q, hq hc, if_pos hc⟩
    · rw [if_neg hc]
      exact hs hc
  -- Two bytes, then three, then four; the first value of each length and the last one are narrower.
  refine hfirst (fun _ => ⟨by simp, by simp; omega, by simp; omega⟩) fun hE0 => ?_
  refine hfirst (fun _ => ⟨by simp, by simp, by simp⟩) fun hthree => ?_
  refine hfirst (fun _ => ⟨by simp, by simp, by simp⟩) fun _ => ?_
  refine hfirst (fun _ => ⟨by simp, by simp; omega, by simp⟩) fun hF0 => ?_
  refine hfirst (fun _ => ⟨by simp, by simp, by simp⟩) fun hfour => ?_
  refine hfirst (fun _ => ⟨by simp, by simp; omega, by simp⟩) fun _ => ?_
  refine hfirst (fun _ => ⟨by simp, by simp, by simp⟩) fun _ => ?_
  exact .inl rfl

/-- The next byte of a character that stays pending leaves it proper. -/
theorem Pending.Proper.next {p : Pending} (hp : p.Proper) {n : ℕ} (hn : p.low ≤ n) :
    Pending.Proper ⟨p.value * 64 + (n - 0x80), p.missing - 1, 0x80, 0xBF⟩ := by
  have hvalue := hp.value_ge
  have hlow := hp.low_ge
  constructor <;> dsimp only <;> omega

theorem Pending.Proper.of_mem_some {p : Pending} (hp : p.Proper) : ∀ q ∈ some p, q.Proper := by
  simpa using hp

/-- A number of at least 128 writes no character below 128 but the zero character. -/
theorem ofNat_ne_of_ge {n value : ℕ} (hpos : 0 < n) (hn : n < 0x80) (hvalue : 0x80 ≤ value) :
    Char.ofNat value ≠ Char.ofNat n := by
  have hvalid : n.isValidChar := .inl (by omega)
  intro heq
  have hnat := congrArg Char.toNat heq
  rw [Char.toNat_ofNat, Char.toNat_ofNat, if_pos hvalid] at hnat
  split_ifs at hnat <;> omega

/-! ### A byte that stands for itself -/

/-- What is read behind a byte below 128 does not depend on what stands in front of it. -/
theorem decodeFrom_append_cons (hb : b.toNat < 0x80) (ys : List UInt8) (xs : List UInt8) :
    ∀ p? : Option Pending, (∀ p ∈ p?, p.Proper) →
      decodeFrom p? (xs ++ b :: ys) = decodeFrom p? xs ++ Char.ofNat b.toNat :: decodeFrom none ys := by
  have hbegin : ∀ continueWith, begin b.toNat continueWith =
      Char.ofNat b.toNat :: continueWith none := by
    intro continueWith
    have hone : start b.toNat = .whole (Char.ofNat b.toNat) := if_pos hb
    rw [begin, hone]
  induction xs with
  | nil =>
    intro p? hproper
    cases p? with
    | none =>
      simp only [List.nil_append, decodeFrom, hbegin]
    | some p =>
      have hlow := (hproper p rfl).low_ge
      have hout : ¬ (p.low ≤ b.toNat ∧ b.toNat ≤ p.high) := by omega
      simp only [List.nil_append, decodeFrom, if_neg hout, hbegin, List.cons_append]
  | cons x xs ih =>
    have hbegun : begin x.toNat (fun pending => decodeFrom pending (xs ++ b :: ys)) =
        begin x.toNat (fun pending => decodeFrom pending xs) ++
          Char.ofNat b.toNat :: decodeFrom none ys := by
      have hnone := ih none (by simp)
      rcases start_cases x.toNat with ⟨-, hstart⟩ | hstart | ⟨p, hp, hstart⟩
      · simp only [begin, hstart, hnone, List.cons_append]
      · simp only [begin, hstart, hnone, List.cons_append]
      · simp only [begin, hstart]
        exact ih (some p) hp.of_mem_some
    intro p? hproper
    cases p? with
    | none => exact hbegun
    | some p =>
      rw [List.cons_append, decodeFrom, decodeFrom]
      split_ifs with hin hlast
      · simp only [ih none (by simp), List.cons_append]
      · exact ih _ ((hproper p rfl).next hin.1).of_mem_some
      · rw [hbegun, List.cons_append]

/-- **The text on both sides of a byte below 128** is read apart. -/
theorem decode_append_cons (hb : b.toNat < 0x80) (xs ys : List UInt8) :
    decode (xs ++ b :: ys) = decode xs ++ Char.ofNat b.toNat :: decode ys :=
  decodeFrom_append_cons hb ys xs none (by simp)

/-- A character below 128 is read from its byte only. -/
theorem notMem_decodeFrom (hpos : 0 < b.toNat) (hb : b.toNat < 0x80) {xs : List UInt8}
    (h : b ∉ xs) : ∀ p? : Option Pending, (∀ p ∈ p?, p.Proper) →
      Char.ofNat b.toNat ∉ decodeFrom p? xs := by
  have hreplacement : Char.ofNat b.toNat ≠ replacement :=
    (ofNat_ne_of_ge hpos hb (show 0x80 ≤ 0xFFFD by omega)).symm
  induction xs with
  | nil =>
    intro p? _
    cases p? <;> simp [decodeFrom, hreplacement]
  | cons x xs ih =>
    obtain ⟨hx, hxs⟩ : b ≠ x ∧ b ∉ xs := by simpa using h
    have ih := ih hxs
    have hnone := ih none (by simp)
    have hbegun : Char.ofNat b.toNat ∉ begin x.toNat fun pending => decodeFrom pending xs := by
      rcases start_cases x.toNat with ⟨hlt, hstart⟩ | hstart | ⟨p, hp, hstart⟩
      · have hne : Char.ofNat b.toNat ≠ Char.ofNat x.toNat := by
          intro heq
          have hnat := congrArg Char.toNat heq
          rw [Char.toNat_ofNat, Char.toNat_ofNat, if_pos (.inl (by omega)),
            if_pos (.inl (by omega))] at hnat
          exact hx (UInt8.toNat_inj.mp hnat)
        simp [begin, hstart, hne, hnone]
      · simp [begin, hstart, hreplacement, hnone]
      · simp only [begin, hstart]
        exact ih (some p) hp.of_mem_some
    intro p? hproper
    cases p? with
    | none => exact hbegun
    | some p =>
      rw [decodeFrom]
      split_ifs with hin hlast
      · have hp := hproper p rfl
        have hvalue : Char.ofNat (p.value * 64 + (x.toNat - 0x80)) ≠ Char.ofNat b.toNat := by
          have hlast := hp.last_ge hlast
          exact ofNat_ne_of_ge hpos hb (by omega)
        simp [hvalue.symm, hnone]
      · exact ih _ ((hproper p rfl).next hin.1).of_mem_some
      · simp [hreplacement, hbegun]

theorem notMem_decode (hpos : 0 < b.toNat) (hb : b.toNat < 0x80) {xs : List UInt8} (h : b ∉ xs) :
    Char.ofNat b.toNat ∉ decode xs :=
  notMem_decodeFrom hpos hb h none (by simp)

/-! ### Fields and lines -/

/-- **Splitting at a byte below 128**: the fields of the text are the texts of the fields. -/
theorem fields_decode (hpos : 0 < b.toNat) (hb : b.toNat < 0x80) (bytes : List UInt8) :
    fields (Char.ofNat b.toNat) (decode bytes) = (bytes.splitOn b).map decode := by
  induction hn : bytes.length using Nat.strong_induction_on generalizing bytes with
  | _ n ih =>
    subst hn
    by_cases hmem : b ∈ bytes
    · obtain ⟨front, back, rfl, hfront⟩ := List.eq_append_cons_of_mem hmem
      have hback := ih back.length (by simp only [List.length_append, List.length_cons]; omega)
        back rfl
      rw [decode_append_cons hb, fields_append_cons (notMem_decode hpos hb hfront), hback,
        List.splitOn_append_cons_self_of_not_mem hfront, List.map_cons]
    · rw [fields_of_notMem (notMem_decode hpos hb hmem), List.splitOn_eq_singleton hmem]
      rfl

/-- The bytes without one carriage return at their end. -/
def dropReturnByte (line : List UInt8) : List UInt8 :=
  if line.getLast? = some 13 then line.dropLast else line

/-- The lines of bytes: the parts between line feeds, without a carriage return in front of the line
feed, and an unterminated last line, if any. -/
def linesOfBytes (bytes : List UInt8) : List (List UInt8) :=
  let parts := bytes.splitOn 10
  let complete := parts.dropLast.map dropReturnByte
  let rest := parts.getLast?.getD []
  if rest.isEmpty then complete else complete ++ [rest]

theorem decode_eq_nil_iff {bytes : List UInt8} : decode bytes = [] ↔ bytes = [] := by
  have hpending : ∀ (bytes : List UInt8) (p : Pending), decodeFrom (some p) bytes ≠ [] := by
    intro bytes
    induction bytes with
    | nil => simp [decodeFrom]
    | cons b bytes ih =>
      intro p
      rw [decodeFrom]
      split_ifs <;> simp [ih]
  cases bytes with
  | nil => simp [decode, decodeFrom]
  | cons b bytes =>
    rw [decode, decodeFrom, begin]
    split <;> simp [hpending]

/-- The text of a line ends in a carriage return only if the line does. -/
theorem decode_dropReturnByte (line : List UInt8) :
    decode (dropReturnByte line) = dropReturn (decode line) := by
  have hone : Char.ofNat (13 : UInt8).toNat = '\r' := by decide
  have hsmall : (13 : UInt8).toNat < 0x80 := by decide
  by_cases hlast : line.getLast? = some 13
  · obtain ⟨front, rfl⟩ := List.getLast?_eq_some_iff.mp hlast
    rw [dropReturnByte, if_pos hlast, List.dropLast_concat, decode_append_cons hsmall, hone,
      decode_eq_nil_iff.mpr rfl, dropReturn_append_return]
  · rw [dropReturnByte, if_neg hlast, dropReturn_of_ne]
    by_cases hmem : 13 ∈ line
    · -- Behind the last carriage return there is text, in which none stands.
      obtain ⟨back, front, hline, hback⟩ := List.eq_append_cons_of_mem (List.mem_reverse.mpr hmem)
      have hsplit : line = front.reverse ++ 13 :: back.reverse := by
        rw [← List.reverse_reverse line, hline]
        simp
      have hne : decode back.reverse ≠ [] := by
        intro hnil
        rw [hsplit, decode_eq_nil_iff.mp hnil] at hlast
        exact hlast List.getLast?_concat
      have hnotMem : '\r' ∉ decode back.reverse :=
        hone ▸ notMem_decode (by decide) hsmall (fun h => hback (List.mem_reverse.mp h))
      rw [hsplit, decode_append_cons hsmall, List.getLast?_append_cons, List.getLast?_cons,
        List.getLast?_eq_some_getLast hne]
      intro heq
      obtain heq := Option.some.inj heq
      exact hnotMem (heq ▸ List.getLast_mem hne)
    · exact fun hreturn => notMem_decode (by decide) hsmall hmem
        (hone ▸ List.mem_of_getLast? hreturn)

/-- **The lines of a text** that is read from bytes are read from the lines of the bytes. -/
theorem lines_decode (bytes : List UInt8) :
    lines (decode bytes) = (linesOfBytes bytes).map decode := by
  have hfields : fields '\n' (decode bytes) = (bytes.splitOn 10).map decode :=
    fields_decode (b := 10) (by decide) (by decide) bytes
  have hrest : ((bytes.splitOn 10).map decode).getLast?.getD [] =
      decode ((bytes.splitOn 10).getLast?.getD []) := by
    rw [List.getLast?_map]
    cases (bytes.splitOn 10).getLast? <;> rfl
  have hempty : ∀ part, (decode part).isEmpty = part.isEmpty := by
    intro part
    rw [Bool.eq_iff_iff, List.isEmpty_iff, List.isEmpty_iff, decode_eq_nil_iff]
  have hcomplete : (((bytes.splitOn 10).map decode).dropLast.map dropReturn) =
      ((bytes.splitOn 10).dropLast.map dropReturnByte).map decode := by
    rw [← List.map_dropLast, List.map_map, List.map_map]
    exact List.map_congr_left fun line _ => (decode_dropReturnByte line).symm
  rw [lines, terminatedLines, hfields, linesOfBytes]
  dsimp only
  rw [hrest, hempty, hcomplete]
  split_ifs <;> simp

end ChangeQuery.Text.Utf8
