import ChangeQuery.Text.Split
import Mathlib.Data.String.Basic
import Mathlib.Tactic.Common

/-!
## Slices between byte positions

A position in a text can be given as the number of bytes in front of it.  Such a position may lie
beyond the end or inside a character, so that a slice between two positions need not exist.  The
slices that do exist are described by what stands in front of them and behind them.

* `cutAt?_eq_some_iff`, `slice?_eq_some_iff`: the parts of a text that is cut.
* `isSome_slice?_iff`: a slice exists if its bounds lie between characters, in the right order.
* `position?_eq_map_splitFirst?`: the position of a character is where the text is split at it.
-/

namespace ChangeQuery.Text

open String (utf8Len)

variable {c : Char} {cs before after part : List Char} {n start stop : ℕ}

/-- The characters in front of a byte position and those behind it, unless the position lies beyond
the end of the text or inside a character. -/
def cutAt? : ℕ → List Char → Option (List Char × List Char)
  | 0, cs => some ([], cs)
  | _ + 1, [] => none
  | n + 1, c :: cs =>
    if n + 1 < c.utf8Size then none
    else (cutAt? (n + 1 - c.utf8Size) cs).map fun parts => (c :: parts.1, parts.2)

/-- The characters between two byte positions, if the text can be cut at both. -/
def slice? (start stop : ℕ) (cs : List Char) : Option (List Char) :=
  (cutAt? stop cs).bind fun parts => (cutAt? start parts.1).map Prod.snd

/-- The byte position of the first occurrence of a character. -/
def position? (c : Char) : List Char → Option ℕ
  | [] => none
  | d :: cs => if d = c then some 0 else (position? c cs).map (· + d.utf8Size)

/-! ### Beginnings of a text -/

/-- **Of two beginnings of a text**, the one with fewer bytes is a beginning of the other. -/
theorem prefix_iff_utf8Len_le {front : List Char} (hbefore : before <+: cs) :
    front <+: before ↔ front <+: cs ∧ utf8Len front ≤ utf8Len before := by
  constructor
  · intro h
    exact ⟨h.trans hbefore, String.utf8Len_le_of_prefix h⟩
  · rintro ⟨hfront, hle⟩
    rcases List.prefix_or_prefix_of_prefix hfront hbefore with h | ⟨rest, rfl⟩
    · exact h
    -- Only the empty text has no bytes.
    · have hrest : utf8Len rest = 0 := by
        rw [String.utf8Len_append] at hle
        omega
      have hnil := String.utf8Len_eq_zero.mp hrest
      exact ⟨[], by rw [hnil, List.append_nil, List.append_nil]⟩

/-! ### Cutting -/

theorem cutAt?_append (before after : List Char) :
    cutAt? (utf8Len before) (before ++ after) = some (before, after) := by
  induction before with
  | nil => rw [String.utf8Len_nil, List.nil_append, cutAt?]
  | cons c before ih =>
    have hpos := c.utf8Size_pos
    obtain ⟨n, hn⟩ : ∃ n, utf8Len (c :: before) = n + 1 :=
      Nat.exists_eq_add_one.mpr (by rw [String.utf8Len_cons]; omega)
    rw [hn, List.cons_append, cutAt?]
    -- The position lies behind the first character.
    rw [String.utf8Len_cons] at hn
    rw [if_neg (by omega), ← hn, Nat.add_sub_cancel, ih]
    rfl

/-- **A cut** leaves two parts, of which the first has the given number of bytes. -/
theorem cutAt?_eq_some_iff :
    cutAt? n cs = some (before, after) ↔ before ++ after = cs ∧ utf8Len before = n := by
  constructor
  · intro h
    induction cs generalizing n before after with
    | nil =>
      cases n with
      | zero =>
        rw [cutAt?] at h
        obtain ⟨rfl, rfl⟩ := Prod.mk.inj (Option.some.inj h)
        exact ⟨rfl, rfl⟩
      | succ n =>
        rw [cutAt?] at h
        cases h
    | cons c cs ih =>
      cases n with
      | zero =>
        rw [cutAt?] at h
        obtain ⟨rfl, rfl⟩ := Prod.mk.inj (Option.some.inj h)
        exact ⟨rfl, rfl⟩
      | succ n =>
        rw [cutAt?] at h
        split_ifs at h with hinside
        obtain ⟨⟨front, rest⟩, hcut, heq⟩ := Option.map_eq_some_iff.mp h
        obtain ⟨rfl, rfl⟩ := Prod.mk.inj heq
        obtain ⟨rfl, hlen⟩ := ih hcut
        refine ⟨List.cons_append, ?_⟩
        rw [String.utf8Len_cons, hlen]
        omega
  · rintro ⟨rfl, rfl⟩
    exact cutAt?_append before after

/-- A text can be cut at the positions that lie between characters. -/
theorem isSome_cutAt?_iff {text : String} :
    (cutAt? n text.toList).isSome ↔ String.Pos.Raw.Valid text ⟨n⟩ := by
  rw [Option.isSome_iff_exists]
  constructor
  · rintro ⟨⟨before, after⟩, h⟩
    obtain ⟨hcs, hlen⟩ := cutAt?_eq_some_iff.mp h
    exact .intro ⟨before, after, hcs, hlen.symm⟩
  · intro h
    obtain ⟨before, after, rfl, hpos⟩ := h.exists
    obtain rfl := String.Pos.Raw.mk.inj hpos
    exact ⟨(before, after), by rw [String.toList_ofList, cutAt?_append]⟩

/-! ### Slices -/

/-- **A slice** is a part of the text with as many bytes in front of it as the start tells. -/
theorem slice?_eq_some_iff : slice? start stop cs = some part ↔
    ∃ before after, before ++ part ++ after = cs ∧ utf8Len before = start ∧
      utf8Len before + utf8Len part = stop := by
  constructor
  · intro h
    obtain ⟨⟨front, after⟩, hstop, hpart⟩ := Option.bind_eq_some_iff.mp h
    obtain ⟨⟨before, rest⟩, hstart, rfl⟩ := Option.map_eq_some_iff.mp hpart
    obtain ⟨rfl, hfront⟩ := cutAt?_eq_some_iff.mp hstop
    obtain ⟨rfl, hbefore⟩ := cutAt?_eq_some_iff.mp hstart
    refine ⟨before, after, rfl, hbefore, ?_⟩
    rw [← hfront, String.utf8Len_append]
  · rintro ⟨before, after, rfl, rfl, rfl⟩
    rw [slice?, ← String.utf8Len_append, cutAt?_append, Option.bind_some, cutAt?_append,
      Option.map_some]

/-- A slice exists if both bounds lie between characters and the first is not behind the second. -/
theorem isSome_slice?_iff {text : String} : (slice? start stop text.toList).isSome ↔
    String.Pos.Raw.Valid text ⟨start⟩ ∧ String.Pos.Raw.Valid text ⟨stop⟩ ∧ start ≤ stop := by
  rw [← isSome_cutAt?_iff, ← isSome_cutAt?_iff]
  constructor
  · intro h
    obtain ⟨part, hpart⟩ := Option.isSome_iff_exists.mp h
    obtain ⟨before, after, hcs, rfl, rfl⟩ := slice?_eq_some_iff.mp hpart
    refine ⟨?_, ?_, Nat.le_add_right _ _⟩
    · rw [← hcs, List.append_assoc, cutAt?_append, Option.isSome_some]
    · rw [← hcs, ← String.utf8Len_append, cutAt?_append, Option.isSome_some]
  · rintro ⟨hstart, hstop, hle⟩
    obtain ⟨⟨before, rest⟩, hcut⟩ := Option.isSome_iff_exists.mp hstart
    obtain ⟨⟨front, after⟩, hcut'⟩ := Option.isSome_iff_exists.mp hstop
    obtain ⟨hcs, rfl⟩ := cutAt?_eq_some_iff.mp hcut
    obtain ⟨hcs', rfl⟩ := cutAt?_eq_some_iff.mp hcut'
    -- What stands in front of the start begins what stands in front of the stop.
    obtain ⟨part, rfl⟩ := (prefix_iff_utf8Len_le ⟨after, hcs'⟩).mpr ⟨⟨rest, hcs⟩, hle⟩
    have hpart := slice?_eq_some_iff.mpr ⟨before, after, hcs', rfl, (String.utf8Len_append ..).symm⟩
    rw [hpart, Option.isSome_some]

/-- A text is a slice from its beginning. -/
theorem slice?_zero_of_prefix (h : part <+: cs) : slice? 0 (utf8Len part) cs = some part := by
  obtain ⟨after, rfl⟩ := h
  exact slice?_eq_some_iff.mpr ⟨[], after, rfl, rfl, Nat.zero_add _⟩

/-! ### The first occurrence of a character -/

theorem splitFirst?_nil : splitFirst? [c] [] = none := rfl

theorem splitFirst?_cons (c d : Char) (cs : List Char) :
    splitFirst? [c] (d :: cs) =
      if d = c then some ([], cs)
      else (splitFirst? [c] cs).map fun parts => (d :: parts.1, parts.2) := by
  rw [splitFirst?, cons_isPrefixOf?_cons, nil_isPrefixOf?]
  by_cases hd : d = c
  · rw [if_pos hd, if_pos (beq_iff_eq.mpr hd.symm)]
  · rw [if_neg hd, if_neg fun h => hd (beq_iff_eq.mp h).symm]

theorem splitFirst?_append (h : c ∉ before) (after : List Char) :
    splitFirst? [c] (before ++ c :: after) = some (before, after) := by
  induction before with
  | nil => rw [List.nil_append, splitFirst?_cons, if_pos rfl]
  | cons d before ih =>
    rw [List.mem_cons, not_or] at h
    obtain ⟨hd, hbefore⟩ := h
    rw [List.cons_append, splitFirst?_cons, if_neg (Ne.symm hd), ih hbefore, Option.map_some]

/-- **Splitting at a character** takes its first occurrence. -/
theorem splitFirst?_eq_some_iff :
    splitFirst? [c] cs = some (before, after) ↔ before ++ c :: after = cs ∧ c ∉ before := by
  constructor
  · intro h
    induction cs generalizing before with
    | nil =>
      rw [splitFirst?_nil] at h
      cases h
    | cons d cs ih =>
      rw [splitFirst?_cons] at h
      split_ifs at h with hd
      · obtain ⟨rfl, rfl⟩ := Prod.mk.inj (Option.some.inj h)
        exact ⟨by rw [hd, List.nil_append], List.not_mem_nil⟩
      · obtain ⟨⟨front, rest⟩, hsplit, heq⟩ := Option.map_eq_some_iff.mp h
        obtain ⟨rfl, rfl⟩ := Prod.mk.inj heq
        obtain ⟨rfl, hfront⟩ := ih hsplit
        exact ⟨List.cons_append, List.not_mem_cons_of_ne_of_not_mem (Ne.symm hd) hfront⟩
  · rintro ⟨rfl, hbefore⟩
    exact splitFirst?_append hbefore after

/-- The position of a character is where the text is split at it. -/
theorem position?_eq_map_splitFirst? (c : Char) (cs : List Char) :
    position? c cs = (splitFirst? [c] cs).map fun parts => utf8Len parts.1 := by
  induction cs with
  | nil => rfl
  | cons d cs ih =>
    rw [position?, splitFirst?_cons, ih]
    by_cases hd : d = c
    · rw [if_pos hd, if_pos hd, Option.map_some, String.utf8Len_nil]
    · rw [if_neg hd, if_neg hd, Option.map_map, Option.map_map]
      rfl

end ChangeQuery.Text
