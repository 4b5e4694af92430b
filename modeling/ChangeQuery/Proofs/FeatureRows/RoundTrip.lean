import ChangeQuery.FeatureRows
import ChangeQuery.Proofs.Text.Lines
import ChangeQuery.Proofs.Text.Trimming
import Mathlib.Data.List.Basic

/-!
## Feature rows written and read

Rows of one length that have a counter at all are read as they were written.  What is written for a
row has a digit at the front and a comma at the end, so nothing is trimmed, no line counts as blank and
no value is lost with the last comma.

* `counter?_digits`: a counter is read from its decimal digits.
* `valuesOf_rowLine`: the values on the line of a row.
* `read_write`: the rows of a text that was written.
-/

namespace ChangeQuery

namespace Text

/-- Digits are not blank. -/
theorem isBlank_of_isDigit {c : Char} (h : c.isDigit) : isBlank c = false := by
  have hrange : 48 ≤ c.toNat ∧ c.toNat ≤ 57 := by
    simpa [Char.isDigit, UInt32.le_iff_toNat_le] using h
  simp only [isBlank, blankRanges, List.any_cons, List.any_nil, Bool.or_eq_false_iff,
    Bool.and_eq_false_iff, decide_eq_false_iff_not, Bool.or_false]
  omega

end Text

namespace FeatureRows

/-! ### Counters -/

/-- The decimal digits of a counter. -/
def digits (count : UInt32) : List Char :=
  Nat.toDigits 10 count.toNat

theorem isDigit_of_mem_digits {count : UInt32} {c : Char} (h : c ∈ digits count) : c.isDigit :=
  Nat.isDigit_of_mem_toDigits (by decide) (by decide) h

theorem comma_notMem_digits (count : UInt32) : ',' ∉ digits count :=
  fun h => absurd (isDigit_of_mem_digits h) (by decide)

theorem trim_digits (count : UInt32) : Text.trim (digits count) = digits count :=
  Text.trim_of_ends
    (fun _ hc => Text.isBlank_of_isDigit (isDigit_of_mem_digits (List.mem_of_mem_head? hc)))
    (fun _ hc => Text.isBlank_of_isDigit (isDigit_of_mem_digits (List.mem_of_mem_getLast? hc)))

theorem valueOfDigits_digits (count : UInt32) : valueOfDigits (digits count) = count.toNat :=
  Nat.ofDigitChars_ten_toDigits

/-- A counter is read from its digits. -/
theorem counter?_digits (count : UInt32) : counter? (digits count) = some count := by
  have hdigits : (digits count).all Char.isDigit :=
    List.all_eq_true.mpr fun _ => isDigit_of_mem_digits
  rw [counter?, valueOfDigits_digits,
    if_pos ⟨Nat.toDigits_ne_nil, hdigits, count.toNat_lt_size⟩, UInt32.ofNat_toNat]

theorem countersOf_map_digits (counts : List UInt32) :
    countersOf (counts.map digits) = .ok counts := by
  induction counts with
  | nil => rfl
  | cons count counts ih =>
    rw [List.map_cons, countersOf, counter?_digits, ih]
    rfl

/-! ### Lines -/

/-- What stands on the line of a row. -/
def rowLine (row : FeatureVector) : List Char :=
  (row.toList.map digits).flatMap (· ++ [','])

theorem toList_write (rows : List FeatureVector) :
    (write rows).toList = (rows.map rowLine).flatMap (· ++ ['\n']) := by
  have hrow : ∀ row : FeatureVector, (writeRow row).toList = rowLine row ++ ['\n'] := by
    intro row
    rw [writeRow, String.toList_append, String.toList_join, List.flatMap_map, rowLine,
      List.flatMap_map]
    refine congrArg (· ++ ['\n']) (List.flatMap_congr fun count _ => ?_)
    rw [String.toList_append, Nat.toString_eq_ofList_toDigits, String.toList_ofList]
    rfl
  rw [write, String.toList_join, List.flatMap_map, List.flatMap_map]
  exact List.flatMap_congr fun row _ => hrow row

theorem isDigit_or_comma_of_mem_rowLine {row : FeatureVector} {c : Char} (h : c ∈ rowLine row) :
    c.isDigit ∨ c = ',' := by
  obtain ⟨value, hvalue, hc⟩ := List.mem_flatMap.mp h
  obtain ⟨count, -, rfl⟩ := List.mem_map.mp hvalue
  rcases List.mem_append.mp hc with hc | hc
  · exact .inl (isDigit_of_mem_digits hc)
  · exact .inr (List.mem_singleton.mp hc)

/-- Nothing is trimmed from the line of a row. -/
theorem trim_rowLine (row : FeatureVector) : Text.trim (rowLine row) = rowLine row := by
  have hvisible : ∀ c ∈ rowLine row, Text.isBlank c = false := by
    intro c hc
    rcases isDigit_or_comma_of_mem_rowLine hc with hdigit | rfl
    · exact Text.isBlank_of_isDigit hdigit
    · decide
  exact Text.trim_of_ends (fun c hc => hvisible c (List.mem_of_mem_head? hc))
    (fun c hc => hvisible c (List.mem_of_mem_getLast? hc))

/-- The comma at the end of a line stands behind the digits of the last counter. -/
theorem exists_rowLine_eq {row : FeatureVector} (hrow : row.dimension ≠ 0) :
    ∃ front last, row.toList = front ++ [last] ∧
      rowLine row = ((front.map digits).flatMap (· ++ [',']) ++ digits last) ++ [','] := by
  have hlength : row.toList.length = row.dimension := Array.length_toList
  have hne : row.toList ≠ [] := by
    intro hnil
    rw [hnil] at hlength
    exact hrow hlength.symm
  obtain ⟨front, last, hsplit⟩ := (List.eq_nil_or_concat' row.toList).resolve_left hne
  refine ⟨front, last, hsplit, ?_⟩
  rw [rowLine, hsplit]
  simp

/-- **The values on the line of a row** are its counters: only the last comma has nothing behind it. -/
theorem valuesOf_rowLine {row : FeatureVector} (hrow : row.dimension ≠ 0) :
    valuesOf (rowLine row) = row.toList.map digits := by
  obtain ⟨front, last, hsplit, hline⟩ := exists_rowLine_eq hrow
  have hcommas : ∀ part ∈ front.map digits, ',' ∉ part := by
    intro part hpart
    obtain ⟨count, -, rfl⟩ := List.mem_map.mp hpart
    exact comma_notMem_digits count
  rw [valuesOf, trim_rowLine, hline, if_pos List.getLast?_concat,
    List.dropLast_concat, Text.fields_flatMap_append hcommas (comma_notMem_digits last), hsplit]
  simp [trim_digits]

theorem readRow_rowLine {row : FeatureVector} (hrow : row.dimension ≠ 0) {number : ℕ}
    {expected? : Option ℕ} (hexpected : expected?.all (· == row.dimension)) :
    readRow number expected? (rowLine row) = .ok row := by
  rw [readRow, valuesOf_rowLine hrow, countersOf_map_digits]
  exact if_pos hexpected

/-! ### Texts -/

/-- Rows of one length are read from their lines. -/
theorem readFrom_rowLines {dimension : ℕ} (hpos : dimension ≠ 0) {rows : List FeatureVector}
    (hrows : ∀ row ∈ rows, row.dimension = dimension) :
    ∀ (number : ℕ) {expected? : Option ℕ}, expected?.all (· == dimension) →
      readFrom number expected? (rows.map rowLine) = .ok rows := by
  induction rows with
  | nil => exact fun _ _ _ => rfl
  | cons row rows ih =>
    intro number expected? hexpected
    obtain ⟨hrow, hrest⟩ := List.forall_mem_cons.mp hrows
    have hne : row.dimension ≠ 0 := hrow ▸ hpos
    have hvisible : (Text.trim (rowLine row)).isEmpty = false := by
      obtain ⟨front, last, -, hline⟩ := exists_rowLine_eq hne
      rw [trim_rowLine, hline]
      simp
    rw [List.map_cons, readFrom, hvisible, if_neg Bool.false_ne_true,
      readRow_rowLine hne (hrow ▸ hexpected)]
    dsimp only
    rw [ih hrest _ (by simp [hrow])]
    rfl

/-- **Rows survive writing and reading** if they have one length and are not empty. -/
theorem read_write {dimension : ℕ} (hpos : dimension ≠ 0) {rows : List FeatureVector}
    (hrows : ∀ row ∈ rows, row.dimension = dimension) : read (write rows).toList = .ok rows := by
  have hdrop : ∀ row : FeatureVector, Text.dropReturn (rowLine row) = rowLine row := by
    intro row
    refine Text.dropReturn_of_ne fun hreturn => ?_
    rcases isDigit_or_comma_of_mem_rowLine (List.mem_of_getLast? hreturn) with h | h
    all_goals exact absurd h (by decide)
  have hlines : ∀ line ∈ rows.map rowLine, '\n' ∉ line := by
    intro line hline hbreak
    obtain ⟨row, -, rfl⟩ := List.mem_map.mp hline
    rcases isDigit_or_comma_of_mem_rowLine hbreak with h | h
    all_goals exact absurd h (by decide)
  rw [read, toList_write, Text.lines_flatMap hlines, List.map_map, readLines,
    List.map_congr_left fun row _ => show (Text.dropReturn ∘ rowLine) row = rowLine row from hdrop row]
  exact readFrom_rowLines hpos hrows 1 rfl

end FeatureRows

end ChangeQuery
