import ChangeQuery.Proofs.FeatureRows.RoundTrip
import ChangeQuery.Proofs.Text.Bytes
import ChangeQuery.Proofs.Text.Utf8

/-!
## The format of feature rows

Any bytes can be offered as feature rows.  They are cut into lines; the lines that are not blank are the
rows as they are written (`writtenRows`), each with its values.  All this is said with general functions
on lists.  A row is sound if its values are counters and as many as the first row has.  The rows are read
exactly if all of them are sound, and otherwise the fault of the first one that is not sound is reported:
its first value that is no counter or else its length.

* `readRow_cases`: one row is read, or its fault is reported.
* `readFrom_cases`: the rows that are left, by induction on the lines.
* `read_format`: what is read from any bytes.
* `rows_survive`: rows that were written or read once are read again as they are.
-/

namespace ChangeQuery.FeatureRows

/-! ### Counters -/

/-- The number that decimal digits write. -/
def numberOf (digits : List Char) : ℕ :=
  Nat.ofDigitChars 10 digits 0

/-- The value is a counter in decimal digits: there is a digit, there is nothing else, and the number is
less than 2^32. -/
def IsCounter (value : List Char) : Prop :=
  value ≠ [] ∧ (∀ c ∈ value, c.isDigit) ∧ numberOf value < 2 ^ 32

theorem counter?_of_isCounter {value : List Char} (h : IsCounter value) :
    ∃ count : UInt32, counter? value = some count ∧ count.toNat = numberOf value := by
  obtain ⟨hne, hdigits, hlt⟩ := h
  refine ⟨.ofNat (numberOf value), if_pos ⟨hne, List.all_eq_true.mpr hdigits, hlt⟩, ?_⟩
  rw [UInt32.toNat_ofNat', Nat.mod_eq_of_lt hlt]

theorem counter?_of_not_isCounter {value : List Char} (h : ¬ IsCounter value) :
    counter? value = none := by
  refine if_neg fun hvalue => h ?_
  obtain ⟨hne, hdigits, hlt⟩ := hvalue
  exact ⟨hne, List.all_eq_true.mp hdigits, hlt⟩

/-- A reader of digits at the front of a text takes the longest run of them.  It gives their number and
how many they are; there is no number exactly if it does not fit into 32 bits. -/
structure ReadsDigits (front : List Char → Option UInt32 × ℕ) : Prop where
  taken : ∀ text, (front text).2 = (text.takeWhile Char.isDigit).length
  number : ∀ text, (front text).1 =
    if numberOf (text.takeWhile Char.isDigit) < 2 ^ 32 then
      some (.ofNat (numberOf (text.takeWhile Char.isDigit)))
    else none

/-- **Reading a counter** is reading digits at the front of a value, if there are some and nothing is
left behind them. -/
theorem counter?_eq_of_readsDigits {front : List Char → Option UInt32 × ℕ} (h : ReadsDigits front)
    (value : List Char) : counter? value =
      if 0 < (front value).2 ∧ (front value).2 = value.length then (front value).1 else none := by
  rw [h.taken, h.number, counter?]
  by_cases hall : ∀ c ∈ value, c.isDigit
  · rw [List.takeWhile_eq_self_iff.mpr hall]
    have hne : 0 < value.length ↔ value ≠ [] := List.length_pos_iff
    have hdigits : value.all Char.isDigit := List.all_eq_true.mpr hall
    by_cases hempty : value = []
    · simp [hempty]
    · simp only [hne, hempty, hdigits, ne_eq, not_false_eq_true, true_and, and_self, if_true]
      rfl
  · have hshort : (value.takeWhile Char.isDigit).length ≠ value.length := by
      intro hlength
      have hdigits : value.takeWhile Char.isDigit <+: value := List.takeWhile_prefix _
      exact hall (List.takeWhile_eq_self_iff.mp (hdigits.eq_of_length hlength))
    rw [if_neg fun hvalue => hall (List.all_eq_true.mp hvalue.2.1), if_neg fun hvalue => hshort hvalue.2]

/-- The values that are counters come back as numbers; the first one that is none is reported. -/
theorem countersOf_cases (values : List (List Char)) :
    (∃ counts, countersOf values = .ok counts ∧ (∀ value ∈ values, IsCounter value) ∧
      counts.map UInt32.toNat = values.map numberOf) ∨
    ∃ front value back, countersOf values = .error value ∧ values = front ++ value :: back ∧
      (∀ v ∈ front, IsCounter v) ∧ ¬ IsCounter value := by
  induction values with
  | nil => exact .inl ⟨[], rfl, by simp, rfl⟩
  | cons value values ih =>
    by_cases hvalue : IsCounter value
    · obtain ⟨count, hcount, hnat⟩ := counter?_of_isCounter hvalue
      rcases ih with ⟨counts, hread, hall, hnats⟩ | ⟨front, bad, back, hread, rfl, hfront, hbad⟩
      · refine .inl ⟨count :: counts, ?_, List.forall_mem_cons.mpr ⟨hvalue, hall⟩, ?_⟩
        · rw [countersOf, hcount, hread]
          rfl
        · rw [List.map_cons, List.map_cons, hnat, hnats]
      · refine .inr ⟨value :: front, bad, back, ?_, rfl, List.forall_mem_cons.mpr ⟨hvalue, hfront⟩, hbad⟩
        rw [countersOf, hcount, hread]
        rfl
    · refine .inr ⟨[], value, values, ?_, rfl, by simp, hvalue⟩
      rw [countersOf, counter?_of_not_isCounter hvalue]

/-! ### Rows as they are written -/

/-- The counters as natural numbers. -/
def numbersOf (vector : FeatureVector) : List ℕ :=
  vector.toList.map UInt32.toNat

/-- A row as it stands in a text: the number of its line and the values on it. -/
structure WrittenRow where
  line : ℕ
  values : List (List Char)

/-- A text without the blanks at its ends. -/
def trimmed (text : List Char) : List Char :=
  (text.dropWhile Text.isBlank).rdropWhile Text.isBlank

/-- The values on a line: a comma at the end of the trimmed line is dropped, and the parts between the
other commas are trimmed. -/
def writtenValues (line : List Char) : List (List Char) :=
  let body := if (trimmed line).getLast? = some ',' then (trimmed line).dropLast else trimmed line
  (body.splitOn ',').map trimmed

/-- The rows on lines that are numbered from `number`: the lines that are not blank. -/
def writtenFrom (number : ℕ) (lines : List (List Char)) : List WrittenRow :=
  ((lines.zipIdx number).filter fun line => !(trimmed line.1).isEmpty).map
    fun line => ⟨line.2, writtenValues line.1⟩

/-- The rows on lines that are numbered from 1. -/
def writtenRows (lines : List (List Char)) : List WrittenRow :=
  writtenFrom 1 lines

/-- How many values the first row has, and so every other row should have. -/
def firstLength (rows : List WrittenRow) : ℕ :=
  (rows.head?.map fun row => row.values.length).getD 0

namespace WrittenRow

/-- The values are counters, and there are as many as expected. -/
def IsSound (row : WrittenRow) (expected : ℕ) : Prop :=
  (∀ value ∈ row.values, IsCounter value) ∧ row.values.length = expected

/-- The numbers that the values write, in order. -/
def numbers (row : WrittenRow) : List ℕ :=
  row.values.map numberOf

/-- What is wrong with a row of which `expected` values were expected. -/
inductive Fault (row : WrittenRow) (expected : ℕ) : RowError → Prop where
  /-- The leftmost value that is no counter. -/
  | value {front back : List (List Char)} {value : List Char} :
    row.values = front ++ value :: back → (∀ v ∈ front, IsCounter v) → ¬ IsCounter value →
      Fault row expected (.invalidValue row.line (String.ofList value))
  /-- All values are counters, but they are too many or too few. -/
  | length : (∀ value ∈ row.values, IsCounter value) → row.values.length ≠ expected →
      Fault row expected (.wrongLength row.line expected row.values.length)

/-- A row with a fault is not sound. -/
theorem Fault.not_isSound {row : WrittenRow} {expected : ℕ} {e : RowError}
    (h : row.Fault expected e) : ¬ row.IsSound expected := by
  rintro ⟨hcounters, hlength⟩
  cases h with
  | value hvalues _ hvalue =>
    exact hvalue (hcounters _ (by simp [hvalues]))
  | length _ hne => exact hne hlength

end WrittenRow

variable {number : ℕ} {line : List Char} {lines : List (List Char)} {expected? : Option ℕ}

/-- A vector with the numbers of a row is as long as the row. -/
theorem length_eq_of_numbersOf_eq {row : WrittenRow} {vector : FeatureVector}
    (h : numbersOf vector = row.numbers) : vector.dimension = row.values.length := by
  have hlength := congrArg List.length h
  rw [numbersOf, WrittenRow.numbers, List.length_map, List.length_map] at hlength
  exact hlength

theorem trim_eq_trimmed (text : List Char) : Text.trim text = trimmed text := rfl

theorem valuesOf_eq_writtenValues (line : List Char) : valuesOf line = writtenValues line := by
  rw [valuesOf, writtenValues, Text.fields_eq_splitOn]
  rfl

theorem writtenFrom_of_blank (h : (trimmed line).isEmpty) :
    writtenFrom number (line :: lines) = writtenFrom (number + 1) lines := by
  simp [writtenFrom, List.zipIdx_cons, h]

theorem writtenFrom_of_row (h : (trimmed line).isEmpty = false) :
    writtenFrom number (line :: lines) =
      ⟨number, writtenValues line⟩ :: writtenFrom (number + 1) lines := by
  simp [writtenFrom, List.zipIdx_cons, h]

/-- There is at least one value in a row. -/
theorem length_values_pos {row : WrittenRow} (h : row ∈ writtenFrom number lines) :
    0 < row.values.length := by
  obtain ⟨line, -, rfl⟩ := List.mem_map.mp h
  simp only [writtenValues, List.length_map]
  exact List.length_pos_iff.mpr (List.splitOn_ne_nil ',' _)

/-! ### Reading -/

/-- **One row** is read if it is sound, and its fault is reported if it is not. -/
theorem readRow_cases (number : ℕ) (expected? : Option ℕ) (line : List Char) {row : WrittenRow}
    (hrow : row = ⟨number, writtenValues line⟩) {expected : ℕ}
    (hexpected : expected = expected?.getD row.values.length) :
    (∃ vector, readRow number expected? line = .ok vector ∧ row.IsSound expected ∧
      numbersOf vector = row.numbers) ∨
    ∃ e, readRow number expected? line = .error e ∧ row.Fault expected e := by
  subst hrow
  dsimp only at hexpected
  rw [readRow, valuesOf_eq_writtenValues]
  rcases countersOf_cases (writtenValues line) with
    ⟨counts, hread, hall, hnats⟩ | ⟨front, value, back, hread, hvalues, hfront, hvalue⟩
  · have hlength : counts.length = (writtenValues line).length := by
      have h := congrArg List.length hnats
      rwa [List.length_map, List.length_map] at h
    have hdue : expected?.all (· == counts.length) ↔
        (writtenValues line).length = expected := by
      rw [hexpected, hlength]
      cases expected? with
      | none => simp
      | some n => simpa using eq_comm
    by_cases hcount : (writtenValues line).length = expected
    · refine .inl ⟨.ofList counts, ?_, ⟨hall, hcount⟩, hnats⟩
      rw [hread]
      exact if_pos (hdue.mpr hcount)
    · refine .inr ⟨_, ?_, .length hall hcount⟩
      rw [hread]
      have hreported : expected?.getD 0 = expected := by
        cases expected? with
        | none => exact absurd hexpected.symm hcount
        | some n => exact hexpected.symm
      rw [← hlength, ← hreported]
      exact if_neg fun h => hcount (hdue.mp h)
  · refine .inr ⟨_, ?_, .value hvalues hfront hvalue⟩
    rw [hread]

/-- **The rows that are left** are read if all of them are sound, and otherwise the fault of the first
one that is not is reported. -/
theorem readFrom_cases (lines : List (List Char)) : ∀ (number : ℕ) (expected? : Option ℕ)
    {rows : List WrittenRow} (_ : rows = writtenFrom number lines) {expected : ℕ}
    (_ : expected = expected?.getD (firstLength rows)),
    (∃ vectors, readFrom number expected? lines = .ok vectors ∧
      (∀ row ∈ rows, row.IsSound expected) ∧
        vectors.map numbersOf = rows.map WrittenRow.numbers) ∨
    ∃ e before row after, readFrom number expected? lines = .error e ∧
      rows = before ++ row :: after ∧ (∀ r ∈ before, r.IsSound expected) ∧ row.Fault expected e := by
  induction lines with
  | nil =>
    rintro number expected? rows rfl expected -
    exact .inl ⟨[], rfl, by simp [writtenFrom], rfl⟩
  | cons line lines ih =>
    rintro number expected? rows rfl expected hexpected
    by_cases hblank : (trimmed line).isEmpty
    · rw [writtenFrom_of_blank hblank] at hexpected ⊢
      rw [readFrom, trim_eq_trimmed, if_pos hblank]
      exact ih (number + 1) expected? rfl hexpected
    · have hline : (trimmed line).isEmpty = false := by simpa using hblank
      rw [writtenFrom_of_row hline] at hexpected ⊢
      rw [readFrom, trim_eq_trimmed, if_neg hblank]
      rcases readRow_cases number expected? line rfl hexpected with
        ⟨vector, hread, hsound, hnumbers⟩ | ⟨e, hread, hfault⟩
      · -- The first row that is read says how long the others have to be.
        have hdimension : vector.dimension = expected := by
          rw [← hsound.2]
          exact length_eq_of_numbersOf_eq hnumbers
        rw [hread]
        dsimp only
        rcases ih (number + 1) (some vector.dimension) rfl hdimension.symm with
          ⟨vectors, hrest, hall, hequal⟩ | ⟨e, before, row, after, hrest, hrows, hbefore, hfault⟩
        · refine .inl ⟨vector :: vectors, ?_, List.forall_mem_cons.mpr ⟨hsound, hall⟩, ?_⟩
          · rw [hrest]
            rfl
          · rw [List.map_cons, List.map_cons, hnumbers, hequal]
        · refine .inr ⟨e, _ :: before, row, after, ?_, ?_, List.forall_mem_cons.mpr ⟨hsound, hbefore⟩,
            hfault⟩
          · rw [hrest]
            rfl
          · rw [hrows, List.cons_append]
      · rw [hread]
        exact .inr ⟨e, [], _, _, rfl, rfl, by simp, hfault⟩

/-- What reading has to answer for rows as they are written. -/
structure ReadsAs (rows : List WrittenRow) (outcome : Except RowError (List FeatureVector)) :
    Prop where
  /-- Rows are read exactly if all values are counters and all rows have the same length. -/
  isOk_iff : (∃ vectors, outcome = .ok vectors) ↔
    (∀ row ∈ rows, ∀ value ∈ row.values, IsCounter value) ∧
      ∀ row ∈ rows, ∀ other ∈ rows, row.values.length = other.values.length
  /-- The rows that are read have the numbers that the values write, in order. -/
  numbers : ∀ vectors, outcome = .ok vectors → vectors.map numbersOf = rows.map WrittenRow.numbers
  /-- The fault that is reported is that of the first row that is not sound. -/
  fault : ∀ e, outcome = .error e → ∃ before row after, rows = before ++ row :: after ∧
    (∀ r ∈ before, r.IsSound (firstLength rows)) ∧ row.Fault (firstLength rows) e

/-- All rows are as long as the first one if they are of one length. -/
theorem forall_length_eq_firstLength_iff {rows : List WrittenRow} :
    (∀ row ∈ rows, row.values.length = firstLength rows) ↔
      ∀ row ∈ rows, ∀ other ∈ rows, row.values.length = other.values.length := by
  constructor
  · intro h row hrow other hother
    rw [h row hrow, h other hother]
  · intro h row hrow
    cases rows with
    | nil => exact absurd hrow List.not_mem_nil
    | cons first rest => exact h row hrow first List.mem_cons_self

/-- Rows are all sound exactly if their values are counters and they are of one length. -/
theorem forall_isSound_iff {rows : List WrittenRow} :
    (∀ row ∈ rows, row.IsSound (firstLength rows)) ↔
      (∀ row ∈ rows, ∀ value ∈ row.values, IsCounter value) ∧
        ∀ row ∈ rows, ∀ other ∈ rows, row.values.length = other.values.length := by
  rw [← forall_length_eq_firstLength_iff, ← forall₂_and]
  rfl

/-- What is read from lines. -/
theorem readsAs_readLines (lines : List (List Char)) :
    ReadsAs (writtenRows lines) (readLines lines) := by
  have hrows : writtenRows lines = writtenFrom 1 lines := rfl
  rcases readFrom_cases lines 1 none hrows rfl with
    ⟨vectors, hread, hall, hnumbers⟩ | ⟨e, before, row, after, hread, hsplit, hbefore, hfault⟩
  · rw [readLines, hread]
    refine ⟨iff_of_true ⟨vectors, rfl⟩ (forall_isSound_iff.mp hall), ?_, by simp⟩
    rintro _ ⟨⟩
    exact hnumbers
  · rw [readLines, hread]
    refine ⟨iff_of_false (by simp) fun hall => ?_, by simp, ?_⟩
    · have hrow : row ∈ writtenRows lines := by simp [hsplit]
      exact hfault.not_isSound (forall_isSound_iff.mpr hall row hrow)
    · rintro _ ⟨⟩
      exact ⟨before, row, after, hsplit, hbefore, hfault⟩

/-- **What is read from any bytes**, line by line, with any reader of digits: a value is a counter if
the reader takes all of it and gives a number; the rows are read if they keep to the format, and
otherwise the first fault is reported. -/
theorem read_format {front : List Char → Option UInt32 × ℕ} (hfront : ReadsDigits front)
    (bytes : List UInt8) :
    (∀ value, counter? value =
      if 0 < (front value).2 ∧ (front value).2 = value.length then (front value).1 else none) ∧
    ReadsAs (writtenRows ((Text.Utf8.linesOfBytes bytes).map Text.Utf8.decode))
      (read (Text.Utf8.decode bytes)) := by
  refine ⟨counter?_eq_of_readsDigits hfront, ?_⟩
  rw [read, Text.Utf8.lines_decode]
  exact readsAs_readLines _

/-- The digits at the front of a text, read one by one. -/
def leadingCounter (text : List Char) : Option UInt32 × ℕ :=
  let digits := text.takeWhile Char.isDigit
  (if numberOf digits < 2 ^ 32 then some (.ofNat (numberOf digits)) else none, digits.length)

/-- In the third line, which follows a blank one, a number is too large. -/
def faultyText : String :=
  "1,2,\n \r\n3,4294967296\n5"

theorem faultyText_format : ReadsDigits leadingCounter ∧
    ReadsAs (writtenRows
        ((Text.Utf8.linesOfBytes (Text.Utf8.encode faultyText.toList)).map Text.Utf8.decode))
      (.error (.invalidValue 3 "4294967296")) := by
  have hfront : ReadsDigits leadingCounter := ⟨fun _ => rfl, fun _ => rfl⟩
  have hread : read (Text.Utf8.decode (Text.Utf8.encode faultyText.toList)) =
      .error (.invalidValue 3 "4294967296") := by
    rw [Text.Utf8.decode_encode]
    decide
  exact ⟨hfront, hread ▸ (read_format hfront (Text.Utf8.encode faultyText.toList)).2⟩

/-! ### Rows read and written again -/

/-- Rows that were read are of one length and have at least one counter each. -/
theorem exists_dimension_of_read {text : List Char} {vectors : List FeatureVector}
    (h : read text = .ok vectors) :
    ∃ dimension ≠ 0, ∀ vector ∈ vectors, vector.dimension = dimension := by
  have hreads := readsAs_readLines (Text.lines text)
  have hlengths : ∀ row ∈ writtenRows (Text.lines text),
      row.values.length = firstLength (writtenRows (Text.lines text)) :=
    forall_length_eq_firstLength_iff.mpr (hreads.isOk_iff.mp ⟨vectors, h⟩).2
  have hrow : ∀ vector ∈ vectors, ∃ row ∈ writtenRows (Text.lines text),
      vector.dimension = row.values.length := by
    intro vector hvector
    have hmem : numbersOf vector ∈ vectors.map numbersOf := List.mem_map_of_mem hvector
    rw [hreads.numbers vectors h] at hmem
    obtain ⟨row, hrow, heq⟩ := List.mem_map.mp hmem
    exact ⟨row, hrow, length_eq_of_numbersOf_eq heq.symm⟩
  cases vectors with
  | nil => exact ⟨1, one_ne_zero, by simp⟩
  | cons first rest =>
    obtain ⟨row, hmem, -⟩ := hrow first List.mem_cons_self
    refine ⟨firstLength (writtenRows (Text.lines text)), ?_, fun vector hvector => ?_⟩
    · rw [← hlengths row hmem]
      exact (length_values_pos hmem).ne'
    · obtain ⟨other, hother, heq⟩ := hrow vector hvector
      rw [heq, hlengths other hother]

/-- **Rows survive writing and reading.**  Rows of one length that have a counter at all are read from
the bytes that they are written as, and so are the rows that were read from any bytes before. -/
theorem rows_survive :
    (∀ (dimension : ℕ) (rows : List FeatureVector), 1 ≤ dimension →
      (∀ row ∈ rows, row.dimension = dimension) →
        read (Text.Utf8.decode (Text.Utf8.encode (write rows).toList)) = .ok rows) ∧
    ∀ (bytes : List UInt8) (rows : List FeatureVector), read (Text.Utf8.decode bytes) = .ok rows →
      read (Text.Utf8.decode (Text.Utf8.encode (write rows).toList)) = .ok rows := by
  constructor
  · intro dimension rows hpos hrows
    rw [Text.Utf8.decode_encode]
    exact read_write (by omega) hrows
  · intro bytes rows hread
    obtain ⟨dimension, hpos, hrows⟩ := exists_dimension_of_read hread
    rw [Text.Utf8.decode_encode]
    exact read_write hpos hrows

/-- Two rows of two counters. -/
def sampleRows : List FeatureVector :=
  [.ofList [0, 4294967295], .ofList [7, 8]]

/-- A generous way to write a row: blanks, a leading zero and a blank line. -/
def sampleText : String :=
  " 7, 08 ,\r\n\n"

theorem sampleRows_survive :
    (∀ row ∈ sampleRows, row.dimension = 2) ∧
      read (Text.Utf8.decode (Text.Utf8.encode (write sampleRows).toList)) = .ok sampleRows ∧
      read (Text.Utf8.decode (Text.Utf8.encode sampleText.toList)) = .ok [.ofList [7, 8]] ∧
      read (Text.Utf8.decode (Text.Utf8.encode (write [.ofList [7, 8]]).toList)) =
        .ok [.ofList [7, 8]] := by
  have hrows : ∀ row ∈ sampleRows, row.dimension = 2 := by decide
  have hread : read (Text.Utf8.decode (Text.Utf8.encode sampleText.toList)) =
      .ok [.ofList [7, 8]] := by
    rw [Text.Utf8.decode_encode]
    decide
  exact ⟨hrows, rows_survive.1 2 sampleRows (by decide) hrows, hread, rows_survive.2 _ _ hread⟩

end ChangeQuery.FeatureRows
