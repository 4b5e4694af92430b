import ChangeQuery.Fingerprint.Vector
import ChangeQuery.Text.Blank
import ChangeQuery.Text.Split

/-!
## Rows of feature vectors as text

A feature vector is written on one line, a comma behind every counter.  Reading is more generous:
blank lines are passed over, blanks around lines and values are dropped, and the last comma may be
missing.  All rows must be as long as the first, and every value must be a counter of 32 bits in
decimal digits.  The first line that breaks a rule is reported.
-/

namespace ChangeQuery.FeatureRows

/-- The line of a feature vector, with its line feed. -/
def writeRow (row : FeatureVector) : String :=
  String.join (row.toList.map fun count => toString count.toNat ++ ",") ++ "\n"

/-- The lines of feature vectors. -/
def write (rows : List FeatureVector) : String :=
  String.join (rows.map writeRow)

/-- What is wrong with the line number `line`, counted from 1. -/
inductive RowError where
  /-- The value is no counter. -/
  | invalidValue (line : Nat) (value : String)
  /-- The row is not as long as the first one. -/
  | wrongLength (line expected found : Nat)
  deriving DecidableEq, Repr

/-- The wording of the cause. -/
def RowError.message : RowError → String
  | invalidValue line value =>
    "line " ++ toString line ++ ": invalid feature value \x60" ++ value ++ "\x60"
  | wrongLength line expected found =>
    s!"line {line}: expected {expected} features, found {found}"

/-- The number that decimal digits write. -/
def valueOfDigits (digits : List Char) : Nat :=
  digits.foldl (fun n c => 10 * n + (c.toNat - '0'.toNat)) 0

/-- The counter that a text writes: at least one digit, nothing else, and less than 2^32. -/
def counter? (value : List Char) : Option UInt32 :=
  if value ≠ [] ∧ value.all Char.isDigit ∧ valueOfDigits value < UInt32.size then
    some (UInt32.ofNat (valueOfDigits value))
  else none

/-- The values on a line, without the blanks around them. -/
def valuesOf (line : List Char) : List (List Char) :=
  let line := Text.trim line
  let line := if line.getLast? = some ',' then line.dropLast else line
  (Text.fields ',' line).map Text.trim

/-- The counters of a line, or the first value that is none. -/
def countersOf : List (List Char) → Except (List Char) (List UInt32)
  | [] => .ok []
  | value :: values =>
    match counter? value with
    | none => .error value
    | some count => (countersOf values).map (count :: ·)

/-- The row on a line that is not blank. -/
def readRow (number : Nat) (expected? : Option Nat) (line : List Char) :
    Except RowError FeatureVector :=
  match countersOf (valuesOf line) with
  | .error value => .error (.invalidValue number (String.ofList value))
  | .ok counts =>
    if expected?.all (· == counts.length) then .ok (.ofList counts)
    else .error (.wrongLength number (expected?.getD 0) counts.length)

/-- The rows on lines that are numbered from `number`; `expected?` is the length of a row once one
was read. -/
def readFrom (number : Nat) (expected? : Option Nat) :
    List (List Char) → Except RowError (List FeatureVector)
  | [] => .ok []
  | line :: lines =>
    if (Text.trim line).isEmpty then readFrom (number + 1) expected? lines
    else
      match readRow number expected? line with
      | .error e => .error e
      | .ok row => (readFrom (number + 1) (some row.dimension) lines).map (row :: ·)

/-- The rows on the given lines. -/
def readLines (lines : List (List Char)) : Except RowError (List FeatureVector) :=
  readFrom 1 none lines

/-- The rows of a text. -/
def read (text : List Char) : Except RowError (List FeatureVector) :=
  readLines (Text.lines text)

end ChangeQuery.FeatureRows
