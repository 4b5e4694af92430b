import ChangeQuery.Decimal.Nearest
import ChangeQuery.Text.Digits

/-!
## Decimal notation

A number in decimal notation has digits, of which a point may stand before, among or behind, and
perhaps an exponent after `e` or `E`.  A sign may stand before the digits and before the exponent.
`Decimal.ofNotation?` reads the part behind the first sign exactly.
-/

namespace ChangeQuery

namespace Decimal

/-- Takes a sign off a text; `true` stands for minus. -/
def splitSign : List Char → Bool × List Char
  | '-' :: text => (true, text)
  | '+' :: text => (false, text)
  | text => (false, text)

/-- The number that an optional sign and digits write. -/
def integer? (text : List Char) : Option Int :=
  let (negative, digits) := splitSign text
  (Text.numberOfDigits? 10 digits).map fun n => if negative then -Int.ofNat n else Int.ofNat n

/-- Reads digits with at most one point. -/
def ofDigits? (text : List Char) : Option Decimal :=
  let whole := text.takeWhile (· != '.')
  let fraction := (text.dropWhile (· != '.')).drop 1
  (Text.numberOfDigits? 10 (whole ++ fraction)).map fun n => ⟨n, -Int.ofNat fraction.length⟩

/-- Reads a decimal without a sign before it. -/
def ofNotation? (text : List Char) : Option Decimal :=
  let isMark (c : Char) : Bool := c == 'e' || c == 'E'
  match text.dropWhile (!isMark ·) with
  | [] => ofDigits? text
  | _ :: exponent => do
    let d ← ofDigits? (text.takeWhile (!isMark ·))
    some ⟨d.digits, d.exponent + (← integer? exponent)⟩

example : ofNotation? "12.50e-3".toList = some ⟨1250, -5⟩ ∧ ofNotation? ".5".toList = some ⟨5, -1⟩ ∧
    ofNotation? ".".toList = none ∧ ofNotation? "1.2.3".toList = none := by decide

end Decimal

/-- The binary number nearest to a number in decimal notation, if it is finite. -/
def floatOfNotation? (text : List Char) : Option Float := do
  let (negative, magnitude) := Decimal.splitSign text
  let x ← (← Decimal.ofNotation? magnitude).toFloat?
  some (if negative then -x else x)

end ChangeQuery
