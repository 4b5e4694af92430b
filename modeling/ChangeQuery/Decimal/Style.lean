import ChangeQuery.Decimal.Shortest

/-!
## Writing binary numbers

A `FloatStyle` says how the shortest decimal of a number is laid out: within which bounds it is
written with a point and without exponent, whether whole numbers keep `.0`, what infinity and the
undefined number are called, and which of two equally near decimals is written.
-/

namespace ChangeQuery

/-- How numbers are laid out. -/
structure FloatStyle where
  /-- Whole numbers end in `.0`. -/
  keepsPoint : Bool
  /-- The position of the point for which no exponent is written: greater than the first bound and
  at most the second.  Without bounds, an exponent is never written. -/
  positional? : Option (Int × Int)
  nan : String
  infinity : String
  tie : Decimal.Tie

namespace FloatStyle

/-- Numbers in messages: never an exponent, and whole numbers without a point. -/
def message : FloatStyle := ⟨false, none, "NaN", "inf", .up⟩

/-- Numbers in documents: an exponent for very small and very large numbers, and whole numbers
with `.0`. -/
def document : FloatStyle := ⟨true, some (-5, 16), ".nan", ".inf", .even⟩

/-- The point may stand at this position without an exponent. -/
def isPositional (s : FloatStyle) (point : Int) : Bool :=
  s.positional?.all fun bounds => bounds.1 < point && point ≤ bounds.2

/-- The digits of a decimal laid out by the style. -/
def writeDecimal (s : FloatStyle) (d : Decimal) : List Char :=
  let digits := Nat.toDigits 10 d.digits
  let count : Int := digits.length
  let point : Int := count + d.exponent
  if d.digits = 0 then if s.keepsPoint then ['0', '.', '0'] else ['0']
  else if s.isPositional point then
    if 0 ≤ d.exponent then
      digits ++ List.replicate d.exponent.toNat '0' ++ (if s.keepsPoint then ['.', '0'] else [])
    else if 0 < point then digits.take point.toNat ++ '.' :: digits.drop point.toNat
    else '0' :: '.' :: List.replicate (-point).toNat '0' ++ digits
  else
    let fraction := digits.drop 1
    digits.take 1 ++ (if fraction.isEmpty then [] else '.' :: fraction) ++
      'e' :: (toString (point - 1)).toList

/-- The text of a number. -/
def write (s : FloatStyle) (x : Float) : String :=
  let sign (negative : Bool) : String := if negative then "-" else ""
  match FloatReading.ofBits s.tie x.toBits with
  | .nan => s.nan
  | .infinite negative => sign negative ++ s.infinity
  | .finite negative magnitude => sign negative ++ String.ofList (s.writeDecimal magnitude)

end FloatStyle

end ChangeQuery
