import ChangeQuery.Decimal.Shortest

/-!
## The binary number nearest to a decimal

A decimal is rounded to binary64 in exact arithmetic.  The numbers of binary64 are `m · 2^q` with
`m < 2^53` and `q` from -1074 on, and `m` is at least `2^52` unless `q` is the least exponent.  So `q`
follows from the size of the decimal, and `m` by a division whose remainder decides about rounding; a
tie goes to the even neighbour.

The bits of `m · 2^q` are those of the number `(q + 1074) · 2^52 + m`.  This holds for `m = 2^53` as
well, to which a decimal can be rounded up.
-/

namespace ChangeQuery.Decimal

/-- The fraction `num / den` is at least `2^k`. -/
def reachesPower (num den : Nat) (k : Int) : Bool :=
  den * power 2 k ≤ num * power 2 (-k)

/-- The exponent `q` for which a positive fraction is `m · 2^q` with `2^52 ≤ m < 2^53`, but not less
than the least exponent. -/
def binaryExponent (num den : Nat) : Int :=
  let estimate : Int := num.log2 - den.log2
  let exponent := if reachesPower num den estimate then estimate else estimate - 1
  max (exponent - 52) FloatReading.leastExponent

/-- The fraction `num / den` divided by `2^q` and rounded to a whole number. -/
def scaledToPower (num den : Nat) (q : Int) : Nat :=
  let num := num * power 2 (-q)
  let den := den * power 2 q
  let floor := num / den
  if Tie.even.roundsUp floor (num % den) den then floor + 1 else floor

/-- The bits of the number nearest to a fraction; those of infinity or more if it is too large. -/
def nearestBits (num den : Nat) : Nat :=
  if num = 0 then 0
  else
    let q := binaryExponent num den
    (q - FloatReading.leastExponent).toNat * (1 <<< 52) + scaledToPower num den q

/-- The binary number nearest to a decimal, if it is finite.  Decimals below 10^-400 and from 10^400
on need no look at their digits. -/
def toFloat? (d : Decimal) : Option Float :=
  let magnitude : Int := digitCount d.digits + d.exponent
  if d.digits = 0 ∨ magnitude < -400 then some 0
  else if 400 < magnitude then none
  else
    let bits := nearestBits (d.digits * power 10 d.exponent) (power 10 (-d.exponent))
    if bits < 2047 * (1 <<< 52) then some (.ofBits (UInt64.ofNat bits)) else none

example : nearestBits 1 1 = 1023 * 2 ^ 52 ∧ nearestBits 1 10 = 0x3FB999999999999A := by decide

/-- Just above the middle between 1 and its successor, a decimal is rounded up. -/
example : nearestBits (2 ^ 53 + 1) (2 ^ 53) = nearestBits 1 1 ∧
    nearestBits (10 * (2 ^ 53 + 1) + 1) (10 * 2 ^ 53) = nearestBits 1 1 + 1 := by decide

end ChangeQuery.Decimal
