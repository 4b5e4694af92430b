/-!
## The shortest decimal of a binary number

A finite number of binary64 is `m · 2^q` for whole numbers `m` and `q`, and every real nearer to it
than to its neighbours is read back as the same number.  `shortest` finds the decimal with the fewest
digits among those reals and, among decimals of that length, the one nearest to the number.  Of two
decimals equally near, a `Tie` says which one is taken.

For 1, 2, … 17 digits, only the two decimals of that length around the number need a look.  All
arithmetic is exact: the number and the ends of its interval are fractions with one denominator.
-/

namespace ChangeQuery

/-- The number `digits · 10^exponent`. -/
structure Decimal where
  digits : Nat
  exponent : Int
  deriving DecidableEq, Repr

namespace Decimal

/-- Which of two equally near decimals is taken: the greater one, or the one with an even last
digit. -/
inductive Tie where
  | up
  | even
  deriving DecidableEq, Repr

/-- The power `base^k`, or 1 if `k` is negative. -/
def power (base : Nat) (k : Int) : Nat :=
  Nat.pow base k.toNat

/-- The remainder of a division by `den` calls for the next greater quotient. -/
def Tie.roundsUp (tie : Tie) (quotient remainder den : Nat) : Bool :=
  den < 2 * remainder || (2 * remainder == den && (tie == .up || quotient % 2 == 1))

/-- A positive number and the ends of the interval that is read back as it, over the common
denominator `scale`; `closed` tells whether the ends belong to the interval. -/
structure Target where
  low : Nat
  value : Nat
  high : Nat
  scale : Nat
  closed : Bool

/-- The target of `m · 2^q`.  Below a power of two the next smaller number is only half as far away,
unless the exponent is the least one. -/
def Target.ofBinary (m : Nat) (q : Int) (leastExponent : Int) : Target :=
  let below := if m = 1 <<< 52 ∧ leastExponent < q then 1 else 2
  let shift := power 2 (q - 2)
  ⟨(4 * m - below) * shift, 4 * m * shift, (4 * m + 2) * shift, power 2 (2 - q), m % 2 = 0⟩

/-- The number of decimal digits, which is 0 for 0. -/
def digitCount (n : Nat) : Nat :=
  if n = 0 then 0 else (Nat.toDigits 10 n).length

/-- The fraction `num / den` is at least `10^k`. -/
def reaches (num den : Nat) (k : Int) : Bool :=
  den * power 10 k ≤ num * power 10 (-k)

/-- The exponent of the largest power of ten that is not above the fraction `num / den`. -/
def magnitude (num den : Nat) : Int :=
  let estimate : Int := digitCount num - digitCount den
  if reaches num den estimate then estimate else estimate - 1

/-- The decimal `n · 10^k` lies in the interval of the target. -/
def Target.holds (t : Target) (n : Nat) (k : Int) : Bool :=
  let x := n * power 10 k * t.scale
  let unit := power 10 (-k)
  if t.closed then t.low * unit ≤ x && x ≤ t.high * unit else t.low * unit < x && x < t.high * unit

/-- The decimal with `count` digits that is nearest to the target, if one is in its interval. -/
def Target.atLength (t : Target) (tie : Tie) (count : Nat) : Option Decimal :=
  let k : Int := magnitude t.value t.scale + 1 - count
  let num := t.value * power 10 (-k)
  let den := t.scale * power 10 k
  let floor := num / den
  let nearest := if tie.roundsUp floor (num % den) den then floor + 1 else floor
  let other := if nearest = floor then floor + 1 else floor
  if t.holds nearest k then some ⟨nearest, k⟩
  else if t.holds other k then some ⟨other, k⟩
  else none

/-- Moves trailing zeros of the digits into the exponent. -/
def strip : Nat → Decimal → Decimal
  | 0, d => d
  | fuel + 1, d =>
    if d.digits ≠ 0 ∧ d.digits % 10 = 0 then strip fuel ⟨d.digits / 10, d.exponent + 1⟩ else d

/-- The decimal of the smallest length that is read back as the target.  Seventeen digits always
suffice. -/
def Target.shortest (t : Target) (tie : Tie) : Decimal :=
  strip 18 (((List.range' 1 17).findSome? (t.atLength tie)).getD ⟨0, 0⟩)

end Decimal

/-- What a number of binary64 stands for. -/
inductive FloatReading where
  | nan
  | infinite (negative : Bool)
  | finite (negative : Bool) (magnitude : Decimal)
  deriving DecidableEq, Repr

namespace FloatReading

/-- The least exponent of binary64: all numbers are multiples of `2^leastExponent`. -/
def leastExponent : Int := -1074

/-- Reads the 64 bits of a number: sign, eleven bits of exponent, 52 bits of significand. -/
def ofBits (tie : Decimal.Tie) (bits : UInt64) : FloatReading :=
  let n := bits.toNat
  let negative := n / (1 <<< 63) == 1
  let exponent := n / (1 <<< 52) % (1 <<< 11)
  let significand := n % (1 <<< 52)
  if exponent = 2047 then (if significand = 0 then infinite negative else nan)
  else if exponent = 0 then
    if significand = 0 then finite negative ⟨0, 0⟩
    else finite negative ((Decimal.Target.ofBinary significand leastExponent leastExponent).shortest tie)
  else
    let q : Int := leastExponent + (Int.ofNat exponent - 1)
    finite negative ((Decimal.Target.ofBinary (significand + (1 <<< 52)) q leastExponent).shortest tie)

end FloatReading

end ChangeQuery
