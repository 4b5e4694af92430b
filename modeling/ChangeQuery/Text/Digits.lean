/-!
## Digits

Numbers written with the digits of some base, letters of either case standing for ten and more.
-/

namespace ChangeQuery.Text

/-- The value of a character as a digit of a base. -/
def digitValue? (base : Nat) (c : Char) : Option Nat :=
  let value? :=
    if '0' ≤ c ∧ c ≤ '9' then some (c.toNat - '0'.toNat)
    else if 'a' ≤ c ∧ c ≤ 'z' then some (c.toNat - 'a'.toNat + 10)
    else if 'A' ≤ c ∧ c ≤ 'Z' then some (c.toNat - 'A'.toNat + 10)
    else none
  value?.filter (· < base)

/-- The number that digits write behind the digits of another number. -/
def appendDigits? (base : Nat) (n : Nat) (digits : List Char) : Option Nat :=
  digits.foldlM (fun n c => (digitValue? base c).map (base * n + ·)) n

/-- The number that a text writes in digits, of which there is at least one. -/
def numberOfDigits? (base : Nat) (text : List Char) : Option Nat :=
  if text.isEmpty then none else appendDigits? base 0 text

example : numberOfDigits? 16 "fF".toList = some 255 := by decide

example : numberOfDigits? 8 "8".toList = none ∧ numberOfDigits? 8 [] = none := by decide

end ChangeQuery.Text
