/-!
## Prefix codes

A prefix code assigns bit strings to symbols so that none begins another.  It is held as a binary
tree with the symbols at its leaves, and decoding walks down the tree.

A code is given by the length of each symbol's bit string alone: shorter strings come first, strings
of one length follow the order of the symbols, and the first string of each length continues where
the previous length ended (`ofLengths?`).
-/

namespace ChangeQuery.Gzip

/-- The bit strings of a code as paths of a tree; `none` marks paths that are not used. -/
inductive PrefixCode where
  | none
  | symbol (value : Nat)
  | branch (zero one : PrefixCode)

namespace PrefixCode

/-- How reading a symbol ends. -/
inductive Outcome where
  | symbol (value : Nat) (rest : List Bool)
  /-- The bits end within a bit string. -/
  | outOfBits
  /-- No symbol has these bits. -/
  | unused

/-- Reads one symbol from the front of the bits. -/
def read : PrefixCode → List Bool → Outcome
  | none, _ => .unused
  | symbol value, bits => .symbol value bits
  | branch _ _, [] => .outOfBits
  | branch zero one, bit :: bits => if bit then one.read bits else zero.read bits

/-- Puts a symbol at the end of a path. -/
def insert (value : Nat) : List Bool → PrefixCode → PrefixCode
  | [], _ => symbol value
  | bit :: path, code =>
    let (zero, one) := match code with
      | branch zero one => (zero, one)
      | _ => (none, none)
    if bit then branch zero (insert value path one) else branch (insert value path zero) one

/-- The bits of a number, the highest of `length` bits first. -/
def bitsOf (length n : Nat) : List Bool :=
  ((List.range length).map n.testBit).reverse

/-- The greatest length of a bit string. -/
def maxLength : Nat := 15

/-- How much of all bit strings those of the given lengths begin, in units of `2^-maxLength`. -/
def usedShare (lengths : List Nat) : Nat :=
  lengths.foldr
    (fun length share => (if length = 0 then 0 else 1 <<< (maxLength - length)) + share) 0

/-- Gives the symbols with bit strings of one length their places in a tree; `next` is the number
that the first of them has. -/
def insertLength (length : Nat) : List (Nat × Nat) → Nat × PrefixCode → Nat × PrefixCode
  | [], state => state
  | (other, value) :: lengths, (next, code) =>
    if other = length then
      insertLength length lengths (next + 1, code.insert value (bitsOf length next))
    else insertLength length lengths (next, code)

/-- The code of the given lengths, one for each symbol; 0 for a symbol that is not used. -/
def ofLengths (lengths : List Nat) : PrefixCode :=
  ((List.range' 1 maxLength).foldl
    (fun (state : Nat × PrefixCode) length =>
      insertLength length lengths.zipIdx (2 * state.1, state.2))
    (0, none)).2

/-- The code of the given lengths, if they use up all bit strings exactly.  A code with at most one
symbol may leave strings over if `allowSingle` says so. -/
def ofLengths? (allowSingle : Bool) (lengths : List Nat) : Option PrefixCode :=
  let used := (lengths.filter (· != 0)).length
  if usedShare lengths = 1 <<< maxLength ∨
      (allowSingle ∧ used ≤ 1 ∧ usedShare lengths ≤ 1 <<< maxLength) then
    some (ofLengths lengths)
  else Option.none

end PrefixCode

end ChangeQuery.Gzip
