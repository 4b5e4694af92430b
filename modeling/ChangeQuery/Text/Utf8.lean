/-!
## Text as bytes

`encode` writes characters in UTF-8.  `decode` reads bytes and never refuses: bytes that do not begin
a character, and a character that is cut short, are each replaced by the replacement character
U+FFFD, and reading goes on with the first byte that could not be used.  `decode?` refuses instead.

A character of several bytes is read through a `Pending`: the value collected so far, how many bytes
are missing, and which values the next byte may have.  The bounds on the second byte exclude
overlong forms, surrogates and values beyond U+10FFFF.
-/

namespace ChangeQuery.Text.Utf8

/-- The bytes of characters in UTF-8. -/
def encode (cs : List Char) : List UInt8 :=
  cs.flatMap String.utf8EncodeChar

/-- A character whose first bytes were read. -/
structure Pending where
  value : Nat
  missing : Nat
  low : Nat
  high : Nat

/-- What the first byte of a character tells. -/
inductive Start where
  | whole (c : Char)
  | first (pending : Pending)
  | invalid

/-- Reads the first byte of a character. -/
def start (b : Nat) : Start :=
  if b < 0x80 then .whole (Char.ofNat b)
  else if b < 0xC2 then .invalid
  else if b < 0xE0 then .first ⟨b - 0xC0, 1, 0x80, 0xBF⟩
  else if b = 0xE0 then .first ⟨0, 2, 0xA0, 0xBF⟩
  else if b = 0xED then .first ⟨0xD, 2, 0x80, 0x9F⟩
  else if b < 0xF0 then .first ⟨b - 0xE0, 2, 0x80, 0xBF⟩
  else if b = 0xF0 then .first ⟨0, 3, 0x90, 0xBF⟩
  else if b < 0xF4 then .first ⟨b - 0xF0, 3, 0x80, 0xBF⟩
  else if b = 0xF4 then .first ⟨4, 3, 0x80, 0x8F⟩
  else .invalid

/-- The character that takes the place of bytes that cannot be read. -/
def replacement : Char := '\uFFFD'

/-- Takes in a byte outside a character; the character that it completes, if any, goes before what
`continueWith` reads from there. -/
def begin (b : Nat) (continueWith : Option Pending → List Char) : List Char :=
  match start b with
  | .whole c => c :: continueWith none
  | .first pending => continueWith (some pending)
  | .invalid => replacement :: continueWith none

/-- Reads bytes, within a character that is pending. -/
def decodeFrom : Option Pending → List UInt8 → List Char
  | none, [] => []
  | some _, [] => [replacement]
  | none, b :: bytes => begin b.toNat fun pending => decodeFrom pending bytes
  | some p, b :: bytes =>
    if p.low ≤ b.toNat ∧ b.toNat ≤ p.high then
      let value := p.value * 64 + (b.toNat - 0x80)
      if p.missing = 1 then Char.ofNat value :: decodeFrom none bytes
      else decodeFrom (some ⟨value, p.missing - 1, 0x80, 0xBF⟩) bytes
    else replacement :: begin b.toNat fun pending => decodeFrom pending bytes

/-- Reads bytes as UTF-8, with replacements where that is not possible. -/
def decode (bytes : List UInt8) : List Char :=
  decodeFrom none bytes

/-- Reads bytes as UTF-8, if they are what some characters are written as. -/
def decode? (bytes : List UInt8) : Option (List Char) :=
  if encode (decode bytes) = bytes then some (decode bytes) else none

example : decode [0x61, 0xE2, 0x82, 0xAC, 0xE2, 0x82, 0xFF] = ['a', '€', replacement, replacement] := by
  decide

end ChangeQuery.Text.Utf8
