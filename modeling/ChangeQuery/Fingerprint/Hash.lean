/-!
## Hashing words and names

A 64-bit hash that absorbs one word after another: each word is added to the state, and the state is
multiplied by an odd constant.  The result is the state rotated by 26 bits.  Names are first reduced
to one word (`wordOfBytes`) by folding products of 128 bits.  All arithmetic is modulo 2^64.

`spread` mixes the bits of a hash before it is reduced to a bucket number.
-/

namespace ChangeQuery.Hash

/-- The odd constant that the state is multiplied by. -/
def multiplier : UInt64 := 0xf1357aea2e62a9c5

/-- Adds a word to the state of a hash. -/
def absorb (state word : UInt64) : UInt64 :=
  (state + word) * multiplier

/-- The result for a state: rotated to the left by 26 bits. -/
def finish (state : UInt64) : UInt64 :=
  (state <<< 26) ||| (state >>> 38)

/-- The lower and the upper half of the product of two words, combined by exclusive or. -/
def foldedProduct (a b : UInt64) : UInt64 :=
  let product := a.toNat * b.toNat
  UInt64.ofNat (product % UInt64.size) ^^^ UInt64.ofNat (product / UInt64.size)

/-- The number that bytes write, the lowest byte first. -/
def littleEndian (bytes : List UInt8) : UInt64 :=
  bytes.foldr (fun byte n => n * 256 + byte.toUInt64) 0

/-- The byte at a position, or 0 beyond the end. -/
def byteAt (bytes : List UInt8) (i : Nat) : UInt64 :=
  (bytes.getD i 0).toUInt64

/-- The fractional digits of the circle constant that names are hashed with. -/
def firstSeed : UInt64 := 0x243f6a8885a308d3

/-- See `firstSeed`. -/
def secondSeed : UInt64 := 0x13198a2e03707344

/-- See `firstSeed`. -/
def chunkKey : UInt64 := 0xa4093822299f31d0

/-- Takes in blocks of sixteen bytes as long as more than sixteen bytes remain. -/
def takeBlocks : Nat → List UInt8 → UInt64 × UInt64 → UInt64 × UInt64
  | 0, _, seeds => seeds
  | blocks + 1, bytes, (a, c) =>
    let low := littleEndian (bytes.take 8)
    let high := littleEndian ((bytes.drop 8).take 8)
    takeBlocks blocks (bytes.drop 16) (c, foldedProduct (a ^^^ low) (chunkKey ^^^ high))

/-- Reduces bytes to one word.  Up to sixteen bytes are taken in as two overlapping ends; longer
texts in blocks of sixteen, with the last sixteen bytes at the end. -/
def wordOfBytes (bytes : List UInt8) : UInt64 :=
  let n := bytes.length
  let (a, c) : UInt64 × UInt64 :=
    if n = 0 then (firstSeed, secondSeed)
    else if n < 4 then
      (firstSeed ^^^ byteAt bytes 0,
        secondSeed ^^^ (byteAt bytes (n - 1) * 256 ||| byteAt bytes (n / 2)))
    else if n < 8 then
      (firstSeed ^^^ littleEndian (bytes.take 4), secondSeed ^^^ littleEndian (bytes.drop (n - 4)))
    else if n ≤ 16 then
      (firstSeed ^^^ littleEndian (bytes.take 8), secondSeed ^^^ littleEndian (bytes.drop (n - 8)))
    else
      let (a, c) := takeBlocks ((n - 1) / 16) bytes (firstSeed, secondSeed)
      (a ^^^ littleEndian ((bytes.drop (n - 16)).take 8),
        c ^^^ littleEndian (bytes.drop (n - 8)))
  foldedProduct a c ^^^ UInt64.ofNat n

/-- Adds a name to the state: its word, and a mark for its end. -/
def absorbName (state : UInt64) (name : String) : UInt64 :=
  absorb (absorb state (wordOfBytes (name.toList.flatMap String.utf8EncodeChar))) 0xff

/-- Spreads the information of a hash over all its bits. -/
def spread (h : UInt64) : UInt64 :=
  let h := (h ^^^ (h >>> 33)) * 0xff51afd7ed558ccd
  let h := (h ^^^ (h >>> 33)) * 0xc4ceb9fe1a85ec53
  h ^^^ (h >>> 33)

end ChangeQuery.Hash
