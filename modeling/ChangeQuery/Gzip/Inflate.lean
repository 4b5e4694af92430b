import ChangeQuery.Gzip.PrefixCode

/-!
## Inflating compressed data

Compressed data are a string of bits in blocks.  A block holds bytes as they are, or symbols of two
prefix codes: bytes, and references to a stretch of earlier output by its length and distance.  The
codes are fixed or written at the front of the block.

Data that end too early or that make no sense stop the work with a `Fault`; what was produced until
then is kept beside it.
-/

namespace ChangeQuery.Gzip

/-- Why compressed data cannot be used. -/
inductive Fault where
  /-- The data end too early. -/
  | truncated
  /-- The data make no sense. -/
  | corrupt
  deriving DecidableEq, Repr

/-- Where reading stands: the bits to come and the bytes produced. -/
structure Stream where
  bits : List Bool
  output : Array UInt8

/-- Reading that moves a stream on; a fault comes with the bytes produced before it. -/
abbrev Inflating := StateT Stream (Except (Fault × Array UInt8))

/-- The bits of bytes, the lowest bit of each byte first. -/
def bitsOfBytes (bytes : List UInt8) : List Bool :=
  bytes.flatMap fun byte => (List.range 8).map byte.toNat.testBit

/-- The number that bits write, the lowest bit first. -/
def numberOfBits (bits : List Bool) : Nat :=
  bits.foldr (fun bit n => 2 * n + bit.toNat) 0

/-- The bytes that bits write; bits that do not fill a byte are dropped. -/
def bytesOfBits : Nat → List Bool → List UInt8
  | 0, _ => []
  | count + 1, bits => UInt8.ofNat (numberOfBits (bits.take 8)) :: bytesOfBits count (bits.drop 8)

namespace Inflating

/-- Stops with a fault. -/
def stop {α : Type} (fault : Fault) : Inflating α :=
  fun s => .error (fault, s.output)

/-- Reads a number of `count` bits. -/
def number (count : Nat) : Inflating Nat :=
  fun s =>
    let taken := s.bits.take count
    if taken.length < count then stop .truncated s
    else .ok (numberOfBits taken, { s with bits := s.bits.drop count })

/-- Reads a symbol. -/
def symbol (code : PrefixCode) : Inflating Nat :=
  fun s =>
    match code.read s.bits with
    | .symbol value rest => .ok (value, { s with bits := rest })
    | .outOfBits => stop .truncated s
    | .unused => stop .corrupt s

/-- Appends a byte to the output. -/
def push (byte : UInt8) : Inflating Unit :=
  modify fun s => { s with output := s.output.push byte }

/-- Appends `length` bytes of the output again, starting `distance` bytes before its end. -/
def repeated (distance : Nat) : Nat → Array UInt8 → Array UInt8
  | 0, output => output
  | length + 1, output =>
    repeated distance length (output.push (output.getD (output.size - distance) 0))

/-! ### References -/

/-- The least length and the extra bits of each length symbol, from symbol 257 on. -/
def lengthTable : List (Nat × Nat) :=
  [(3, 0), (4, 0), (5, 0), (6, 0), (7, 0), (8, 0), (9, 0), (10, 0), (11, 1), (13, 1), (15, 1),
   (17, 1), (19, 2), (23, 2), (27, 2), (31, 2), (35, 3), (43, 3), (51, 3), (59, 3), (67, 4),
   (83, 4), (99, 4), (115, 4), (131, 5), (163, 5), (195, 5), (227, 5), (258, 0)]

/-- The least distance and the extra bits of each distance symbol. -/
def distanceTable : List (Nat × Nat) :=
  [(1, 0), (2, 0), (3, 0), (4, 0), (5, 1), (7, 1), (9, 2), (13, 2), (17, 3), (25, 3), (33, 4),
   (49, 4), (65, 5), (97, 5), (129, 6), (193, 6), (257, 7), (385, 7), (513, 8), (769, 8),
   (1025, 9), (1537, 9), (2049, 10), (3073, 10), (4097, 11), (6145, 11), (8193, 12),
   (12289, 12), (16385, 13), (24577, 13)]

/-- Reads the value that a symbol of a table stands for, with its extra bits. -/
def tableValue (table : List (Nat × Nat)) (value : Nat) : Inflating Nat :=
  match table[value]? with
  | none => stop .corrupt
  | some (least, extraBits) => do return least + (← number extraBits)

/-- The two codes of a block: for bytes and lengths, and for distances. -/
structure BlockCodes where
  literals : PrefixCode
  distances : PrefixCode

/-- Reads a reference whose length symbol was read, and carries it out. -/
def reference (codes : BlockCodes) (lengthSymbol : Nat) : Inflating Unit := do
  let length ← tableValue lengthTable lengthSymbol
  let distance ← tableValue distanceTable (← symbol codes.distances)
  if (← get).output.size < distance then stop .corrupt
  else modify fun s => { s with output := repeated distance length s.output }

/-! ### Blocks -/

/-- Reads symbols up to the end of the block; `bound` is greater than their number. -/
def symbols (codes : BlockCodes) : Nat → Inflating Unit
  | 0 => stop .truncated
  | bound + 1 => do
    let value ← symbol codes.literals
    if value = 256 then return ()
    else
      if value < 256 then push (UInt8.ofNat value) else reference codes (value - 257)
      symbols codes bound

/-- A block of symbols.  Every symbol takes at least one bit. -/
def symbolBlock (codes : BlockCodes) : Inflating Unit := do
  symbols codes ((← get).bits.length + 1)

/-- The codes of a block that does not bring its own. -/
def fixedCodes : BlockCodes where
  literals := .ofLengths
    (List.replicate 144 8 ++ List.replicate 112 9 ++ List.replicate 24 7 ++ List.replicate 8 8)
  distances := .ofLengths (List.replicate 32 5)

/-- A block of bytes as they are: from the next full byte on, their number, its complement, and the
bytes. -/
def storedBlock : Inflating Unit := do
  modify fun s => { s with bits := s.bits.drop (s.bits.length % 8) }
  let count ← number 16
  let complement ← number 16
  if count + complement ≠ 65535 then stop .corrupt
  else
    let available := min count ((← get).bits.length / 8)
    modify fun s =>
      ⟨s.bits.drop (8 * available), s.output ++ (bytesOfBits available s.bits).toArray⟩
    if available < count then stop .truncated else return ()

/-- The order in which the lengths of the code for lengths are written. -/
def lengthOrder : List Nat :=
  [16, 17, 18, 0, 8, 7, 9, 6, 10, 5, 11, 4, 12, 3, 13, 2, 14, 1, 15]

/-- Reads numbers of three bits. -/
def smallNumbers : Nat → Inflating (List Nat)
  | 0 => return []
  | count + 1 => do
    let n ← number 3
    return n :: (← smallNumbers count)

/-- Reads code lengths until there are `count` of them; `bound` is greater than the number of
symbols.  Three symbols repeat: the previous length three times or more, or a zero three or eleven
times or more. -/
def codeLengths (code : PrefixCode) (count : Nat) : Nat → Array Nat → Inflating (Array Nat)
  | 0, _ => stop .truncated
  | bound + 1, lengths =>
    if count < lengths.size then stop .corrupt
    else if lengths.size = count then return lengths
    else do
      let value ← symbol code
      if value < 16 then codeLengths code count bound (lengths.push value)
      else if value = 16 then
        match lengths.back? with
        | none => stop .corrupt
        | some previous =>
          let times := 3 + (← number 2)
          codeLengths code count bound (lengths ++ Array.replicate times previous)
      else
        let (least, extraBits) := if value = 17 then (3, 3) else (11, 7)
        let times := least + (← number extraBits)
        codeLengths code count bound (lengths ++ Array.replicate times 0)

/-- The code of the given lengths, which must make sense. -/
def codeOf (allowSingle : Bool) (lengths : List Nat) : Inflating PrefixCode :=
  match PrefixCode.ofLengths? allowSingle lengths with
  | some code => return code
  | none => stop .corrupt

/-- Reads the codes at the front of a block. -/
def ownCodes : Inflating BlockCodes := do
  let literalCount := 257 + (← number 5)
  let distanceCount := 1 + (← number 5)
  let writtenCount := 4 + (← number 4)
  if 286 < literalCount ∨ 30 < distanceCount then stop .corrupt
  else
    let written := lengthOrder.zip (← smallNumbers writtenCount)
    let code ← codeOf false ((List.range 19).map fun value => (written.lookup value).getD 0)
    let total := literalCount + distanceCount
    let lengths ← codeLengths code total (total + 1) #[]
    return ⟨← codeOf true (lengths.toList.take literalCount),
      ← codeOf true (lengths.toList.drop literalCount)⟩

/-- Reads one block; the answer tells whether it is the last. -/
def block : Inflating Bool := do
  let last ← number 1
  match ← number 2 with
  | 0 => storedBlock
  | 1 => symbolBlock fixedCodes
  | 2 => symbolBlock (← ownCodes)
  | _ => stop .corrupt
  return last == 1

/-- Reads blocks up to the last one; `bound` is greater than their number. -/
def blocks : Nat → Inflating Unit
  | 0 => stop .truncated
  | bound + 1 => do if ← block then return () else blocks bound

end Inflating

/-- Inflates the data at the front of the bytes; the bytes behind them are returned.  Every block
takes at least three bits. -/
def inflate (bytes : List UInt8) : Except (Fault × Array UInt8) (Array UInt8 × List UInt8) := do
  let bits := bitsOfBytes bytes
  let (_, s) ← (Inflating.blocks (bits.length + 1)).run ⟨bits, #[]⟩
  return (s.output, bytes.drop (bytes.length - s.bits.length / 8))

end ChangeQuery.Gzip
