import ChangeQuery.Gzip.Checksum
import ChangeQuery.Gzip.Inflate

/-!
## Compressed files

A compressed file is a row of members, each with a header, compressed data, and the checksum and the
length of what they hold.  Reading delivers the contents of the members one after another up to the
first fault; a `Delivery` tells whether there was one.

Contents are checked only after they were delivered, so a wrong checksum shows behind them.  Data
that make no sense take with them the window of output they occur in.
-/

namespace ChangeQuery

/-- Bytes read from a file, and whether they are all there is. -/
structure Delivery where
  bytes : List UInt8
  intact : Bool
  deriving DecidableEq, Repr

namespace Gzip

/-- The size of the window that is filled before its bytes are handed out. -/
def windowSize : Nat := 32768

/-- The number that bytes write, the lowest byte first. -/
def numberOfBytes (bytes : List UInt8) : Nat :=
  bytes.foldr (fun byte n => 256 * n + byte.toNat) 0

/-- The bytes of a number, the lowest byte first. -/
def bytesOfNumber : Nat → Nat → List UInt8
  | 0, _ => []
  | count + 1, n => UInt8.ofNat (n % 256) :: bytesOfNumber count (n / 256)

/-- The bytes without as many as asked for, if there are so many. -/
def dropExactly? (count : Nat) (bytes : List UInt8) : Option (List UInt8) :=
  if bytes.length < count then none else some (bytes.drop count)

/-- What follows the first zero byte. -/
def afterZero? : List UInt8 → Option (List UInt8)
  | [] => none
  | byte :: bytes => if byte = 0 then some bytes else afterZero? bytes

/-- Skips a part of the header if its flag is set. -/
def skipIf (flags bit : Nat) (skip : List UInt8 → Option (List UInt8)) (bytes : List UInt8) :
    Option (List UInt8) :=
  if flags.testBit bit then skip bytes else some bytes

/-- Skips the field of extra data: its length in two bytes, and the data. -/
def skipExtra (bytes : List UInt8) : Option (List UInt8) :=
  (dropExactly? 2 bytes).bind (dropExactly? (numberOfBytes (bytes.take 2)))

/-- Skips the checksum of the header, which must be right. -/
def skipHeaderChecksum (file bytes : List UInt8) : Option (List UInt8) :=
  let header := file.take (file.length - bytes.length)
  if numberOfBytes (bytes.take 2) = (checksum header).toNat % 65536 then dropExactly? 2 bytes
  else none

/-- What follows the header of a member: the mark of the format, flags, six bytes of no interest, and
the parts that the flags announce. -/
def afterHeader? (file : List UInt8) : Option (List UInt8) :=
  match file with
  | 0x1F :: 0x8B :: 8 :: flagByte :: bytes =>
    let flags := flagByte.toNat
    if 32 ≤ flags then none
    else
      (dropExactly? 6 bytes).bind fun bytes =>
        (skipIf flags 2 skipExtra bytes).bind fun bytes =>
          (skipIf flags 3 afterZero? bytes).bind fun bytes =>
            (skipIf flags 4 afterZero? bytes).bind fun bytes =>
              skipIf flags 1 (skipHeaderChecksum file) bytes
  | _ => none

/-- The trailer agrees with the contents: checksum and length modulo 2^32. -/
def trailerFits (trailer contents : List UInt8) : Bool :=
  trailer.length == 8 && numberOfBytes (trailer.take 4) == (checksum contents).toNat &&
    numberOfBytes (trailer.drop 4) == contents.length % UInt32.size

/-- What is delivered before a fault in the compressed data. -/
def beforeFault (fault : Fault) (output : Array UInt8) : List UInt8 :=
  match fault with
  | .truncated => output.toList
  | .corrupt => output.toList.take (output.size / windowSize * windowSize)

/-- Reads the members of a file; there are no more of them than bytes. -/
def readMembers : Nat → List UInt8 → Delivery
  | 0, _ => ⟨[], false⟩
  | bound + 1, file =>
    match afterHeader? file with
    | none => ⟨[], false⟩
    | some bytes =>
      match inflate bytes with
      | .error (fault, output) => ⟨beforeFault fault output, false⟩
      | .ok (output, rest) =>
        let contents := output.toList
        if trailerFits (rest.take 8) contents then
          let rest := rest.drop 8
          if rest.isEmpty then ⟨contents, true⟩
          else
            let later := readMembers bound rest
            ⟨contents ++ later.bytes, later.intact⟩
        else ⟨contents, false⟩

/-- Reads a compressed file. -/
def read (file : List UInt8) : Delivery :=
  readMembers (file.length + 1) file

/-- The blocks that hold bytes as they are, each with at most 65535 of them. -/
def storedBlocks : Nat → List UInt8 → List UInt8
  | 0, _ => []
  | bound + 1, bytes =>
    let chunk := bytes.take 65535
    let rest := bytes.drop 65535
    let count := chunk.length
    (if rest.isEmpty then 1 else 0) :: bytesOfNumber 2 count ++ bytesOfNumber 2 (65535 - count) ++
      chunk ++ (if rest.isEmpty then [] else storedBlocks bound rest)

/-- A file of one member that holds the given bytes as they are. -/
def write (contents : List UInt8) : List UInt8 :=
  [0x1F, 0x8B, 8, 0, 0, 0, 0, 0, 0, 255] ++ storedBlocks (contents.length + 1) contents ++
    bytesOfNumber 4 (checksum contents).toNat ++ bytesOfNumber 4 (contents.length % UInt32.size)

end Gzip

end ChangeQuery
