/-!
## The cyclic checksum of 32 bits

The remainder of a polynomial division over bits, with the bits of each byte in ascending order.  It
guards the contents of compressed files.
-/

namespace ChangeQuery.Gzip

/-- The divisor with its bits reversed. -/
def divisor : UInt32 := 0xEDB88320

/-- Divides by one more bit. -/
def shiftBit (remainder : UInt32) : UInt32 :=
  if remainder &&& 1 = 1 then (remainder >>> 1) ^^^ divisor else remainder >>> 1

/-- Takes in one byte. -/
def takeByte (remainder : UInt32) (byte : UInt8) : UInt32 :=
  (List.range 8).foldl (fun remainder _ => shiftBit remainder) (remainder ^^^ byte.toUInt32)

/-- The checksum of bytes. -/
def checksum (bytes : List UInt8) : UInt32 :=
  bytes.foldl takeByte 0xFFFFFFFF ^^^ 0xFFFFFFFF

example : checksum "123456789".toUTF8.toList = 0xCBF43926 := by decide +kernel

end ChangeQuery.Gzip
