import DocumentCache.Bytes

/-!
# Checksums

The checksum of a record and of a payload is the 32-bit cyclic redundancy check
with the reflected polynomial `0xEDB88320`, all ones at the start and inverted
at the end.  A byte is folded into the low bits of the register and shifted out
one bit at a time.
-/

namespace DocumentCache.Checksum

/-- The reflected generator polynomial. -/
def polynomial : UInt32 := 0xEDB88320

/-- Shift one bit out of the register. -/
def shiftBit (register : UInt32) : UInt32 :=
  if register &&& 1 = 1 then (register >>> 1) ^^^ polynomial else register >>> 1

/-- Shift `count` bits out of the register. -/
def shiftBits : Nat → UInt32 → UInt32
  | 0, register => register
  | count + 1, register => shiftBits count (shiftBit register)

/-- Take one byte into the register. -/
def feed (register : UInt32) (byte : UInt8) : UInt32 :=
  shiftBits 8 (register ^^^ byte.toUInt32)

/-- The checksum of a byte string. -/
def crc32 (bytes : Bytes) : UInt32 :=
  bytes.foldl feed 0xFFFFFFFF ^^^ 0xFFFFFFFF

/-- A checksum as it is stored: four bytes, least significant first. -/
def trailer (bytes : Bytes) : Bytes :=
  littleEndian 4 (crc32 bytes).toNat

@[simp]
theorem trailer_length (bytes : Bytes) : (trailer bytes).length = 4 :=
  littleEndian_length 4 _

end DocumentCache.Checksum
