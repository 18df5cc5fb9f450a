import ModuleAtlas.Text.Utf8

/-! # CRC-32

The checksum of archive entries: the remainder of the bit-reflected polynomial division with
polynomial EDB88320, started and finished with all bits set.
-/
namespace ModuleAtlas.Zip

/-- The reflected polynomial. -/
def crcPolynomial : UInt32 := 0xEDB88320

/-- Shifts one bit out of a remainder. -/
def crcBit (r : UInt32) : UInt32 :=
  if r &&& 1 = 1 then (r >>> 1) ^^^ crcPolynomial else r >>> 1

/-- Takes one more byte into a remainder. -/
def crcByte (r : UInt32) (b : UInt8) : UInt32 :=
  Nat.repeat crcBit 8 (r ^^^ b.toUInt32)

/-- The CRC-32 of a byte sequence. -/
def crc32 (bytes : Bytes) : UInt32 := bytes.foldl crcByte 0xFFFFFFFF ^^^ 0xFFFFFFFF

end ModuleAtlas.Zip
