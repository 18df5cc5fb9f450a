import ModuleAtlas.Binary
import ModuleAtlas.Zip.Error

/-! # Fields of archive records

The records of an archive are sequences of numbers of fixed width, least significant byte first,
each at a fixed distance from the start of its record.
-/
namespace ModuleAtlas.Zip

/-- The number in `width` bytes from a position on; missing bytes count as zero. -/
def field (bytes : Bytes) (start width : Nat) : Nat :=
  Binary.littleEndian ((bytes.drop start).take width)

/-- Takes `n` bytes from the front, or reports that the file ends too early. -/
def takeFront (n : Nat) (bytes : Bytes) : Except ZipError (Bytes × Bytes) :=
  match Binary.take? n bytes with
  | some r => .ok r
  | none => .error (.io .unexpectedEnd)

/-- The greatest value of a field of two bytes, which says that the number is not in the field. -/
def fullShort : Nat := 0xFFFF

/-- The greatest value of a field of four bytes, which says that the number is not in the field. -/
def fullWord : Nat := 0xFFFFFFFF

/-- Positions in a file are less than this. -/
def positionBound : Nat := 0x8000000000000000

end ModuleAtlas.Zip
