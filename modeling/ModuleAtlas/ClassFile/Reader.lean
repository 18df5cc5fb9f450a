import ModuleAtlas.Binary

/-! # Reading class files

A class file is read from front to back.  A `Reader` takes what it needs from the front of a
byte sequence and leaves the rest; numbers are written most significant byte first.
-/
namespace ModuleAtlas.ClassFile

/-- Why a class file has no module descriptor that can be read. -/
inductive DescriptorError where
  /-- The bytes end inside the structure. -/
  | unexpectedEnd
  /-- The file does not start with the class file mark. -/
  | invalidMagic
  /-- A constant of a kind that class files do not have. -/
  | unsupportedConstant (tag : UInt8)
  /-- A constant that is not there or not of the kind needed. -/
  | invalidConstantIndex (index : Nat)
  /-- A text constant that is not UTF-8. -/
  | malformedText (cause : Utf8.Malformed)
  /-- No module attribute. -/
  | missingModuleAttribute
deriving DecidableEq, Repr

/-- The wording of a descriptor error. -/
def DescriptorError.message : DescriptorError → String
  | .unexpectedEnd => "unexpected end of class file"
  | .invalidMagic => "invalid class file magic header"
  | .unsupportedConstant tag => s!"unsupported constant pool tag {tag.toNat}"
  | .invalidConstantIndex index => s!"invalid constant pool index {index}"
  | .malformedText cause => "invalid UTF-8 string in constant pool: " ++ cause.message
  | .missingModuleAttribute => "module-info missing Module attribute"

/-- A step that reads from the front of a byte sequence. -/
abbrev Reader := StateT Bytes (Except DescriptorError)

namespace Reader

/-- Reads `n` bytes. -/
def slice (n : Nat) : Reader Bytes := fun bytes =>
  match Binary.take? n bytes with
  | some r => .ok r
  | none => .error .unexpectedEnd

/-- Reads one byte. -/
def u1 : Reader UInt8 := fun bytes =>
  match bytes with
  | b :: rest => .ok (b, rest)
  | [] => .error .unexpectedEnd

/-- Reads a number of two bytes. -/
def u2 : Reader Nat := do return Binary.bigEndian (← slice 2)

/-- Reads a number of four bytes. -/
def u4 : Reader Nat := do return Binary.bigEndian (← slice 4)

/-- Skips `n` bytes. -/
def skip (n : Nat) : Reader Unit := do let _ ← slice n

/-- Reads the same thing `n` times. -/
def times {α : Type} (read : Reader α) : Nat → Reader (List α)
  | 0 => pure []
  | n + 1 => do
    let first ← read
    let rest ← times read n
    return first :: rest

/-- Reads a count of two bytes, then that many things. -/
def counted {α : Type} (read : Reader α) : Reader (List α) := do
  times read (← u2)

/-- Fails unless the step succeeds. -/
def ofExcept {α : Type} (e : Except DescriptorError α) : Reader α := fun bytes =>
  e.map fun a => (a, bytes)

end Reader
end ModuleAtlas.ClassFile
