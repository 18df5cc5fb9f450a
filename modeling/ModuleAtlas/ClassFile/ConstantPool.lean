import ModuleAtlas.ClassFile.Reader
import ModuleAtlas.Text.Cut

/-! # The constant pool

Names in a class file are indices into its constant pool.  Slots are numbered from 1; a
constant of eight bytes takes two slots, the second of which cannot be used, and neither can
slot 0.  A class, package or module constant names a text constant.
-/
namespace ModuleAtlas.ClassFile

/-- A constant, as far as descriptors need it. -/
inductive Constant where
  /-- A text. -/
  | text (value : String)
  /-- A class, named by a text constant. -/
  | classRef (name : Nat)
  /-- A module, named by a text constant. -/
  | moduleRef (name : Nat)
  /-- A package, named by a text constant. -/
  | packageRef (name : Nat)
  /-- Any other constant that takes one slot. -/
  | narrow
  /-- Any other constant that takes two slots. -/
  | wide
deriving DecidableEq, Repr, Inhabited

namespace Constant

/-- The slots that a constant takes. -/
def slots : Constant → List (Option Constant)
  | .wide => [some .wide, none]
  | c => [some c]

/-- Reads a constant: its tag, then what the tag calls for. -/
def read : Reader Constant := do
  let tag ← Reader.u1
  match tag with
  | 1 =>
    let length ← Reader.u2
    let bytes ← Reader.slice length
    match Utf8.decode bytes with
    | .ok value => return .text value
    | .error cause => throw (.malformedText cause)
  | 3 | 4 | 9 | 10 | 11 | 12 | 17 | 18 =>
    Reader.skip 4
    return .narrow
  | 5 | 6 =>
    Reader.skip 8
    return .wide
  | 7 => return .classRef (← Reader.u2)
  | 8 | 16 =>
    Reader.skip 2
    return .narrow
  | 15 =>
    Reader.skip 3
    return .narrow
  | 19 => return .moduleRef (← Reader.u2)
  | 20 => return .packageRef (← Reader.u2)
  | other => throw (.unsupportedConstant other)

end Constant

/-- The constants of a class file by slot number; `none` is a slot that cannot be used. -/
structure ConstantPool where
  /-- The slots from number 0 on. -/
  slots : List (Option Constant)
deriving DecidableEq, Repr, Inhabited

namespace ConstantPool

/-- Reads constants until at least `n` slots are filled. -/
def readSlots : Nat → Reader (List (Option Constant))
  | 0 => pure []
  | 1 => do return (← Constant.read).slots
  | n + 2 => do
    let c ← Constant.read
    let rest ← if c = .wide then readSlots n else readSlots (n + 1)
    return c.slots ++ rest

/-- Reads the slot count, which includes slot 0, and the constants. -/
def read : Reader ConstantPool := do
  let count ← Reader.u2
  let slots ← readSlots (count - 1)
  return ⟨none :: slots⟩

/-- The constant in a slot. -/
def get (pool : ConstantPool) (index : Nat) : Except DescriptorError Constant :=
  match pool.slots[index]? with
  | some (some c) => .ok c
  | _ => .error (.invalidConstantIndex index)

/-- The text in a slot. -/
def text (pool : ConstantPool) (index : Nat) : Except DescriptorError String := do
  match ← pool.get index with
  | .text value => return value
  | _ => throw (.invalidConstantIndex index)

/-- The text in a slot, where index 0 means that there is none. -/
def text? (pool : ConstantPool) (index : Nat) : Except DescriptorError (Option String) :=
  if index = 0 then return none
  else return some (← pool.text index)

/-- The dotted name of the class in a slot. -/
def className (pool : ConstantPool) (index : Nat) : Except DescriptorError String := do
  match ← pool.get index with
  | .classRef name => return Text.replace '/' '.' (← pool.text name)
  | _ => throw (.invalidConstantIndex index)

/-- The dotted name of the package in a slot; a class constant will do. -/
def packageName (pool : ConstantPool) (index : Nat) : Except DescriptorError String := do
  match ← pool.get index with
  | .packageRef name | .classRef name => return Text.replace '/' '.' (← pool.text name)
  | _ => throw (.invalidConstantIndex index)

/-- The name of the module in a slot. -/
def moduleName (pool : ConstantPool) (index : Nat) : Except DescriptorError String := do
  match ← pool.get index with
  | .moduleRef name => pool.text name
  | _ => throw (.invalidConstantIndex index)

end ConstantPool
end ModuleAtlas.ClassFile
