import ModuleAtlas.Image.Header
import ModuleAtlas.Names.OrderedMap

/-! # Resource locations

For each slot, the index of an image holds a sequence of attributes that ends with a byte of
kind 0.  An attribute is a byte with its kind in the upper five bits and the length of its value
less one in the lower three, and then the value, most significant byte first.  Of several
attributes of one kind the last counts, and a kind that does not occur has value 0.

Attributes refer to texts by their position in a table of texts that end with a zero byte.
-/
namespace ModuleAtlas.Image

open Binary (ByteOrder)

/-- An attribute of a location. -/
structure Attribute where
  /-- What the value says. -/
  kind : Nat
  /-- The value. -/
  value : Nat
deriving DecidableEq, Repr, Inhabited

/-- The kind of the module's name. -/
def moduleKind : Nat := 1
/-- The kind of the folder's name. -/
def parentKind : Nat := 2
/-- The kind of the file's name without its ending. -/
def baseKind : Nat := 3
/-- The kind of the file's ending. -/
def extensionKind : Nat := 4
/-- The kind of the resource's place. -/
def offsetKind : Nat := 5
/-- The kind of the resource's length when compressed. -/
def compressedKind : Nat := 6
/-- The kind of the resource's length. -/
def uncompressedKind : Nat := 7

/-- Reads attributes up to the end mark. -/
def decodeAttributes : Bytes → Except ImageError (List Attribute)
  | [] => .error .truncated
  | b :: rest =>
    if b.toNat / 8 = 0 then .ok []
    else
      match Binary.take? (b.toNat % 8 + 1) rest with
      | none => .error .truncated
      | some (value, _) =>
        -- dropped anew, and not taken from above, so that the rest is seen to be shorter
        match decodeAttributes (rest.drop (b.toNat % 8 + 1)) with
        | .error e => .error e
        | .ok more => .ok (⟨b.toNat / 8, Binary.bigEndian value⟩ :: more)
termination_by bytes => bytes.length
decreasing_by
  simp only [List.length_drop, List.length_cons]
  omega

/-- The bytes of one attribute whose value is written with `length` bytes. -/
def encodeAttribute (length : Nat) (a : Attribute) : Bytes :=
  UInt8.ofNat (a.kind * 8 + (length - 1)) :: Binary.toBigEndian length a.value

/-- The value of a kind. -/
def valueOf (attributes : List Attribute) (kind : Nat) : Nat :=
  (attributes.reverse.find? fun a => a.kind == kind).elim 0 Attribute.value

/-- The bytes up to the first zero, if there is one. -/
def untilZero : Bytes → Option Bytes
  | [] => none
  | b :: rest => if b = 0 then some [] else (untilZero rest).map (b :: ·)

/-- The text at a position of the string table. -/
def readString (strings : Bytes) (position : Nat) : Except ImageError String :=
  match untilZero (strings.drop position) with
  | some bytes => .ok (Utf8.decodeLenient bytes)
  | none => .error .truncated

/-- Where a resource is. -/
structure Location where
  /-- Its place, counted from the end of the index. -/
  offset : Nat
  /-- Its length when compressed, or 0. -/
  compressed : Nat
  /-- Its length. -/
  uncompressed : Nat
deriving DecidableEq, Repr, Inhabited

/-- A resource of an image. -/
structure Resource where
  /-- The module it belongs to. -/
  module : String
  /-- Its name within the module. -/
  entry : String
  /-- Where it is. -/
  location : Location
deriving DecidableEq, Repr, Inhabited

/-- Modules that only hold the folder structure. -/
def syntheticModules : List String := ["modules", "packages"]

/-- The name of an entry, put together from folder, file name and ending. -/
def entryName (parent base extension : String) : String :=
  (if parent = "" then "" else parent ++ "/") ++ base ++
    (if extension = "" then "" else "." ++ extension)

/-- The resource of a slot whose attributes start at a position of the attribute stream.  Slots
without a module and those of synthetic modules hold none, and their other texts are not
looked at. -/
def readResource (locations strings : Bytes) (position : Nat) :
    Except ImageError (Option Resource) := do
  let attributes ← decodeAttributes (locations.drop position)
  let value := valueOf attributes
  let module ← readString strings (value moduleKind)
  if module = "" ∨ module ∈ syntheticModules then return none
  let parent ← readString strings (value parentKind)
  let base ← readString strings (value baseKind)
  let extension ← readString strings (value extensionKind)
  return some {
    module
    entry := entryName parent base extension
    location := ⟨value offsetKind, value compressedKind, value uncompressedKind⟩ }

/-- The words of a table with `n` slots. -/
def readTable (order : ByteOrder) : Nat → Bytes → List Nat
  | 0, _ => []
  | n + 1, bytes => order.value (bytes.take 4) :: readTable order n (bytes.drop 4)

/-- The modules of an image, and the location of each of their entries. -/
abbrev Modules := OrderedMap (OrderedMap Location)

/-- Adds a resource; a later one replaces an earlier one of the same name. -/
def addResource (modules : Modules) (r : Resource) : Modules :=
  modules.insert r.module (((modules.find? r.module).getD ∅).insert r.entry r.location)

/-- Reads the resources of all slots in order. -/
def readModules (locations strings : Bytes) : Modules → List Nat → Except ImageError Modules
  | modules, [] => .ok modules
  | modules, position :: positions => do
    match ← readResource locations strings position with
    | some r => readModules locations strings (addResource modules r) positions
    | none => readModules locations strings modules positions

end ModuleAtlas.Image
