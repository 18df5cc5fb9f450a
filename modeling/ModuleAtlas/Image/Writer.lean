import ModuleAtlas.Image.RuntimeImage
import ModuleAtlas.Names.Distinct

/-! # Writing runtime images

A written image has one slot for each resource, in the order in which the resources were added, and
no redirects.  Texts are shared, values of zero are left out, and other values are written with as
few bytes as they need.
-/
namespace ModuleAtlas.Image

open Binary (ByteOrder)

/-- A resource to be written. -/
structure NewResource where
  /-- The module it belongs to. -/
  module : String
  /-- Its name within the module. -/
  entry : String
  /-- Its content. -/
  content : Bytes
deriving DecidableEq, Repr, Inhabited

/-- The name of an entry, taken apart into folder, file name and ending. -/
structure NameParts where
  /-- What precedes the last slash. -/
  parent : String
  /-- What precedes the last dot after that. -/
  base : String
  /-- What follows that dot. -/
  extension : String
deriving DecidableEq, Repr, Inhabited

/-- Takes the name of an entry apart. -/
def NameParts.ofEntry (entry : String) : NameParts :=
  let (parent, file) := (Text.splitLast? '/' entry).getD ("", entry)
  let (base, extension) := (Text.splitLast? '.' file).getD (file, "")
  ⟨parent, base, extension⟩

/-- The texts of a resource, in the order in which they come to the string table. -/
def NewResource.texts (r : NewResource) : List String :=
  let parts := NameParts.ofEntry r.entry
  [r.module, parts.parent, parts.base, parts.extension]

/-- The texts of the string table; the empty one needs no place. -/
def textsOf (resources : List NewResource) : List String :=
  distinct ((resources.flatMap NewResource.texts).filter (· ≠ ""))

/-- A text as it is written to the string table. -/
def encodeText (s : String) : Bytes := Utf8.encode s ++ [0]

/-- The string table: the empty text, and then the others. -/
def stringTable (texts : List String) : Bytes := 0 :: texts.flatMap encodeText

/-- The position of a text in the string table. -/
def textPosition (texts : List String) (s : String) : Nat :=
  if s = "" then 0
  else (stringTable (texts.takeWhile (· ≠ s))).length

/-- How many bytes a number needs, at least one. -/
def byteCount (n : Nat) : Nat := if n < 256 then 1 else byteCount (n / 256) + 1

/-- The attributes of a resource whose content starts at `offset`. -/
def attributesOf (texts : List String) (r : NewResource) (offset : Nat) : List Attribute :=
  let parts := NameParts.ofEntry r.entry
  [⟨moduleKind, textPosition texts r.module⟩, ⟨parentKind, textPosition texts parts.parent⟩,
    ⟨baseKind, textPosition texts parts.base⟩, ⟨extensionKind, textPosition texts parts.extension⟩,
    ⟨offsetKind, offset⟩, ⟨uncompressedKind, r.content.length⟩].filter fun a => a.value ≠ 0

/-- Attributes as they are written, with the end mark. -/
def encodeLocation (attributes : List Attribute) : Bytes :=
  attributes.flatMap (fun a => encodeAttribute (byteCount a.value) a) ++ [0]

/-- The written locations of resources the first of which starts at `offset`. -/
def locationsFrom (texts : List String) (offset : Nat) : List NewResource → List Bytes
  | [] => []
  | r :: rest =>
    encodeLocation (attributesOf texts r offset) ::
      locationsFrom texts (offset + r.content.length) rest

/-- Where parts of the given lengths start when they are put together. -/
def startsFrom (start : Nat) : List Nat → List Nat
  | [] => []
  | length :: rest => start :: startsFrom (start + length) rest

/-- The image of some resources in a byte order. -/
def write (order : ByteOrder) (resources : List NewResource) : Bytes :=
  let texts := textsOf resources
  let locations := locationsFrom texts 0 resources
  let strings := stringTable texts
  let words := [magic, supportedMajor * 0x10000, 0, resources.length, resources.length,
      locations.flatten.length, strings.length] ++
    List.replicate resources.length 0 ++ startsFrom 0 (locations.map List.length)
  words.flatMap (order.write 4) ++ locations.flatten ++ strings ++
    resources.flatMap NewResource.content

end ModuleAtlas.Image
