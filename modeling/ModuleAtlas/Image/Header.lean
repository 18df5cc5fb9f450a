import ModuleAtlas.Binary
import ModuleAtlas.Files.Tree
import ModuleAtlas.Text.Quoted

/-! # Headers of runtime images

A runtime image starts with seven words.  The first is a mark that tells the byte order of the
machine that wrote the image; the others give the version and the sizes of the index.
-/
namespace ModuleAtlas

/-- Why a runtime image or one of its resources cannot be read. -/
inductive ImageError where
  /-- The file starts with another word than the mark. -/
  | invalidMagic (found : Nat)
  /-- The image has a version that is not supported. -/
  | unsupportedVersion (major minor : Nat)
  /-- The index does not fit into the file or points outside itself. -/
  | truncated
  /-- The resource is stored compressed. -/
  | compressed (name : String)
  /-- Reading from the file failed. -/
  | io (cause : IoError)
  /-- A buffer for the resource would be too long.  This is no answer: the call is broken off, and
  so is all that waits for it. -/
  | overlong
deriving DecidableEq, Repr, Inhabited

/-- The wording of a call that is broken off because a buffer would be too long. -/
def overlongMessage : String := "capacity overflow"

/-- The wording of an image error. -/
def ImageError.message : ImageError → String
  | .invalidMagic found => "invalid runtime image magic 0x" ++ Text.hexDigits 8 found
  | .unsupportedVersion major minor => s!"unsupported runtime image version {major}.{minor}"
  | .truncated => "runtime image index is truncated"
  | .compressed name => s!"resource {name} is compressed and cannot be read"
  | .io cause => "IO error: " ++ cause.message
  | .overlong => overlongMessage

namespace Image

open Binary (ByteOrder)

/-- The mark at the start of an image. -/
def magic : Nat := 0xCAFEDADA

/-- The supported major version. -/
def supportedMajor : Nat := 1

/-- The length of the header: seven words. -/
def headerSize : Nat := 28

/-- The header of an image. -/
structure Header where
  /-- Major version. -/
  major : Nat
  /-- Minor version. -/
  minor : Nat
  /-- Flags, which are not interpreted. -/
  flags : Nat
  /-- The number of resources, which is not relied on. -/
  resourceCount : Nat
  /-- The number of slots of the redirect table and of the offset table. -/
  tableLength : Nat
  /-- The length of the attribute stream. -/
  locationsSize : Nat
  /-- The length of the string table. -/
  stringsSize : Nat
deriving DecidableEq, Repr, Inhabited

namespace Header

/-- Where the offset table starts, behind the redirect table. -/
def offsetsStart (h : Header) : Nat := headerSize + h.tableLength * 4

/-- Where the attribute stream starts, behind the offset table. -/
def locationsStart (h : Header) : Nat := h.offsetsStart + h.tableLength * 4

/-- Where the string table starts, behind the attribute stream. -/
def stringsStart (h : Header) : Nat := h.locationsStart + h.locationsSize

/-- The length of header and index, behind which the resources start. -/
def indexSize (h : Header) : Nat := h.stringsStart + h.stringsSize

end Header

/-- The word in four bytes from a position on; missing bytes count as zero. -/
def word (order : ByteOrder) (bytes : Bytes) (start : Nat) : Nat :=
  order.value ((bytes.drop start).take 4)

/-- The byte order in which the first word is the mark. -/
def byteOrder (bytes : Bytes) : Except ImageError ByteOrder :=
  if word .little bytes 0 = magic then .ok .little
  else if word .big bytes 0 = magic then .ok .big
  else .error (.invalidMagic (word .little bytes 0))

/-- Reads the words behind the mark. -/
def readHeader (order : ByteOrder) (bytes : Bytes) : Except ImageError Header :=
  let header : Header := {
    major := word order bytes 4 / 0x10000
    minor := word order bytes 4 % 0x10000
    flags := word order bytes 8
    resourceCount := word order bytes 12
    tableLength := word order bytes 16
    locationsSize := word order bytes 20
    stringsSize := word order bytes 24 }
  if header.major = supportedMajor then .ok header
  else .error (.unsupportedVersion header.major header.minor)

end Image
end ModuleAtlas
