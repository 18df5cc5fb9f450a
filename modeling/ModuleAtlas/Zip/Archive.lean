import ModuleAtlas.Zip.Checksum
import ModuleAtlas.Zip.EndRecord
import ModuleAtlas.Zip.Entry
import ModuleAtlas.Zip.Inflate

/-! # Archives

`Archive.parse` reads the directory of an archive, `Archive.locate` finds the data of one entry,
and `Stored.read` expands it and checks it.
-/
namespace ModuleAtlas.Zip

/-- The mark in front of the data of an entry. -/
def localMark : Nat := 0x04034b50

/-- A file whose directory has been read. -/
structure Archive where
  /-- The whole file. -/
  bytes : Bytes
  /-- The entries in the order of the directory. -/
  entries : List Entry
deriving Inhabited

/-- The data of an entry, and what is needed to read it. -/
structure Stored where
  /-- Whether the data is deflated. -/
  isDeflated : Bool
  /-- The data as it is stored. -/
  data : Bytes
  /-- The checksum of the content. -/
  crc : Nat
  /-- The length that the content is said to have. -/
  size : Nat
deriving Inhabited

namespace Archive

/-- Reads the directory of a file. -/
def parse (bytes : Bytes) : Except ZipError Archive := do
  let place ← DirectoryPlace.find bytes
  let entries ← readEntries place.origin place.entries (bytes.drop place.start)
  return ⟨bytes, entries⟩

/-- Finds the data of an entry.  Its place is given by the lengths that stand in front of the
data, its length and checksum by the directory. -/
def locate (archive : Archive) (e : Entry) : Except ZipError Stored := do
  if e.isEncrypted then throw .encrypted
  if positionBound ≤ e.start then throw (.io .invalidInput)
  let (mark, rest) ← takeFront 4 (archive.bytes.drop e.start)
  if Binary.littleEndian mark ≠ localMark then throw .invalidEntry
  let (fixed, rest) ← takeFront 26 rest
  -- the name and the extra fields may be longer here than in the directory
  let skipped := field fixed 22 2 + field fixed 24 2
  let data := (rest.drop skipped).take e.compressedSize
  if e.method ≠ 0 ∧ e.method ≠ 8 then throw .unsupportedMethod
  if e.isDescribed then throw .encrypted
  return ⟨e.method = 8, data, e.crc, e.uncompressedSize⟩

/-- The names of all files, in the order of the directory; each entry must open. -/
def fileNames (archive : Archive) : Except ZipError (List String) :=
  archive.entries.foldr (fun e rest => do
    let _ ← archive.locate e
    let names ← rest
    return if e.isFile then e.name :: names else names) (.ok [])

/-- The entry of a name: of several, the last in the directory. -/
def find? (archive : Archive) (name : String) : Option Entry :=
  archive.entries.reverse.find? fun e => e.name == name

/-- Finds the data of the entry of a name. -/
def locateNamed (archive : Archive) (name : String) : Except ZipError Stored :=
  match archive.find? name with
  | some e => archive.locate e
  | none => .error .entryNotFound

end Archive

/-- The content of an entry: its data expanded, if the checksum is right. -/
def Stored.read (s : Stored) : Except IoError Bytes := do
  let content ←
    if s.isDeflated then
      match inflate s.data with
      | .ok content => pure content
      | .error .corrupt => throw .invalidInput
      | .error .truncated => throw .unexpectedEnd
    else pure s.data
  if (crc32 content).toNat = s.crc then return content else throw (.other "Invalid checksum")

end ModuleAtlas.Zip
