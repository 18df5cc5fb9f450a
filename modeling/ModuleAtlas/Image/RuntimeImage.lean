import ModuleAtlas.Files.Handle
import ModuleAtlas.Image.Location

/-! # Runtime images

A runtime image packs the modules of a platform into one file: header, index, resources.
Opening reads header and index; resources are read when they are asked for, as long as the
image is open.
-/
namespace ModuleAtlas

/-- An opened image. -/
structure RuntimeImage where
  /-- The file. -/
  path : Path
  /-- Its header. -/
  header : Image.Header
  /-- Its modules and their entries, in the order of the index. -/
  modules : Image.Modules
  /-- The content of the file. -/
  content : Bytes
  /-- What closes it. -/
  handle : Handle
deriving Inhabited

namespace Image

/-- Reads header and index from the content of a file. -/
def readIndex (content : Bytes) : Except ImageError (Header × Modules) := do
  if (content.take headerSize).length ≠ headerSize then throw .truncated
  let order ← byteOrder content
  let header ← readHeader order content
  if content.length < header.indexSize then throw .truncated
  let locations := (content.drop header.locationsStart).take header.locationsSize
  let strings := (content.drop header.stringsStart).take header.stringsSize
  -- the redirect table serves a look-up by hash and is not needed to list all slots
  let positions := readTable order header.tableLength (content.drop header.offsetsStart)
  let modules ← readModules locations strings ∅ positions
  return (header, modules)

/-- The positions that a file can be read from lie below this. -/
def maxPosition : Nat := 0x8000000000000000

/-- Where a resource starts in the file.  Positions are counted in 64 bits. -/
def startOf (header : Header) (location : Location) : Nat :=
  (header.indexSize + location.offset) % 0x10000000000000000

/-- The bytes at a location.  The buffer for them is made first. -/
def readLocation (header : Header) (content : Bytes) (location : Location) :
    Except ImageError Bytes :=
  let start := startOf header location
  if Binary.bufferBound ≤ location.uncompressed then .error .overlong
  else if maxPosition ≤ start then .error (.io .invalidInput)
  else
    match Binary.slice? content start location.uncompressed with
    | some bytes => .ok bytes
    | none => .error (.io .unexpectedEnd)

end Image

namespace RuntimeImage

/-- Opens an image.  A folder can be opened like a file, but nothing can be read from it. -/
def openFile (tree : FileTree) (handle : Handle) (path : Path) : Except ImageError RuntimeImage :=
  match tree.status path with
  | .error e => .error (.io e)
  | .ok (.file content) => do
    let (header, modules) ← Image.readIndex content
    return { path, header, modules, content, handle }
  | .ok _ => .error .truncated

/-- The names of the modules in the order of the index. -/
def moduleNames (image : RuntimeImage) : List String := image.modules.keys

/-- Whether the image holds a module. -/
def hasModule (image : RuntimeImage) (module : String) : Bool := image.modules.contains module

/-- The entries of a module, named from the module's root on. -/
def entries (image : RuntimeImage) (module : String) : List String :=
  ((image.modules.find? module).getD ∅).keys

/-- The location of an entry. -/
def find? (image : RuntimeImage) (module entry : String) : Option Image.Location :=
  (image.modules.find? module).bind fun entries => entries.find? entry

/-- Whether a module has an entry. -/
def contains (image : RuntimeImage) (module entry : String) : Bool :=
  (image.find? module entry).isSome

/-- The content of an entry, if there is such an entry.  That a resource is compressed shows even
when the image has been closed. -/
def read (image : RuntimeImage) (closed : Closed) (module entry : String) :
    Except ImageError (Option Bytes) :=
  match image.find? module entry with
  | none => .ok none
  | some location =>
    if location.compressed ≠ 0 then .error (.compressed ("/" ++ module ++ "/" ++ entry))
    else if closed.contains image.handle then
      .error (.io (.other "runtime image has been closed"))
    else (Image.readLocation image.header image.content location).map some

end RuntimeImage
end ModuleAtlas
