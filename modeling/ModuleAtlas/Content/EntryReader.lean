import ModuleAtlas.Content.Layout
import ModuleAtlas.Error
import ModuleAtlas.Image.RuntimeImage
import ModuleAtlas.Names.Distinct
import ModuleAtlas.Zip.Archive

/-! # Entry readers

An entry reader lists the entries of an archive, of a folder or of one module of a runtime image,
and reads them.  The listing is taken when the reader is opened and never changes; closing a
reader only ends the reading.
-/
namespace ModuleAtlas

/-- What a reader lists and reads. -/
inductive Content where
  /-- An archive, with the stored name of each entry. -/
  | archive (path : Path) (archive : Zip.Archive) (stored : OrderedMap String)
  /-- A folder, with the files below it. -/
  | folder (root : Path) (listing : List String)
  /-- A module of a runtime image. -/
  | module (image : RuntimeImage) (name : String)
deriving Inhabited

/-- A reader of entries. -/
structure EntryReader where
  /-- What it reads. -/
  content : Content
  /-- What closes it. -/
  handle : Handle
deriving Inhabited

namespace Zip.Archive

/-- Whether an archive is a multi-release archive: its manifest can be read and says so. -/
def isMultiRelease (archive : Archive) : Bool :=
  match archive.locateNamed manifestEntry with
  | .error _ => false
  | .ok stored =>
    match stored.read with
    | .error _ => false
    | .ok bytes =>
      match Utf8.decode bytes with
      | .error _ => false
      | .ok manifest => declaresMultiRelease manifest

end Zip.Archive

/-- The layout of an archive.  Versions of entries count if a release is asked for and the archive
is a multi-release archive. -/
def Layout.ofArchive (path : Path) (release : Option Nat) (archive : Zip.Archive) : Layout :=
  if path.isJmod then .sections
  else
    match release with
    | some limit => if archive.isMultiRelease then .versioned limit else .plain
    | none => .plain

namespace EntryReader

/-- The path that the reader stands for. -/
def path (reader : EntryReader) : Path :=
  match reader.content with
  | .archive path _ _ => path
  | .folder root _ => root
  | .module image name => image.path.child name

/-- The names of the entries, each once. -/
def entries (reader : EntryReader) : List String :=
  match reader.content with
  | .archive _ _ stored => stored.keys
  | .folder _ listing => listing
  | .module image name => image.entries name

/-- Whether there is an entry of that name. -/
def contains (reader : EntryReader) (entry : String) : Bool := decide (entry ∈ reader.entries)

/-- Whether the reader says that it has been closed.  It says so as well when a call on it was
broken off. -/
def isClosed (reader : EntryReader) (closed : Closed) : Bool :=
  closed.contains reader.handle || closed.isMarked reader.handle

/-- Closes the reader.  The answer is whether it was open before. -/
def close (reader : EntryReader) (closed : Closed) : Bool × Closed := closed.close reader.handle

/-- A reader of the folder at a path.  Its entries are what is shown for the locations of the files,
each once, even if that is the same for several files. -/
def openFolder (tree : FileTree) (handle : Handle) (root : Path) : Except AtlasError EntryReader :=
  match tree.walk root with
  | .ok locations => .ok ⟨.folder root (distinct (locations.map locationText)), handle⟩
  | .error cause => .error (.io root cause)

/-- A reader of the archive in a file.  A folder can be opened like a file, but nothing can be
read from it. -/
def openArchive (tree : FileTree) (handle : Handle) (path : Path) (release : Option Nat) :
    Except AtlasError EntryReader := do
  let bytes ← match tree.status path with
    | .ok (.file bytes) => pure bytes
    | .ok _ => throw (.zip path (.io .isADirectory))
    | .error cause => throw (.io path cause)
  match Zip.Archive.parse bytes with
  | .error cause => throw (.zip path cause)
  | .ok archive =>
    let layout := Layout.ofArchive path release archive
    match archive.fileNames with
    | .error cause => throw (.zip path cause)
    | .ok names => return ⟨.archive path archive (foldEntries layout names), handle⟩

/-- A reader of what is at a path: a folder or an archive. -/
def openPath (tree : FileTree) (handle : Handle) (path : Path) (release : Option Nat) :
    Except AtlasError EntryReader :=
  if tree.isFolder path then openFolder tree handle path
  else openArchive tree handle path release

/-- A reader of one module of a runtime image. -/
def ofModule (handle : Handle) (image : RuntimeImage) (name : String) : EntryReader :=
  ⟨.module image name, handle⟩

/-- The content that is stored in an archive.  A buffer of the length that the directory gives is
made first. -/
def readStored (path : Path) (data : Zip.Stored) : Except AtlasError Bytes :=
  if Binary.bufferBound ≤ data.size then .error .overlong
  else data.read.mapError (.io path)

/-- The content of a listed entry, as long as nothing is closed that it is read from. -/
def readListed (tree : FileTree) (closed : Closed) (content : Content) (entry : String) :
    Except AtlasError (Option Bytes) :=
  match content with
  | .archive path archive stored =>
    match stored.find? entry with
    | none => .ok none
    | some name =>
      match archive.locateNamed name with
      | .error cause => .error (.zip path cause)
      | .ok data => (readStored path data).map some
  | .folder root _ =>
    let path := root.child entry
    match tree.readFile path with
    | .ok bytes => .ok (some bytes)
    | .error cause => .error (.io path cause)
  | .module image name => (image.read closed name entry).mapError (.ofImage image.path)

/-- The content of an entry; `none` if there is no entry of that name, closed or not. -/
def read (reader : EntryReader) (tree : FileTree) (closed : Closed) (entry : String) :
    Except AtlasError (Option Bytes) :=
  if !reader.contains entry then .ok none
  else if closed.contains reader.handle then .error (.closed reader.path)
  else readListed tree closed reader.content entry

/-- What is left when an entry has been read: the reader is marked if that was broken off. -/
def afterRead (reader : EntryReader) (tree : FileTree) (closed : Closed) (entry : String) :
    Closed :=
  match reader.read tree closed entry with
  | .error .overlong => closed.mark reader.handle
  | _ => closed

theorem read_eq_none_of_not_contains {reader : EntryReader} {entry : String} (tree : FileTree)
    (closed : Closed) (h : reader.contains entry = false) :
    reader.read tree closed entry = .ok none := by
  simp [read, h]

end EntryReader
end ModuleAtlas
