import ModuleAtlas.Content.Artifact
import ModuleAtlas.Discovery.Catalog
import ModuleAtlas.Discovery.DefaultRoots

/-! # Platforms

A platform home keeps its modules either packed in a runtime image or exploded into one folder
for each module.  A `Platform` is the catalog of such a home: the descriptor of each module by
the name it declares.  Descriptors of a packed platform are sanitized.
-/
namespace ModuleAtlas

/-- Which platform to use. -/
inductive PlatformChoice where
  /-- The one at a home. -/
  | home (path : Path)
  /-- None. -/
  | none
deriving DecidableEq, Repr, Inhabited

/-- Where the content of a platform is. -/
inductive PlatformSource where
  /-- In a runtime image. -/
  | packed (image : RuntimeImage)
  /-- In folders below a folder. -/
  | exploded (root : Path)
  /-- Nowhere. -/
  | empty
deriving Inhabited

/-- The catalog of a platform. -/
structure Platform where
  /-- The home, if there is a platform. -/
  home : Option Path := none
  /-- Where its content is. -/
  source : PlatformSource := .empty
  /-- What each module declares, in order of discovery. -/
  units : Catalog := .empty
deriving Inhabited

namespace Platform

/-- The catalog without modules. -/
def empty : Platform := {}

/-- The descriptor of a module of an image, if the module has one. -/
def readPacked (image : RuntimeImage) (name : String) :
    Except AtlasError (Option ModuleDescriptor) := do
  match image.read {} name EntryName.moduleInfo with
  | .error cause => throw (.ofImage image.path cause)
  | .ok none => return none
  | .ok (some bytes) =>
    match ClassFile.parseModuleInfo bytes with
    | .ok d => return some (d.extendPackages (image.entries name)).sanitized
    | .error cause => throw (.descriptor (image.path.child name) cause)

/-- Catalogs the modules of an image of the given names. -/
def catalogPacked (image : RuntimeImage) (units : Catalog) :
    List String → Except AtlasError Catalog
  | [] => .ok units
  | name :: names => do
    match ← readPacked image name with
    | some d => catalogPacked image (units.add d) names
    | none => catalogPacked image units names

/-- Opens a home that is packed in an image. -/
def openPacked (tree : FileTree) (handle : Handle) (home file : Path) :
    Except AtlasError Platform := do
  match RuntimeImage.openFile tree handle file with
  | .error cause => throw (.image file cause)
  | .ok image =>
    let units ← catalogPacked image .empty image.moduleNames
    return { home := some home, source := .packed image, units }

/-- The descriptor in the folder of a module, if there is one. -/
def readExploded (tree : FileTree) (handle : Handle) (folder : Path) :
    Except AtlasError (Option ModuleDescriptor) := do
  let file := folder.child EntryName.moduleInfo
  if !tree.isFile file then return none
  match tree.readFile file with
  | .error cause => throw (.io file cause)
  | .ok bytes =>
    match ClassFile.parseModuleInfo bytes with
    | .error cause => throw (.descriptor file cause)
    | .ok d =>
      let reader ← EntryReader.openFolder tree handle folder
      return some (d.extendPackages reader.entries)

/-- Catalogs the modules in some folders. -/
def catalogExploded (tree : FileTree) (handle : Handle) (units : Catalog) :
    List Path → Except AtlasError Catalog
  | [] => .ok units
  | folder :: folders => do
    match ← readExploded tree handle folder with
    | some d => catalogExploded tree handle (units.add d) folders
    | none => catalogExploded tree handle units folders

/-- Opens a home that is exploded into folders, which are taken in the order of their names. -/
def openExploded (tree : FileTree) (handle : Handle) (home root : Path) :
    Except AtlasError Platform := do
  match tree.sortedChildren root with
  | .error cause => throw (.io root cause)
  | .ok folders =>
    let units ← catalogExploded tree handle .empty folders
    return { home := some home, source := .exploded root, units }

/-- The file of a home that packs its modules. -/
def packedFile (home : Path) : Path := (home.child "lib").child "modules"

/-- The folder of a home that its modules are exploded into. -/
def explodedFolder (home : Path) : Path := home.child "modules"

/-- Opens a home; being packed takes precedence. -/
def openHome (tree : FileTree) (handle : Handle) (home : Path) : Except AtlasError Platform :=
  if tree.isFile (packedFile home) then openPacked tree handle home (packedFile home)
  else if tree.isFolder (explodedFolder home) then
    openExploded tree handle home (explodedFolder home)
  else .error (.configuration (.invalidPlatformHome home))

/-- Opens the chosen platform. -/
def openChoice (tree : FileTree) (handle : Handle) : PlatformChoice → Except AtlasError Platform
  | .none => .ok empty
  | .home path => openHome tree handle path

/-- Whether there are no modules. -/
def isEmpty (p : Platform) : Bool := p.units.names.isEmpty

/-- The names of the modules in order. -/
def unitNames (p : Platform) : List String := p.units.names

/-- What the module of a name declares. -/
def find? (p : Platform) (name : String) : Option ModuleDescriptor := p.units.find? name

/-- What the modules declare, in order. -/
def descriptors (p : Platform) : List ModuleDescriptor := p.units.descriptors

/-- The finder over the modules of the platform. -/
def finder (p : Platform) : Finder := p.units.finder

/-- The roots that serve every program. -/
def defaultRoots (p : Platform) : List String :=
  ModuleAtlas.defaultRoots p.descriptors defaultAggregator

/-- The failure to find the content of a module. -/
def unitNotFound (p : Platform) (name : String) : AtlasError :=
  .io ((p.home.map fun home => home.child name).getD ⟨name⟩)
    (.missing s!"platform unit {name} not found")

/-- A reader of the content of a module, which is looked up by the module's name. -/
def classReader (p : Platform) (tree : FileTree) (handle : Handle) (name : String) :
    Except AtlasError EntryReader :=
  match p.source with
  | .packed image =>
    if image.hasModule name then .ok (EntryReader.ofModule handle image name)
    else .error (p.unitNotFound name)
  | .exploded root =>
    if tree.isFolder (root.child name) then EntryReader.openFolder tree handle (root.child name)
    else .error (p.unitNotFound name)
  | .empty => .error (p.unitNotFound name)

/-- Closes the file of a packed platform.  The answer is whether that was open before; other
platforms keep nothing open. -/
def close (p : Platform) (closed : Closed) : Bool × Closed :=
  match p.source with
  | .packed image => closed.close image.handle
  | _ => (false, closed)

/-- The kind of a source in words. -/
def kindName : PlatformSource → String
  | .packed _ => "packed"
  | .exploded _ => "exploded"
  | .empty => "empty"

end Platform
end ModuleAtlas
