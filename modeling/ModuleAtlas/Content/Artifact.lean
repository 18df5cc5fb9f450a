import ModuleAtlas.ClassFile.ModuleInfo
import ModuleAtlas.Content.EntryReader
import ModuleAtlas.Names.Distinct

/-! # Artifacts

An artifact is an archive or a folder of classes that is given by its path.  It is modular if it
holds a module descriptor.
-/
namespace ModuleAtlas

/-- An opened archive or folder of classes. -/
structure Artifact where
  /-- The reader of its entries. -/
  reader : EntryReader
  /-- What it declares, if it is modular. -/
  descriptor : Option ModuleDescriptor
deriving Inhabited

/-- The descriptor that a reader holds, with the packages of its class entries added. -/
def EntryReader.descriptor (reader : EntryReader) (tree : FileTree) (closed : Closed) :
    Except AtlasError (Option ModuleDescriptor) := do
  match ← reader.read tree closed EntryName.moduleInfo with
  | none => return none
  | some bytes =>
    match ClassFile.parseModuleInfo bytes with
    | .ok d => return some (d.extendPackages reader.entries)
    | .error cause => throw (.descriptor reader.path cause)

namespace Artifact

/-- Opens what is at a path. -/
def openPath (tree : FileTree) (handle : Handle) (path : Path) (release : Option Nat) :
    Except AtlasError Artifact := do
  let reader ← EntryReader.openPath tree handle path release
  let descriptor ← reader.descriptor tree {}
  return { reader, descriptor }

/-- The path it was opened by. -/
def path (a : Artifact) : Path := a.reader.path

/-- The name to show for it. -/
def name (a : Artifact) : String := a.path.displayName

/-- Whether it holds a module descriptor. -/
def isModular (a : Artifact) : Bool := a.descriptor.isSome

/-- Whether it holds an entry. -/
def contains (a : Artifact) (entry : String) : Bool := a.reader.contains entry

/-- The packages of some entries that are classes, in order of first appearance; the descriptor
of the module counts as no class. -/
def packagesOfClasses (entries : List String) : List String :=
  distinct ((entries.filter fun e => EntryName.isClass e && e != EntryName.moduleInfo).map
    EntryName.package)

/-- The packages that it has classes in. -/
def classPackages (a : Artifact) : List String := packagesOfClasses a.reader.entries

end Artifact
end ModuleAtlas
