import ModuleAtlas.Content.Artifact
import ModuleAtlas.Discovery.Finder

/-! # Module paths

The entries of a module path are modules, or folders of modules.  A folder is a module itself if
it holds a descriptor; otherwise its children are looked at in the order of their names.  What
holds no descriptor is passed over, and so are entries that do not exist.

One folder must not hold two modules of the same name; between entries the earlier one counts.
-/
namespace ModuleAtlas

/-- A module path that has been searched. -/
structure ModulePath where
  /-- The entries as given. -/
  entries : List Path
  /-- The modules found. -/
  finder : Finder
deriving Inhabited

namespace ModulePath

/-- The handle of what is opened during a search, which nobody else sees. -/
def searchHandle : Handle := ⟨0, .whole⟩

/-- The module at a path, unless what is there declares none. -/
def readModule (tree : FileTree) (release : Option Nat) (path : Path) :
    Except AtlasError (Option ModuleDescriptor) :=
  (Artifact.openPath tree searchHandle path release).map Artifact.descriptor

/-- Whether the folder at a path holds a descriptor. -/
def holdsDescriptor (tree : FileTree) (folder : Path) : Bool :=
  tree.isFile (folder.child EntryName.moduleInfo)

/-- Whether a child of a folder of modules is looked at. -/
def isCandidate (tree : FileTree) (child : Path) : Bool :=
  child.isArchive || holdsDescriptor tree child

/-- Looks at the children of a folder in order.  The modules found come with their paths. -/
def searchChildren (tree : FileTree) (release : Option Nat)
    (found : List (Path × ModuleDescriptor)) :
    List Path → Except AtlasError (List (Path × ModuleDescriptor))
  | [] => .ok found
  | child :: rest =>
    if isCandidate tree child then
      match readModule tree release child with
      | .error e => .error e
      | .ok none => searchChildren tree release found rest
      | .ok (some d) =>
        match found.find? fun m => m.2.name == d.name with
        | some (first, _) => .error (.resolution (.duplicate d.name first child))
        | none => searchChildren tree release (found ++ [(child, d)]) rest
    else searchChildren tree release found rest

/-- The modules at one entry of a module path, with their paths. -/
def searchEntry (tree : FileTree) (release : Option Nat) (entry : Path) :
    Except AtlasError (List (Path × ModuleDescriptor)) :=
  if !tree.pathExists entry then .ok []
  else if tree.isFolder entry && !holdsDescriptor tree entry then
    match tree.sortedChildren entry with
    | .ok children => searchChildren tree release [] children
    | .error cause => .error (.io entry cause)
  else
    (readModule tree release entry).map fun module => module.toList.map fun d => (entry, d)

/-- The modules at all entries, in order, those hidden by earlier ones included. -/
def searchEntries (tree : FileTree) (release : Option Nat) :
    List Path → Except AtlasError (List (Path × ModuleDescriptor))
  | [] => .ok []
  | entry :: rest =>
    match searchEntry tree release entry with
    | .error e => .error e
    | .ok found => (searchEntries tree release rest).map (found ++ ·)

/-- The reference to a module found at a path. -/
def referenceTo (found : Path × ModuleDescriptor) : ModuleReference where
  descriptor := found.2
  location := .path found.1

/-- Searches a module path. -/
def search (tree : FileTree) (release : Option Nat) (entries : List Path) :
    Except AtlasError ModulePath :=
  (searchEntries tree release entries).map fun found =>
    { entries, finder := Finder.ofList (found.map referenceTo) }

/-- Searches a module path given as a path list, in which empty paths do not count. -/
def searchList (tree : FileTree) (release : Option Nat) (list : String) :
    Except AtlasError ModulePath :=
  search tree release ((Path.splitList list).filter fun p => p.raw ≠ "")

end ModulePath
end ModuleAtlas
