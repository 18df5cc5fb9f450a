import ModuleAtlas.Descriptor
import ModuleAtlas.Files.Tree

/-! # Module references

A reference is a module that has been found: what it declares and where its content is.
-/
namespace ModuleAtlas

/-- Where the content of a module is. -/
inductive Location where
  /-- In the platform. -/
  | platform
  /-- In an archive or folder of its own. -/
  | path (p : Path)
deriving DecidableEq, Repr, Inhabited

/-- A module that has been found. -/
structure ModuleReference where
  /-- What it declares. -/
  descriptor : ModuleDescriptor
  /-- Where its content is. -/
  location : Location
deriving DecidableEq, Inhabited

namespace ModuleReference

/-- The module's name. -/
def name (r : ModuleReference) : String := r.descriptor.name

/-- Whether the module is part of the platform. -/
def isPlatform (r : ModuleReference) : Bool := r.location == .platform

/-- The modules it requires, however it requires them. -/
def requiredNames (r : ModuleReference) : List String := r.descriptor.requires.map Requires.name

/-- The modules it requires at run time, that is, without the static modifier. -/
def followedNames (r : ModuleReference) : List String :=
  (r.descriptor.requires.filter fun q => !q.modifiers.isStatic).map Requires.name

/-- The modules that its readers read as well. -/
def transitiveNames (r : ModuleReference) : List String :=
  (r.descriptor.requires.filter fun q => q.modifiers.transitive).map Requires.name

end ModuleReference

/-- The address of a file: its path from the root on. -/
def FileTree.address (tree : FileTree) (p : Path) : String := "file://" ++ (tree.absolute p).text

/-- The address of a reference as it is reported. -/
def ModuleReference.address (tree : FileTree) (r : ModuleReference) : String :=
  match r.location with
  | .platform => "jrt:/" ++ r.name
  | .path p => tree.address p

end ModuleAtlas
