import ModuleAtlas.Ownership.Owner

/-! # Package ownership

A module owns the packages it declares; of several modules that declare a package, the one added
first owns it.  Artifacts contribute the packages that they have classes in, and several may
contribute the same package.  A package that is both owned and contributed is split.
-/
namespace ModuleAtlas

/-- Who owns and who contributes each package. -/
structure PackageIndex where
  /-- The owner of each package that is owned. -/
  owners : OrderedMap ModuleUnit := ∅
  /-- The contributors of each package that is contributed, in the order in which they were
  added. -/
  contributors : OrderedMap (List Artifact) := ∅
deriving Inhabited

namespace PackageIndex

/-- The index without packages. -/
def empty : PackageIndex := {}

/-- The module that owns a package. -/
def owner? (ix : PackageIndex) (package : String) : Option ModuleUnit := ix.owners.find? package

/-- The artifacts that contribute a package. -/
def contributorsOf (ix : PackageIndex) (package : String) : List Artifact :=
  (ix.contributors.find? package).getD []

/-- Adds a module, which comes to own its packages as far as they are not owned yet. -/
def addUnit (ix : PackageIndex) (u : ModuleUnit) : PackageIndex :=
  { ix with owners := u.packages.toList.foldl (fun owners p => owners.insertNew p u) ix.owners }

/-- Adds a contributor to a package. -/
def contribute (a : Artifact) (contributors : OrderedMap (List Artifact)) (package : String) :
    OrderedMap (List Artifact) :=
  contributors.insert package ((contributors.find? package).getD [] ++ [a])

/-- Adds an artifact, which contributes each of its packages once. -/
def addArtifact (ix : PackageIndex) (a : Artifact) : PackageIndex :=
  { ix with contributors := a.classPackages.foldl (contribute a) ix.contributors }

/-- All packages that are owned or contributed. -/
def packages (ix : PackageIndex) : NameSet :=
  NameSet.ofList (ix.owners.keys ++ ix.contributors.keys)

/-- The owner of a class.  The module that owns the package comes first, but only if it holds
the class; then come the contributors of the package. -/
def findOwner (ix : PackageIndex) (className : String) : Option Owner :=
  let entry := EntryName.ofClass className
  let package := EntryName.package entry
  match (ix.owner? package).filter fun u => u.contains entry with
  | some u => some (.unit u)
  | none => ((ix.contributorsOf package).find? fun a => a.contains entry).map .artifact

/-- Where a split package comes from; `none` if the package is not split. -/
def origins? (ix : PackageIndex) (package : String) : Option NameSet :=
  match ix.owner? package, ix.contributors.find? package with
  | some u, some artifacts => some (NameSet.ofList (u.location :: artifacts.map (·.path.text)))
  | _, _ => none

/-- The split packages, and where each comes from. -/
def splitPackages (ix : PackageIndex) : NameMap NameSet :=
  NameMap.ofList (ix.contributors.keys.filterMap fun p => (ix.origins? p).map fun o => (p, o))

end PackageIndex
end ModuleAtlas
