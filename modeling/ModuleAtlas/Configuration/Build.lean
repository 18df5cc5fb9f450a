import ModuleAtlas.Configuration.BuildPlan
import ModuleAtlas.Configuration.ClassPath
import ModuleAtlas.Discovery.ModulePath
import ModuleAtlas.Ownership.PackageIndex
import ModuleAtlas.Resolution.Graph

/-! # Configurations

A configuration is what a build plan amounts to on a file tree: the resolved modules, each
opened, the artifacts that are no modules, and the owners of packages.

Artifacts to be analysed are roots: a modular one by its name, and the others by the default
roots, which are asked for whenever something is analysed that declares no requirements, and also
when there are no other roots.
-/
namespace ModuleAtlas

/-- A frozen set of modules and artifacts. -/
structure Configuration where
  /-- The platform. -/
  platform : Platform := .empty
  /-- Where modules are looked for. -/
  layers : Layers := {}
  /-- The modules that take part, and what they read. -/
  graph : ResolvedGraph := {}
  /-- The opened modules by name, in the order of the graph. -/
  units : OrderedMap ModuleUnit := ∅
  /-- The roots, without those that are roots by default only. -/
  roots : List String := []
  /-- The analysed artifacts that are no modules. -/
  initialArtifacts : List Artifact := []
  /-- The artifacts of the class path. -/
  classPathArtifacts : List Artifact := []
  /-- The owners of packages. -/
  index : PackageIndex := .empty
  /-- The release whose versions of entries count. -/
  release : Option Nat := none
deriving Inhabited

/-- A failed resolution as a failure of the library. -/
def ofResolution {α : Type} (r : Except ResolutionError α) : Except AtlasError α :=
  r.mapError .resolution

/-- Opens the module of a reference. -/
def openUnit (tree : FileTree) (platform : Platform) (release : Option Nat) (handle : Handle)
    (r : ModuleReference) : Except AtlasError ModuleUnit := do
  let reader ← match r.location with
    | .platform => platform.classReader tree handle r.name
    | .path path => EntryReader.openPath tree handle path release
  return {
    descriptor := r.descriptor
    location := r.address tree
    isPlatform := (platform.find? r.name).isSome
    reader }

namespace BuildPlan

/-- The platform of a plan. -/
def openPlatform (plan : BuildPlan) (tree : FileTree) (opening : Nat) :
    Except AtlasError Platform :=
  match plan.platform with
  | some platform => .ok platform
  | none => Platform.openChoice tree ⟨opening, .platform⟩ plan.choice

/-- Opens the artifacts to be analysed. -/
def openRoots (plan : BuildPlan) (tree : FileTree) (opening : Nat) :
    Except AtlasError (List Artifact) :=
  plan.rootPaths.zipIdx.mapM fun (path, i) =>
    Artifact.openPath tree ⟨opening, .root i⟩ path plan.release

/-- Searches a module path that may be missing. -/
def searchOptional (plan : BuildPlan) (tree : FileTree) (list : Option String) :
    Except AtlasError (Option ModulePath) :=
  match list with
  | none => .ok none
  | some list => (ModulePath.searchList tree plan.release list).map some

/-- Searches the paths of the modules among the artifacts to be analysed. -/
def searchExtra (plan : BuildPlan) (tree : FileTree) (paths : List Path) :
    Except AtlasError (Option ModulePath) :=
  if paths.isEmpty then .ok none
  else (ModulePath.search tree plan.release paths).map some

end BuildPlan

/-- What is known before resolution. -/
structure Inputs where
  /-- The platform. -/
  platform : Platform
  /-- The opened artifacts to be analysed. -/
  rootArtifacts : List Artifact
  /-- The modules that take precedence over the platform. -/
  override : Option ModulePath
  /-- The modules of the application. -/
  application : Option ModulePath
  /-- The modules among the artifacts to be analysed. -/
  extra : Option ModulePath
  /-- The paths that the class paths stand for. -/
  classPath : List Path

namespace Inputs

/-- The names of a module path that may be missing. -/
def namesOf (path : Option ModulePath) : List String :=
  (path.map fun p => p.finder.names).getD []

/-- The analysed artifacts that are no modules. -/
def initialArtifacts (inputs : Inputs) : List Artifact :=
  inputs.rootArtifacts.filter fun a => !a.isModular

/-- Where modules are looked for. -/
def layers (inputs : Inputs) : Layers where
  override := inputs.override.map ModulePath.finder
  platform := some inputs.platform.finder
  application := inputs.application.map ModulePath.finder
  extra := inputs.extra.map ModulePath.finder

/-- The roots that are asked for: by name, all of the platform, the modules among the analysed
artifacts, all of the application. -/
def roots (inputs : Inputs) (plan : BuildPlan) : List String :=
  distinct (plan.roots ++
    (if plan.rootsPlatform then inputs.platform.unitNames else []) ++
    namesOf inputs.extra ++
    (if plan.rootsApplication then namesOf inputs.application else []))

/-- Whether the default roots of the platform are roots too. -/
def needsDefaultRoots (inputs : Inputs) (plan : BuildPlan) : Bool :=
  !inputs.initialArtifacts.isEmpty || !inputs.classPath.isEmpty ||
    (inputs.roots plan).isEmpty || plan.rootsDefault

/-- The roots to start resolution from. -/
def resolutionRoots (inputs : Inputs) (plan : BuildPlan) : NameSet :=
  NameSet.ofList (inputs.roots plan ++
    if inputs.needsDefaultRoots plan then inputs.platform.defaultRoots else [])

end Inputs

namespace BuildPlan

/-- Opens and searches everything that a plan names. -/
def gather (plan : BuildPlan) (tree : FileTree) (opening : Nat) : Except AtlasError Inputs := do
  let platform ← plan.openPlatform tree opening
  let rootArtifacts ← plan.openRoots tree opening
  let override ← plan.searchOptional tree plan.overridePath
  let application ← plan.searchOptional tree plan.applicationPath
  let extra ← plan.searchExtra tree ((rootArtifacts.filter Artifact.isModular).map Artifact.path)
  let classPath ← ClassPath.expandAll tree plan.classPaths
  return { platform, rootArtifacts, override, application, extra, classPath }

/-- Opens the modules of a graph. -/
def openUnits (plan : BuildPlan) (tree : FileTree) (opening : Nat) (platform : Platform)
    (graph : ResolvedGraph) : Except AtlasError (List ModuleUnit) :=
  graph.modules.mapM fun m =>
    openUnit tree platform plan.release ⟨opening, .unit m.reference.name⟩ m.reference

/-- Opens the artifacts of the class path; paths that lead nowhere are passed over. -/
def openClassPath (plan : BuildPlan) (tree : FileTree) (opening : Nat) (paths : List Path) :
    Except AtlasError (List Artifact) :=
  (paths.filter tree.pathExists).zipIdx.mapM fun (path, i) =>
    Artifact.openPath tree ⟨opening, .classPath i⟩ path plan.release

/-- The index of some modules and artifacts. -/
def indexOf (units : List ModuleUnit) (artifacts : List Artifact) : PackageIndex :=
  artifacts.foldl PackageIndex.addArtifact (units.foldl PackageIndex.addUnit .empty)

/-- Builds a configuration; `opening` tells what is opened apart from what others have opened. -/
def build (plan : BuildPlan) (tree : FileTree) (opening : Nat) :
    Except AtlasError Configuration := do
  let inputs ← plan.gather tree opening
  -- the class path is opened last, so its failures show only if all modules open
  let graph ← ofResolution (resolve inputs.layers.finder (inputs.resolutionRoots plan))
  let units ← plan.openUnits tree opening inputs.platform graph
  let classPathArtifacts ← plan.openClassPath tree opening inputs.classPath
  return {
    platform := inputs.platform
    layers := inputs.layers
    graph
    units := units.foldl (fun table u => table.insert u.name u) ∅
    roots := inputs.roots plan
    initialArtifacts := inputs.initialArtifacts
    classPathArtifacts
    index := indexOf units (inputs.initialArtifacts ++ classPathArtifacts)
    release := plan.release }

end BuildPlan
end ModuleAtlas
