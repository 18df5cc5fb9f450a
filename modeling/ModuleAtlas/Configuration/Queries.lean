import ModuleAtlas.Configuration.Build

/-! # Questions to a configuration

A configuration answers from what was found when it was built.  Only resolution of other roots may
open modules that do not take part in it; such modules belong to the asker, and closing the
configuration leaves them open.
-/
namespace ModuleAtlas.Configuration

/-- The module of a name. -/
def findUnit (c : Configuration) (name : String) : Option ModuleUnit := c.units.find? name

/-- What the module of a name declares. -/
def findDescriptor (c : Configuration) (name : String) : Option ModuleDescriptor :=
  (c.findUnit name).map ModuleUnit.descriptor

/-- The modules that are roots, in the order in which they became roots. -/
def rootUnits (c : Configuration) : List ModuleUnit := c.roots.filterMap c.findUnit

/-- Whether the platform has a module of this name, even if another takes precedence. -/
def isPlatform (c : Configuration) (name : String) : Bool := (c.platform.find? name).isSome

/-- The finder over all layers. -/
def finder (c : Configuration) : Finder := c.layers.finder

/-- The module of a reference: the one that takes part, or else one opened now. -/
def unitFor (c : Configuration) (tree : FileTree) (opening : Nat) (r : ModuleReference) :
    Except AtlasError ModuleUnit :=
  match c.units.find? r.name with
  | some u => .ok u
  | none => openUnit tree c.platform c.release ⟨opening, .unit r.name⟩ r

/-- The modules that some roots need; without roots, all modules that can be found. -/
def resolve (c : Configuration) (tree : FileTree) (opening : Nat) (roots : NameSet) :
    Except AtlasError (List ModuleUnit) := do
  if roots.isEmpty then c.finder.references.mapM (c.unitFor tree opening)
  else
    let graph ← ofResolution (ModuleAtlas.resolve c.finder roots)
    graph.modules.mapM fun m => c.unitFor tree opening m.reference

/-- The modules that a module reads. -/
def reads (c : Configuration) (name : String) : Except AtlasError (List ModuleUnit) :=
  match c.graph.find? name with
  | none => .error (.configuration (.notInConfiguration name))
  | some m =>
    m.reads.mapM fun read =>
      match c.units.find? read with
      | some u => .ok u
      | none => .error (.configuration (.inconsistentGraph read))

/-- Everything that the configuration keeps open, in the order in which it is closed, but for the
platform. -/
def readers (c : Configuration) : List EntryReader :=
  c.initialArtifacts.map Artifact.reader ++ c.classPathArtifacts.map Artifact.reader ++
    c.units.values.map ModuleUnit.reader

/-- Closes what the configuration keeps open. -/
def close (c : Configuration) (closed : Closed) : Closed :=
  (c.platform.close (c.readers.foldl (fun closed r => (r.close closed).2) closed)).2

end ModuleAtlas.Configuration
