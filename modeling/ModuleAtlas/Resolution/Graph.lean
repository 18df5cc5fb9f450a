import ModuleAtlas.Resolution.Readability

/-! # Resolved graphs

Resolution turns a finder and a set of root names into the modules that take part and, for
each of them, the modules it reads.
-/
namespace ModuleAtlas

/-- A module that takes part. -/
structure ResolvedModule where
  /-- The module. -/
  reference : ModuleReference
  /-- The names of the modules it reads, in order of discovery. -/
  reads : List String
deriving Inhabited

/-- The modules of a resolution, in order of discovery. -/
structure ResolvedGraph where
  /-- The modules. -/
  modules : List ResolvedModule := []
deriving Inhabited

namespace ResolvedGraph

/-- The module of a name. -/
def find? (g : ResolvedGraph) (name : String) : Option ResolvedModule :=
  g.modules.find? fun m => m.reference.name == name

/-- The names of the modules. -/
def names (g : ResolvedGraph) : List String := g.modules.map fun m => m.reference.name

/-- The number of modules. -/
def size (g : ResolvedGraph) : Nat := g.modules.length

/-- Whether there is no module. -/
def isEmpty (g : ResolvedGraph) : Bool := g.modules.isEmpty

end ResolvedGraph

/-- The graph over a selection. -/
def graphOf (s : Selection) : ResolvedGraph :=
  ⟨(s.modules.zip (readEach s ∅ s.modules)).map fun (r, reads) => ⟨r, reads⟩⟩

/-- Resolves a set of root names: all they need must be known, and must not go round in
circles. -/
def resolve (finder : Finder) (roots : NameSet) : Except ResolutionError ResolvedGraph := do
  let s ← selectRoots finder roots
  rejectCircles s
  return graphOf s

end ModuleAtlas
