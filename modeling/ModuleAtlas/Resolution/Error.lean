import ModuleAtlas.Files.Path

/-! # Failures of module resolution -/
namespace ModuleAtlas

/-- Why a set of root modules has no module graph. -/
inductive ResolutionError where
  /-- A module that is asked for or required is not known. -/
  | unresolved (name : String) (requiredBy : Option String)
  /-- Modules require each other in a circle, written with its first module at both ends. -/
  | cycle (path : List String)
  /-- One folder of modules holds two modules of the same name. -/
  | duplicate (name : String) (first second : Path)
deriving DecidableEq, Repr, Inhabited

/-- The wording of a resolution error. -/
def ResolutionError.message : ResolutionError → String
  | .unresolved name none => s!"module {name} not found"
  | .unresolved name (some origin) => s!"module {name} not found, required by {origin}"
  | .cycle path => "cycle detected: " ++ " -> ".intercalate path
  | .duplicate name first second =>
    s!"two versions of module {name} found in {first.text} ({second.text})"

end ModuleAtlas
