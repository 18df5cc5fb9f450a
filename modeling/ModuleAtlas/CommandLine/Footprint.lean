import ModuleAtlas.CommandLine.Run

/-! # Footprints

Before a configuration is built, the files it is built from have to be known.  The footprint of
settings is a list of paths at or below which they all lie.
-/
namespace ModuleAtlas

/-- The paths that a platform is looked for at. -/
def PlatformChoice.footprint : PlatformChoice → List Path
  | .none => []
  | .home path => [Platform.packedFile path, Platform.explodedFolder path]

/-- The path that an entry of a class path needs: itself, or the folder whose archives it stands
for. -/
def ClassPath.entryFootprint (entry : Path) : Path :=
  if entry.fileName? = some wildcard then wildcardFolder entry else entry

/-- The paths that settings name, without the empty ones. -/
def Settings.footprint (s : Settings) (fallback : PlatformChoice) : List Path :=
  let classPath := (s.classPath.flatMap Path.splitList).map ClassPath.entryFootprint
  ((s.system.getD fallback).footprint ++ s.upgradeModulePath ++ s.modulePath ++ s.roots ++
    classPath).filter fun p => p.raw ≠ ""

/-- The paths that a command line needs, given a tree that holds its settings file and shows
whether the configured home exists. -/
def CommandLine.footprint (tree : FileTree) (env : Environment) (o : Options) : List Path :=
  match (loadSettings tree o).bind fun s => overrideSettings s o with
  | .ok settings => settings.footprint (env.fallback tree)
  | .error _ => []

end ModuleAtlas
