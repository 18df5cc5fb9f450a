import ModuleAtlas.Discovery.Platform

/-! # Build plans

A build plan says which platform, paths and roots a configuration is to be built from.  Nothing is
opened and nothing is checked before the configuration is built.
-/
namespace ModuleAtlas

/-- The root name that stands for all modules of the application path. -/
def allModulePath : String := "ALL-MODULE-PATH"

/-- The root name that stands for the default roots of the platform. -/
def allDefault : String := "ALL-DEFAULT"

/-- What a configuration is to be built from. -/
structure BuildPlan where
  /-- The platform to open. -/
  choice : PlatformChoice := .none
  /-- A platform that is open already and is used instead. -/
  platform : Option Platform := none
  /-- The path list of modules that take precedence over the platform. -/
  overridePath : Option String := none
  /-- The path list of the modules of the application. -/
  applicationPath : Option String := none
  /-- The roots given by name, each once. -/
  roots : List String := []
  /-- The paths of the artifacts to be analysed. -/
  rootPaths : List Path := []
  /-- Class paths. -/
  classPaths : List String := []
  /-- Whether all modules of the application path are roots. -/
  rootsApplication : Bool := false
  /-- Whether the default roots of the platform are roots in any case. -/
  rootsDefault : Bool := false
  /-- Whether all modules of the platform are roots. -/
  rootsPlatform : Bool := false
  /-- The release whose versions of entries count. -/
  release : Option Nat := none
deriving Inhabited

namespace BuildPlan

/-- Adds a root by name, or what one of the two special names stands for. -/
def addModule (plan : BuildPlan) (name : String) : BuildPlan :=
  if name = allModulePath then { plan with rootsApplication := true }
  else if name = allDefault then { plan with rootsDefault := true }
  else { plan with roots := appendNew plan.roots name }

/-- Adds roots by name. -/
def addModules (plan : BuildPlan) (names : List String) : BuildPlan := names.foldl addModule plan

/-- Makes all modules of the platform and of the application path roots. -/
def addAllModules (plan : BuildPlan) : BuildPlan :=
  { plan with rootsPlatform := true, rootsApplication := true }

/-- Adds an artifact to be analysed. -/
def addRoot (plan : BuildPlan) (path : Path) : BuildPlan :=
  { plan with rootPaths := plan.rootPaths ++ [path] }

/-- Adds a class path. -/
def addClassPath (plan : BuildPlan) (classPath : String) : BuildPlan :=
  { plan with classPaths := plan.classPaths ++ [classPath] }

end BuildPlan
end ModuleAtlas
