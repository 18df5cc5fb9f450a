import ModuleAtlas.Configuration.BuildPlan
import ModuleAtlas.Text.Blank
import ModuleAtlas.Toml.Document

/-! # Settings

Settings are what a build plan is written down as.  They are read from a TOML document, in which
fields of other names do not count, and turned into a plan with a fallback for the platform.
-/
namespace ModuleAtlas

/-- A failure of the settings as a failure of the library. -/
def ofSettings {α : Type} (r : Except SettingsError α) : Except AtlasError α :=
  r.mapError fun cause => .configuration (.invalidSettings cause)

namespace PlatformChoice

/-- The text that stands for no platform, in any case of letters. -/
def noneText : String := "none"

/-- Reads the choice of a platform: a home, or the text for none.  Blanks around it do not
count. -/
def ofText (raw : String) : Except SettingsError PlatformChoice :=
  let text := Text.trim raw
  if text = "" then .error .blankSystem
  else if Text.sameLetters text noneText then .ok .none
  else .ok (.home ⟨text⟩)

/-- The text of a choice. -/
def text : PlatformChoice → String
  | .none => noneText
  | .home path => path.text

end PlatformChoice

/-- What a configuration is to be built from, as written down. -/
structure Settings where
  /-- The platform, if it is chosen. -/
  system : Option PlatformChoice := none
  /-- The paths of modules that take precedence over the platform. -/
  upgradeModulePath : List Path := []
  /-- The paths of the modules of the application. -/
  modulePath : List Path := []
  /-- Class paths. -/
  classPath : List String := []
  /-- The roots by name. -/
  addModules : List String := []
  /-- The artifacts to be analysed. -/
  roots : List Path := []
  /-- The release whose versions of entries count. -/
  multiRelease : Option Nat := none
  /-- Whether all modules of the platform and of the application are roots. -/
  allModules : Bool := false
deriving DecidableEq, Inhabited

namespace Settings

/-- The text that a value is. -/
def textOf : Toml.Value → Option String
  | .text s => some s
  | _ => none

/-- The texts that a value lists. -/
def textsOf : Toml.Value → Option (List String)
  | .list items => items.mapM textOf
  | _ => none

/-- The release that a value is. -/
def releaseOf : Toml.Value → Option Nat
  | .integer n => if 0 ≤ n ∧ n ≤ 0xFFFF then some n.toNat else none
  | _ => none

/-- The truth value that a value is. -/
def booleanOf : Toml.Value → Option Bool
  | .boolean b => some b
  | _ => none

/-- The choice of a platform that a value is. -/
def systemOf (v : Toml.Value) : Option PlatformChoice :=
  (textOf v).bind fun s => (PlatformChoice.ofText s).toOption

/-- Reads a field that may be missing. -/
def readField {α : Type} (fields : List (String × Toml.Value)) (name : String)
    (read : Toml.Value → Option α) : Except SettingsError (Option α) :=
  match Toml.Value.lookup name fields with
  | none => .ok none
  | some v =>
    match read v with
    | some a => .ok (some a)
    | none => .error (.mistyped name)

/-- The settings in the fields of a document. -/
def ofFields (fields : List (String × Toml.Value)) : Except SettingsError Settings := do
  let system ← readField fields "system" systemOf
  let upgradeModulePath ← readField fields "upgrade-module-path" textsOf
  let modulePath ← readField fields "module-path" textsOf
  let classPath ← readField fields "class-path" textsOf
  let addModules ← readField fields "add-modules" textsOf
  let roots ← readField fields "roots" textsOf
  let multiRelease ← readField fields "multi-release" releaseOf
  let allModules ← readField fields "all-modules" booleanOf
  return {
    system
    upgradeModulePath := (upgradeModulePath.getD []).map Path.ofText
    modulePath := (modulePath.getD []).map Path.ofText
    classPath := classPath.getD []
    addModules := addModules.getD []
    roots := (roots.getD []).map Path.ofText
    multiRelease
    allModules := allModules.getD false }

/-- Refuses a release that knows no versioned entries. -/
def validate (s : Settings) : Except SettingsError Unit :=
  match s.multiRelease with
  | some release => if release < minMultiRelease then .error (.earlyRelease release) else .ok ()
  | none => .ok ()

/-- Reads settings from a document. -/
def ofToml (source : String) : Except AtlasError Settings := ofSettings do
  match Toml.parse source with
  | some (.table _ fields) =>
    let settings ← ofFields fields
    settings.validate
    return settings
  | _ => throw .malformed

/-- Reads settings from a file. -/
def load (tree : FileTree) (path : Path) : Except AtlasError Settings :=
  match tree.readText path with
  | .ok source => ofToml source
  | .error cause => .error (.io path cause)

/-- The path list of some paths, unless there are none. -/
def listOf (paths : List Path) : Except SettingsError (Option String) :=
  if paths.isEmpty then .ok none
  else
    match Path.joinList? paths with
    | some list => .ok (some list)
    | none => .error .separatorInPath

/-- The plan that settings amount to; `fallback` is the platform when none is chosen. -/
def toPlan (s : Settings) (fallback : PlatformChoice) : Except SettingsError BuildPlan := do
  s.validate
  let overridePath ← listOf s.upgradeModulePath
  let applicationPath ← listOf s.modulePath
  let plan : BuildPlan := {
    choice := s.system.getD fallback
    overridePath
    applicationPath
    release := s.multiRelease
    rootPaths := s.roots
    classPaths := s.classPath }
  let plan := plan.addModules s.addModules
  return if s.allModules then plan.addAllModules else plan

/-- The plan that settings amount to, as a step of the library. -/
def plan (s : Settings) (fallback : PlatformChoice) : Except AtlasError BuildPlan :=
  ofSettings (s.toPlan fallback)

end Settings
end ModuleAtlas
