import ModuleAtlas.CommandLine.Arguments
import ModuleAtlas.Configuration.Settings
import ModuleAtlas.Report.Views

/-! # Running a command

A run reads the settings, lets the options override them, builds the configuration and prints the
report that the command asks for.  Everything that it needs from outside is a file tree and an
`Environment`.
-/
namespace ModuleAtlas.CommandLine

/-- What is known about the surroundings besides files. -/
structure Environment where
  /-- The platform home that is configured for all programs. -/
  home : Option Path := none
  /-- The program that starts the platform, with links followed. -/
  launcher : Option Path := none
deriving Inhabited

/-- The platform when none is chosen: the configured home if it exists, or else the home that
the launcher is in, one folder above the launcher's own. -/
def Environment.fallback (env : Environment) (tree : FileTree) : PlatformChoice :=
  match env.home.filter tree.pathExists with
  | some home => .home home
  | none =>
    match (env.launcher.bind Path.parent?).bind Path.parent? with
    | some home => .home home
    | none => .none

/-- What a run leaves behind. -/
structure Outcome where
  /-- The exit code. -/
  exit : Nat
  /-- What is printed. -/
  output : String := ""
  /-- What is wrong. -/
  error : Option String := none
deriving DecidableEq, Repr, Inhabited

/-- Why a run fails after the command line has been understood. -/
inductive Failure where
  /-- The file with settings cannot be used. -/
  | settings (file : Path) (cause : AtlasError)
  /-- The configuration cannot be built. -/
  | configuration (cause : AtlasError)
  /-- The command names a module that does not take part. -/
  | unknownModule (name : String)
  /-- A step of the library fails. -/
  | step (cause : AtlasError)
deriving DecidableEq, Repr

/-- The wording of a failure: what was being done, what went wrong, and why. -/
def Failure.message : Failure → String
  | .settings file cause => s!"failed to load settings from {file.text}: {cause.report}"
  | .configuration cause => s!"failed to build dependency configuration: {cause.report}"
  | .unknownModule name => s!"module {name} is not part of the configuration"
  | .step cause => cause.report

/-- The failure of the library that a run fails with, if there is one. -/
def Failure.cause? : Failure → Option AtlasError
  | .settings _ cause | .configuration cause | .step cause => some cause
  | .unknownModule _ => none

/-- What a failed run leaves behind.  One that is broken off does not tell what was being done. -/
def Failure.outcome (failure : Failure) : Outcome :=
  if failure.cause? = some .overlong then { exit := 101, error := some overlongMessage }
  else { exit := 1, error := some failure.message }

/-- The settings in the file that the options name, or none. -/
def loadSettings (tree : FileTree) (o : Options) : Except Failure Settings :=
  match o.config with
  | none => .ok {}
  | some path => (Settings.load tree path).mapError (.settings path)

/-- Lets the options override the settings. -/
def overrideSettings (s : Settings) (o : Options) : Except Failure Settings := do
  let system ← match o.system with
    | none => pure s.system
    | some raw => ((ofSettings (PlatformChoice.ofText raw)).mapError .step).map some
  return {
    system
    modulePath := (o.modulePath.map Path.splitList).getD s.modulePath
    upgradeModulePath := (o.upgradeModulePath.map Path.splitList).getD s.upgradeModulePath
    classPath := (o.classPath.map fun p => [p]).getD s.classPath
    addModules := if o.addModules.isEmpty then s.addModules else o.addModules
    multiRelease := o.multiRelease <|> s.multiRelease
    roots := if o.roots.isEmpty then s.roots else o.roots
    allModules := s.allModules || o.allModules }

/-- The number of the opening that belongs to the configuration. -/
def buildOpening : Nat := 1

/-- The number of the opening that belongs to the command. -/
def commandOpening : Nat := 2

/-- Builds the configuration. -/
def configure (tree : FileTree) (env : Environment) (o : Options) :
    Except Failure Configuration := do
  let settings ← overrideSettings (← loadSettings tree o) o
  let plan ← (settings.plan (env.fallback tree)).mapError .step
  (plan.build tree buildOpening).mapError .configuration

/-- Lines of output. -/
def lines (ls : List String) : String := String.join (ls.map (· ++ "\n"))

/-- A value of a report as output. -/
def jsonLines (value : Json) : String := lines [value.pretty]

/-- The line about a module. -/
def moduleLine (s : UnitSummary) : String :=
  s.name ++ (if s.platform then " (platform)" else "") ++ " " ++ s.location

/-- The lines about split packages: each package and below it where it comes from. -/
def splitLines (r : SplitReport) : List String :=
  if r.isEmpty then ["no split packages"]
  else r.packages.entries.flatMap fun (package, origins) =>
    package :: origins.toList.map ("    " ++ ·)

/-- The line about the owner of a class. -/
def ownerLine : OwnerReport → String
  | .unit className name location => s!"{className} -> {name} ({location})"
  | .unnamed className path => s!"{className} -> {path}"
  | .unknown className => s!"{className} -> not found"

/-- What a command prints about a configuration. -/
def print (tree : FileTree) (c : Configuration) (json : Bool) :
    Command → Except Failure String
  | .modules =>
    let summaries := c.units.values.map ModuleUnit.summary
    .ok (if json then jsonLines (.list (summaries.map UnitSummary.toJson))
      else lines (summaries.map moduleLine))
  | .resolve names => do
    let units ← (c.resolve tree commandOpening (NameSet.ofList names)).mapError .step
    let found := units.map ModuleUnit.name
    return if json then jsonLines (Json.texts found) else lines found
  | .reads name => do
    if (c.findUnit name).isNone then throw (.unknownModule name)
    let report ← (c.readsReport name).mapError .step
    return if json then jsonLines report.toJson
      else lines (report.reads.map fun read => s!"{report.unit} -> {read}")
  | .splitPackages =>
    let report := c.splitReport
    .ok (if json then jsonLines report.toJson else lines (splitLines report))
  | .owner className =>
    let report := c.ownerReport className
    .ok (if json then jsonLines report.toJson else lines [ownerLine report])

/-- Builds the configuration and carries out the command. -/
def carryOut (tree : FileTree) (env : Environment) (args : Arguments) : Except Failure String := do
  let c ← configure tree env args.options
  print tree c args.options.json args.command

/-- Runs a command line. -/
def run (tree : FileTree) (env : Environment) (words : List String) : Outcome :=
  match Arguments.read words with
  | .error .help => { exit := 0, output := lines [UsageError.help.message] }
  | .error e => { exit := 2, error := some e.message }
  | .ok args =>
    match carryOut tree env args with
    | .ok output => { exit := 0, output }
    | .error failure => failure.outcome

end ModuleAtlas.CommandLine
