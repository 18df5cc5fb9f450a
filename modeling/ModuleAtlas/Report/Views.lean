import ModuleAtlas.Configuration.Queries
import ModuleAtlas.Report.Json

/-! # Reports

What is reported about modules, readability, split packages and the owners of classes.
-/
namespace ModuleAtlas

/-- The wording of a directive that exports a package. -/
def Exports.wording (e : Exports) : String :=
  if e.isQualified then e.source ++ " to " ++ ", ".intercalate e.targets.toList else e.source

/-- A summary of a module. -/
structure UnitSummary where
  /-- The module's name. -/
  name : String
  /-- The address of its content. -/
  location : String
  /-- Whether the platform has a module of this name. -/
  platform : Bool
  /-- The modules it requires. -/
  requires : List String
  /-- The packages it exports, in words. -/
  exports : List String
  /-- The packages it holds. -/
  packages : NameSet
deriving DecidableEq, Inhabited

/-- The summary of a module. -/
def ModuleUnit.summary (u : ModuleUnit) : UnitSummary where
  name := u.name
  location := u.location
  platform := u.isPlatform
  requires := u.descriptor.requires.map Requires.name
  exports := u.descriptor.exports.map Exports.wording
  packages := u.packages

/-- A summary as JSON. -/
def UnitSummary.toJson (s : UnitSummary) : Json :=
  .object [("name", .text s.name), ("location", .text s.location), ("platform", .bool s.platform),
    ("requires", Json.texts s.requires), ("exports", Json.texts s.exports),
    ("packages", Json.texts s.packages.toList)]

/-- The modules that a module reads. -/
structure ReadsReport where
  /-- The module's name. -/
  unit : String
  /-- The names of the modules it reads. -/
  reads : List String
deriving DecidableEq, Inhabited

/-- Reports what a module reads. -/
def Configuration.readsReport (c : Configuration) (name : String) :
    Except AtlasError ReadsReport :=
  (c.reads name).map fun units => ⟨name, units.map ModuleUnit.name⟩

/-- A report on readability as JSON. -/
def ReadsReport.toJson (r : ReadsReport) : Json :=
  .object [("unit", .text r.unit), ("reads", Json.texts r.reads)]

/-- The packages that a module owns and artifacts contribute to. -/
structure SplitReport where
  /-- The origins of each of these packages. -/
  packages : NameMap NameSet
deriving DecidableEq

/-- Reports the split packages. -/
def Configuration.splitReport (c : Configuration) : SplitReport := ⟨c.index.splitPackages⟩

/-- Whether no package is split. -/
def SplitReport.isEmpty (r : SplitReport) : Bool := r.packages.isEmpty

/-- A report on split packages as JSON. -/
def SplitReport.toJson (r : SplitReport) : Json :=
  .object [("packages", .object (r.packages.entries.map fun (package, origins) =>
    (package, Json.texts origins.toList)))]

/-- To whom a class belongs. -/
inductive OwnerReport where
  /-- To a module. -/
  | unit (className name location : String)
  /-- To an artifact that is no module. -/
  | unnamed (className path : String)
  /-- To nobody. -/
  | unknown (className : String)
deriving DecidableEq, Repr, Inhabited

/-- Reports the owner of a class. -/
def Configuration.ownerReport (c : Configuration) (className : String) : OwnerReport :=
  match c.index.findOwner className with
  | some (.unit u) => .unit className u.name u.location
  | some (.artifact a) => .unnamed className a.path.text
  | none => .unknown className

/-- A report on an owner as JSON. -/
def OwnerReport.toJson : OwnerReport → Json
  | .unit className name location =>
    .object [("kind", .text "unit"), ("class", .text className), ("name", .text name),
      ("location", .text location)]
  | .unnamed className path =>
    .object [("kind", .text "unnamed"), ("class", .text className), ("path", .text path)]
  | .unknown className => .object [("kind", .text "unknown"), ("class", .text className)]

/-- Items between brackets on one line. -/
def bracketed (left right : String) (items : List String) : String :=
  left ++ ", ".intercalate items ++ right

/-- The shape of a platform on one line. -/
def Platform.outline (p : Platform) : String :=
  let home := match p.home with
    | some path => bracketed "Some(" ")" [Text.quotedPath path.raw.octets]
    | none => "None"
  bracketed "PlatformCatalog \x7b " " \x7d" ["home: " ++ home,
    "kind: " ++ Text.quoted (Platform.kindName p.source),
    "units: " ++ toString p.unitNames.length]

/-- The shape of a configuration on one line. -/
def Configuration.outline (c : Configuration) : String :=
  let release := match c.release with
    | some n => bracketed "Some(" ")" [toString n]
    | none => "None"
  bracketed "DependencyConfiguration \x7b " " \x7d"
    ["units: " ++ bracketed "[" "]" (c.units.keys.map Text.quoted),
      "roots: " ++ bracketed "\x7b" "\x7d" (c.roots.map Text.quoted),
      "initial_archives: " ++ toString c.initialArtifacts.length,
      "classpath_archives: " ++ toString c.classPathArtifacts.length,
      "release: " ++ release]

end ModuleAtlas
