import ModuleAtlas.ClassFile.Reader
import ModuleAtlas.Image.Header
import ModuleAtlas.Resolution.Error
import ModuleAtlas.Zip.Error

/-! # Failures

Everything that can go wrong between reading the settings and answering a question, by cause.
`AtlasError.message` is the wording of a failure on its own; `AtlasError.report` adds the wording
of the causes below it.
-/
namespace ModuleAtlas

/-- Why settings are refused. -/
inductive SettingsError where
  /-- The text does not follow the grammar of settings. -/
  | malformed
  /-- A setting has a value of another type, or one that is no value for it. -/
  | mistyped (key : String)
  /-- The release is one that knows no versioned entries. -/
  | earlyRelease (release : Nat)
  /-- The platform is given by a blank text. -/
  | blankSystem
  /-- A path holds the character between the paths of a path list. -/
  | separatorInPath
deriving DecidableEq, Repr, Inhabited

/-- The least release that knows versioned entries. -/
def minMultiRelease : Nat := 9

/-- The wording of an error in the settings. -/
def SettingsError.message : SettingsError → String
  | .malformed => "settings are malformed"
  | .mistyped key => s!"wrong value for {key}"
  | .earlyRelease release => s!"multi-release must be at least {minMultiRelease}, got {release}"
  | .blankSystem => "system must be a platform home or `none`"
  | .separatorInPath => "path segment contains separator `:`"

/-- Why a configuration cannot be made or cannot answer. -/
inductive ConfigurationError where
  /-- There is no platform in a folder. -/
  | invalidPlatformHome (home : Path)
  /-- A module takes part but has not been opened. -/
  | inconsistentGraph (name : String)
  /-- A module does not take part. -/
  | notInConfiguration (name : String)
  /-- The settings are refused. -/
  | invalidSettings (cause : SettingsError)
deriving DecidableEq, Repr, Inhabited

/-- The wording of a configuration error. -/
def ConfigurationError.message : ConfigurationError → String
  | .invalidPlatformHome home =>
    s!"{home.text} is not a valid platform home (no lib/modules image or modules directory)"
  | .inconsistentGraph name =>
    s!"module {name} is in the resolved graph but was not opened by the configuration"
  | .notInConfiguration name => s!"module {name} is not part of this configuration"
  | .invalidSettings cause => "invalid settings: " ++ cause.message

/-- Any failure of the library. -/
inductive AtlasError where
  /-- The configuration is at fault. -/
  | configuration (cause : ConfigurationError)
  /-- The modules do not go together. -/
  | resolution (cause : ResolutionError)
  /-- A module descriptor cannot be read. -/
  | descriptor (path : Path) (cause : ClassFile.DescriptorError)
  /-- A runtime image cannot be read. -/
  | image (path : Path) (cause : ImageError)
  /-- A file or folder cannot be read. -/
  | io (path : Path) (cause : IoError)
  /-- An archive cannot be read. -/
  | zip (path : Path) (cause : Zip.ZipError)
  /-- A reader has been closed. -/
  | closed (path : Path)
  /-- A buffer for content would be too long.  This is no answer: the call is broken off, and so is
  all that waits for it. -/
  | overlong
deriving DecidableEq, Repr

namespace AtlasError

/-- The failure to read an image at a path, unless the call is broken off. -/
def ofImage (path : Path) : ImageError → AtlasError
  | .overlong => .overlong
  | cause => .image path cause

/-- The wording of a failure. -/
def message : AtlasError → String
  | .configuration cause => cause.message
  | .resolution cause => cause.message
  | .descriptor path cause => s!"invalid module descriptor in {path.text}: {cause.message}"
  | .image path cause => s!"runtime image error in {path.text}: {cause.message}"
  | .io path cause => s!"IO error while reading {path.text}: {cause.message}"
  | .zip path cause => s!"ZIP error while reading {path.text}: {cause.message}"
  | .closed path => s!"{path.text} has been closed"
  | .overlong => overlongMessage

/-- The wording of the causes below a failure, nearest first. -/
def causes : AtlasError → List String
  | .configuration _ | .resolution _ | .closed _ | .overlong => []
  | .descriptor _ cause =>
    cause.message :: match cause with
      | .malformedText text => [text.message]
      | _ => []
  | .image _ cause =>
    cause.message :: match cause with
      | .io inner => [inner.message]
      | _ => []
  | .io _ cause => [cause.message]
  | .zip _ cause =>
    cause.message :: match cause with
      | .io inner => [inner.message]
      | _ => []

/-- The wording of a failure and of all causes below it. -/
def report (e : AtlasError) : String := ": ".intercalate (e.message :: e.causes)

end AtlasError
end ModuleAtlas
