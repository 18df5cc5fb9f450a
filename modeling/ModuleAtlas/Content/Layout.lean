import ModuleAtlas.Names.OrderedMap
import ModuleAtlas.Text.Blank
import ModuleAtlas.Text.Cut

/-! # Layouts of archives

The names under which an archive stores its files are not always the names of its entries.  A
packed module keeps its classes in a section of their own.  A multi-release archive keeps
further versions of entries in folders named by release, and which of them counts depends on
the release asked for.

`foldEntries` turns the stored names into a table from entry names to stored names.
-/
namespace ModuleAtlas

/-- Where versioned entries are stored. -/
def versionsFolder : String := "META-INF/versions/"

/-- The section of a packed module that holds its classes. -/
def classesSection : String := "classes/"

/-- The entry with the properties of an archive. -/
def manifestEntry : String := "META-INF/MANIFEST.MF"

/-- The greatest release. -/
def maxRelease : Nat := 0xFFFF

/-- How stored names become entry names. -/
inductive Layout where
  /-- Entries are what is stored in the section for classes. -/
  | sections
  /-- Entries are stored under their own names; versions do not count. -/
  | plain
  /-- As `plain`, and of each entry the version for the latest release up to `limit` counts. -/
  | versioned (limit : Nat)
deriving DecidableEq, Repr, Inhabited

/-- The number that decimal digits write. -/
def readDigits (digits : List Char) : Option Nat :=
  if digits.isEmpty || !digits.all Char.isDigit then none
  else some (digits.foldl (fun n d => n * 10 + (d.toNat - '0'.toNat)) 0)

/-- The release that a text writes: decimal digits, which a plus sign may precede, up to the
greatest release. -/
def release? (text : String) : Option Nat :=
  let digits := match text.toList with
    | '+' :: rest => rest
    | cs => cs
  (readDigits digits).filter (· ≤ maxRelease)

/-- The release and the entry name of a versioned entry, given what follows the folder of
versions in its stored name. -/
def versionedEntry? (stored : String) : Option (Nat × String) := do
  let (version, entry) ← Text.splitFirst? '/' stored
  let release ← release? version
  if entry = "" then none else some (release, entry)

/-- What a stored name stands for. -/
inductive StoredName where
  /-- Nothing that is listed. -/
  | hidden
  /-- The entry of that name, unless there is a version of it. -/
  | base (entry : String)
  /-- A version of an entry. -/
  | version (release : Nat) (entry : String)
deriving DecidableEq, Repr

/-- What a stored name stands for in a layout. -/
def Layout.classify (layout : Layout) (stored : String) : StoredName :=
  if Text.endsWith "/" stored then .hidden
  else
    match layout with
    | .sections =>
      match Text.afterFront? classesSection stored with
      | some entry => .base entry
      | none => .hidden
    | .plain => if Text.beginsWith versionsFolder stored then .hidden else .base stored
    | .versioned limit =>
      match Text.afterFront? versionsFolder stored with
      | none => .base stored
      | some rest =>
        match versionedEntry? rest with
        | some (release, entry) => if release ≤ limit then .version release entry else .hidden
        | none => .hidden

/-- The entries found so far. -/
structure FoldState where
  /-- The stored name of each entry. -/
  entries : OrderedMap String := ∅
  /-- The release of each entry that is a version. -/
  chosen : OrderedMap Nat := ∅
deriving Inhabited

/-- Takes one more stored name into account.  A version takes over from the base entry and from
versions for releases that are not later; a base entry never takes over. -/
def FoldState.step (layout : Layout) (st : FoldState) (stored : String) : FoldState :=
  match layout.classify stored with
  | .hidden => st
  | .base entry => { st with entries := st.entries.insertNew entry stored }
  | .version release entry =>
    -- of two versions for one release the one stored later counts
    if release < (st.chosen.find? entry).getD 0 then st
    else
      { entries := st.entries.insert entry stored
        chosen := st.chosen.insert entry release }

/-- The stored name of each entry, in order of first appearance. -/
def foldEntries (layout : Layout) (stored : List String) : OrderedMap String :=
  (stored.foldl (FoldState.step layout) {}).entries

/-- Whether a manifest declares its archive to be a multi-release archive: one of its lines is
the property, whatever the case of letters and the blanks around name and value. -/
def declaresMultiRelease (manifest : String) : Bool :=
  (Text.splitAll '\n' manifest).any fun line =>
    match Text.splitFirst? ':' line with
    | some (key, value) =>
      Text.sameLetters (Text.trim key) "Multi-Release" && Text.sameLetters (Text.trim value) "true"
    | none => false

end ModuleAtlas
