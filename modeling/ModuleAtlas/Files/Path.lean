import ModuleAtlas.Files.OsText

/-! # Paths

A path is kept as it was written, because that is how it is reported.  What it means is its
segments between slashes: empty segments and inner `.` segments do not count, and `..` names
no file.
-/
namespace ModuleAtlas

/-- A path as written. -/
structure Path where
  /-- The octets. -/
  raw : OsText
deriving DecidableEq, Repr, Inhabited

namespace Path

/-- The path that a text is. -/
def ofText (s : String) : Path := ⟨s⟩

/-- What is shown for it. -/
def text (p : Path) : String := p.raw.text

/-- Whether the path starts at the root. -/
def isAbsolute (p : Path) : Bool := p.raw.octets.head? == some OsText.slash

/-- The segments between slashes, the empty ones included. -/
def segments (p : Path) : List OsText := p.raw.segments

/-- Whether a segment names something: it is neither empty nor `.`. -/
def isNaming (segment : OsText) : Bool := segment != "" && segment != "."

/-- Drops the segments at the end that name nothing. -/
def dropTrailing (segments : List OsText) : List OsText :=
  (segments.reverse.dropWhile fun s => !isNaming s).reverse

/-- The last name, unless it is `..` or missing. -/
def fileName? (p : Path) : Option OsText :=
  (p.segments.filter isNaming).getLast?.filter fun last => last != ".."

/-- The path without its last name and what follows; `none` when it has no name at all.  A
leading `.` and the root stay, other segments that name nothing are trimmed at the end. -/
def parent? (p : Path) : Option Path :=
  match dropTrailing p.segments with
  | [] => none
  | named =>
    match named.dropLast with
    | [] => some ⟨""⟩
    | first :: rest =>
      let kept := first :: dropTrailing rest
      some ⟨if kept = [OsText.ofText ""] then "/" else OsText.joined kept⟩

/-- The octet in front of the ending of a file name. -/
def dot : UInt8 := 0x2E

/-- The ending of the file name after its last dot; a name that only starts with a dot has
none. -/
def extension? (p : Path) : Option OsText := do
  let name ← p.fileName?
  let (stem, ending) ← Text.cutLast? dot name.octets
  if stem = [] then none else some ⟨ending⟩

/-- Whether the ending of the file name is one of `endings`, up to the case of letters. -/
def hasExtension (p : Path) (endings : List String) : Bool :=
  match p.extension?.bind OsText.text? with
  | some e => endings.any (Text.sameLetters e)
  | none => false

/-- Whether the file name is that of an archive. -/
def isArchive (p : Path) : Bool := p.hasExtension ["jar", "zip", "jmod"]

/-- Whether the file name is that of a packaged module with sections. -/
def isJmod (p : Path) : Bool := p.hasExtension ["jmod"]

/-- One path below another.  An absolute one replaces what it is joined to. -/
def join (base child : Path) : Path :=
  if child.isAbsolute || base.raw == "" then child
  else if base.raw.octets.getLast? == some OsText.slash then ⟨base.raw ++ child.raw⟩
  else ⟨base.raw ++ "/" ++ child.raw⟩

/-- A name below a path. -/
def child (base : Path) (name : OsText) : Path := base.join ⟨name⟩

/-- The character between the paths of a path list. -/
def listSeparator : Char := ':'

/-- The same as an octet. -/
def separatorOctet : UInt8 := 0x3A

/-- The paths of a path list, the empty ones included. -/
def splitList (list : String) : List Path := (Text.splitAll listSeparator list).map ofText

/-- The path list of some paths, or `none` if one of them holds a separator.  It is a text, so paths
that are none are replaced by what is shown for them. -/
def joinList? (paths : List Path) : Option String :=
  if paths.any fun p => p.raw.octets.contains separatorOctet then none
  else some (OsText.text ⟨[separatorOctet].intercalate (paths.map fun p => p.raw.octets)⟩)

/-- The name to show for a path: its file name, or all of it when it has none. -/
def displayName (p : Path) : String := (p.fileName?.getD p.raw).text

end Path
end ModuleAtlas
