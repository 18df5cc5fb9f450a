import ModuleAtlas.Zip.Fields

/-! # The end of an archive

An archive ends with a record that says where its directory is.  Positions count from the start
of the archive, in front of which a file may hold anything.

In a large archive the numbers do not fit into the end record.  A locator just in front of the
end record then tells where a second, wide record is, and only that record counts.

`DirectoryPlace.find` is the result of all this: where the archive starts, where its directory
starts, and how many entries it has.  Without a locator the archive starts as far before the end
record as the directory and all before it are long; with one it starts as far into the file as
the wide record stands behind the place that the locator gives.
-/
namespace ModuleAtlas.Zip

/-- The mark of the end record. -/
def endMark : Nat := 0x06054b50
/-- The mark of the locator. -/
def locatorMark : Nat := 0x07064b50
/-- The mark of the wide end record. -/
def wideEndMark : Nat := 0x06064b50

/-- The length of the end record without its comment. -/
def endLength : Nat := 22
/-- The length of the locator. -/
def locatorLength : Nat := 20

/-- How far in front of the end record the wide one must stand at least. -/
def wideEndRoom : Nat := 60

/-- The record at the end of an archive. -/
structure EndRecord where
  /-- The number of this part. -/
  part : Nat
  /-- The number of the part with the directory. -/
  directoryPart : Nat
  /-- The number of entries in this part. -/
  entriesHere : Nat
  /-- The number of entries in all parts. -/
  entries : Nat
  /-- The length of the directory. -/
  directorySize : Nat
  /-- Where the directory starts. -/
  directoryStart : Nat
  /-- The length of the comment. -/
  commentLength : Nat
deriving DecidableEq, Repr

/-- Whether some number does not fit into the record. -/
def EndRecord.isTooSmall (r : EndRecord) : Bool :=
  r.part == fullShort || r.directoryPart == fullShort || r.entriesHere == fullShort ||
    r.entries == fullShort || r.directorySize == fullWord || r.directoryStart == fullWord

/-- How far in front of its last possible place the last end record stands.  The bytes are
given in reverse, from the last byte of a mark in its last possible place on. -/
def searchEnd : Nat → Bytes → Option Nat
  | _, [] => none
  | 0, rest => if rest.take 4 = [0x06, 0x05, 0x4b, 0x50] then some 0 else none
  | n + 1, b :: rest =>
    if (b :: rest).take 4 = [0x06, 0x05, 0x4b, 0x50] then some 0
    else (searchEnd n rest).map (· + 1)

/-- Where the end record is.  A comment of up to 65535 bytes may follow it. -/
def findEnd (bytes : Bytes) : Except ZipError Nat :=
  if bytes.length < endLength then .error .tooShort
  else
    match searchEnd 0xFFFF (bytes.reverse.drop (endLength - 4)) with
    | some back => .ok (bytes.length - endLength - back)
    | none => .error .noEndRecord

/-- Reads the end record at a position, with its comment. -/
def readEnd (bytes : Bytes) (position : Nat) : Except ZipError EndRecord := do
  let (fixed, rest) ← takeFront endLength (bytes.drop position)
  let _ ← takeFront (field fixed 20 2) rest
  return {
    part := field fixed 4 2
    directoryPart := field fixed 6 2
    entriesHere := field fixed 8 2
    entries := field fixed 10 2
    directorySize := field fixed 12 4
    directoryStart := field fixed 16 4
    commentLength := field fixed 20 2 }

/-- The record that tells where the wide end record is. -/
structure Locator where
  /-- The number of the part with the wide end record. -/
  part : Nat
  /-- Where the wide end record starts. -/
  wideEnd : Nat
deriving DecidableEq, Repr

/-- The locator, if there is one.  It is looked for where it is if nothing follows the comment. -/
def findLocator (bytes : Bytes) (commentLength : Nat) : Option Locator :=
  let length := locatorLength + endLength + commentLength
  let rest := bytes.drop (bytes.length - length)
  if length ≤ bytes.length ∧ field rest 0 4 = locatorMark then
    some ⟨field rest 4 4, field rest 8 8⟩
  else none

/-- The wide end record, as far as it counts. -/
structure WideEndRecord where
  /-- The number of this part. -/
  part : Nat
  /-- The number of the part with the directory. -/
  directoryPart : Nat
  /-- The number of entries in all parts. -/
  entries : Nat
  /-- Where the directory starts. -/
  directoryStart : Nat
deriving DecidableEq, Repr

/-- How many bytes in front of the first mark of a wide end record are passed over, if there is
one at the first `n` places. -/
def searchWideEnd : Nat → Bytes → Option Nat
  | 0, _ => none
  | n + 1, bytes =>
    if field bytes 0 4 = wideEndMark then some 0
    else (searchWideEnd n (bytes.drop 1)).map (· + 1)

/-- Reads the wide end record that starts the bytes. -/
def readWideEnd (bytes : Bytes) : WideEndRecord where
  part := field bytes 16 4
  directoryPart := field bytes 20 4
  entries := field bytes 32 8
  directoryStart := field bytes 48 8

/-- Where the directory of an archive is. -/
structure DirectoryPlace where
  /-- Where the archive starts in the file. -/
  origin : Nat
  /-- Where the directory starts in the file. -/
  start : Nat
  /-- The number of entries. -/
  entries : Nat
deriving DecidableEq, Repr

namespace DirectoryPlace

/-- The place that the end record at a position gives. -/
def ofEnd (position : Nat) (record : EndRecord) : Except ZipError DirectoryPlace :=
  if position < record.directorySize + record.directoryStart then .error .misplacedDirectory
  else .ok {
    origin := position - record.directorySize - record.directoryStart
    start := position - record.directorySize
    entries := record.entriesHere }

/-- The place that the wide end record gives.  It is looked for from where it is if the archive
starts with the file. -/
def ofWideEnd (bytes : Bytes) (position : Nat) (locator : Locator) :
    Except ZipError DirectoryPlace := do
  if position < wideEndRoom then throw .noRoomForWideEnd
  let places := position - wideEndRoom + 1 - locator.wideEnd
  match searchWideEnd places (bytes.drop locator.wideEnd) with
  | none => throw .noWideEnd
  | some origin =>
    let record := readWideEnd (bytes.drop (locator.wideEnd + origin))
    if record.part ≠ record.directoryPart then throw .severalParts
    let start := record.directoryStart + origin
    if positionBound ≤ start then throw .misplacedDirectory
    return { origin, start, entries := record.entries }

/-- Finds the directory of an archive. -/
def find (bytes : Bytes) : Except ZipError DirectoryPlace := do
  let position ← findEnd bytes
  let record ← readEnd bytes position
  -- a record that is too small for its numbers says nothing about parts
  if !record.isTooSmall && record.part != record.directoryPart then throw .severalParts
  match findLocator bytes record.commentLength with
  | none => ofEnd position record
  | some locator =>
    if !record.isTooSmall && record.part != locator.part then throw .severalParts
    ofWideEnd bytes position locator

end DirectoryPlace
end ModuleAtlas.Zip
