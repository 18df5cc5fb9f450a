import ModuleAtlas.Text.CodePage437
import ModuleAtlas.Zip.Fields

/-! # Directory entries

For each entry of an archive the directory has a record with its name, where it is and how it is
stored.  A record may have extra fields, each with a number that tells its kind, its length and
its content.  Two kinds count: one gives the numbers that are too large for the record, the
other describes the encryption.
-/
namespace ModuleAtlas.Zip

/-- The mark of a directory entry. -/
def directoryMark : Nat := 0x02014b50

/-- The kind of the extra field with large numbers. -/
def wideKind : Nat := 0x0001
/-- The kind of the extra field that describes the encryption. -/
def encryptionKind : Nat := 0x9901

/-- The method of entries that are encrypted and compressed by a method that an extra field
gives. -/
def encryptedMethod : Nat := 99

/-- What extra fields can change about an entry. -/
structure Details where
  /-- The number of the compression method. -/
  method : Nat
  /-- Whether an extra field describes the encryption. -/
  isDescribed : Bool := false
  /-- The length of the content. -/
  uncompressedSize : Nat
  /-- The length of the data. -/
  compressedSize : Nat
  /-- Where the entry is, counted from the start of the archive. -/
  start : Nat
deriving DecidableEq, Repr

/-- A number of the record, which is the next one of the extra field if it does not fit into the
record; `none` if the extra field is cut off. -/
def widen (number : Nat) (extra : Bytes) : Option (Nat × Bytes) :=
  if number = fullWord then
    (Binary.take? 8 extra).map fun (wide, rest) => (Binary.littleEndian wide, rest)
  else some (number, extra)

/-- Takes the numbers of the extra field that do not fit into the record, in their order, and the
bytes after them.  If the field is cut off, the numbers in front of the cut still count. -/
def Details.readWide (d : Details) (extra : Bytes) : Details × Option Bytes :=
  match widen d.uncompressedSize extra with
  | none => (d, none)
  | some (uncompressedSize, extra) =>
    match widen d.compressedSize extra with
    | none => ({ d with uncompressedSize }, none)
    | some (compressedSize, extra) =>
      match widen d.start extra with
      | none => ({ d with uncompressedSize, compressedSize }, none)
      | some (start, extra) => ({ d with uncompressedSize, compressedSize, start }, some extra)

/-- Reads the description of the encryption, which has seven bytes. -/
def Details.readEncryption (d : Details) (body : Bytes) : Except ZipError Details :=
  if field body 2 2 ≠ 0x4541 then .error .invalidEncryption
  else if field body 0 2 ≠ 1 ∧ field body 0 2 ≠ 2 then .error .invalidEncryption
  else if field body 4 1 < 1 ∨ 3 < field body 4 1 then .error .invalidEncryption
  else .ok { d with method := field body 5 2, isDescribed := true }

/-- Takes all extra fields into account.  A field that is cut off ends them. -/
def Details.readExtra (d : Details) (extra : Bytes) : Except ZipError Details :=
  if _h : extra.length < 4 then .ok d
  else
    let length := field extra 2 2
    let body := extra.drop 4
    if field extra 0 2 = wideKind then
      match d.readWide body with
      | (d, none) => .ok d
      | (d, some rest) =>
        -- the field may be longer than its numbers, and its length less than they need
        d.readExtra (body.drop (max length (body.length - rest.length)))
    else if field extra 0 2 = encryptionKind then
      if length ≠ 7 then .error .unsupportedEncryption
      else if body.length < 7 then .ok d
      else
        match d.readEncryption body with
        | .error e => .error e
        -- seven bytes of padding belong to the description
        | .ok d => d.readExtra (body.drop 14)
    else d.readExtra (body.drop length)
termination_by extra.length
decreasing_by all_goals (simp only [List.length_drop]; omega)

/-- What the directory says about an entry. -/
structure Entry where
  /-- The entry's name. -/
  name : String
  /-- Whether a password is needed. -/
  isEncrypted : Bool
  /-- The number of the compression method. -/
  method : Nat
  /-- Whether the encryption is described, and the method thus one of encrypted content. -/
  isDescribed : Bool
  /-- The checksum of the content. -/
  crc : Nat
  /-- The length of the content. -/
  uncompressedSize : Nat
  /-- The length of the data. -/
  compressedSize : Nat
  /-- Where the entry is in the file. -/
  start : Nat
deriving DecidableEq, Repr, Inhabited

/-- Whether an entry is a file; folders have a slash at the end of their name. -/
def Entry.isFile (e : Entry) : Bool :=
  match e.name.toList.getLast? with
  | some c => c != '/' && c != '\\'
  | none => true

/-- Reads a directory entry from the front; `origin` is where the archive starts in the file. -/
def readEntry (origin : Nat) (bytes : Bytes) : Except ZipError (Entry × Bytes) := do
  let (mark, rest) ← takeFront 4 bytes
  if Binary.littleEndian mark ≠ directoryMark then throw .invalidDirectoryEntry
  let (fixed, rest) ← takeFront 42 rest
  let (name, rest) ← takeFront (field fixed 24 2) rest
  let (extra, rest) ← takeFront (field fixed 26 2) rest
  let (_, rest) ← takeFront (field fixed 28 2) rest
  let flags := field fixed 4 2
  let written : Details := {
    method := field fixed 6 2
    compressedSize := field fixed 16 4
    uncompressedSize := field fixed 20 4
    start := field fixed 38 4 }
  let d ← written.readExtra extra
  if d.method = encryptedMethod ∧ !d.isDescribed then throw .undescribedEncryption
  -- positions have eight bytes
  if 0x10000000000000000 ≤ d.start + origin then throw .misplacedEntry
  return ({
    name := if flags.testBit 11 then Utf8.decodeLenient name else CodePage437.decode name
    isEncrypted := flags.testBit 0
    method := d.method
    isDescribed := d.isDescribed
    crc := field fixed 12 4
    uncompressedSize := d.uncompressedSize
    compressedSize := d.compressedSize
    start := d.start + origin }, rest)

/-- Reads `n` directory entries. -/
def readEntries (origin : Nat) : Nat → Bytes → Except ZipError (List Entry)
  | 0, _ => .ok []
  | n + 1, bytes => do
    let (entry, rest) ← readEntry origin bytes
    let entries ← readEntries origin n rest
    return entry :: entries

end ModuleAtlas.Zip
