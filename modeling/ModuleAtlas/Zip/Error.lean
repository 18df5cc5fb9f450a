import ModuleAtlas.Files.Tree

/-! # Failures of archive reading -/
namespace ModuleAtlas.Zip

/-- Why an archive or one of its entries cannot be opened. -/
inductive ZipError where
  /-- Reading from the file failed. -/
  | io (cause : IoError)
  /-- The file is shorter than the record at the end of every archive. -/
  | tooShort
  /-- There is no end record. -/
  | noEndRecord
  /-- The directory would start before the file does. -/
  | misplacedDirectory
  /-- There is no room for the wide end record that is called for. -/
  | noRoomForWideEnd
  /-- The wide end record that is called for is not there. -/
  | noWideEnd
  /-- The place of an entry is too large a number. -/
  | misplacedEntry
  /-- A directory entry does not start with its mark. -/
  | invalidDirectoryEntry
  /-- An entry does not start with its mark. -/
  | invalidEntry
  /-- An encrypted entry lacks the field that describes the encryption. -/
  | undescribedEncryption
  /-- The field that describes the encryption of an entry breaks the rules. -/
  | invalidEncryption
  /-- The field that describes the encryption of an entry has another length than is known. -/
  | unsupportedEncryption
  /-- The archive has several parts. -/
  | severalParts
  /-- An entry can only be read with a password. -/
  | encrypted
  /-- An entry is compressed by a method that is not supported. -/
  | unsupportedMethod
  /-- There is no entry of that name. -/
  | entryNotFound
deriving DecidableEq, Repr, Inhabited

/-- The families of archive errors. -/
inductive ZipError.Family where
  /-- Reading failed. -/
  | io
  /-- The file is no well formed archive. -/
  | invalid
  /-- The archive uses what is not supported. -/
  | unsupported
  /-- There is no such entry. -/
  | notFound
deriving DecidableEq, Repr

/-- The family of an archive error. -/
def ZipError.family : ZipError → ZipError.Family
  | .io _ => .io
  | .tooShort | .noEndRecord | .misplacedDirectory | .noRoomForWideEnd | .noWideEnd
  | .misplacedEntry | .invalidDirectoryEntry | .invalidEntry | .undescribedEncryption
  | .invalidEncryption => .invalid
  | .unsupportedEncryption | .severalParts | .encrypted | .unsupportedMethod => .unsupported
  | .entryNotFound => .notFound

/-- The wording of an archive error. -/
def ZipError.message : ZipError → String
  | .io cause => cause.message
  | .tooShort => "invalid Zip archive: Invalid zip header"
  | .noEndRecord => "invalid Zip archive: Could not find central directory end"
  | .misplacedDirectory => "invalid Zip archive: Invalid central directory size or offset"
  | .noRoomForWideEnd =>
    "invalid Zip archive: File cannot contain ZIP64 central directory end"
  | .noWideEnd => "invalid Zip archive: Could not find ZIP64 central directory end"
  | .misplacedEntry => "invalid Zip archive: Archive header is too large"
  | .invalidDirectoryEntry => "invalid Zip archive: Invalid Central Directory header"
  | .invalidEntry => "invalid Zip archive: Invalid local file header"
  | .undescribedEncryption =>
    "invalid Zip archive: AES encryption without AES extra data field"
  | .invalidEncryption => "invalid Zip archive: Invalid AES encryption"
  | .unsupportedEncryption =>
    "unsupported Zip archive: AES extra data field has an unsupported length"
  | .severalParts => "unsupported Zip archive: Support for multi-disk files is not implemented"
  | .encrypted => "unsupported Zip archive: Password required to decrypt file"
  | .unsupportedMethod => "unsupported Zip archive: Compression method not supported"
  | .entryNotFound => "specified file not found in archive"

end ModuleAtlas.Zip
