import ModuleAtlas.Text.Shown
import ModuleAtlas.Text.Utf8

/-! # Quoted texts

A text is quoted by double quotes around it.  What would end the quotation or would not show is
written by an escape.  There are two alphabets of escapes: `quoted` and `quotedPath` are for
people, `jsonQuoted` is for programs.
-/
namespace ModuleAtlas.Text

/-- The hexadecimal digits of a number, at least `width` of them. -/
def hexDigits (width n : Nat) : String :=
  let digits := Nat.toDigits 16 n
  String.ofList (List.replicate (width - digits.length) '0' ++ digits)

/-- How a character is written in a quotation for people. -/
def quotedChar (c : Char) : String :=
  match c with
  | '"' => "\\\""
  | '\\' => "\\\\"
  | '\n' => "\\n"
  | '\r' => "\\r"
  | '\t' => "\\t"
  | '\x00' => "\\0"
  | c => if isShown c then String.singleton c else "\\u\x7b" ++ hexDigits 0 c.toNat ++ "\x7d"

/-- A quotation for people: every character that does not show is written by its code point. -/
def quoted (s : String) : String :=
  "\"" ++ String.join (s.toList.map quotedChar) ++ "\""

/-- How octets that are no text are written in the quotation of a path. -/
def quotedOctets (octets : Bytes) : String :=
  String.join (octets.map fun b => "\\x" ++ (hexDigits 2 b.toNat).toUpper)

/-- How the pieces of some octets are written in the quotation of a path.  Single quotes are escaped
as well. -/
def quotedPieces : Bytes → List Utf8.Piece → List String
  | _, [] => []
  | octets, .char c :: rest =>
    (if c = '\'' then "\\'" else quotedChar c) :: quotedPieces (octets.drop c.utf8Size) rest
  | octets, .invalid n :: rest => quotedOctets (octets.take n) :: quotedPieces (octets.drop n) rest
  | octets, .cut :: _ => [quotedOctets octets]

/-- A quotation of a path for people.  What is no text is written octet by octet. -/
def quotedPath (octets : Bytes) : String :=
  "\"" ++ String.join (quotedPieces octets (Utf8.pieces none octets)) ++ "\""

/-- How a character is written in a JSON text. -/
def jsonChar (c : Char) : String :=
  match c with
  | '"' => "\\\""
  | '\\' => "\\\\"
  | '\n' => "\\n"
  | '\r' => "\\r"
  | '\t' => "\\t"
  | '\x08' => "\\b"
  | '\x0c' => "\\f"
  | c => if c.toNat < 0x20 then "\\u" ++ hexDigits 4 c.toNat else String.singleton c

/-- A text as JSON writes it: only what the grammar calls for is escaped. -/
def jsonQuoted (s : String) : String :=
  "\"" ++ String.join (s.toList.map jsonChar) ++ "\""

end ModuleAtlas.Text
