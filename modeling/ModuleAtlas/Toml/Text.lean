import ModuleAtlas.Toml.Grammar

/-! # Texts

There are four ways to write a text: between double or single quotes, once for a text on one line
and thrice for a text over several lines.  Escapes count between double quotes only.
-/
namespace ModuleAtlas.Toml

/-- Hexadecimal digits. -/
def isHexDigit (c : Char) : Bool :=
  c.isDigit || ('a' ≤ c && c ≤ 'f') || ('A' ≤ c && c ≤ 'F')

/-- The value of a hexadecimal digit. -/
def hexDigitValue (c : Char) : Nat :=
  if c.isDigit then c.toNat - '0'.toNat
  else if 'a' ≤ c then c.toNat - 'a'.toNat + 10
  else c.toNat - 'A'.toNat + 10

/-- The number that digits write in a base. -/
def digitsValue (base : Nat) (digits : List Char) : Nat :=
  digits.foldl (fun n d => n * base + hexDigitValue d) 0

/-- The character of a code point. -/
def charOf? (n : Nat) : Option Char :=
  if n < 0xD800 ∨ (0xDFFF < n ∧ n < 0x110000) then some (Char.ofNat n) else none

/-- A character given by `n` hexadecimal digits of its code point. -/
def codePoint (n : Nat) : Rule Char := do
  let digits ← Rule.exactCount isHexDigit n
  match charOf? (digitsValue 16 digits) with
  | some c => return c
  | none => failure

/-- An escape. -/
def escape : Rule Char := do
  Rule.exactly ['\\']
  match ← Rule.char fun _ => true with
  | 'b' => return '\x08'
  | 't' => return '\t'
  | 'n' => return '\n'
  | 'f' => return '\x0c'
  | 'r' => return '\r'
  | '"' => return '"'
  | '\\' => return '\\'
  | 'u' => codePoint 4
  | 'U' => codePoint 8
  | _ => failure

/-- A character that stands for itself between double quotes. -/
def basicChar : Rule Char := Rule.char fun c => isPlainChar c && c != '"' && c != '\\'

/-- A character that stands for itself between single quotes. -/
def literalChar : Rule Char := Rule.char fun c => isPlainChar c && c != '\''

/-- A text on one line between double quotes. -/
def basicText : Rule (List Char) := do
  Rule.exactly ['"']
  let content ← Rule.many (basicChar <|> escape)
  Rule.exactly ['"']
  return content

/-- A text on one line between single quotes. -/
def literalText : Rule (List Char) := do
  Rule.exactly ['\'']
  let content ← Rule.many literalChar
  Rule.exactly ['\'']
  return content

/-- One or two quotes that do not end a text over several lines. -/
def innerQuotes (quote : Char) : Rule (List Char) := do
  let quotes ← Rule.span1 (· == quote)
  if quotes.length < 3 then return quotes else failure

/-- The three quotes that end a text over several lines.  One or two quotes just before them
belong to the text. -/
def closingQuotes (quote : Char) : Rule (List Char) := do
  let quotes ← Rule.span1 (· == quote)
  if 3 ≤ quotes.length ∧ quotes.length ≤ 5 then return quotes.drop 3 else failure

/-- A line end that an escape takes out of a text, with all blanks and line ends after it. -/
def escapedNewline : Rule (List Char) := do
  Rule.exactly ['\\']
  blanks
  newline
  let _ ← Rule.many ((do let _ ← Rule.char isBlankChar) <|> newline)
  return []

/-- A line end within a text, which is always written as one line feed. -/
def innerNewline : Rule (List Char) := do
  newline
  return ['\n']

/-- A text over several lines, given its quote and its pieces besides quotes and line ends.  A line
end right at the start does not count. -/
def longText (quote : Char) (piece : Rule (List Char)) : Rule (List Char) := do
  Rule.exactly [quote, quote, quote]
  let _ ← Rule.optional newline
  let pieces ← Rule.many (piece <|> innerNewline <|> innerQuotes quote)
  let last ← closingQuotes quote
  return pieces.flatten ++ last

/-- A text over several lines between double quotes. -/
def longBasicText : Rule (List Char) :=
  longText '"' (((fun c => [c]) <$> basicChar) <|> escapedNewline <|> ((fun c => [c]) <$> escape))

/-- A text over several lines between single quotes. -/
def longLiteralText : Rule (List Char) := longText '\'' ((fun c => [c]) <$> literalChar)

/-- A text. -/
def text : Rule String :=
  String.ofList <$> (longBasicText <|> basicText <|> longLiteralText <|> literalText)

/-- Characters of keys without quotes. -/
def isBareKeyChar (c : Char) : Bool := c.isAlphanum || c == '-' || c == '_'

/-- One part of a key. -/
def keyPart : Rule String :=
  String.ofList <$> (basicText <|> literalText <|> Rule.span1 isBareKeyChar)

/-- No key has this many parts, and no value is nested this deep. -/
def nestingLimit : Nat := 80

/-- A key: parts with dots in between. -/
def key : Rule (List String) := do
  let parts ← Rule.separated (blanks *> keyPart <* blanks) (Rule.exactly ['.'])
  if parts.length < nestingLimit then return parts else failure

end ModuleAtlas.Toml
