/-! # Grammar pieces

A grammar rule takes characters from the front of a text and says what they stand for; a rule that
does not apply takes nothing.  `p <|> q` is the first of two rules that applies, and `many p`
applies a rule as long as it applies and takes something.
-/
namespace ModuleAtlas.Toml

/-- A rule of a grammar. -/
abbrev Rule := StateT (List Char) Option

namespace Rule

/-- One character of a class. -/
def char (isMember : Char → Bool) : Rule Char := fun input =>
  match input with
  | [] => none
  | c :: rest => if isMember c then some (c, rest) else none

/-- Exactly the given characters. -/
def exactly : List Char → Rule Unit
  | [] => pure ()
  | c :: rest => do
    let _ ← char (· == c)
    exactly rest

/-- Characters of a class, as many as there are. -/
def span (isMember : Char → Bool) : Rule (List Char) := fun input =>
  some (input.takeWhile isMember, input.dropWhile isMember)

/-- Characters of a class, as many as there are but at least one. -/
def span1 (isMember : Char → Bool) : Rule (List Char) := do
  let first ← char isMember
  let rest ← span isMember
  return first :: rest

/-- The end of the text. -/
def atEnd : Rule Unit := fun input => if input.isEmpty then some ((), input) else none

/-- Applies a rule if it applies. -/
def optional {α : Type} (p : Rule α) : Rule (Option α) := (some <$> p) <|> pure none

/-- What a rule finds when it is applied again and again, and the text that is left. -/
def repeated {α : Type} (p : Rule α) (input : List Char) : List α × List Char :=
  match p input with
  | none => ([], input)
  | some (a, rest) =>
    if _h : rest.length < input.length then
      let (as, last) := repeated p rest
      (a :: as, last)
    else ([], input)
termination_by input.length

/-- Applies a rule as long as it applies and takes something. -/
def many {α : Type} (p : Rule α) : Rule (List α) := fun input => some (repeated p input)

/-- Applies a rule at least once, with a separator in between. -/
def separated {α β : Type} (p : Rule α) (separator : Rule β) : Rule (List α) := do
  let first ← p
  let rest ← many (separator *> p)
  return first :: rest

/-- `n` characters of a class. -/
def exactCount (isMember : Char → Bool) : Nat → Rule (List Char)
  | 0 => pure []
  | n + 1 => do
    let first ← char isMember
    let rest ← exactCount isMember n
    return first :: rest

end Rule

/-- Blanks within a line. -/
def isBlankChar (c : Char) : Bool := c == ' ' || c == '\t'

/-- Characters that may stand in comments and literal texts: all but control characters. -/
def isPlainChar (c : Char) : Bool := c == '\t' || (0x20 ≤ c.toNat && c.toNat != 0x7F)

/-- Blanks within a line, as many as there are. -/
def blanks : Rule Unit := do let _ ← Rule.span isBlankChar

/-- The end of a line. -/
def newline : Rule Unit := Rule.exactly ['\n'] <|> Rule.exactly ['\r', '\n']

/-- A comment, up to the end of its line. -/
def comment : Rule Unit := do
  Rule.exactly ['#']
  let _ ← Rule.span isPlainChar

/-- The end of a line or of the whole text. -/
def lineEnd : Rule Unit := newline <|> Rule.atEnd

/-- What may follow on a line when all is said. -/
def lineRest : Rule Unit := do
  blanks
  let _ ← Rule.optional comment
  lineEnd

/-- Blanks, line ends and comments, as many as there are. -/
def gap : Rule Unit := do
  let _ ← Rule.many ((do let _ ← Rule.span1 isBlankChar) <|> newline <|> comment)

end ModuleAtlas.Toml
