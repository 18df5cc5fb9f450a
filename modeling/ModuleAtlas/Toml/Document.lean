import ModuleAtlas.Toml.Value

/-! # Documents

A document is a sequence of statements: headers, which say to what table the following fields
belong, and fields.  `parse` reads the statements, and `run` carries them out one by one.
-/
namespace ModuleAtlas.Toml

/-- A statement of a document. -/
inductive Statement where
  /-- A blank line or a comment. -/
  | nothing
  /-- A header that opens a table. -/
  | header (key : List String)
  /-- A header that opens one more of several tables. -/
  | nextHeader (key : List String)
  /-- A field. -/
  | field (key : List String) (value : Value)
deriving Inhabited

/-- A comment on a line of its own. -/
def commentLine : Rule Statement := do
  comment
  lineEnd
  return .nothing

/-- The end of a line with nothing on it. -/
def emptyLine : Rule Statement := do
  newline
  return .nothing

/-- A header that opens one more of several tables. -/
def nextHeader : Rule Statement := do
  Rule.exactly ['[', '[']
  let name ← key
  Rule.exactly [']', ']']
  lineRest
  return .nextHeader name

/-- A header that opens a table. -/
def header : Rule Statement := do
  Rule.exactly ['[']
  let name ← key
  Rule.exactly [']']
  lineRest
  return .header name

/-- A field on a line of its own. -/
def field : Rule Statement := do
  let name ← key
  Rule.exactly ['=']
  blanks
  let v ← value (nestingLimit - 1)
  lineRest
  return .field name v

/-- A statement, and the blanks after it. -/
def statement : Rule Statement :=
  (commentLine <|> emptyLine <|> nextHeader <|> header <|> field) <* blanks

/-- A whole document.  A byte order mark may stand in front of it. -/
def document : Rule (List Statement) := do
  let _ ← Rule.optional (Rule.exactly ['\uFEFF'])
  blanks
  let statements ← Rule.many statement
  Rule.atEnd
  return statements

/-- A document of which some statements have been carried out. -/
structure State where
  /-- The table so far. -/
  root : Value := .table .opened []
  /-- The key of the last header. -/
  current : List String := []
deriving Inhabited

/-- Carries out a statement. -/
def State.step (s : State) : Statement → Option State
  | .nothing => some s
  | .header key =>
    match key.getLast? with
    | none => none
    | some name =>
      (Value.modify false (Value.openTable name) key.dropLast s.root).map fun root => ⟨root, key⟩
  | .nextHeader key =>
    match key.getLast? with
    | none => none
    | some name =>
      (Value.modify false (Value.openNextTable name) key.dropLast s.root).map fun root =>
        ⟨root, key⟩
  | .field key value =>
    (Value.modify false (Value.assign key value) s.current s.root).map fun root =>
      { s with root }

/-- The table that statements amount to. -/
def run (statements : List Statement) : Option Value :=
  (statements.foldlM State.step {}).map State.root

/-- The table that a text stands for; `none` if the text is no document. -/
def parse (source : String) : Option Value := do
  let (statements, _) ← document.run source.toList
  run statements

end ModuleAtlas.Toml
