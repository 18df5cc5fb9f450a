import ModuleAtlas.Toml.Number

/-! # Values and tables

A document is a table.  A table is either written out between braces, or opened by a header, or
made along the way by a longer header or by a dotted key, and what may still be added to it
depends on which of these it is.  `Value.modify` follows a key through tables, making those that
are missing, and `Value.addField` adds a field at the end of the way.
-/
namespace ModuleAtlas.Toml

/-- How a table came about. -/
inductive TableKind where
  /-- It was written between braces. -/
  | braced
  /-- A header opened it. -/
  | opened
  /-- It was made on the way of a header. -/
  | implied
  /-- It was made on the way of a dotted key. -/
  | dotted
deriving DecidableEq, Repr, Inhabited

/-- A value of a document. -/
inductive Value where
  /-- A text. -/
  | text (s : String)
  /-- An integer. -/
  | integer (n : Int)
  /-- A fraction. -/
  | fraction
  /-- A truth value. -/
  | boolean (b : Bool)
  /-- A date, a time, or both. -/
  | moment
  /-- A list between brackets. -/
  | list (items : List Value)
  /-- A table, with its fields in the order in which they were added. -/
  | table (kind : TableKind) (fields : List (String × Value))
  /-- Tables opened one after the other by headers with double brackets, the latest first. -/
  | tables (latestFirst : List Value)
deriving Inhabited

namespace Value

/-- The value of a field. -/
def lookup (name : String) : List (String × Value) → Option Value
  | [] => none
  | (n, v) :: rest => if n = name then some v else lookup name rest

/-- The fields with one of them set, in place or at the end. -/
def setField (name : String) (value : Value) : List (String × Value) → List (String × Value)
  | [] => [(name, value)]
  | (n, v) :: rest =>
    if n = name then (n, value) :: rest else (n, v) :: setField name value rest

/-- Whether a dotted key may go through a table: it must not be written out or opened. -/
def mayPass (dotted : Bool) (kind : TableKind) : Bool :=
  match kind with
  | .braced => false
  | .opened => !dotted
  | .implied | .dotted => true

/-- Changes the table at the end of a way.  Missing tables on the way are made; of tables opened
one after the other the way goes through the latest. -/
def modify (dotted : Bool) (change : Value → Option Value) : List String → Value → Option Value
  | [], v => change v
  | name :: rest, .table kind fields =>
    match lookup name fields with
    | none =>
      (modify dotted change rest (.table (if dotted then .dotted else .implied) [])).map fun v =>
        .table kind (setField name v fields)
    | some (.table innerKind inner) =>
      if mayPass dotted innerKind then
        (modify dotted change rest (.table innerKind inner)).map fun v =>
          .table kind (setField name v fields)
      else none
    | some (.tables (latest :: earlier)) =>
      -- the latest table stands for all of them
      (modify dotted change rest latest).map fun v =>
        .table kind (setField name (.tables (v :: earlier)) fields)
    | some _ => none
  | _ :: _, _ => none

/-- Adds a field to a table.  A dotted key adds only to tables made by dotted keys, and a plain
key only to others; no field is set twice. -/
def addField (dotted : Bool) (name : String) (value : Value) : Value → Option Value
  | .table kind fields =>
    if decide (kind = .dotted) = dotted ∧ lookup name fields = none
    then some (.table kind (fields ++ [(name, value)])) else none
  | _ => none

/-- Sets a key, whose last part is the name of the field. -/
def assign (key : List String) (value : Value) (v : Value) : Option Value :=
  match key.getLast? with
  | none => none
  | some name =>
    -- a key of one part makes no way, and its field may not go into a dotted table
    let way := key.dropLast
    modify true (addField (!way.isEmpty) name value) way v

/-- Opens a table by a header.  A table that was made on the way of headers may be opened once. -/
def openTable (name : String) : Value → Option Value
  | .table kind fields =>
    match lookup name fields with
    | none => some (.table kind (setField name (.table .opened []) fields))
    | some (.table .implied inner) =>
      some (.table kind (setField name (.table .opened inner) fields))
    | some _ => none
  | _ => none

/-- Opens one more of the tables with the same header. -/
def openNextTable (name : String) : Value → Option Value
  | .table kind fields =>
    match lookup name fields with
    | none => some (.table kind (setField name (.tables [.table .opened []]) fields))
    | some (.tables earlier) =>
      some (.table kind (setField name (.tables (.table .opened [] :: earlier)) fields))
    | some _ => none
  | _ => none

/-- The table that fields between braces amount to. -/
def ofFields (fields : List (List String × Value)) : Option Value :=
  fields.foldlM (fun table (key, value) => assign key value table) (.table .braced [])

end Value

/-- An item of a list. -/
def listItem (value : Rule Value) : Rule Value := gap *> value <* gap

/-- A list between brackets; a comma may follow the last item. -/
def bracketList (value : Rule Value) : Rule Value := do
  Rule.exactly ['[']
  let items ← Rule.optional (do
    let items ← Rule.separated (listItem value) (Rule.exactly [','])
    let _ ← Rule.optional (Rule.exactly [','])
    return items)
  gap
  Rule.exactly [']']
  return .list (items.getD [])

/-- A field of a table between braces. -/
def bracedField (value : Rule Value) : Rule (List String × Value) := do
  let name ← key
  Rule.exactly ['=']
  blanks
  let v ← value
  blanks
  return (name, v)

/-- A table between braces, on one line. -/
def bracedTable (value : Rule Value) : Rule Value := do
  Rule.exactly ['\x7b']
  let fields ← Rule.optional (Rule.separated (bracedField value) (Rule.exactly [',']))
  blanks
  Rule.exactly ['\x7d']
  match Value.ofFields (fields.getD []) with
  | some v => return v
  | none => failure

/-- A value without parts. -/
def scalar : Rule Value :=
  (Value.text <$> text) <|>
  (do
    Rule.exactly "true".toList
    return .boolean true) <|>
  (do
    Rule.exactly "false".toList
    return .boolean false) <|>
  (do
    moment
    return .moment) <|>
  (do
    fraction
    return .fraction) <|>
  (Value.integer <$> integer)

/-- A value nested at most `depth` deep. -/
def value : Nat → Rule Value
  | 0 => scalar
  | depth + 1 => scalar <|> bracketList (value depth) <|> bracedTable (value depth)

end ModuleAtlas.Toml
