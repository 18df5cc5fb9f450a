import ModuleAtlas.Text.Quoted

/-! # JSON texts

Reports are printed as JSON, one item a line and two blanks for each level.
-/
namespace ModuleAtlas

/-- A value that a report consists of. -/
inductive Json where
  /-- A truth value. -/
  | bool (value : Bool)
  /-- A text. -/
  | text (value : String)
  /-- A list of values. -/
  | list (items : List Json)
  /-- Values by name, in the order in which they are printed. -/
  | object (fields : List (String × Json))
deriving Inhabited

namespace Json

/-- The values of a list of texts. -/
def texts (values : List String) : Json := .list (values.map .text)

/-- The start of a line at a depth. -/
def indentation (depth : Nat) : String := String.ofList (List.replicate (2 * depth) ' ')

/-- Items between brackets, each on its own line, one level below the brackets. -/
def enclose (depth : Nat) (left right : String) : List String → String
  | [] => left ++ right
  | items =>
    left ++ "\n" ++ ",\n".intercalate (items.map (indentation (depth + 1) ++ ·)) ++ "\n" ++
      indentation depth ++ right

mutual

/-- The text of a value that starts at a depth. -/
def render (depth : Nat) : Json → String
  | .bool value => if value then "true" else "false"
  | .text value => Text.jsonQuoted value
  | .list items => enclose depth "[" "]" (renderItems (depth + 1) items)
  | .object fields => enclose depth "\x7b" "\x7d" (renderFields (depth + 1) fields)

/-- The texts of the items of a list. -/
def renderItems (depth : Nat) : List Json → List String
  | [] => []
  | item :: rest => render depth item :: renderItems depth rest

/-- The texts of the fields of an object. -/
def renderFields (depth : Nat) : List (String × Json) → List String
  | [] => []
  | (name, value) :: rest =>
    (Text.jsonQuoted name ++ ": " ++ render depth value) :: renderFields depth rest

end

/-- The text of a value. -/
def pretty (value : Json) : String := render 0 value

end Json
end ModuleAtlas
