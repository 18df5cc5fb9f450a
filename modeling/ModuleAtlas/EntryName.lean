import ModuleAtlas.Text.Cut

/-! # Entry names

Content is addressed by entry names such as `p/q/Foo.class`.  Packages are written with dots;
the functions here go from an entry to its package and from a class to its entry.
-/
namespace ModuleAtlas.EntryName

/-- The entry that holds the descriptor of a module. -/
def moduleInfo : String := "module-info.class"

/-- The ending of class entries. -/
def classEnding : String := ".class"

/-- The dotted package of an entry: what precedes its last slash.  Without a slash, or with
nothing before it, the package is the unnamed one, written as the empty text. -/
def package (entry : String) : String :=
  match Text.splitLast? '/' entry with
  | some (folder, _) => Text.replace '/' '.' folder
  | none => ""

/-- The entry of a class given as `p.q.Foo`, `p/q/Foo` or `p/q/Foo.class`.  A name that has a
slash is taken to be an entry already, so its dots stay. -/
def ofClass (className : String) : String :=
  let stem := (Text.beforeEnd? classEnding className).getD className
  if stem.contains '/' then stem ++ classEnding
  else Text.replace '.' '/' stem ++ classEnding

/-- Whether an entry is a class. -/
def isClass (entry : String) : Bool := Text.endsWith classEnding entry

/-- Class entries whose package a module must declare: all but descriptors, wherever those
stand. -/
def isModuleClass (entry : String) : Bool :=
  isClass entry && !Text.endsWith moduleInfo entry

end ModuleAtlas.EntryName
