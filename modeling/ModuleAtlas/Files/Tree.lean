import ModuleAtlas.Files.Folder

/-! # File trees

A `FileTree` is all that can be seen of a file system: a root folder and the folder that
relative paths start from.  Following a path goes from name to name, through links, and fails
for the reasons of `IoError`.  Nothing here changes a tree.
-/
namespace ModuleAtlas

/-- Why something could not be read. -/
inductive IoError where
  /-- There is nothing of that name. -/
  | notFound
  /-- A path goes through something that is no folder. -/
  | notADirectory
  /-- A folder where a file is needed. -/
  | isADirectory
  /-- More links in a row than will be followed. -/
  | tooManyLinks
  /-- The content ends too early. -/
  | unexpectedEnd
  /-- What is looked for by name is not there, in words. -/
  | missing (text : String)
  /-- The content is not text. -/
  | invalidData
  /-- The content is not well formed, or the request makes no sense. -/
  | invalidInput
  /-- Any other cause, in words. -/
  | other (text : String)
deriving DecidableEq, Repr, Inhabited

/-- The wording of an I/O error. -/
def IoError.message : IoError → String
  | .notFound => "No such file or directory (os error 2)"
  | .notADirectory => "Not a directory (os error 20)"
  | .isADirectory => "Is a directory (os error 21)"
  | .tooManyLinks => "Too many levels of symbolic links (os error 40)"
  | .unexpectedEnd => "failed to fill whole buffer"
  | .missing text => text
  | .invalidData => "stream did not contain valid UTF-8"
  | .invalidInput => "Invalid argument (os error 22)"
  | .other text => text

/-- A file system as seen by its readers. -/
structure FileTree where
  /-- The root folder. -/
  root : Folder := .empty
  /-- Where relative paths start, written as an absolute path. -/
  current : Path := ⟨"/"⟩
deriving Inhabited

namespace FileTree

/-- How many links are followed on the way along one path. -/
def maxLinks : Nat := 40

/-- The names to go through for a path.  A slash at the end asks for a folder, which the
segment `.` does as well. -/
def steps (p : Path) : List OsText :=
  let named := p.segments.filter fun s : OsText => s != ""
  if p.segments.length > 1 && p.segments.getLast? == some (OsText.ofText "") then
    named ++ [OsText.ofText "."]
  else named

/-- Goes from the folder on top of `here` along some names; below it are the folders that lead
to it, down to the root.  With `last` a link at the very end is followed too. -/
def follow (last : Bool) (root : Folder) (links : Nat) (here : List Folder) :
    List OsText → Except IoError Node
  | [] => .ok (.folder (here.head?.getD root))
  | name :: rest =>
    if name = "." then follow last root links here rest
    else if name = ".." then follow last root links here.tail rest
    else match (here.head?.getD root).find? name with
      | none => .error .notFound
      | some (.file content) => if rest = [] then .ok (.file content) else .error .notADirectory
      | some (.folder inner) => follow last root links (inner :: here) rest
      | some (.link target) =>
        if rest = [] ∧ !last then .ok (.link target)
        -- a target counts from the folder that the link is in
        else match links with
          | 0 => .error .tooManyLinks
          | links + 1 =>
            follow last root links (if target.isAbsolute then [] else here) (steps target ++ rest)
termination_by names => (links, names.length)

/-- What stands at a path, seen from the current folder. -/
def lookup (tree : FileTree) (last : Bool) (p : Path) : Except IoError Node :=
  if p.raw = "" then .error .notFound
  else if p.raw.octets.contains 0 then .error .invalidInput
  else
    let names := if p.isAbsolute then steps p else steps tree.current ++ steps p
    follow last tree.root maxLinks [] names

/-- What a path leads to when links are followed. -/
def status (tree : FileTree) (p : Path) : Except IoError Node := tree.lookup true p

/-- Whether a path leads to anything. -/
def pathExists (tree : FileTree) (p : Path) : Bool := (tree.status p).isOk

/-- Whether a path leads to a regular file. -/
def isFile (tree : FileTree) (p : Path) : Bool :=
  match tree.status p with
  | .ok (.file _) => true
  | _ => false

/-- Whether a path leads to a folder. -/
def isFolder (tree : FileTree) (p : Path) : Bool :=
  match tree.status p with
  | .ok (.folder _) => true
  | _ => false

/-- The content of the file that a path leads to. -/
def readFile (tree : FileTree) (p : Path) : Except IoError Bytes :=
  match tree.status p with
  | .ok (.file content) => .ok content
  | .ok _ => .error .isADirectory
  | .error e => .error e

/-- The text of the file that a path leads to. -/
def readText (tree : FileTree) (p : Path) : Except IoError String := do
  match Utf8.decode (← tree.readFile p) with
  | .ok text => return text
  | .error _ => throw .invalidData

/-- The names in the folder that a path leads to. -/
def listFolder (tree : FileTree) (p : Path) : Except IoError (List OsText) :=
  match tree.status p with
  | .ok (.folder inner) => .ok inner.names
  | .ok _ => .error .notADirectory
  | .error e => .error e

/-- The paths of the items in a folder. -/
def children (tree : FileTree) (p : Path) : Except IoError (List Path) :=
  (tree.listFolder p).map fun names => names.map p.child

/-- The names in the folder that a path leads to, in order. -/
def sortedNames (tree : FileTree) (p : Path) : Except IoError (List OsText) :=
  (tree.listFolder p).map fun names => names.mergeSort

/-- The paths of the items in a folder in order.  Paths in one folder are in the order of their
last names. -/
def sortedChildren (tree : FileTree) (p : Path) : Except IoError (List Path) :=
  (tree.sortedNames p).map fun names => names.map p.child

/-- A path written from the root on. -/
def absolute (tree : FileTree) (p : Path) : Path := tree.current.join p

/-- The regular files at or below a path, by their location below it.  A link is followed only
if it is the path itself, and then only to a folder. -/
def walk (tree : FileTree) (p : Path) : Except IoError (List (List OsText)) := do
  match ← tree.lookup false p with
  | .file _ => return [[]]
  | .folder inner => return inner.walk
  | .link _ =>
    match ← tree.status p with
    | .folder inner => return inner.walk
    | _ => return []

end FileTree
end ModuleAtlas
