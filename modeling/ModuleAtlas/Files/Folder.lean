import ModuleAtlas.Files.Path

/-! # Folders

A folder lists files, links and folders by name.  `Folder` is the first item and the rest of
the listing, so that everything below it is a structural recursion.  The listing of a folder
that `set` has built up is in increasing order of the names.
-/
namespace ModuleAtlas

/-- The content of a folder, one item after the other. -/
inductive Folder where
  /-- No items. -/
  | empty
  /-- A regular file, then further items. -/
  | file (name : OsText) (content : Bytes) (rest : Folder)
  /-- A symbolic link, then further items. -/
  | link (name : OsText) (target : Path) (rest : Folder)
  /-- A folder, then further items. -/
  | folder (name : OsText) (inner : Folder) (rest : Folder)
deriving Inhabited

/-- What a name stands for. -/
inductive Node where
  /-- A regular file. -/
  | file (content : Bytes)
  /-- A symbolic link that has not been followed. -/
  | link (target : Path)
  /-- A folder. -/
  | folder (inner : Folder)
deriving Inhabited

/-- What is shown for a location below a folder. -/
def locationText (location : List OsText) : String := "/".intercalate (location.map OsText.text)

namespace Folder

/-- Puts an item in front of a listing. -/
def cons (name : OsText) : Node → Folder → Folder
  | .file content, rest => .file name content rest
  | .link target, rest => .link name target rest
  | .folder inner, rest => .folder name inner rest

/-- The items by name. -/
def items : Folder → List (OsText × Node)
  | .empty => []
  | .file name content rest => (name, .file content) :: rest.items
  | .link name target rest => (name, .link target) :: rest.items
  | .folder name inner rest => (name, .folder inner) :: rest.items

/-- The names of the items. -/
def names (f : Folder) : List OsText := f.items.map Prod.fst

/-- The item of a name. -/
def find? (f : Folder) (name : OsText) : Option Node :=
  (f.items.find? fun item => item.1 == name).map Prod.snd

/-- Whether the names increase at every level, so that none is repeated. -/
def Ordered : Folder → Prop
  | .empty => True
  | .file name _ rest => (∀ n ∈ rest.names, name < n) ∧ rest.Ordered
  | .link name _ rest => (∀ n ∈ rest.names, name < n) ∧ rest.Ordered
  | .folder name inner rest => (∀ n ∈ rest.names, name < n) ∧ inner.Ordered ∧ rest.Ordered

/-- Sets the item of a name, at its place in the order. -/
def set (name : OsText) (node : Node) : Folder → Folder
  | .empty => cons name node .empty
  | .file n content rest =>
    if name < n then cons name node (.file n content rest)
    else if name = n then cons name node rest
    else .file n content (set name node rest)
  | .link n target rest =>
    if name < n then cons name node (.link n target rest)
    else if name = n then cons name node rest
    else .link n target (set name node rest)
  | .folder n inner rest =>
    if name < n then cons name node (.folder n inner rest)
    else if name = n then cons name node rest
    else .folder n inner (set name node rest)

/-- Puts an item at a location below a folder; missing folders on the way are made, and what
is no folder gives way to one. -/
def put : List OsText → Node → Folder → Folder
  | [], _, f => f
  | [name], node, f => f.set name node
  | name :: rest, node, f =>
    let inner := match f.find? name with
      | some (.folder inner) => inner
      | _ => .empty
    f.set name (.folder (put rest node inner))

/-- Makes the folder at a location, and leaves it alone when it is there. -/
def makeFolder : List OsText → Folder → Folder
  | [], f => f
  | name :: rest, f =>
    let inner := match f.find? name with
      | some (.folder inner) => inner
      | _ => .empty
    f.set name (.folder (makeFolder rest inner))

/-- The locations of all regular files at any depth, without following links.  A folder's files
stand where the folder stands in the listing. -/
def walk : Folder → List (List OsText)
  | .empty => []
  | .file name _ rest => [name] :: rest.walk
  | .link _ _ rest => rest.walk
  | .folder name inner rest => inner.walk.map (name :: ·) ++ rest.walk

end Folder
end ModuleAtlas
