import ModuleAtlas.Error

/-! # Class paths

A class path is a path list.  An entry whose file name is `*` stands for the archives in a folder,
in the order in which the folder lists them; every other entry stands for itself, whether it
exists or not.
-/
namespace ModuleAtlas.ClassPath

/-- The file name that stands for all archives of a folder. -/
def wildcard : OsText := "*"

/-- The folder whose archives a wildcard entry stands for. -/
def wildcardFolder (entry : Path) : Path :=
  match entry.parent? with
  | some parent => if parent.raw = "" then ⟨"."⟩ else parent
  | none => ⟨"."⟩

/-- Whether a path leads to an archive that a wildcard stands for. -/
def isWildcardMatch (tree : FileTree) (p : Path) : Bool :=
  p.hasExtension ["jar"] && tree.isFile p

/-- The paths that one entry stands for. -/
def expandEntry (tree : FileTree) (entry : Path) : Except AtlasError (List Path) :=
  if entry.raw = "" then .ok []
  else if entry.fileName? ≠ some wildcard then .ok [entry]
  else
    let folder := wildcardFolder entry
    match tree.children folder with
    | .ok children => .ok (children.filter (isWildcardMatch tree))
    | .error cause => .error (.io folder cause)

/-- The paths that some entries stand for. -/
def expandEntries (tree : FileTree) : List Path → Except AtlasError (List Path)
  | [] => .ok []
  | entry :: rest =>
    match expandEntry tree entry with
    | .error e => .error e
    | .ok paths => (expandEntries tree rest).map (paths ++ ·)

/-- The paths that a class path stands for. -/
def expand (tree : FileTree) (classPath : String) : Except AtlasError (List Path) :=
  expandEntries tree (Path.splitList classPath)

/-- The paths that some class paths stand for, one after the other. -/
def expandAll (tree : FileTree) : List String → Except AtlasError (List Path)
  | [] => .ok []
  | classPath :: rest =>
    match expand tree classPath with
    | .error e => .error e
    | .ok paths => (expandAll tree rest).map (paths ++ ·)

end ModuleAtlas.ClassPath
