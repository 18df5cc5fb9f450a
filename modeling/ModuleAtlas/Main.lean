import ModuleAtlas.CommandLine.Footprint

/-! # The program

The program takes a picture of the files that a command line needs, and then runs the command on
that picture.  Whether a path is a file, a folder or a link is asked of the system here and nowhere
else.
-/
namespace ModuleAtlas.Program

/-- A picture of files, and the locations that are in it. -/
structure Picture where
  /-- The root folder. -/
  root : Folder := .empty
  /-- The locations that have been looked at. -/
  seen : List (List String) := []

/-- A step of taking a picture. -/
abbrev Photographer := StateT Picture IO

/-- The path of a location. -/
def pathOf (location : List String) : String := "/" ++ "/".intercalate location

/-- The names of a path from the root on. -/
def namesOf (path : String) : List String :=
  ((Path.segments ⟨path⟩).filter Path.isNaming).map OsText.text

/-- A handle for questions to the system about a path. -/
def systemEntry (path : String) : IO.FS.DirEntry := { root := path, fileName := "" }

/-- Puts something into the picture. -/
def place (location : List String) (node : Node) : Photographer Unit :=
  modify fun p => { p with root := p.root.put (location.map OsText.ofText) node }

/-- Takes a picture of what is at a location.  What links lead to is looked at too. -/
partial def capture (location : List String) : Photographer Unit := do
  if location ∈ (← get).seen then return
  modify fun p => { p with seen := location :: p.seen }
  let entry := systemEntry (pathOf location)
  let kind ← try pure (some (← entry.root.symlinkMetadata).type) catch _ => pure none
  match kind with
  | some .dir =>
    modify fun p => { p with root := p.root.makeFolder (location.map OsText.ofText) }
    let children ← try entry.root.readDir catch _ => pure #[]
    for child in children do
      capture (location ++ [child.fileName])
  | some .file =>
    try
      let content ← IO.FS.readBinFile entry.root
      place location (.file content.toList)
    catch _ => pure ()
  | some .symlink =>
    try
      let target ← IO.FS.realPath entry.root
      place location (.link ⟨target.toString⟩)
      capture (namesOf target.toString)
    catch _ => pure ()
  | _ => pure ()

/-- Takes a picture of the folders that lead to a location, and says where it really is. -/
partial def approach (here : List String) : List String → Photographer (List String)
  | [] => return here
  | ".." :: rest => approach here.dropLast rest
  | name :: rest => do
    let location := here ++ [name]
    let entry := systemEntry (pathOf location)
    let kind ← try pure (some (← entry.root.symlinkMetadata).type) catch _ => pure none
    match kind with
    | some .dir =>
      modify fun p => { p with root := p.root.makeFolder (location.map OsText.ofText) }
      approach location rest
    | some .symlink =>
      let target ← try pure (some (← IO.FS.realPath entry.root)) catch _ => pure none
      match target with
      | some target =>
        place location (.link ⟨target.toString⟩)
        approach [] (namesOf target.toString ++ rest)
      | none => return location
    | _ => return location

/-- Takes a picture of what a path leads to. -/
def picture (current : Path) (path : Path) : Photographer Unit := do
  capture (← approach [] (namesOf (current.join path).text))

/-- The program of a name in a list of folders, with links followed. -/
def findProgram (name : String) (folders : List String) : IO (Option Path) := do
  for folder in folders do
    let entry := systemEntry (folder ++ "/" ++ name)
    let found ← try pure (some (← IO.FS.realPath entry.root)) catch _ => pure none
    match found with
    | some path =>
      if (← (systemEntry path.toString).root.metadata).type matches .file then
        return some ⟨path.toString⟩
    | none => pure ()
  return none

/-- Takes the pictures that a command line needs, and runs it. -/
def start (words : List String) : IO CommandLine.Outcome := do
  let current : Path := ⟨(← IO.currentDir).toString⟩
  let home := (← IO.getEnv "JAVA_HOME").map Path.ofText
  let launcher ← findProgram "java" ((((← IO.getEnv "PATH").getD "").splitOn ":").filter (· ≠ ""))
  let env : CommandLine.Environment := { home, launcher }
  match CommandLine.Arguments.read words with
  | .error _ => return CommandLine.run { current } env words
  | .ok args =>
    let first : Photographer Unit := do
      let _ ← approach [] (namesOf current.text)
      if let some config := args.options.config then picture current config
      if let some home := home then
        let _ ← approach [] (namesOf (current.join home).text)
    let ((), shown) ← first.run {}
    let needed := CommandLine.footprint { root := shown.root, current } env args.options
    let ((), shown) ← (needed.forM (picture current)).run shown
    return CommandLine.run { root := shown.root, current } env words

end ModuleAtlas.Program

/-- Runs the command line that the program is started with. -/
def main (words : List String) : IO UInt32 := do
  let outcome ← ModuleAtlas.Program.start words
  IO.print outcome.output
  if let some message := outcome.error then IO.eprintln message
  return UInt32.ofNat outcome.exit
