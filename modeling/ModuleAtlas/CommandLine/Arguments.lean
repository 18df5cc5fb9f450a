import ModuleAtlas.Content.Layout
import ModuleAtlas.Files.Path

/-! # Arguments

A command line is a command with operands, and options in front of the command or behind it.
`Arguments.read` goes through the words from left to right and fails at the first that does not
fit.  An option behind the command takes precedence over the same option in front of it; at one of
the two places, only options that add up may be repeated.
-/
namespace ModuleAtlas.CommandLine

/-- Why a command line is refused or not carried out. -/
inductive UsageError where
  /-- Help is asked for. -/
  | help
  /-- A word that has no meaning where it stands. -/
  | unexpected (word : String)
  /-- An option that needs a value has none. -/
  | missingValue (option : String)
  /-- A value that the option cannot have. -/
  | badValue (option value : String)
  /-- An option is given again. -/
  | repeated (option : String)
  /-- There is no command. -/
  | missingCommand
  /-- An operand is missing. -/
  | missingOperand (command : String)
deriving DecidableEq, Repr, Inhabited

/-- The wording of a usage error. -/
def UsageError.message : UsageError → String
  | .help => "usage: jvdeps [options] modules | resolve [names] | reads name | split-packages | " ++
      "owner class"
  | .unexpected word => s!"error: unexpected argument {word}"
  | .missingValue option => s!"error: a value is required for {option}"
  | .badValue option value => s!"error: invalid value {value} for {option}"
  | .repeated option => s!"error: the argument {option} cannot be used multiple times"
  | .missingCommand => "error: a subcommand is required"
  | .missingOperand command => s!"error: {command} needs an argument"

/-- The options at one place. -/
structure Options where
  /-- The file with settings. -/
  config : Option Path := none
  /-- The platform. -/
  system : Option String := none
  /-- The path list of the modules of the application. -/
  modulePath : Option String := none
  /-- The path list of modules that take precedence over the platform. -/
  upgradeModulePath : Option String := none
  /-- The class path. -/
  classPath : Option String := none
  /-- Roots by name. -/
  addModules : List String := []
  /-- The release whose versions of entries count. -/
  multiRelease : Option Nat := none
  /-- Artifacts to be analysed. -/
  roots : List Path := []
  /-- Whether all modules are roots. -/
  allModules : Bool := false
  /-- Whether more is logged. -/
  verbose : Bool := false
  /-- Whether the report is printed as JSON. -/
  json : Bool := false
deriving DecidableEq, Repr, Inhabited

namespace Options

/-- The options that have a value. -/
def valueNames : List String :=
  ["config", "system", "module-path", "upgrade-module-path", "class-path", "add-modules",
    "multi-release", "root"]

/-- Gives a value to an option that has none. -/
def once {α : Type} (name : String) (old : Option α) (value : α) :
    Except UsageError (Option α) :=
  if old.isSome then .error (.repeated name) else .ok (some value)

/-- A path that is given as a value, which must not be empty. -/
def pathValue (name value : String) : Except UsageError Path :=
  if value = "" then .error (.badValue name value) else .ok ⟨value⟩

/-- The release that a value writes: an integer with or without a sign, from 0 up to the greatest
release. -/
def releaseValue? (value : String) : Option Nat :=
  match value.toList with
  | '-' :: digits => (readDigits digits).filter (· = 0)
  | _ => release? value

/-- Adds an option with its value. -/
def addValue (o : Options) (name value : String) : Except UsageError Options := do
  match name with
  | "config" => return { o with config := ← once name o.config (← pathValue name value) }
  | "system" => return { o with system := ← once name o.system value }
  | "module-path" => return { o with modulePath := ← once name o.modulePath value }
  | "upgrade-module-path" =>
    return { o with upgradeModulePath := ← once name o.upgradeModulePath value }
  | "class-path" => return { o with classPath := ← once name o.classPath value }
  | "add-modules" => return { o with addModules := o.addModules ++ Text.splitAll ',' value }
  | "multi-release" =>
    match releaseValue? value with
    | some release => return { o with multiRelease := ← once name o.multiRelease release }
    | none => throw (.badValue name value)
  | "root" => return { o with roots := o.roots ++ [← pathValue name value] }
  | _ => throw (.unexpected name)

/-- Adds an option without a value. -/
def addFlag (o : Options) (inCommand : Bool) (name : String) : Except UsageError Options :=
  match name with
  | "help" => .error .help
  | "all-modules" =>
    if o.allModules then .error (.repeated name) else .ok { o with allModules := true }
  | "verbose" => if o.verbose then .error (.repeated name) else .ok { o with verbose := true }
  | "json" =>
    if !inCommand then .error (.unexpected name)
    else if o.json then .error (.repeated name)
    else .ok { o with json := true }
  | _ => .error (.unexpected name)

/-- Adds the options of one letter that a word with a single dash stands for. -/
def addLetters (o : Options) (inCommand : Bool) : List Char → Except UsageError Options
  | [] => .ok o
  | 'v' :: rest => do addLetters (← o.addFlag inCommand "verbose") inCommand rest
  | 'h' :: _ => .error .help
  | c :: _ => .error (.unexpected (String.singleton c))

/-- The options of two places, of which `inner` takes precedence. -/
def merge (outer inner : Options) : Options where
  config := inner.config <|> outer.config
  system := inner.system <|> outer.system
  modulePath := inner.modulePath <|> outer.modulePath
  upgradeModulePath := inner.upgradeModulePath <|> outer.upgradeModulePath
  classPath := inner.classPath <|> outer.classPath
  addModules := if inner.addModules.isEmpty then outer.addModules else inner.addModules
  multiRelease := inner.multiRelease <|> outer.multiRelease
  roots := if inner.roots.isEmpty then outer.roots else inner.roots
  allModules := inner.allModules || outer.allModules
  verbose := inner.verbose || outer.verbose
  json := inner.json

end Options

/-- What a word of a command line is. -/
inductive Word where
  /-- The end of all options. -/
  | endOfOptions
  /-- An option with a long name, and the value that is attached to it. -/
  | long (name : String) (value : Option String)
  /-- Options of one letter. -/
  | letters (letters : List Char)
  /-- Anything else. -/
  | plain (text : String)
deriving DecidableEq, Repr, Inhabited

/-- Tells what a word is.  A single dash is a word like any other. -/
def Word.ofText (text : String) : Word :=
  match text.toList with
  | '-' :: '-' :: [] => .endOfOptions
  | '-' :: '-' :: rest =>
    match Text.cutFirst? '=' rest with
    | some (name, value) => .long (String.ofList name) (some (String.ofList value))
    | none => .long (String.ofList rest) none
  | '-' :: c :: rest => .letters (c :: rest)
  | _ => .plain text

/-- Whether a word can be the value of an option in front of it. -/
def isValueWord (text : String) : Bool :=
  match Word.ofText text with
  | .plain _ => true
  | _ => false

/-- Options and operands from the words behind the command.  An operand beyond the limit is
refused where it stands, before what follows it is looked at. -/
def readOperands (limit : Option Nat) (o : Options) (operands : List String) :
    List String → Except UsageError (Options × List String)
  | [] => .ok (o, operands)
  | word :: rest =>
    match Word.ofText word with
    | .endOfOptions => .ok (o, operands ++ rest)
    | .plain text =>
      if limit.all (operands.length < ·) then readOperands limit o (operands ++ [text]) rest
      else .error (.unexpected text)
    | .letters letters => do readOperands limit (← o.addLetters true letters) operands rest
    | .long name (some value) => do readOperands limit (← o.addValue name value) operands rest
    | .long name none =>
      if name ∈ Options.valueNames then
        match rest with
        | value :: rest' =>
          if isValueWord value then do
            readOperands limit (← o.addValue name value) operands rest'
          else .error (.missingValue name)
        | [] => .error (.missingValue name)
      else do readOperands limit (← o.addFlag true name) operands rest

/-- Options from the words in front of the command, then the command and the words behind it. -/
def readFront (o : Options) : List String → Except UsageError (Options × String × List String)
  | [] => .error .missingCommand
  | word :: rest =>
    match Word.ofText word with
    | .endOfOptions => .error .missingCommand
    | .plain text => .ok (o, text, rest)
    | .letters letters => do readFront (← o.addLetters false letters) rest
    | .long name (some value) => do readFront (← o.addValue name value) rest
    | .long name none =>
      if name ∈ Options.valueNames then
        match rest with
        | value :: rest' =>
          if isValueWord value then do readFront (← o.addValue name value) rest'
          else .error (.missingValue name)
        | [] => .error (.missingValue name)
      else do readFront (← o.addFlag false name) rest

/-- A command. -/
inductive Command where
  /-- List the modules. -/
  | modules
  /-- Resolve roots. -/
  | resolve (names : List String)
  /-- List what a module reads. -/
  | reads (name : String)
  /-- Report split packages. -/
  | splitPackages
  /-- Find the owner of a class. -/
  | owner (className : String)
deriving DecidableEq, Repr, Inhabited

/-- The names of the commands. -/
def commandNames : List String :=
  ["modules", "resolve", "reads", "split-packages", "owner", "help"]

/-- How many operands the command of a name takes at most, if there is a limit. -/
def operandLimit (name : String) : Option Nat :=
  match name with
  | "modules" | "split-packages" => some 0
  | "reads" | "owner" => some 1
  | _ => none

namespace Command

/-- The command without operands. -/
def withoutOperands (command : Command) : List String → Except UsageError Command
  | [] => .ok command
  | word :: _ => .error (.unexpected word)

/-- The command with one operand. -/
def withOperand (name : String) (make : String → Command) :
    List String → Except UsageError Command
  | [] => .error (.missingOperand name)
  | [operand] => .ok (make operand)
  | _ :: word :: _ => .error (.unexpected word)

/-- The command of a name with its operands. -/
def ofName (name : String) (operands : List String) : Except UsageError Command :=
  match name with
  | "modules" => withoutOperands .modules operands
  | "resolve" => .ok (.resolve operands)
  | "reads" => withOperand name .reads operands
  | "split-packages" => withoutOperands .splitPackages operands
  | "owner" => withOperand name .owner operands
  | _ => .error (.unexpected name)

end Command

/-- A request for help, which may name a command; the commands have no commands of their own. -/
def readHelp : List String → UsageError
  | [] => .help
  | [name] => if name ∈ commandNames then .help else .unexpected name
  | name :: word :: _ => if name ∈ commandNames then .unexpected word else .unexpected name

/-- A command line that has been understood. -/
structure Arguments where
  /-- The options. -/
  options : Options
  /-- The command. -/
  command : Command
deriving DecidableEq, Repr, Inhabited

/-- Understands the words of a command line. -/
def Arguments.read (words : List String) : Except UsageError Arguments := do
  let (outer, name, rest) ← readFront {} words
  if name = "help" then throw (readHelp rest)
  if name ∉ commandNames then throw (.unexpected name)
  let (inner, operands) ← readOperands (operandLimit name) {} [] rest
  let command ← Command.ofName name operands
  return { options := outer.merge inner, command }

end ModuleAtlas.CommandLine
