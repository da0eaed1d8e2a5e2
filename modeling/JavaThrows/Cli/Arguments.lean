import JavaThrows.Cli.Help
import JavaThrows.Text.Split

set_option autoImplicit false

/-!
# Command line arguments

Arguments are read from the first to the last. An option with a value waits for it in the next
argument, positional arguments gather until something else comes, and what is waiting is taken in
before the next option takes effect. A request for help or for the version ends the reading where it
stands; so does a mistake, and the first one met counts.
-/

namespace JavaThrows

/-- What a command line asks for. -/
structure Arguments where
  /-- The subcommand that writes a configuration file. -/
  init : Bool
  paths : List String
  root : Option String
  methodPattern : Option String
  exceptionType : Option String
  noMatchOverrides : Bool
  json : Bool
  verbose : Bool
  quiet : Bool
  excluded : List String
  included : List String
  dryRun : Bool
deriving DecidableEq, Repr, Inhabited

/-- What is wrong with a command line. -/
inductive UsageError where
  | unknownArgument
  /-- Two arguments exclude each other, or one is given twice. -/
  | conflict
  /-- A value for an option that takes none. -/
  | tooManyValues
  /-- A value that is missing or not allowed. -/
  | invalidValue
  | invalidSubcommand
deriving DecidableEq, Repr

/-- Why reading a command line ends early. -/
inductive EarlyEnd where
  | help (page : HelpPage)
  | version
  | misuse (error : UsageError)
deriving DecidableEq, Repr

/-- Options without a value. -/
inductive Switch where
  | noMatchOverrides
  | json
  | verbose
  | quiet
  | dryRun
deriving DecidableEq, Repr

/-- Options with a value. -/
inductive Setting where
  | root
  | methodPattern
  | exceptionType
  | excluded
  | included
deriving DecidableEq, Repr

inductive CliOption where
  | switch (s : Switch)
  | setting (s : Setting)
  | help
  | version
deriving DecidableEq, Repr

namespace CliOption

def ofLong? (name : String) : Option CliOption :=
  match name with
  | "root" => some (.setting .root)
  | "method-pattern" => some (.setting .methodPattern)
  | "exception-type" => some (.setting .exceptionType)
  | "no-match-overrides" => some (.switch .noMatchOverrides)
  | "json" => some (.switch .json)
  | "verbose" => some (.switch .verbose)
  | "quiet" => some (.switch .quiet)
  | "exclude" => some (.setting .excluded)
  | "exclude-folder" => some (.setting .excluded)
  | "exclude-folders" => some (.setting .excluded)
  | "include" => some (.setting .included)
  | "include-folder" => some (.setting .included)
  | "include-folders" => some (.setting .included)
  | "dry-run" => some (.switch .dryRun)
  | "help" => some .help
  | "version" => some .version
  | _ => none

def ofShort? (c : Char) : Option CliOption :=
  match c with
  | 'm' => some (.setting .methodPattern)
  | 'e' => some (.setting .exceptionType)
  | 'v' => some (.switch .verbose)
  | 'q' => some (.switch .quiet)
  | 'n' => some (.switch .dryRun)
  | 'h' => some .help
  | 'V' => some .version
  | _ => none

end CliOption

/-! ## Taking arguments in -/

namespace Arguments

def empty : Arguments :=
  { init := false, paths := [], root := none, methodPattern := none, exceptionType := none
    noMatchOverrides := false, json := false, verbose := false, quiet := false, excluded := []
    included := [], dryRun := false }

def misuse {α : Type} (error : UsageError) : Except EarlyEnd α :=
  .error (.misuse error)

/-- Whether a switch is on. -/
def isOn (a : Arguments) : Switch → Bool
  | .noMatchOverrides => a.noMatchOverrides
  | .json => a.json
  | .verbose => a.verbose
  | .quiet => a.quiet
  | .dryRun => a.dryRun

/-- Turn a switch on, which can be done once. -/
def turnOn (a : Arguments) (s : Switch) : Except EarlyEnd Arguments :=
  if a.isOn s then misuse .conflict
  else
    match s with
    | .noMatchOverrides => .ok { a with noMatchOverrides := true }
    | .json => .ok { a with json := true }
    | .verbose => .ok { a with verbose := true }
    | .quiet => .ok { a with quiet := true }
    | .dryRun => .ok { a with dryRun := true }

/-- The value of a setting that can be given once. -/
def once (old : Option String) (value : String) : Except EarlyEnd (Option String) :=
  if old.isSome then misuse .conflict else .ok (some value)

/-- Give a value to a setting. The names of directories add up. -/
def give (a : Arguments) (s : Setting) (value : String) : Except EarlyEnd Arguments :=
  match s with
  | .root => do
    let root ← once a.root value
    if value.isEmpty then misuse .invalidValue else return { a with root }
  | .methodPattern => do return { a with methodPattern := ← once a.methodPattern value }
  | .exceptionType => do return { a with exceptionType := ← once a.exceptionType value }
  | .excluded => .ok { a with excluded := a.excluded ++ [value] }
  | .included => .ok { a with included := a.included ++ [value] }

/-- Add positional arguments. -/
def addPaths (a : Arguments) (paths : List String) : Except EarlyEnd Arguments :=
  if paths.any String.isEmpty then misuse .invalidValue
  else .ok { a with paths := a.paths ++ paths }

end Arguments

/-! ## Reading -/

/-- What has been read and is not taken in yet. -/
inductive Waiting where
  | nothing
  /-- A setting, with its value if that has come. -/
  | setting (s : Setting) (value : Option String)
  | paths (paths : List String)

/-- What the last argument was. -/
inductive LastArgument where
  /-- Something complete, or nothing yet. -/
  | complete
  /-- An option whose value is still to come. -/
  | openOption
  | positional
deriving DecidableEq, Repr

structure CliState where
  arguments : Arguments
  waiting : Waiting
  last : LastArgument

namespace CliState

def start : CliState := ⟨.empty, .nothing, .complete⟩

/-- Take in what is waiting. -/
def settle (s : CliState) : Except EarlyEnd Arguments :=
  match s.waiting with
  | .nothing => .ok s.arguments
  | .setting _ none => Arguments.misuse .invalidValue
  | .setting setting (some value) => s.arguments.give setting value
  | .paths paths => s.arguments.addPaths paths

/-- An option without a value. -/
def applySwitch (s : CliState) (switch : Switch) : Except EarlyEnd CliState := do
  let arguments ← (← s.settle).turnOn switch
  return ⟨arguments, .nothing, .complete⟩

/-- An option with a value, which stands in the same argument or is still to come. -/
def applySetting (s : CliState) (setting : Setting) (value : Option String) :
    Except EarlyEnd CliState := do
  let arguments ← s.settle
  match value with
  | some value => return ⟨← arguments.give setting value, .nothing, .complete⟩
  | none => return ⟨arguments, .setting setting none, .openOption⟩

def applyEnd (s : CliState) (e : EarlyEnd) : Except EarlyEnd CliState := do
  let _ ← s.settle
  throw e

/-- A positional argument. -/
def addPath (s : CliState) (path : String) : Except EarlyEnd CliState :=
  match s.waiting with
  | .paths paths => .ok { s with waiting := .paths (paths ++ [path]), last := .positional }
  | _ => do
    let arguments ← s.settle
    return ⟨arguments, .paths [path], .positional⟩

/-- An option by its long name. -/
def applyLong (s : CliState) (name : String) (value : Option String) :
    Except EarlyEnd CliState :=
  match CliOption.ofLong? name, value with
  | none, _ => Arguments.misuse .unknownArgument
  | some (.setting setting), value => s.applySetting setting value
  | some _, some _ => Arguments.misuse .tooManyValues
  | some (.switch switch), none => s.applySwitch switch
  | some .help, none => s.applyEnd (.help .main)
  | some .version, none => s.applyEnd .version

/-- Options by their short names, all in one argument. What follows an option with a value in the
    same argument is its value, without an equals sign in between. -/
def applyShort (s : CliState) : List Char → Except EarlyEnd CliState
  | [] => .ok s
  | c :: cs =>
    match CliOption.ofShort? c with
    | none => Arguments.misuse .unknownArgument
    | some (.setting setting) =>
      match cs with
      | [] => s.applySetting setting none
      | '=' :: value => s.applySetting setting (some (String.ofList value))
      | value => s.applySetting setting (some (String.ofList value))
    | some (.switch switch) => do
      let s ← s.applySwitch switch
      s.applyShort cs
    | some .help => s.applyEnd (.help .main)
    | some .version => s.applyEnd .version

/-- An argument that is no option: the value of an option that waits for it, or a path. -/
def addPlain (s : CliState) (argument : String) : Except EarlyEnd CliState :=
  match s.last, s.waiting with
  | .openOption, .setting setting _ =>
    .ok { s with waiting := .setting setting (some argument), last := .complete }
  | _, _ => s.addPath argument

/-- An argument that may be an option. -/
def add (s : CliState) (argument : String) : Except EarlyEnd CliState :=
  match argument.toList with
  | '-' :: '-' :: long =>
    match Text.cutFirst '=' long with
    | some (name, value) => s.applyLong (String.ofList name) (some (String.ofList value))
    | none => s.applyLong (String.ofList long) none
  | '-' :: c :: cs => s.applyShort (c :: cs)
  | _ => s.addPlain argument

/-- Take in what is left; a root and positional paths exclude each other. -/
def finish (s : CliState) : Except EarlyEnd Arguments := do
  let arguments ← s.settle
  if arguments.root.isSome && !arguments.paths.isEmpty then Arguments.misuse .conflict
  else return arguments

end CliState

/-- The arguments of the subcommand that writes a configuration file: it takes none. -/
def checkInitArguments : List String → Except EarlyEnd Unit
  | [] => .ok ()
  | argument :: rest =>
    match argument.toList with
    | ['-', '-'] => if rest.isEmpty then .ok () else Arguments.misuse .unknownArgument
    | '-' :: '-' :: long =>
      match Text.cutFirst '=' long with
      | none =>
        if long = "help".toList then .error (.help .init) else Arguments.misuse .unknownArgument
      | some (name, _) =>
        Arguments.misuse (if name = "help".toList then .tooManyValues else .unknownArgument)
    | '-' :: 'h' :: _ => .error (.help .init)
    | _ => Arguments.misuse .unknownArgument

/-- The page that the subcommand for help is asked for. -/
def helpRequest : List String → EarlyEnd
  | [] => .help .main
  | ["init"] => .help .init
  | ["help"] => .help .help
  | _ => .misuse .invalidSubcommand

namespace Arguments

/-- Read arguments. A subcommand is not looked for behind a positional argument or in the place of a
    value, and behind two hyphens everything is positional. -/
def readFrom (s : CliState) (isTrailing : Bool) : List String → Except EarlyEnd Arguments
  | [] => s.finish
  | argument :: rest =>
    if isTrailing then do
      let s ← s.addPath argument
      readFrom s true rest
    else if s.last = .complete && argument = "init" then do
      checkInitArguments rest
      let arguments ← s.finish
      return { arguments with init := true }
    else if s.last = .complete && argument = "help" then .error (helpRequest rest)
    else if argument = "--" then readFrom s true rest
    else do
      let s ← s.add argument
      readFrom s false rest

/-- Read a command line without the name of the program. -/
def ofList (arguments : List String) : Except EarlyEnd Arguments :=
  readFrom .start false arguments

end Arguments
end JavaThrows
