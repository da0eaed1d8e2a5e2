import JavaThrows.Batch
import JavaThrows.Cli.Arguments
import JavaThrows.Config.Settings

set_option autoImplicit false

/-!
# The command line program

What a command line does, as a function of the file tree: an exit code, an output, possibly an error
message, and what is to be written. Arguments count more than the configuration file, and the names
of directories from both add up.
-/

namespace JavaThrows

/-- What running a command line comes to. -/
structure CliRun where
  code : Nat
  output : String
  error : Option String
  writes : List FileWrite

namespace CliRun

def done (output : String) (writes : List FileWrite) : CliRun :=
  ⟨0, output, none, writes⟩

def failed (message : String) : CliRun :=
  ⟨1, "", some ("Error: " ++ message ++ "\n"), []⟩

end CliRun

/-! ## A configuration to start with -/

def starterConfig : List String := [
  "[throwstrip]",
  "# Methods to rewrite: `<declaring type> <name>(<args>)`",
  "# Wildcards: `*` in a name, `..` for any package run or any argument list.",
  "method_pattern = \"com.example.Service fetch(..)\"",
  "",
  "# Exception to remove from the throws clause (fully qualified)",
  "exception_type = \"java.io.IOException\"",
  "",
  "# Also rewrite methods that override a matching method",
  "match_overrides = true",
  "",
  "# Path filters",
  "exclude_folders = [\"target\", \"build\", \"out\", \".gradle\", \".idea\"]",
  "include_folders = []       # Force-include these folders even if excluded by default"]

/-- Write a configuration file into the working directory, unless there is one. -/
def runInit (t : FileTree) : CliRun :=
  let file := Path.join t.workingDir.path Settings.fileName
  let report (middle : String) : String :=
    linesOf ["Initializing throwstrip configuration...", middle, "Initialization complete!"]
  if t.pathExists file then
    .done (report ("  • " ++ Settings.fileName ++ " already exists - skipping.")) []
  else
    match t.locateNew file with
    | .error _ =>
      { CliRun.failed ("Failed to create " ++ file) with
        output := linesOf ["Initializing throwstrip configuration..."] }
    | .ok location =>
      .done (report ("  • Created " ++ Settings.fileName ++ " with a starter configuration."))
        [⟨location, linesOf starterConfig⟩]

/-! ## Removing -/

/-- The paths to handle and the root directory. -/
def Arguments.targets (a : Arguments) (t : FileTree) : List String × String :=
  match a.root, a.paths with
  | some root, _ => ([root], root)
  | none, [] => (["."], ".")
  | none, paths => (paths, ((t.commonRoot? paths).map Location.path).getD ".")

/-- The recipe that arguments and settings give together, or which of its parts is missing. -/
def Arguments.recipe (a : Arguments) (s : Settings) : Except String Recipe :=
  match a.methodPattern.or s.methodPattern, a.exceptionType.or s.exceptionType with
  | none, _ =>
    .error ("no method pattern given (use --method-pattern or set method_pattern in " ++
      Settings.fileName ++ ")")
  | some _, none =>
    .error ("no exception type given (use --exception-type or set exception_type in " ++
      Settings.fileName ++ ")")
  | some pattern, some exception =>
    .ok ⟨pattern, exception, if a.noMatchOverrides then some false else s.matchOverrides⟩

/-- Remove an exception as the arguments ask for. -/
def Arguments.runRemoval (a : Arguments) (t : FileTree) : CliRun :=
  let (paths, root) := a.targets t
  match paths.find? fun path => !t.pathExists path with
  | some path => .failed ("The file or directory '" ++ path ++ "' does not exist.")
  | none =>
    let settings := (Config.load t (paths.headD "")).settings
    match a.recipe settings with
    | .error message => .failed message
    | .ok recipe =>
      let filter : DirFilter :=
        ⟨settings.excludeFolders.getD [] ++ a.excluded,
          settings.includeFolders.getD [] ++ a.included⟩
      let o : BatchOptions :=
        { dryRun := a.dryRun, verbose := a.verbose, quiet := a.quiet, json := a.json
          styled := false, root, filter }
      match runRecipe recipe o t paths with
      | .error e => .failed e.message
      | .ok run =>
        let start := if a.json || a.quiet then "" else exclusionsText false filter.excluded
        .done (start ++ run.output o) run.writes

/-! ## The program -/

def UsageError.message : UsageError → String
  | .unknownArgument => "unexpected argument"
  | .conflict => "an argument cannot be used twice or together with another one"
  | .tooManyValues => "unexpected value for an option that takes none"
  | .invalidValue => "a value is required"
  | .invalidSubcommand => "unrecognized subcommand"

/-- Run a command line, given without the name of the program. -/
def runCommandLine (t : FileTree) (arguments : List String) : CliRun :=
  match Arguments.ofList arguments with
  | .error (.help page) => .done page.text []
  | .error .version => .done versionText []
  | .error (.misuse e) => ⟨1, "", some ("error: " ++ e.message ++ "\n"), []⟩
  | .ok a => if a.init then runInit t else a.runRemoval t

end JavaThrows
