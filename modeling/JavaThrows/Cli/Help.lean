set_option autoImplicit false

/-!
# Help texts

What the program says about its own command line.
-/

namespace JavaThrows

/-- The pages of the help. -/
inductive HelpPage where
  | main
  | init
  | help
deriving DecidableEq, Repr

namespace HelpPage

/-- The options, commands and arguments. -/
def usage : List String := [
  "throwstrip - remove an exception from the throws clause of matching Java methods",
  "",
  "Usage: throwstrip [OPTIONS] [PATHS]... [COMMAND]",
  "",
  "Commands:",
  "  init  Write a starter .throwstrip.toml into the current directory",
  "  help  Print this message or the help of the given subcommand(s)",
  "",
  "Arguments:",
  "  [PATHS]...  Paths to rewrite (Java files or directories). When no paths are " ++
    "provided, defaults to the current directory. Cannot be used with --root",
  "",
  "Options:",
  "      --root <ROOT>",
  "          Project root for path containment. When specified, this path is " ++
    "used as both the target AND the containment boundary for rewritten files. " ++
    "Cannot be used together with positional path arguments",
  "  -m, --method-pattern <METHOD_PATTERN>",
  "          Method signature pattern, e.g. `com.example.Service fetch(..)`",
  "  -e, --exception-type <EXCEPTION_TYPE>",
  "          Fully-qualified exception type to remove, e.g. `java.io.IOException`",
  "      --no-match-overrides",
  "          Only rewrite methods declared directly on a matching type",
  "      --json",
  "          Output raw JSON",
  "  -v, --verbose",
  "          Enable verbose output for debugging (shows the compiled pattern and debug logs)",
  "  -q, --quiet",
  "          Quiet mode: show only the summary line (no detailed tables)",
  "      --exclude <EXCLUDE_FOLDERS>",
  "          Folders to exclude from the walk",
  "      --include <INCLUDE_FOLDERS>",
  "          Folders to force-include (overrides default exclusions)",
  "  -n, --dry-run",
  "          Show what would change without writing any file",
  "  -h, --help",
  "          Print help",
  "  -V, --version",
  "          Print version",
  ""]

/-- How patterns and configuration files are written. -/
def formats : List String := [
  "METHOD PATTERNS:",
  "  <declaring type> <method name>(<argument types>)",
  "",
  "  com.example.Service fetch(..)          any arguments",
  "  com.example.Service fetch(String, int) exact arguments (java.lang may be omitted)",
  "  com.example..* *(..)                   every method of every type below com.example",
  "  com.example.Service <constructor>(..)  constructors",
  "  com.example.Outer$Inner run()          nested types use `$`",
  "",
  "CONFIGURATION FILE (.throwstrip.toml):",
  "  Create this file in your project root to set defaults.",
  "  Command line flags override the file.",
  "",
  "  [throwstrip]",
  "  method_pattern = \"com.example.Service fetch(..)\"",
  "  exception_type = \"java.io.IOException\"",
  "  match_overrides = true     # Also rewrite overriding methods",
  "",
  "  # Path filters",
  "  exclude_folders = [\"generated\"]",
  "  include_folders = [\"build\"]  # Force-include these"]

def lines : HelpPage → List String
  | .main => usage ++ formats
  | .init => [
    "Write a starter .throwstrip.toml into the current directory",
    "",
    "Usage: throwstrip init",
    "",
    "Options:",
    "  -h, --help  Print help"]
  | .help => [
    "Print this message or the help of the given subcommand(s)",
    "",
    "Usage: throwstrip help [COMMAND]...",
    "",
    "Arguments:",
    "  [COMMAND]...  Print help for the subcommand(s)"]

def text (page : HelpPage) : String :=
  String.join (page.lines.map (· ++ "\n"))

end HelpPage

/-- What the program answers when it is asked for its version. -/
def versionText : String := "throwstrip 0.3.1\n"

end JavaThrows
