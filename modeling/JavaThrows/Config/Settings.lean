import JavaThrows.Config.Toml
import JavaThrows.Files.Tree

set_option autoImplicit false

/-!
# Settings from configuration files

A configuration file gives defaults for a recipe and for the directories to walk. It is looked for
in the directory of a path and then in the parents that the text of the path shows; a file that is
no configuration is passed over.
-/

namespace JavaThrows

structure Settings where
  methodPattern : Option String
  exceptionType : Option String
  matchOverrides : Option Bool
  excludeFolders : Option (List String)
  includeFolders : Option (List String)
deriving DecidableEq, Repr, Inhabited

namespace Settings

/-- The settings where nothing is said. -/
def unset : Settings := ⟨none, none, none, none, none⟩

/-! ## From a document -/

def textOf? : Toml → Option String
  | .text value => some value
  | _ => none

def booleanOf? : Toml → Option Bool
  | .boolean value => some value
  | _ => none

def textsOf? : Toml → Option (List String)
  | .array items => items.mapM textOf?
  | _ => none

/-- The value of a key that may be missing; none where the value is not of the wanted kind. -/
def field? {α : Type} (read : Toml → Option α) (es : Toml.Entries) (key : String) :
    Option (Option α) :=
  match es.get? key with
  | none => some none
  | some value => (read value).map some

def ofEntries? (es : Toml.Entries) : Option Settings := do
  return {
    methodPattern := ← field? textOf? es "method_pattern"
    exceptionType := ← field? textOf? es "exception_type"
    matchOverrides := ← field? booleanOf? es "match_overrides"
    excludeFolders := ← field? textsOf? es "exclude_folders"
    includeFolders := ← field? textsOf? es "include_folders" }

/-- The settings as an array of all values in order. -/
def ofItems? : List Toml → Option Settings
  | pattern :: exception :: overrides :: excluded :: included :: _ => do
    return {
      methodPattern := some (← textOf? pattern)
      exceptionType := some (← textOf? exception)
      matchOverrides := some (← booleanOf? overrides)
      excludeFolders := some (← textsOf? excluded)
      includeFolders := some (← textsOf? included) }
  | _ => none

/-- The settings in a configuration file; other tables and keys do not matter. -/
def ofDocument? (es : Toml.Entries) : Option Settings :=
  match es.get? "throwstrip" with
  | none => some unset
  | some (.table _ sub) => ofEntries? sub
  | some (.array items) => ofItems? items
  | some _ => none

def ofText? (text : String) : Option Settings :=
  (Toml.ofText? text).bind ofDocument?

/-- The name of configuration files. -/
def fileName : String := ".throwstrip.toml"

end Settings

/-! ## Finding the file -/

/-- Settings, and the file that they come from. -/
structure Config where
  settings : Settings
  file : Option String
deriving DecidableEq, Repr, Inhabited

namespace Config

def unset : Config := ⟨.unset, none⟩

/-- A path and the parents that its text shows, one after the other. -/
def withParents (path : String) : List String :=
  match _h : Path.parent? path with
  | some parent => path :: withParents parent
  | none => [path]
termination_by path.length
decreasing_by exact Path.length_of_parent?_eq_some _h

/-- The directories that are searched for a path. -/
def searchPath (t : FileTree) (path : String) : List String :=
  withParents (if t.isFile path then (Path.parent? path).getD path else path)

/-- The configuration in the file of a directory. -/
def inDirectory? (t : FileTree) (dir : String) : Option Config :=
  let file := Path.join dir Settings.fileName
  match t.readText file with
  | .ok text => (Settings.ofText? text).map fun settings => ⟨settings, some file⟩
  | .error _ => none

/-- The configuration for a path: that of the first directory which has one. -/
def load (t : FileTree) (path : String) : Config :=
  ((searchPath t path).findSome? (inDirectory? t)).getD unset

end Config
end JavaThrows
