import JavaThrows.Files.Ignore

set_option autoImplicit false

/-!
# Finding the Java files

A directory is walked in rising order of names, files and directories mixed. Directories are passed
over by name, by the defaults and what the user asks for, and anything can be passed over by an
ignore file; the directory that the walk starts in is not asked. Links are files here, whatever they
lead to.
-/

namespace JavaThrows

/-- The directories that are passed over if nobody says otherwise, by rising names. -/
def defaultExcludes : List String :=
  [".git", ".gradle", ".idea", ".mvn", "bin", "build", "node_modules", "out", "target"]

/-- Whether one of the patterns is the name, or is a star before an ending of the name that starts
    with a point. -/
def isExcluded (name : String) (patterns : List String) : Bool :=
  patterns.any fun pattern =>
    match pattern.toList with
    | '*' :: '.' :: ending => (Text.beforeEnd? ('.' :: ending) name.toList).isSome
    | _ => name == pattern

/-- Which directories a walk passes over. -/
structure DirFilter where
  excluded : List String
  /-- Patterns that do not count, whether by default or asked for. -/
  included : List String
deriving Repr, Inhabited

namespace DirFilter

/-- The patterns that count. -/
def patterns (f : DirFilter) : List String :=
  (f.excluded ++ defaultExcludes).filter fun pattern => !f.included.contains pattern

/-- Whether a directory with this name is walked. -/
def enters (f : DirFilter) (name : String) : Bool :=
  !isExcluded name f.patterns

end DirFilter

/-- What a walk finds: the paths of Java files, and how many directories it enters below the one
    that it starts in. -/
structure Found where
  files : List String
  dirs : Nat
deriving Repr, Inhabited

def Found.append (a b : Found) : Found :=
  ⟨a.files ++ b.files, a.dirs + b.dirs⟩

instance : Append Found := ⟨Found.append⟩

def isJavaPath (path : String) : Bool :=
  Path.fileExtension? path == some "java"

/-- Walk the entries of the directory at a location, whose path is given. -/
def walkEntries (t : FileTree) (filter : DirFilter) (levels : List IgnoreLevel)
    (location : Location) (path : String) : List (String × Entry) → Found
  | [] => ⟨[], 0⟩
  | (name, .dir entries) :: rest =>
    let location' := location ++ [name]
    let inside : Found :=
      if IgnoreLevel.isIgnored levels location' true || !filter.enters name then ⟨[], 0⟩
      else
        ⟨[], 1⟩ ++ walkEntries t filter (.ofLocation t location' :: levels) location'
          (Path.join path name) entries
    inside ++ walkEntries t filter levels location path rest
  | (name, _) :: rest =>
    let file := Path.join path name
    let here : List String :=
      if isJavaPath file && !IgnoreLevel.isIgnored levels (location ++ [name]) false then [file]
      else []
    ⟨here, 0⟩ ++ walkEntries t filter levels location path rest

namespace FileTree

/-- Walk what a path denotes. A link that the walk starts at counts as a file besides. -/
def walk (t : FileTree) (filter : DirFilter) (path : String) : Found :=
  let itself : Found := ⟨if t.isLink path && isJavaPath path then [path] else [], 0⟩
  match t.locate path with
  | .error _ => ⟨[], 0⟩
  | .ok location =>
    match t.root.at? location with
    | some (.dir entries) =>
      let levels := IgnoreLevel.ofLocation t location :: IgnoreLevel.around t location
      itself ++ walkEntries t filter levels location path entries
    | _ => ⟨[], 0⟩

/-- The files that the paths stand for: what is found in the directories among them, and all other
    paths as they are. -/
def collect (t : FileTree) (filter : DirFilter) (paths : List String) : List String :=
  paths.flatMap fun path => if t.isDir path then (t.walk filter path).files else [path]

end FileTree
end JavaThrows
