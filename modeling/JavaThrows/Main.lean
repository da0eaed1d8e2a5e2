import JavaThrows.Cli.Run

set_option autoImplicit false

/-!
# The program

Reads the files that a command line is about into a file tree, and does what running the command
line on that tree comes to. Everything that the program decides is decided by `runCommandLine`.
-/

namespace JavaThrows.Program

/-! ## Reading files into a tree -/

/-- Directories are read down to this depth; no path that the system takes leads deeper. -/
def depthLimit : Nat := 4096

/-- The names of files that say something about the directory they are in. -/
def directoryFiles : List String := [".git", ".gitignore", ".ignore", Settings.fileName]

/-- Whether a file below a directory is looked into. -/
def isLookedInto (name : String) : Bool :=
  isJavaPath name || directoryFiles.contains name || name == "exclude"

/-- The path without links on the way, of what is there. -/
def resolve? (path : String) : IO (Option String) := do
  try return some (← IO.FS.realPath (if path.isEmpty then "." else path)).toString
  catch _ => return none

/-- The location that a path without links on the way denotes. -/
def locationOf (path : String) : Location :=
  (Path.components path).filterMap fun
    | .name name => some name
    | _ => none

/-- The target of a link to nothing: no file has this name. -/
def nowhere : String := "/\x00"

/-- The content of a file; nothing for one that is not looked into. -/
def readFile (path : String) (wanted : Bool) : IO Entry := do
  if !wanted then return .file .empty
  try return .file (← IO.FS.readBinFile path)
  catch _ => return .file .empty

/-- What is at a path without links on the way. -/
def readEntry : Nat → String → Bool → IO Entry
  | 0, _, _ => return .dir []
  | depth + 1, path, wanted => do
    let here ← IO.FS.realPath path
    if !(← here.isDir) then readFile path wanted
    else
      let children ← try here.readDir catch _ => pure #[]
      let entries ← children.toList.mapM fun child => do
        let name := child.fileName
        let inside := Path.join path name
        match ← resolve? inside with
        | none => return (name, .link nowhere)
        | some target =>
          if target == inside then return (name, ← readEntry depth inside (isLookedInto name))
          else return (name, .link target)
      return .dir (entries.foldl (fun es e => Entry.insert e.1 e.2 es) [])

/-- Put what a directory says about itself into a tree. -/
def readOwnFiles (root : Entry) (dir : Location) : IO Entry :=
  directoryFiles.foldlM (fun root name => do
    match ← resolve? (Path.join (Location.path dir) name) with
    | none => return root
    | some target => return root.put (dir ++ [name]) (← readEntry depthLimit target true))
    (root.put dir ((root.at? dir).getD (.dir [])))

/-- Put what a directory and those around it say about themselves into a tree. -/
def readAround (root : Entry) (dir : Location) : IO Entry :=
  ((List.range (dir.length + 1)).map dir.take).foldlM readOwnFiles root

/-- Put what is at a path without links on the way into a tree. -/
def readTarget (root : Entry) (target : String) : IO Entry := do
  let location := locationOf target
  return (← readAround root location.dropLast).put location (← readEntry depthLimit target true)

/-- Put the links that the text of a path leads through into a tree. -/
def readLinks (root : Entry) (path : String) : IO Entry :=
  (Config.withParents path).foldlM (fun root path => do
    match Path.fileName? path, ← resolve? ((Path.parent? path).getD ""), ← resolve? path with
    | some name, some dir, some target =>
      if target == Path.join dir name then return root
      else return root.put (locationOf dir ++ [name]) (.link target)
    | _, _, _ => return root) root

/-- The paths that a command line is about. -/
def pathsOf (arguments : List String) : List String :=
  match Arguments.ofList arguments with
  | .ok a => a.root.toList ++ if a.paths.isEmpty then ["."] else a.paths
  | .error _ => []

/-- The files that a command line is about. A directory is read before what is in it, so that a file
    which is named itself is read whatever its name is. -/
def readTree (arguments : List String) : IO FileTree := do
  let workingDir := locationOf (← IO.FS.realPath ".").toString
  let paths := pathsOf arguments
  let targets := (← paths.filterMapM resolve?).mergeSort fun a b => a.length ≤ b.length
  let root ← targets.foldlM readTarget (← readAround (.dir []) workingDir)
  return ⟨← paths.foldlM readLinks root, workingDir⟩

/-! ## Doing what was decided -/

def perform (run : CliRun) : IO Unit := do
  for w in run.writes do
    IO.FS.writeBinFile w.location.path w.text.toUTF8
  IO.print run.output
  if let some message := run.error then IO.eprint message

end JavaThrows.Program

def main (arguments : List String) : IO UInt32 := do
  let run := JavaThrows.runCommandLine (← JavaThrows.Program.readTree arguments) arguments
  JavaThrows.Program.perform run
  return run.code.toUInt32
