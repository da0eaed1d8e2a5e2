import JavaThrows.Files.Containment
import JavaThrows.Report.Summary

set_option autoImplicit false

/-!
# Running a recipe over files

All files are read first, because what one file declares can decide on another. Then each is
rewritten by itself, and a file that has changed is written if it lies in the root directory. What
the run tells while it goes on is a list of notes, each one told where it comes up if the options
ask for it; the report comes last. The run reads a file tree and returns what is to be written, so a
dry run is a run that returns nothing to write. Which locations the system refuses to write at, and
why, is given from outside.
-/

namespace JavaThrows

structure BatchOptions where
  dryRun : Bool
  verbose : Bool
  quiet : Bool
  json : Bool
  styled : Bool
  /-- The directory that all written files lie in. -/
  root : String
  filter : DirFilter
deriving Repr, Inhabited

/-- What a run tells while it goes on. -/
inductive Note where
  | pattern (text : String)
  | exception (fqn : String)
  | filesToScan (count : Nat)
  | skipped (file error : String)
  | parseError (file error : String)
  | indexedTypes (count : Nat)
  | dryRunStarts
  | wouldRemove (fqn : String) (change : MethodChange) (file : String)
  | fixed (file : String) (methods : Nat)
  | methodChanged (change : MethodChange)
  | importRemoved (fqn : String)
deriving DecidableEq, Repr

namespace Note

def line (isStyled : Bool) : Note → String
  | .pattern text => "[VERBOSE] Pattern: " ++ text
  | .exception fqn => "[VERBOSE] Exception: " ++ fqn
  | .filesToScan count => "[VERBOSE] Files to scan: " ++ toString count
  | .skipped file error =>
    "  " ++ (Style.colored .yellow).paint isStyled "Skip:" ++ " " ++ file ++ ": " ++ error
  | .parseError file error =>
    "  " ++ (Style.colored .red).paint isStyled "Parse error:" ++ " " ++ file ++ ": " ++ error
  | .indexedTypes count => "[VERBOSE] Indexed types: " ++ toString count
  | .dryRunStarts =>
    "\n" ++ (Style.colored .yellow).paint isStyled "[DRY-RUN] Methods that would change:"
  | .wouldRemove fqn change file =>
    "  Would remove " ++ fqn ++ " from " ++ change.name ++ " at " ++ file ++ ":" ++
      toString change.line
  | .fixed file methods =>
    "  " ++ (Style.colored .green).paint isStyled "Fixed:" ++ " " ++ file ++ " (" ++
      toString methods ++ " methods)"
  | .methodChanged change =>
    "[VERBOSE]   " ++ change.name ++ " (line " ++ toString change.line ++ ")"
  | .importRemoved fqn => "[VERBOSE]   import " ++ fqn ++ " removed"

end Note

/-- A text to be written to a location. -/
structure FileWrite where
  location : Location
  text : String
deriving DecidableEq, Repr

def FileTree.writeAll (t : FileTree) (writes : List FileWrite) : FileTree :=
  writes.foldl (fun t w => t.write w.location w.text) t

/-! ## Reading files -/

structure LoadedFile where
  path : String
  source : List Char
  unit : CompilationUnit

/-- Why a file takes no part in a run. -/
inductive LoadError where
  | unreadable (cause : FileFault)
  | unparsable (cause : ParseError)
deriving DecidableEq, Repr

def LoadError.message : LoadError → String
  | .unreadable cause => cause.message
  | .unparsable cause => cause.message

/-- The notes on a file with the given displayed path that takes no part. -/
def LoadError.notes (o : BatchOptions) (file : String) : LoadError → List Note
  | .unreadable cause => if o.json then [] else [.skipped file cause.message]
  | .unparsable cause => if o.json then [] else [.parseError file cause.message]

def loadFile (t : FileTree) (path : String) : Except LoadError LoadedFile :=
  match t.readText path with
  | .error cause => .error (.unreadable cause)
  | .ok text =>
    match CompilationUnit.parse text.toList with
    | .error cause => .error (.unparsable cause)
    | .ok unit => .ok ⟨path, text.toList, unit⟩

/-- The files among what was read. -/
def loadedFiles (loads : List (String × Except LoadError LoadedFile)) : List LoadedFile :=
  loads.filterMap fun load => load.2.toOption

/-- The paths among what was to be read that gave no file. -/
def loadErrors (loads : List (String × Except LoadError LoadedFile)) :
    List (String × LoadError) :=
  loads.filterMap fun (path, result) =>
    match result with
    | .error e => some (path, e)
    | .ok _ => none

/-! ## One file -/

/-- What becomes of a file that has been read. -/
inductive FileResult where
  | unchanged
  | failed (error : String)
  /-- The file changes; a dry run writes nothing. -/
  | changed (entry : FixedFile) (write : Option FileWrite)

namespace FileResult

def fixedFile? : FileResult → Option FixedFile
  | .changed entry _ => some entry
  | _ => none

def error? : FileResult → Option String
  | .failed error => some error
  | _ => none

def write? : FileResult → Option FileWrite
  | .changed _ write => write
  | _ => none

end FileResult

/-- The changed methods of a file with their lines. -/
def methodChanges (source : List Char) (log : VisitLog) : List MethodChange :=
  let lines := Text.LineIndex.ofText source
  log.removals.map fun r => ⟨r.typeFqn, r.method, lines.line r.span.start⟩

/-- What is told of a file that changes. -/
def LoadedFile.fixedFile (file : LoadedFile) (out : Rewritten) : FixedFile :=
  ⟨Path.display file.path, methodChanges file.source out.log, out.log.importRemoved⟩

/-- The location that a file is to be written at: it has to lie in the root directory, and the system
    must not refuse. -/
def FileTree.writeTarget (t : FileTree) (root : String) (refusal : Location → Option FileFault)
    (path : String) : Except String Location :=
  match t.locateWithin path root with
  | .error cause => .error cause.message
  | .ok location =>
    match refusal location with
    | some fault => .error fault.message
    | none => .ok location

/-- Rewrite a file and write it into the tree. -/
def processFile (removal : Removal) (index : TypeIndex) (o : BatchOptions)
    (refusal : Location → Option FileFault) (t : FileTree) (file : LoadedFile) : FileResult :=
  match removal.rewrite index file.source file.unit with
  | .error cause => .failed cause.message
  | .ok out =>
    if out.isChanged then
      if o.dryRun then .changed (file.fixedFile out) none
      else
        match t.writeTarget o.root refusal file.path with
        | .error message => .failed message
        | .ok location => .changed (file.fixedFile out) (some ⟨location, String.ofList out.text⟩)
    else .unchanged

/-- Handle files one after another, each in the tree that the ones before it have left. -/
def processAll (removal : Removal) (index : TypeIndex) (o : BatchOptions)
    (refusal : Location → Option FileFault) :
    FileTree → List LoadedFile → List (String × FileResult)
  | _, [] => []
  | t, file :: files =>
    let result := processFile removal index o refusal t file
    (file.path, result) ::
      processAll removal index o refusal (t.writeAll result.write?.toList) files

/-- The notes on a file that changes. -/
def FixedFile.notes (exception : String) (o : BatchOptions) (f : FixedFile) : List Note :=
  let changes : List Note :=
    if o.dryRun then
      if o.json then [] else f.methods.map fun c => .wouldRemove exception c f.file
    else if o.json || o.quiet then [] else [.fixed f.file f.methods.length]
  let details : List Note :=
    if o.verbose && !o.json then
      f.methods.map .methodChanged ++ (if f.importRemoved then [.importRemoved exception] else [])
    else []
  changes ++ details

/-- The notes on a file with the given displayed path. -/
def FileResult.notes (exception : String) (o : BatchOptions) (file : String) :
    FileResult → List Note
  | .unchanged => []
  | .failed error => if o.json then [] else [.skipped file error]
  | .changed entry _ => entry.notes exception o

/-! ## The run -/

/-- A run: what it has told, what it comes to and what is to be written. -/
structure BatchRun where
  notes : List Note
  report : Report
  writes : List FileWrite

namespace BatchRun

/-- What a run writes to its output: its notes and then the report. -/
def output (run : BatchRun) (o : BatchOptions) : String :=
  linesOf (run.notes.map (Note.line o.styled)) ++
    if o.json then run.report.toJson.pretty ++ "\n" else run.report.summary o.quiet o.styled

end BatchRun

/-- Run a recipe, given in its text form and compiled, over what the paths stand for. If nothing is
    said the system lets all files be written. -/
def runRemoval (recipe : Recipe) (removal : Removal) (o : BatchOptions) (t : FileTree)
    (paths : List String) (refusal : Location → Option FileFault := fun _ => none) : BatchRun :=
  let files := t.collect o.filter paths
  let loads := files.map fun path => (path, loadFile t path)
  let read := loadedFiles loads
  let unread := (loadErrors loads).map fun f => (Path.display f.1, f.2)
  let index := TypeIndex.build (read.map LoadedFile.unit)
  let results := (processAll removal index o refusal t read).map fun r => (Path.display r.1, r.2)
  { notes :=
      (if o.verbose && !o.json then
        [.pattern removal.pattern.render, .exception removal.exception, .filesToScan files.length]
      else []) ++
        unread.flatMap (fun f => f.2.notes o f.1) ++
        (if o.verbose && !o.json then [.indexedTypes index.size] else []) ++
        (if o.dryRun && !o.json then [.dryRunStarts] else []) ++
        results.flatMap fun r => r.2.notes removal.exception o r.1
    report :=
      { recipe, dryRun := o.dryRun, filesScanned := files.length
        fixed := results.filterMap fun r => r.2.fixedFile?
        failures := (unread.map fun f => FailedFile.mk f.1 f.2.message) ++
          results.filterMap fun r => r.2.error?.map (FailedFile.mk r.1) }
    writes := results.filterMap fun r => r.2.write? }

/-- Run a recipe over what the paths stand for, if the recipe is a good one. -/
def runRecipe (recipe : Recipe) (o : BatchOptions) (t : FileTree) (paths : List String)
    (refusal : Location → Option FileFault := fun _ => none) : Except ValidationError BatchRun :=
  recipe.compile.map fun removal => runRemoval recipe removal o t paths refusal

/-- The file tree that a run leaves. -/
def FileTree.after (t : FileTree) : Except ValidationError BatchRun → FileTree
  | .ok run => t.writeAll run.writes
  | .error _ => t

end JavaThrows
