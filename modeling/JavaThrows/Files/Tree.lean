import JavaThrows.Files.Path

set_option autoImplicit false

/-!
# File trees

A file tree holds what a program can see of the files around it: directories, files and symbolic
links, and the directory that relative paths start from. A location is a place in the tree given by
the names from the root down, with no link on the way; following a path through the tree leads to a
location or to the reason why there is none.
-/

namespace JavaThrows

inductive Entry where
  | file (content : ByteArray)
  | link (target : String)
  /-- The entries by rising names. -/
  | dir (entries : List (String × Entry))

instance : Inhabited Entry := ⟨.dir []⟩

/-- A place in the tree: the names from the root down. -/
abbrev Location := List String

/-- Why a file cannot be used. -/
inductive FileFault where
  | notFound
  | notDirectory
  | isDirectory
  | tooManyLinks
  /-- The content is no text. -/
  | notText
  /-- The system does not allow it. -/
  | notPermitted
deriving DecidableEq, Repr

def FileFault.message : FileFault → String
  | .notFound => "No such file or directory (os error 2)"
  | .notDirectory => "Not a directory (os error 20)"
  | .isDirectory => "Is a directory (os error 21)"
  | .tooManyLinks => "Too many levels of symbolic links (os error 40)"
  | .notText => "stream did not contain valid UTF-8"
  | .notPermitted => "Permission denied (os error 13)"

namespace Location

/-- The path that denotes the location from anywhere. -/
def path (l : Location) : String :=
  "/" ++ String.intercalate "/" l

/-- Whether the location lies in the directory at the other one, or is that directory. -/
def isWithin (l root : Location) : Bool :=
  root.isPrefixOf l

/-- The location and all locations around it, from the inside out. -/
def ancestors : Location → List Location
  | [] => [[]]
  | name :: names => (ancestors names).map (name :: ·) ++ [[]]

/-- The deepest of the locations at and around a root that the directory lies in. -/
def widenTo (root dir : Location) : Location :=
  (root.ancestors.find? dir.isWithin).getD []

end Location

namespace Entry

def child? : Entry → String → Option Entry
  | .dir entries, name => (entries.find? fun e => e.1 == name).map Prod.snd
  | _, _ => none

/-- The entry at a location below this one. -/
def at? (e : Entry) : Location → Option Entry
  | [] => some e
  | name :: names => (e.child? name).bind fun c => c.at? names

def isDir : Entry → Bool
  | .dir _ => true
  | _ => false

def isLink : Entry → Bool
  | .link _ => true
  | _ => false

/-- Put an entry among the entries of a directory, in the place of one with the same name. -/
def insert (name : String) (e : Entry) : List (String × Entry) → List (String × Entry)
  | [] => [(name, e)]
  | (other, f) :: rest =>
    if name < other then (name, e) :: (other, f) :: rest
    else if name = other then (name, e) :: rest
    else (other, f) :: insert name e rest

/-- Put an entry at a location below this one, making the directories on the way. -/
def put (e : Entry) : Location → Entry → Entry
  | [], new => new
  | name :: names, new =>
    let entries := match e with
      | .dir entries => entries
      | _ => []
    .dir (insert name (((e.child? name).getD (.dir [])).put names new) entries)

end Entry

structure FileTree where
  root : Entry
  workingDir : Location

namespace FileTree

/-! ## Following paths -/

/-- The steps that a path asks for. A slash at the end asks for a directory, as a point does. -/
def steps (path : String) : List Path.Component :=
  let pieces := Text.splitOn '/' path.toList
  let start := if Path.isAbsolute path then [Path.Component.root] else []
  let inside := pieces.filterMap fun piece =>
    if piece = ['.'] then some .here else Path.componentOf piece
  let finish := if !path.isEmpty && pieces.getLast? == some [] then [Path.Component.here] else []
  start ++ inside ++ finish

/-- Follow steps from a location through at most the given number of links. The last name may be
    one that its directory does not have yet, if that is allowed. -/
def follow (root : Entry) (mayBeNew : Bool) (links : Nat) (here : Location) :
    List Path.Component → Except FileFault Location
  | [] => .ok here
  | .root :: rest => follow root mayBeNew links [] rest
  | .here :: rest =>
    match root.at? here with
    | some (.dir _) => follow root mayBeNew links here rest
    | _ => .error .notDirectory
  | .up :: rest =>
    match root.at? here with
    | some (.dir _) => follow root mayBeNew links here.dropLast rest
    | _ => .error .notDirectory
  | .name name :: rest =>
    match root.at? here with
    | some (.dir entries) =>
      match (Entry.dir entries).child? name with
      | none => if mayBeNew && rest.isEmpty then .ok (here ++ [name]) else .error .notFound
      | some (.link target) =>
        match links with
        | 0 => .error .tooManyLinks
        | links + 1 => follow root mayBeNew links here (steps target ++ rest)
      | some _ => follow root mayBeNew links (here ++ [name]) rest
    | _ => .error .notDirectory
termination_by rest => (links, rest.length)

/-- How many links a path may lead through. -/
def linkLimit : Nat := 40

def locateWith (t : FileTree) (mayBeNew : Bool) (path : String) : Except FileFault Location :=
  if path.isEmpty then .error .notFound
  else follow t.root mayBeNew linkLimit t.workingDir (steps path)

/-- The location that a path denotes. -/
def locate (t : FileTree) (path : String) : Except FileFault Location :=
  t.locateWith false path

/-- What a path denotes, through all links. -/
def entry? (t : FileTree) (path : String) : Option Entry :=
  match t.locate path with
  | .ok l => t.root.at? l
  | .error _ => none

def pathExists (t : FileTree) (path : String) : Bool :=
  (t.entry? path).isSome

def isDir (t : FileTree) (path : String) : Bool :=
  match t.entry? path with
  | some e => e.isDir
  | none => false

def isFile (t : FileTree) (path : String) : Bool :=
  match t.entry? path with
  | some (.file _) => true
  | _ => false

/-- Whether the path itself is a link, whatever it leads to. -/
def isLink (t : FileTree) (path : String) : Bool :=
  match (steps path).getLast? with
  | some (.name name) =>
    match follow t.root false linkLimit t.workingDir (steps path).dropLast with
    | .ok dir =>
      match t.root.at? (dir ++ [name]) with
      | some e => e.isLink
      | none => false
    | .error _ => false
  | _ => false

/-! ## Reading and writing -/

/-- The text of the file that a path denotes. -/
def readText (t : FileTree) (path : String) : Except FileFault String :=
  match t.locate path with
  | .error fault => .error fault
  | .ok l =>
    match t.root.at? l with
    | some (.file content) =>
      match String.fromUTF8? content with
      | some text => .ok text
      | none => .error .notText
    | some _ => .error .isDirectory
    | none => .error .notFound

/-- Where the file is to be written that a path denotes; it need not be there yet. -/
def locateNew (t : FileTree) (path : String) : Except FileFault Location :=
  t.locateWith true path

def write (t : FileTree) (l : Location) (text : String) : FileTree :=
  { t with root := t.root.put l (.file text.toUTF8) }

end FileTree
end JavaThrows
