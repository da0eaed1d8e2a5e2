import JavaThrows.Files.Tree

set_option autoImplicit false

/-!
# Staying inside a directory

A file is written only if the location that its path denotes lies in the directory that the program
has been pointed at. Where it has been pointed at several paths, that is the deepest directory that
holds them all.
-/

namespace JavaThrows

/-- Why a path is not known to lie in a directory. -/
inductive ContainmentError where
  | unresolvedPath (path : String) (cause : FileFault)
  | unresolvedRoot (root : String) (cause : FileFault)
  | outside (path root : String)
deriving DecidableEq, Repr

def ContainmentError.message : ContainmentError → String
  | .unresolvedPath path cause => "Failed to resolve path " ++ path ++ ": " ++ cause.message
  | .unresolvedRoot root cause => "Failed to resolve root " ++ root ++ ": " ++ cause.message
  | .outside path root => "Path traversal detected: " ++ path ++ " is outside of " ++ root

namespace FileTree

/-- The location that a path denotes, if it lies in the directory that `root` denotes. -/
def locateWithin (t : FileTree) (path root : String) : Except ContainmentError Location :=
  match t.locate path with
  | .error cause => .error (.unresolvedPath path cause)
  | .ok location =>
    match t.locate root with
    | .error cause => .error (.unresolvedRoot root cause)
    | .ok rootLocation =>
      if location.isWithin rootLocation then .ok location else .error (.outside path root)

/-- The directory that a path denotes, or that the file lies in which it denotes. -/
def directoryOf? (t : FileTree) (path : String) : Option Location :=
  match t.locate path with
  | .ok location => some (if t.isDir path then location else location.dropLast)
  | .error _ => none

/-- The deepest directory that holds all of the paths; none if there are no paths, or one of them
    denotes nothing. -/
def commonRoot? (t : FileTree) (paths : List String) : Option Location :=
  match paths.mapM t.directoryOf? with
  | some (dir :: dirs) => some (dirs.foldl Location.widenTo dir)
  | _ => none

end FileTree
end JavaThrows
