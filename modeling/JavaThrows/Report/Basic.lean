import JavaThrows.Removal.RecipeJson

set_option autoImplicit false

/-!
# Reports

What a run over files comes to: the files that were changed, or would be, and those that could not
be handled.
-/

namespace JavaThrows

/-- A method that lost the exception. -/
structure MethodChange where
  typeFqn : String
  method : String
  /-- The line on which its throws clause starts. -/
  line : Nat
deriving DecidableEq, Repr, Inhabited

/-- The full name of the method. -/
def MethodChange.name (c : MethodChange) : String :=
  c.typeFqn ++ "." ++ c.method

structure FixedFile where
  file : String
  methods : List MethodChange
  importRemoved : Bool
deriving DecidableEq, Repr, Inhabited

structure FailedFile where
  file : String
  error : String
deriving DecidableEq, Repr, Inhabited

structure Report where
  recipe : Recipe
  dryRun : Bool
  filesScanned : Nat
  fixed : List FixedFile
  failures : List FailedFile
deriving DecidableEq, Repr, Inhabited

namespace Report

def methodsChanged (r : Report) : Nat :=
  r.fixed.foldr (fun f count => f.methods.length + count) 0

def importsRemoved (r : Report) : Nat :=
  (r.fixed.filter FixedFile.importRemoved).length

/-! ## JSON -/

def methodJson (c : MethodChange) : Json :=
  .object [("type_fqn", .text c.typeFqn), ("method", .text c.method), ("line", .natural c.line)]

def fixedJson (f : FixedFile) : Json :=
  .object [("file", .text f.file), ("methods", .array (f.methods.map methodJson)),
    ("import_removed", .boolean f.importRemoved)]

def failedJson (f : FailedFile) : Json :=
  .object [("file", .text f.file), ("error", .text f.error)]

def toJson (r : Report) : Json :=
  .object [("recipe", r.recipe.toJson), ("dry_run", .boolean r.dryRun),
    ("files_scanned", .natural r.filesScanned), ("fixed", .array (r.fixed.map fixedJson)),
    ("failures", .array (r.failures.map failedJson))]

end Report
end JavaThrows
