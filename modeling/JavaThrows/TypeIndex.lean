import JavaThrows.Decl.Basic
import JavaThrows.Decl.JavaLang

set_option autoImplicit false

/-!
# The index of declared types

What a set of files declares, by full name. The index completes what a file alone cannot tell: a
simple name may denote a type of the file's own package or of a package that is imported on demand.
For each type it keeps its supertypes and the signatures of its methods, all resolved against the
names of all files.
-/

namespace JavaThrows

/-- A parameter of an indexed method. -/
inductive ParamType where
  /-- The erasure. -/
  | exact (erasure : String)
  /-- A type variable, for which any reference type can stand. -/
  | typeVar
deriving DecidableEq, Repr, Inhabited

structure MethodSignature where
  name : String
  params : List ParamType
deriving DecidableEq, Repr, Inhabited

/-- A supertype: its full name as far as it is known, and whether the index has that type. -/
structure SuperRef where
  name : String
  resolved : Bool
deriving DecidableEq, Repr, Inhabited

/-- What the index knows of a type. -/
structure TypeSummary where
  fqn : String
  kind : TypeKind
  supertypes : List SuperRef
  methods : List MethodSignature
deriving DecidableEq, Repr, Inhabited

/-- Whether an erased type can be passed for a parameter. -/
def ParamType.accepts : ParamType → String → Bool
  | .exact erasure, actual => erasure == actual
  | .typeVar, actual => !JavaLang.primitives.contains actual

/-- Whether a method has this name and takes these erased parameters. -/
def MethodSignature.accepts (m : MethodSignature) (name : String) (params : List String) : Bool :=
  m.name == name && m.params.length == params.length &&
    (m.params.zip params).all fun p => p.1.accepts p.2

/-- Whether the type itself declares a method with this name that takes these erased parameters. -/
def TypeSummary.declares (s : TypeSummary) (name : String) (params : List String) : Bool :=
  s.methods.any fun m => m.accepts name params

/-- At most one summary for each full name. -/
structure TypeIndex where
  summaries : List TypeSummary
deriving Repr, Inhabited

namespace TypeIndex

def get? (index : TypeIndex) (fqn : String) : Option TypeSummary :=
  index.summaries.find? fun s => s.fqn == fqn

def contains (index : TypeIndex) (fqn : String) : Bool :=
  index.summaries.any fun s => s.fqn == fqn

def size (index : TypeIndex) : Nat :=
  index.summaries.length

def isEmpty (index : TypeIndex) : Bool :=
  index.summaries.isEmpty

/-- Add a summary; it takes the place of one with the same full name. -/
def insert (index : TypeIndex) (s : TypeSummary) : TypeIndex :=
  if index.contains s.fqn then
    ⟨index.summaries.map fun t => if t.fqn == s.fqn then s else t⟩
  else ⟨index.summaries ++ [s]⟩

/-! ## Resolving types -/

/-- The full name that a type has as seen from a file. What the file says counts most; then a
    simple name may be a type of the file's package, then of a package imported on demand; the
    guess of the file comes last. -/
def resolve (index : TypeIndex) (unit : CompilationUnit) (type : TypeRef) : Option String :=
  if type.certain || !type.isSimple then type.fqn
  else
    let (base, dims) := Text.cutDimensions type.erased
    let candidates :=
      (unit.packagePrefix :: unit.onDemandImports.map (· ++ ".")).map (· ++ base)
    match candidates.find? index.contains with
    | some fqn => some (fqn ++ dims)
    | none => type.fqn

/-- The erasure of a type as seen from a file; its erased text where nothing better is known. -/
def erasure (index : TypeIndex) (unit : CompilationUnit) (type : TypeRef) : String :=
  (index.resolve unit type).getD type.erased

/-- A supertype as seen from a file. -/
def superRef (index : TypeIndex) (unit : CompilationUnit) (type : TypeRef) : SuperRef :=
  match index.resolve unit type with
  | some fqn => ⟨fqn, index.contains fqn⟩
  | none => ⟨type.erased, false⟩

/-! ## Building -/

def signature (index : TypeIndex) (unit : CompilationUnit) (m : Method) : MethodSignature :=
  { name := m.name
    params := m.params.map fun p =>
      if p.type.typeVar then .typeVar else .exact (index.erasure unit p.type) }

/-- What is known of a type, given the names of all types. -/
def summarize (index : TypeIndex) (unit : CompilationUnit) (d : TypeDecl) : TypeSummary :=
  { fqn := d.fqn
    kind := d.head.kind
    supertypes := d.head.supertypes.map (index.superRef unit)
    methods := d.methods.map (index.signature unit) }

def insertAll (index : TypeIndex) (summaries : List TypeSummary) : TypeIndex :=
  summaries.foldl insert index

/-- The names of all types that the files declare, with nothing known about them yet. -/
def names (units : List CompilationUnit) : TypeIndex :=
  insertAll ⟨[]⟩
    (units.flatMap fun u => u.allTypes.map fun d => ⟨d.fqn, d.head.kind, [], []⟩)

/-- The index of all types that the files declare; of two with the same full name, the later one
    counts. -/
def build (units : List CompilationUnit) : TypeIndex :=
  let named := names units
  insertAll named (units.flatMap fun u => u.allTypes.map (named.summarize u))

/-! ## Laws -/

theorem of_get?_eq_some {index : TypeIndex} {fqn : String} {s : TypeSummary}
    (h : index.get? fqn = some s) : s ∈ index.summaries ∧ s.fqn = fqn := by
  rw [get?, List.find?_eq_some_iff_append] at h
  obtain ⟨hfqn, front, rest, hs, _⟩ := h
  exact ⟨by simp [hs], by simpa using hfqn⟩

end TypeIndex
end JavaThrows
