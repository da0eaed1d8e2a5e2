import JavaThrows.Pattern.Match
import JavaThrows.Removal.Imports

set_option autoImplicit false

/-!
# Removing an exception from throws clauses

Every method that a pattern matches loses the entries of its throws clause that name the exception,
and the whole clause if nothing is left of it. A part of the file in which nothing changes comes
back as untouched, which is told apart from a changed part that happens to be equal.
-/

namespace JavaThrows

/-- What is removed from where. -/
structure Removal where
  pattern : MethodPattern
  /-- The full name of the exception. -/
  exception : String
deriving DecidableEq, Repr, Inhabited

/-- A method that lost the exception. -/
structure RemovedThrow where
  typeFqn : String
  method : String
  /-- The throws clause as it was; the method where the place of its clause is unknown. -/
  span : Span
deriving DecidableEq, Repr, Inhabited

structure VisitLog where
  removals : List RemovedThrow
  importRemoved : Bool
deriving DecidableEq, Repr, Inhabited

/-- What a visit makes of a part of a file: a new part, or nothing where the part is left as it is;
    and the methods that changed in it. -/
structure Visited (α : Type) where
  changed : Option α
  removals : List RemovedThrow

namespace Visited

variable {α β γ : Type}

def untouched : Visited α := ⟨none, []⟩

/-- The part after the visit, given the part before it. -/
def valueOr (v : Visited α) (before : α) : α :=
  v.changed.getD before

/-- The visit of a whole, from the visits of its two parts. -/
def combine (make : α → β → γ) (a : α) (b : β) (va : Visited α) (vb : Visited β) : Visited γ where
  changed :=
    if va.changed.isNone && vb.changed.isNone then none
    else some (make (va.valueOr a) (vb.valueOr b))
  removals := va.removals ++ vb.removals

end Visited

namespace Removal

/-- Whether an entry of a throws clause names the exception. A type variable never does. A simple
    name that nothing attributes does where the exception's package is imported on demand. -/
def isTarget (r : Removal) (index : TypeIndex) (unit : CompilationUnit) (entry : TypeRef) : Bool :=
  if entry.typeVar then false
  else
    match index.resolve unit entry with
    | some fqn => fqn == r.exception
    | none =>
      match Text.cutLast '.' r.exception.toList with
      | none => false
      | some (package, simple) =>
        entry.isSimple && entry.erased == String.ofList simple &&
          unit.onDemandImports.contains (String.ofList package)

/-- A method without the entries that name the exception, if it has any. -/
def strip? (r : Removal) (index : TypeIndex) (unit : CompilationUnit) (m : Method) :
    Option Method :=
  let kept := m.throwsEntries.filter fun e => !r.isTarget index unit e
  if kept.length = m.throwsEntries.length then none
  else some { m with throws := if kept.isEmpty then none else some kept }

/-- A method by itself: it changes if the pattern matches it and its clause names the exception. -/
def visitMethod (r : Removal) (index : TypeIndex) (unit : CompilationUnit) (enclosing : TypeHead)
    (m : Method) : Visited Method :=
  if m.throwsEntries.isEmpty || !r.pattern.isMatch index unit enclosing m then .untouched
  else
    match r.strip? index unit m with
    | none => .untouched
    | some stripped =>
      ⟨some stripped, [⟨enclosing.fqn, m.name, m.throwsSpan.getD m.span⟩]⟩

mutual
def visitType (r : Removal) (index : TypeIndex) (unit : CompilationUnit) :
    TypeDecl → Visited TypeDecl
  | .mk head members =>
    let v := visitMembers r index unit head members
    ⟨v.changed.map (.mk head), v.removals⟩

/-- The members of a type; the types in the body of a method come before the method. -/
def visitMembers (r : Removal) (index : TypeIndex) (unit : CompilationUnit) (enclosing : TypeHead) :
    List Member → Visited (List Member)
  | [] => .untouched
  | .method m locals :: ms =>
    let member := Visited.combine (fun locals m => Member.method m locals) locals m
      (visitTypes r index unit locals) (r.visitMethod index unit enclosing m)
    Visited.combine List.cons (.method m locals) ms member
      (visitMembers r index unit enclosing ms)
  | .type d :: ms =>
    let v := visitType r index unit d
    Visited.combine List.cons (.type d) ms ⟨v.changed.map .type, v.removals⟩
      (visitMembers r index unit enclosing ms)

def visitTypes (r : Removal) (index : TypeIndex) (unit : CompilationUnit) :
    List TypeDecl → Visited (List TypeDecl)
  | [] => .untouched
  | d :: ds =>
    Visited.combine List.cons d ds (visitType r index unit d) (visitTypes r index unit ds)
end

/-- The visit of a file: nothing where the file is left as it is, and the log. -/
structure VisitedUnit where
  changed : Option CompilationUnit
  log : VisitLog

/-- Remove the exception from a file, and then its import if that has become unused. -/
def visitUnit (r : Removal) (index : TypeIndex) (unit : CompilationUnit) : VisitedUnit :=
  let v := visitTypes r index unit unit.types
  match v.changed with
  | none => ⟨none, ⟨v.removals, false⟩⟩
  | some types =>
    let rewritten := { unit with types }
    ⟨some (rewritten.dropUnusedImport r.exception),
      ⟨v.removals, rewritten.hasUnusedImport r.exception⟩⟩

/-! ## The gate -/

/-- Whether the text of a file already tells that no method matches: a method name that the pattern
    spells out does not occur in it. -/
def quickReject (p : MethodPattern) (source : List Char) : Bool :=
  match p.literalName? with
  | some name => !Text.contains name.toList source
  | none => false

/-- Whether some method of the file has a matching name. -/
def declaresMatch (p : MethodPattern) (unit : CompilationUnit) : Bool :=
  unit.allTypes.any fun d => d.methods.any p.nameMatches

/-- The visit of a file with its text: a file that cannot hold a matching method is left alone. -/
def visitSource (r : Removal) (index : TypeIndex) (source : List Char) (unit : CompilationUnit) :
    VisitedUnit :=
  if quickReject r.pattern source || !declaresMatch r.pattern unit then ⟨none, ⟨[], false⟩⟩
  else r.visitUnit index unit

end Removal
end JavaThrows
