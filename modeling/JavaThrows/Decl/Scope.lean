import JavaThrows.Cst.Node
import JavaThrows.Decl.Basic
import JavaThrows.Decl.Erasure
import JavaThrows.Decl.JavaLang
import JavaThrows.Text.Lines

set_option autoImplicit false

/-!
# Scopes, and what a type's name denotes in one

A name without a point is, in this order: a primitive type, a type variable, a type declared in the
file, a type with an import of its own, or one of `java.lang` by assumption. A name with points is
decided by its first segment in the same order, and stands for itself where that segment is
unknown. Member types are seen from inside the types that declare them only.
-/

namespace JavaThrows

/-- A type that a file declares: as a member of the type with the full name `owner`, or at the top
    level where the owner is empty. -/
structure Declared where
  owner : String
  name : String
  fqn : String
deriving DecidableEq, Repr

/-- The types that a file declares; of two with the same owner and name, the first counts. -/
abbrev DeclaredTypes := List Declared

namespace DeclaredTypes

def find? (ds : DeclaredTypes) (owner name : String) : Option String :=
  (List.find? (fun d => d.owner == owner && d.name == name) ds).map Declared.fqn

/-- Add a type, unless its owner has one of that name. -/
def declare (ds : DeclaredTypes) (owner name fqn : String) : DeclaredTypes :=
  match ds.find? owner name with
  | some _ => ds
  | none => ds ++ [⟨owner, name, fqn⟩]

end DeclaredTypes

/-- What a place in a file sees beside the declared types. -/
structure Scope where
  source : List Char
  packagePrefix : String
  /-- Simple and full names of the imported types, the last import first. -/
  imports : List (String × String)
  /-- The type variables, the innermost and last declared one first. -/
  typeVars : List TypeParam
  /-- The full names of the types around the place, the innermost one first. -/
  enclosing : List String

/-- What a name denotes. -/
structure Attribution where
  fqn : Option String
  certain : Bool
  typeVar : Bool
deriving DecidableEq, Repr

namespace Attribution

def unknown : Attribution := ⟨none, false, false⟩

def sure (fqn : String) : Attribution := ⟨some fqn, true, false⟩

def guess (fqn : String) : Attribution := ⟨some fqn, false, false⟩

def ofVariable (fqn : String) : Attribution := ⟨some fqn, true, true⟩

end Attribution

namespace Scope

def text (s : Scope) (n : Cst.Node) : String :=
  Text.slice s.source n.span

/-- The full name of a type that is declared in the type `parent`, or at the top level. -/
def qualify (s : Scope) (parent : Option String) (name : String) : String :=
  match parent with
  | some p => p ++ "." ++ name
  | none => s.packagePrefix ++ name

/-- The type declared in the file that a simple name denotes: the nearest enclosing type with such
    a member decides, and the top level comes last. -/
def declaredType (s : Scope) (ds : DeclaredTypes) (name : String) : Option String :=
  (s.enclosing ++ [""]).findSome? fun owner => ds.find? owner name

def importedType (s : Scope) (name : String) : Option String :=
  (s.imports.find? fun i => i.1 == name).map Prod.snd

/-- What the erasure of a type variable is: that of its bound, as far as it is known. -/
def boundErasure (p : TypeParam) : String :=
  match p.bound with
  | some bound => bound.fqn.getD bound.erased
  | none => JavaLang.object

/-- What an erased type denotes. -/
def attributionOf (s : Scope) (ds : DeclaredTypes) (erased : String) : Attribution :=
  let (base, dims) := Text.cutDimensions erased
  if JavaLang.primitives.contains base then .sure erased
  else
    match Text.cutFirst '.' base.toList with
    | none =>
      match s.typeVars.find? fun p => p.name == base with
      | some p => .ofVariable (boundErasure p ++ dims)
      | none =>
        match (s.declaredType ds base).or (s.importedType base) with
        | some fqn => .sure (fqn ++ dims)
        | none =>
          if JavaLang.types.contains base then .guess ("java.lang." ++ base ++ dims) else .unknown
    | some (first, others) =>
      let head := String.ofList first
      match (s.declaredType ds head).or (s.importedType head) with
      | some fqn => .sure (fqn ++ "." ++ String.ofList others ++ dims)
      | none =>
        if JavaLang.types.contains head then .guess ("java.lang." ++ erased) else .sure erased

/-- The type that a node spells. -/
def typeRef (s : Scope) (ds : DeclaredTypes) (n : Cst.Node) : TypeRef :=
  let text := s.text n
  let erased := Erasure.erase text
  let a := s.attributionOf ds erased
  { text, erased, span := n.span, fqn := a.fqn, certain := a.certain, typeVar := a.typeVar }

/-- A type with more dimensions than are written in its own place. -/
def withDimensions (type : TypeRef) (dims : Nat) : TypeRef :=
  let brackets := String.ofList (Text.brackets dims)
  { type with erased := type.erased ++ brackets, fqn := type.fqn.map (· ++ brackets) }

/-- The scope inside a declaration with type parameters. -/
def withTypeVars (s : Scope) (params : List TypeParam) : Scope :=
  { s with typeVars := params.reverse ++ s.typeVars }

/-- The scope inside a type. -/
def enter (s : Scope) (fqn : String) : Scope :=
  { s with enclosing := fqn :: s.enclosing }

end Scope
end JavaThrows
