import JavaThrows.Text.Span
import JavaThrows.Text.Split

set_option autoImplicit false

/-!
# Declarations of a Java file

What the program knows of a file: its package, its imports, and its types with their methods, each
with the spans that are needed to edit the file. A type's own facts and a method's own facts are
flat records, and the two inductive types carry nothing but the nesting: types hold methods and
types, and methods hold the types that are declared in their bodies.
-/

namespace JavaThrows

/-- A type as it is written at some place. -/
structure TypeRef where
  /-- The source text. -/
  text : String
  /-- The text without annotations, type arguments and blanks, with `[]` for a variable number of
      arguments. -/
  erased : String
  span : Span
  /-- The full name of the erased type, where the file alone tells it. -/
  fqn : Option String
  /-- The file says so itself, and it is not the guess that a well-known name is one of
      `java.lang`. -/
  certain : Bool
  /-- The type is a type variable in scope. -/
  typeVar : Bool
deriving DecidableEq, Repr, Inhabited

/-- A name that occurs in a declaration. -/
structure NameRef where
  name : String
  span : Span
deriving DecidableEq, Repr, Inhabited

structure Import where
  /-- The imported name without `.*`. -/
  path : String
  isStatic : Bool
  isWildcard : Bool
  span : Span
  /-- What goes when the import goes: its line, or the import and the blanks beside it. -/
  lineSpan : Span
deriving DecidableEq, Repr, Inhabited

inductive TypeKind where
  | classType
  | interface
  | enum
  | record
  | annotationType
  /-- The body of an anonymous class or of an enum constant. -/
  | anonymous
deriving DecidableEq, Repr, Inhabited

structure TypeParam where
  name : String
  /-- The first bound. -/
  bound : Option TypeRef
deriving DecidableEq, Repr, Inhabited

structure Param where
  /-- The declared type; dimensions after the name and a variable number count as its own. -/
  type : TypeRef
  name : String
deriving DecidableEq, Repr, Inhabited

/-- The facts about a type, its members apart. -/
structure TypeHead where
  kind : TypeKind
  /-- The simple name; a number for an anonymous class. -/
  name : String
  /-- The full name: points between the levels, and `$` before the number of an anonymous class. -/
  fqn : String
  span : Span
  typeParams : List TypeParam
  supertypes : List TypeRef
  /-- The names in the header, the fields and the initialisers. -/
  references : List NameRef
deriving DecidableEq, Repr, Inhabited

/-- The facts about a method or constructor, the types in its body apart. -/
structure Method where
  /-- The name; for a constructor that of its class. -/
  name : String
  isConstructor : Bool
  span : Span
  typeParams : List TypeParam
  params : List Param
  /-- The entries of the throws clause, if there is a clause. -/
  throws : Option (List TypeRef)
  throwsSpan : Option Span
  /-- Where the header ends before the throws clause. -/
  headerEnd : Nat
  /-- The simple names of the annotations. -/
  annotations : List String
  /-- The names in the signature and the body, without the throws clause and the types in the
      body. -/
  references : List NameRef
deriving DecidableEq, Repr, Inhabited

mutual
inductive TypeDecl where
  | mk (head : TypeHead) (members : List Member)

inductive Member where
  /-- A method, with the local and anonymous classes of its body. -/
  | method (method : Method) (locals : List TypeDecl)
  /-- A member type, or an anonymous class of a field or an initialiser. -/
  | type (decl : TypeDecl)
end

structure CompilationUnit where
  package : Option String
  imports : List Import
  types : List TypeDecl

instance : Inhabited TypeDecl := ⟨.mk default []⟩
instance : Inhabited CompilationUnit := ⟨⟨none, [], []⟩⟩

namespace TypeRef

/-- The first name of the type, which is the one that an import would have to provide. -/
def leadingName (r : TypeRef) : String :=
  Text.firstSegment (Text.elementType r.erased).1

/-- Whether the type is written without package and outer type. -/
def isSimple (r : TypeRef) : Bool :=
  Text.isSimple r.erased

end TypeRef

namespace Import

def simpleName (i : Import) : String :=
  Text.lastSegment i.path

/-- Whether this is the import of exactly one type, the given one. -/
def importsType (i : Import) (fqn : String) : Bool :=
  !i.isStatic && !i.isWildcard && i.path == fqn

end Import

namespace Method

def hasAnnotation (m : Method) (name : String) : Bool :=
  m.annotations.contains name

/-- The entries of the throws clause; none where there is no clause. -/
def throwsEntries (m : Method) : List TypeRef :=
  m.throws.getD []

end Method

namespace TypeDecl

def head : TypeDecl → TypeHead
  | .mk head _ => head

def members : TypeDecl → List Member
  | .mk _ members => members

def fqn (d : TypeDecl) : String :=
  d.head.fqn

/-- The methods that the type declares itself. -/
def methods (d : TypeDecl) : List Method :=
  d.members.filterMap fun
    | .method m _ => some m
    | .type _ => none

end TypeDecl

mutual
/-- A type and all types inside it, outer types before inner ones. -/
def TypeDecl.all : TypeDecl → List TypeDecl
  | .mk head members => .mk head members :: allOfMembers members

def allOfMembers : List Member → List TypeDecl
  | [] => []
  | .method _ locals :: ms => allOfTypes locals ++ allOfMembers ms
  | .type decl :: ms => decl.all ++ allOfMembers ms

def allOfTypes : List TypeDecl → List TypeDecl
  | [] => []
  | d :: ds => d.all ++ allOfTypes ds
end

namespace CompilationUnit

/-- All types of the file, outer types before inner ones. -/
def allTypes (u : CompilationUnit) : List TypeDecl :=
  allOfTypes u.types

/-- What stands before the simple name of a type of the file's package. -/
def packagePrefix (u : CompilationUnit) : String :=
  match u.package with
  | some p => p ++ "."
  | none => ""

/-- The packages and types whose members are imported on demand. -/
def onDemandImports (u : CompilationUnit) : List String :=
  (u.imports.filter fun i => i.isWildcard && !i.isStatic).map Import.path

end CompilationUnit
end JavaThrows
