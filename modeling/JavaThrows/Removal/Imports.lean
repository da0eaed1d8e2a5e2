import JavaThrows.Decl.Basic

set_option autoImplicit false

/-!
# Imports that nothing needs any more

The import of a single type goes when its simple name occurs nowhere in the file. Imports on demand
and static imports always stay.
-/

namespace JavaThrows

/-- The names in the facts of a method that an import may provide. -/
def Method.referencedNames (m : Method) : List String :=
  m.references.map NameRef.name ++ m.throwsEntries.map TypeRef.leadingName

mutual
def TypeDecl.referencedNames : TypeDecl → List String
  | .mk head members => head.references.map NameRef.name ++ namesOfMembers members

def namesOfMembers : List Member → List String
  | [] => []
  | .method m locals :: ms => m.referencedNames ++ namesOfTypes locals ++ namesOfMembers ms
  | .type d :: ms => d.referencedNames ++ namesOfMembers ms

def namesOfTypes : List TypeDecl → List String
  | [] => []
  | d :: ds => d.referencedNames ++ namesOfTypes ds
end

namespace CompilationUnit

/-- The names in the file that an import may provide. -/
def referencedNames (u : CompilationUnit) : List String :=
  namesOfTypes u.types

/-- Whether the import of the given type is there and nothing refers to it. -/
def hasUnusedImport (u : CompilationUnit) (fqn : String) : Bool :=
  match u.imports.find? fun i => i.importsType fqn with
  | some i => !u.referencedNames.contains i.simpleName
  | none => false

/-- Drop the import of the given type if nothing refers to it. -/
def dropUnusedImport (u : CompilationUnit) (fqn : String) : CompilationUnit :=
  if u.hasUnusedImport fqn then
    { u with imports := u.imports.filter fun i => !i.importsType fqn }
  else u

end CompilationUnit
end JavaThrows
