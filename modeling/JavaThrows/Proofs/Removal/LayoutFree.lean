import JavaThrows.Proofs.Decl.Lowering
import JavaThrows.Proofs.Decl.Relowered
import JavaThrows.Proofs.Removal.Frame

set_option autoImplicit false

/-!
# Decisions are free of layout

A visit looks neither at places nor at the texts of types, so what it decides can be told from the
declarations without their layout. Two calm sources with the same tokens therefore lose the same
entries and the same imports. Where a source is not calm, a comment can stand for a type. Main
statement: `decisions_eq_of_javaTokens`.
-/

namespace JavaThrows

open Cst

/-! ## The index -/

section Index

variable (index : TypeIndex) (unit : CompilationUnit)

theorem packagePrefix_withoutLayout : unit.withoutLayout.packagePrefix = unit.packagePrefix :=
  rfl

theorem onDemandImports_withoutLayout :
    unit.withoutLayout.onDemandImports = unit.onDemandImports := by
  rw [CompilationUnit.onDemandImports, CompilationUnit.withoutLayout, List.filter_map,
    List.map_map]
  rfl

namespace TypeIndex

theorem resolve_withoutLayout (t : TypeRef) :
    index.resolve unit.withoutLayout t.withoutLayout = index.resolve unit t := by
  rw [resolve, packagePrefix_withoutLayout, onDemandImports_withoutLayout]
  rfl

theorem erasure_withoutLayout (t : TypeRef) :
    index.erasure unit.withoutLayout t.withoutLayout = index.erasure unit t := by
  rw [erasure, resolve_withoutLayout]
  rfl

theorem superRef_withoutLayout (t : TypeRef) :
    index.superRef unit.withoutLayout t.withoutLayout = index.superRef unit t := by
  rw [superRef, resolve_withoutLayout]
  rfl

theorem signature_withoutLayout (m : Method) :
    index.signature unit.withoutLayout m.withoutLayout = index.signature unit m := by
  simp only [signature, Method.withoutLayout, List.map_map, MethodSignature.mk.injEq, true_and]
  refine List.map_congr_left fun p _ => ?_
  simp only [Function.comp_def, Param.withoutLayout, erasure_withoutLayout]
  rfl

theorem methods_withoutLayout (d : TypeDecl) :
    d.withoutLayout.methods = d.methods.map Method.withoutLayout := by
  obtain ⟨head, members⟩ := d
  simp only [TypeDecl.withoutLayout, TypeDecl.methods, TypeDecl.members]
  induction members with
  | nil => rfl
  | cons member members ih =>
    cases member with
    | method m locals => simp only [membersWithoutLayout, List.filterMap_cons, List.map_cons, ih]
    | type d => simp only [membersWithoutLayout, List.filterMap_cons, ih]

theorem summarize_withoutLayout (d : TypeDecl) :
    index.summarize unit.withoutLayout d.withoutLayout = index.summarize unit d := by
  simp only [summarize, methods_withoutLayout, List.map_map, Function.comp_def,
    signature_withoutLayout]
  obtain ⟨head, members⟩ := d
  simp only [TypeDecl.fqn, TypeDecl.withoutLayout, TypeDecl.head, TypeHead.withoutLayout,
    List.map_map, Function.comp_def, superRef_withoutLayout]

end TypeIndex

end Index

/-! ## Types inside types -/

mutual
theorem TypeDecl.all_withoutLayout (d : TypeDecl) :
    d.withoutLayout.all = d.all.map TypeDecl.withoutLayout := by
  match d with
  | .mk head members =>
    rw [TypeDecl.withoutLayout, TypeDecl.all, TypeDecl.all, List.map_cons, TypeDecl.withoutLayout,
      allOfMembers_withoutLayout members]

theorem allOfMembers_withoutLayout (ms : List Member) :
    allOfMembers (membersWithoutLayout ms) = (allOfMembers ms).map TypeDecl.withoutLayout := by
  match ms with
  | [] => rfl
  | .method m locals :: ms =>
    rw [membersWithoutLayout, allOfMembers, allOfMembers, List.map_append,
      allOfTypes_withoutLayout locals, allOfMembers_withoutLayout ms]
  | .type d :: ms =>
    rw [membersWithoutLayout, allOfMembers, allOfMembers, List.map_append,
      TypeDecl.all_withoutLayout d, allOfMembers_withoutLayout ms]

theorem allOfTypes_withoutLayout (ds : List TypeDecl) :
    allOfTypes (typesWithoutLayout ds) = (allOfTypes ds).map TypeDecl.withoutLayout := by
  match ds with
  | [] => rfl
  | d :: ds =>
    rw [typesWithoutLayout, allOfTypes, allOfTypes, List.map_append, TypeDecl.all_withoutLayout d,
      allOfTypes_withoutLayout ds]
end

theorem allTypes_withoutLayout (unit : CompilationUnit) :
    unit.withoutLayout.allTypes = unit.allTypes.map TypeDecl.withoutLayout :=
  allOfTypes_withoutLayout unit.types

theorem build_withoutLayout (unit : CompilationUnit) :
    TypeIndex.build [unit.withoutLayout] = TypeIndex.build [unit] := by
  have hnames : TypeIndex.names [unit.withoutLayout] = TypeIndex.names [unit] := by
    simp only [TypeIndex.names, List.flatMap_singleton, allTypes_withoutLayout, List.map_map]
    refine congrArg _ (List.map_congr_left fun d _ => ?_)
    obtain ⟨head, members⟩ := d
    rfl
  simp only [TypeIndex.build, hnames, List.flatMap_singleton, allTypes_withoutLayout,
    List.map_map, Function.comp_def, TypeIndex.summarize_withoutLayout]

/-! ## Matching -/

namespace MethodPattern

variable (index : TypeIndex) (unit : CompilationUnit)

theorem erasedParams_withoutLayout (m : Method) :
    erasedParams index unit.withoutLayout m.withoutLayout = erasedParams index unit m := by
  simp only [erasedParams, Method.withoutLayout, List.map_map, Function.comp_def,
    Param.withoutLayout, TypeIndex.erasure_withoutLayout]

theorem isMatch_withoutLayout (p : MethodPattern) (enclosing : TypeHead) (m : Method) :
    p.isMatch index unit.withoutLayout enclosing.withoutLayout m.withoutLayout =
      p.isMatch index unit enclosing m := by
  have hsupertypes : enclosing.withoutLayout.supertypes.map (index.superRef unit.withoutLayout) =
      enclosing.supertypes.map (index.superRef unit) := by
    simp only [TypeHead.withoutLayout, List.map_map, Function.comp_def,
      TypeIndex.superRef_withoutLayout]
  rw [isMatch, erasedParams_withoutLayout, hsupertypes]
  rfl

end MethodPattern

/-! ## Visits of parts -/

def RemovedThrow.withoutLayout (x : RemovedThrow) : RemovedThrow :=
  { x with span := default }

namespace Visited

variable {α β γ α' β' γ' : Type}

/-- A visit, with another look at the part. -/
def view (f : α → α') (v : Visited α) : Visited α' :=
  ⟨v.changed.map f, v.removals.map RemovedThrow.withoutLayout⟩

theorem view_combine {f : α → α'} {g : β → β'} {h : γ → γ'} {make : α → β → γ}
    {make' : α' → β' → γ'} (hmake : ∀ a b, h (make a b) = make' (f a) (g b)) (a : α) (b : β)
    (va : Visited α) (vb : Visited β) :
    (combine make a b va vb).view h = combine make' (f a) (g b) (va.view f) (vb.view g) := by
  simp only [view, combine, valueOr, List.map_append, Option.isNone_map, Option.getD_map, ← hmake]
  split <;> rfl

end Visited

namespace Removal

variable (r : Removal) (index : TypeIndex) (unit : CompilationUnit)

theorem isTarget_withoutLayout (e : TypeRef) :
    r.isTarget index unit.withoutLayout e.withoutLayout = r.isTarget index unit e := by
  rw [isTarget, TypeIndex.resolve_withoutLayout, onDemandImports_withoutLayout]
  rfl

theorem throwsEntries_withoutLayout (m : Method) :
    m.withoutLayout.throwsEntries = m.throwsEntries.map TypeRef.withoutLayout := by
  rw [Method.throwsEntries, Method.throwsEntries, Method.withoutLayout]
  cases m.throws <;> rfl

theorem strip?_withoutLayout (m : Method) :
    r.strip? index unit.withoutLayout m.withoutLayout =
      (r.strip? index unit m).map Method.withoutLayout := by
  have hkept : m.withoutLayout.throwsEntries.filter
        (fun e => !r.isTarget index unit.withoutLayout e) =
      (m.throwsEntries.filter fun e => !r.isTarget index unit e).map TypeRef.withoutLayout := by
    rw [throwsEntries_withoutLayout, List.filter_map]
    simp only [Function.comp_def, isTarget_withoutLayout]
  simp only [strip?, hkept, List.isEmpty_map]
  rw [throwsEntries_withoutLayout, List.length_map, List.length_map]
  split
  · rfl
  · split <;> rfl

theorem visitMethod_withoutLayout (enclosing : TypeHead) (m : Method) :
    r.visitMethod index unit.withoutLayout enclosing.withoutLayout m.withoutLayout =
      (r.visitMethod index unit enclosing m).view Method.withoutLayout := by
  simp only [visitMethod, throwsEntries_withoutLayout, List.isEmpty_map,
    MethodPattern.isMatch_withoutLayout, strip?_withoutLayout]
  split
  · rfl
  · cases r.strip? index unit m <;> rfl

-- The recursion of the visit itself.
mutual
theorem visitType_withoutLayout (d : TypeDecl) :
    r.visitType index unit.withoutLayout d.withoutLayout =
      (r.visitType index unit d).view TypeDecl.withoutLayout := by
  match d with
  | .mk head members =>
    rw [TypeDecl.withoutLayout, visitType, visitType, visitMembers_withoutLayout head members]
    simp only [Visited.view, Option.map_map]
    rfl

theorem visitMembers_withoutLayout (enclosing : TypeHead) (ms : List Member) :
    r.visitMembers index unit.withoutLayout enclosing.withoutLayout (membersWithoutLayout ms) =
      (r.visitMembers index unit enclosing ms).view membersWithoutLayout := by
  have hcons (m : Member) (ms : List Member) : membersWithoutLayout (m :: ms) =
      m.withoutLayout :: membersWithoutLayout ms := by
    rw [membersWithoutLayout_eq_map, membersWithoutLayout_eq_map, List.map_cons]
  match ms with
  | [] =>
    rw [membersWithoutLayout, visitMembers, visitMembers]
    rfl
  | .method m locals :: ms =>
    rw [membersWithoutLayout, visitMembers, visitMembers, visitTypes_withoutLayout locals,
      visitMethod_withoutLayout, visitMembers_withoutLayout enclosing ms,
      Visited.view_combine hcons]
    have hmember (vl : Visited (List TypeDecl)) (vm : Visited Method) :
        (Visited.combine (fun locals m => Member.method m locals) locals m vl vm).view
            Member.withoutLayout =
          Visited.combine (fun locals m => Member.method m locals) (typesWithoutLayout locals)
            m.withoutLayout (vl.view typesWithoutLayout) (vm.view Method.withoutLayout) :=
      Visited.view_combine (fun _ _ => by rfl) locals m vl vm
    rw [hmember]
    rfl
  | .type d :: ms =>
    rw [membersWithoutLayout, visitMembers, visitMembers, visitType_withoutLayout d,
      visitMembers_withoutLayout enclosing ms, Visited.view_combine hcons]
    simp only [Visited.view, Option.map_map]
    rfl

theorem visitTypes_withoutLayout (ds : List TypeDecl) :
    r.visitTypes index unit.withoutLayout (typesWithoutLayout ds) =
      (r.visitTypes index unit ds).view typesWithoutLayout := by
  match ds with
  | [] =>
    rw [typesWithoutLayout, visitTypes, visitTypes]
    rfl
  | d :: ds =>
    rw [typesWithoutLayout, visitTypes, visitTypes, visitType_withoutLayout d,
      visitTypes_withoutLayout ds]
    have hcons (d : TypeDecl) (ds : List TypeDecl) : typesWithoutLayout (d :: ds) =
        d.withoutLayout :: typesWithoutLayout ds := by
      rw [typesWithoutLayout]
    exact (Visited.view_combine hcons _ _ _ _).symm
end

end Removal

/-! ## Names that occur -/

theorem TypeRef.leadingName_withoutLayout (r : TypeRef) :
    r.withoutLayout.leadingName = r.leadingName := by
  rw [TypeRef.leadingName, TypeRef.leadingName, TypeRef.withoutLayout]

theorem Method.referencedNames_withoutLayout (m : Method) :
    m.withoutLayout.referencedNames = m.referencedNames := by
  have hreferences :
      m.withoutLayout.references.map NameRef.name = m.references.map NameRef.name := by
    rw [Method.withoutLayout, List.map_map]
    rfl
  simp only [Method.referencedNames, hreferences, Removal.throwsEntries_withoutLayout,
    List.map_map, Function.comp_def, TypeRef.leadingName_withoutLayout]

mutual
theorem TypeDecl.referencedNames_withoutLayout (d : TypeDecl) :
    d.withoutLayout.referencedNames = d.referencedNames := by
  match d with
  | .mk head members =>
    rw [TypeDecl.withoutLayout, TypeDecl.referencedNames, TypeDecl.referencedNames,
      namesOfMembers_withoutLayout members, TypeHead.withoutLayout, List.map_map]
    rfl

theorem namesOfMembers_withoutLayout (ms : List Member) :
    namesOfMembers (membersWithoutLayout ms) = namesOfMembers ms := by
  match ms with
  | [] => rfl
  | .method m locals :: ms =>
    rw [membersWithoutLayout, namesOfMembers, namesOfMembers, m.referencedNames_withoutLayout,
      namesOfTypes_withoutLayout locals, namesOfMembers_withoutLayout ms]
  | .type d :: ms =>
    rw [membersWithoutLayout, namesOfMembers, namesOfMembers,
      TypeDecl.referencedNames_withoutLayout d, namesOfMembers_withoutLayout ms]

theorem namesOfTypes_withoutLayout (ds : List TypeDecl) :
    namesOfTypes (typesWithoutLayout ds) = namesOfTypes ds := by
  match ds with
  | [] => rfl
  | d :: ds =>
    rw [typesWithoutLayout, namesOfTypes, namesOfTypes, TypeDecl.referencedNames_withoutLayout d,
      namesOfTypes_withoutLayout ds]
end

theorem hasUnusedImport_withoutLayout (unit : CompilationUnit) (fqn : String) :
    unit.withoutLayout.hasUnusedImport fqn = unit.hasUnusedImport fqn := by
  have himport : unit.withoutLayout.imports.find? (fun i => i.importsType fqn) =
      (unit.imports.find? fun i => i.importsType fqn).map Import.withoutLayout :=
    List.find?_map ..
  have hnames : unit.withoutLayout.referencedNames = unit.referencedNames :=
    namesOfTypes_withoutLayout unit.types
  rw [CompilationUnit.hasUnusedImport, CompilationUnit.hasUnusedImport, himport, hnames]
  cases unit.imports.find? fun i => i.importsType fqn <;> rfl

theorem dropUnusedImport_withoutLayout (unit : CompilationUnit) (fqn : String) :
    unit.withoutLayout.dropUnusedImport fqn = (unit.dropUnusedImport fqn).withoutLayout := by
  rw [CompilationUnit.dropUnusedImport, CompilationUnit.dropUnusedImport,
    hasUnusedImport_withoutLayout]
  split
  · simp only [CompilationUnit.withoutLayout, List.filter_map]
    rfl
  · rfl

/-! ## What a visit decides -/

namespace Removal

variable (r : Removal)

def VisitedUnit.withoutLayout (v : VisitedUnit) : VisitedUnit :=
  ⟨v.changed.map CompilationUnit.withoutLayout,
    ⟨v.log.removals.map RemovedThrow.withoutLayout, v.log.importRemoved⟩⟩

/-- **A visit does not look at the layout.** -/
theorem visitUnit_withoutLayout (index : TypeIndex) (unit : CompilationUnit) :
    r.visitUnit index unit.withoutLayout = (r.visitUnit index unit).withoutLayout := by
  have hvisit : r.visitTypes index unit.withoutLayout unit.withoutLayout.types =
      (r.visitTypes index unit unit.types).view typesWithoutLayout :=
    r.visitTypes_withoutLayout index unit unit.types
  simp only [visitUnit, hvisit]
  obtain ⟨changed, removals⟩ := r.visitTypes index unit unit.types
  cases changed with
  | none => rfl
  | some types =>
    have hafter :
        ({ unit.withoutLayout with types := typesWithoutLayout types } : CompilationUnit) =
          CompilationUnit.withoutLayout { unit with types } := rfl
    simp only [Visited.view, Option.map_some, hafter, hasUnusedImport_withoutLayout,
      dropUnusedImport_withoutLayout]
    rfl

end Removal

mutual
theorem TypeDecl.ownedMethods_withoutLayout (d : TypeDecl) :
    d.withoutLayout.ownedMethods =
      d.ownedMethods.map (Prod.map TypeHead.withoutLayout Method.withoutLayout) := by
  match d with
  | .mk head members =>
    rw [TypeDecl.withoutLayout, TypeDecl.ownedMethods, TypeDecl.ownedMethods,
      ownedMethodsOfMembers_withoutLayout head members]

theorem ownedMethodsOfMembers_withoutLayout (enclosing : TypeHead) (ms : List Member) :
    ownedMethodsOfMembers enclosing.withoutLayout (membersWithoutLayout ms) =
      (ownedMethodsOfMembers enclosing ms).map
        (Prod.map TypeHead.withoutLayout Method.withoutLayout) := by
  match ms with
  | [] => rfl
  | .method m locals :: ms =>
    rw [membersWithoutLayout, ownedMethodsOfMembers, ownedMethodsOfMembers, List.map_append,
      List.map_cons, ownedMethodsOfTypes_withoutLayout locals,
      ownedMethodsOfMembers_withoutLayout enclosing ms, Prod.map]
  | .type d :: ms =>
    rw [membersWithoutLayout, ownedMethodsOfMembers, ownedMethodsOfMembers, List.map_append,
      TypeDecl.ownedMethods_withoutLayout d, ownedMethodsOfMembers_withoutLayout enclosing ms]

theorem ownedMethodsOfTypes_withoutLayout (ds : List TypeDecl) :
    ownedMethodsOfTypes (typesWithoutLayout ds) =
      (ownedMethodsOfTypes ds).map (Prod.map TypeHead.withoutLayout Method.withoutLayout) := by
  match ds with
  | [] => rfl
  | d :: ds =>
    rw [typesWithoutLayout, ownedMethodsOfTypes, ownedMethodsOfTypes, List.map_append,
      TypeDecl.ownedMethods_withoutLayout d, ownedMethodsOfTypes_withoutLayout ds]
end

/-- What is decided on a file: which methods of which types lose the exception, in order; which
    entries are left in the throws clause of each method, by their erased texts; and whether
    the exception's import goes. -/
structure Decisions where
  removals : List (String × String)
  throws : List (Option (List String))
  importRemoved : Bool
deriving DecidableEq, Repr

namespace Removal

variable (r : Removal)

/-- The decisions on a file by itself. -/
def decisions (unit : CompilationUnit) : Decisions :=
  let visited := r.visitUnit (.build [unit]) unit
  { removals := visited.log.removals.map fun x => (x.typeFqn, x.method)
    throws := (visited.changed.getD unit).ownedMethods.map fun owned =>
      owned.2.throws.map (·.map TypeRef.erased)
    importRemoved := visited.log.importRemoved }

theorem decisions_withoutLayout (unit : CompilationUnit) :
    r.decisions unit.withoutLayout = r.decisions unit := by
  have hthrows (unit : CompilationUnit) :
      unit.withoutLayout.ownedMethods.map
          (fun owned => owned.2.throws.map (·.map TypeRef.erased)) =
        unit.ownedMethods.map fun owned => owned.2.throws.map (·.map TypeRef.erased) := by
    rw [CompilationUnit.ownedMethods, CompilationUnit.withoutLayout,
      ownedMethodsOfTypes_withoutLayout, List.map_map]
    refine List.map_congr_left fun owned _ => ?_
    simp only [Function.comp_def, Prod.map, Method.withoutLayout, Option.map_map, List.map_map]
    rfl
  simp only [decisions, build_withoutLayout, visitUnit_withoutLayout, VisitedUnit.withoutLayout,
    Option.getD_map, hthrows, List.map_map]
  rfl

/-- **The decisions are free of layout**: two calm sources with the same tokens, whatever blanks and
    comments stand between them, lose the same entries of the same methods in the same order, and
    both lose the import of the exception or neither does. -/
theorem decisions_eq_of_javaTokens {source source' : List Char} {unit unit' : CompilationUnit}
    (hparse : CompilationUnit.parse source = .ok unit)
    (hparse' : CompilationUnit.parse source' = .ok unit')
    (htokens : javaTokens source = javaTokens source')
    (hcalm : CalmSource source) (hcalm' : CalmSource source') :
    r.decisions unit = r.decisions unit' := by
  obtain ⟨root, hroot, rfl⟩ := CompilationUnit.exists_tree_of_parse hparse
  obtain ⟨root', hroot', rfl⟩ := CompilationUnit.exists_tree_of_parse hparse'
  rw [← r.decisions_withoutLayout, ← r.decisions_withoutLayout (.ofTree source' root'),
    withoutLayout_eq_of_javaTokens hroot hroot' htokens hcalm hcalm']

set_option maxRecDepth 20000 in
/-- Comments and line breaks almost everywhere: the methods of both types lose their clauses in both
    layouts, and the import goes. -/
theorem decisions_eq_of_javaTokens_comments :
    let plain := ("import a.E;class T\x7bvoid f()throws E\x7b\x7d\x7d" ++
      "class S extends T\x7bvoid f()throws E\x7b\x7d\x7d").toList
    let commented := ("/* a */ import a.E; // E\nclass T \x7b\n" ++
      "void f( ) throws /* e */ E \x7b\x7d\n\x7d\nclass S extends T // t\n\x7b void f(/**/)\n" ++
      "throws E\x7b \x7d \x7d /* s */\n").toList
    let unitOf (source : List Char) := (CompilationUnit.parse source).toOption.getD default
    let r := (Recipe.compile ⟨"T f()", "a.E", none⟩).toOption.getD default
    CompilationUnit.parse plain = .ok (unitOf plain) ∧
      CompilationUnit.parse commented = .ok (unitOf commented) ∧
      javaTokens plain = javaTokens commented ∧ CalmSource plain ∧ CalmSource commented ∧
      r.decisions (unitOf plain) = r.decisions (unitOf commented) ∧
      r.decisions (unitOf commented) = ⟨[("T", "f"), ("S", "f")], [none, none], true⟩ := by
  intro plain commented unitOf r
  obtain ⟨hplain, hcommented, htokens, hcalm, hcalm', hdecisions⟩ :
      (CompilationUnit.parse plain).toOption.isSome ∧
      (CompilationUnit.parse commented).toOption.isSome ∧
      javaTokens plain = javaTokens commented ∧ CalmSource plain ∧ CalmSource commented ∧
      r.decisions (unitOf commented) = ⟨[("T", "f"), ("S", "f")], [none, none], true⟩ := by
    decide +kernel
  have hparse := eq_ok_getD_of_isSome hplain
  have hparse' := eq_ok_getD_of_isSome hcommented
  exact ⟨hparse, hparse', htokens, hcalm, hcalm',
    r.decisions_eq_of_javaTokens hparse hparse' htokens hcalm hcalm', hdecisions⟩

set_option maxRecDepth 20000 in
/-- Not so in a source that is not calm: a comment right after `extends` stands for the supertype,
    so that the method of `S` overrides none of `T`. -/
theorem comment_hides_supertype :
    let plain := ("class T\x7bvoid f()throws a.E\x7b\x7d\x7d" ++
      "class S extends T\x7bvoid f()throws a.E\x7b\x7d\x7d").toList
    let commented := ("class T\x7bvoid f()throws a.E\x7b\x7d\x7d" ++
      "class S extends/**/T\x7bvoid f()throws a.E\x7b\x7d\x7d").toList
    let unitOf (source : List Char) := (CompilationUnit.parse source).toOption.getD default
    let r := (Recipe.compile ⟨"T f()", "a.E", none⟩).toOption.getD default
    (CompilationUnit.parse plain).toOption.isSome ∧
      (CompilationUnit.parse commented).toOption.isSome ∧
      javaTokens plain = javaTokens commented ∧
      r.decisions (unitOf plain) = ⟨[("T", "f"), ("S", "f")], [none, none], false⟩ ∧
      r.decisions (unitOf commented) = ⟨[("T", "f")], [none, some ["a.E"]], false⟩ := by
  decide +kernel

end Removal

end JavaThrows
