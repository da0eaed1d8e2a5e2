import JavaThrows.Removal.Imports

set_option autoImplicit false

/-!
# Which imports go when several types are cleaned up after

An import goes where nothing refers to its simple name, and dropping imports adds and takes no
reference. So the imports of a list of types go independently of each other: what is left is one
filter of the imports, whatever the order of the list and however often a type stands in it. What is
referred to is told by all types of the file, each by itself. Main statement:
`foldl_dropUnusedImport`.
-/

namespace JavaThrows

/-! ## Names that the types refer to -/

/-- The names that a type refers to, the types inside of it apart. -/
def TypeDecl.ownNames (d : TypeDecl) : List String :=
  d.head.references.map NameRef.name ++ d.methods.flatMap Method.referencedNames

theorem TypeDecl.mem_ownNames_iff {d : TypeDecl} {name : String} :
    name ∈ d.ownNames ↔
      (∃ r ∈ d.head.references, r.name = name) ∨
        ∃ m ∈ d.methods, (∃ r ∈ m.references, r.name = name) ∨
          ∃ e ∈ m.throwsEntries, e.leadingName = name := by
  simp only [ownNames, Method.referencedNames, List.mem_append, List.mem_map, List.mem_flatMap]

section Own

variable {name : String}

/-- The names of the methods that stand among the members themselves. -/
def ownNamesOfMembers (ms : List Member) : List String :=
  (TypeDecl.mk default ms).methods.flatMap Method.referencedNames

theorem TypeDecl.ownNames_mk (head : TypeHead) (ms : List Member) :
    (TypeDecl.mk head ms).ownNames = head.references.map NameRef.name ++ ownNamesOfMembers ms :=
  rfl

theorem ownNamesOfMembers_method (m : Method) (locals : List TypeDecl) (ms : List Member) :
    ownNamesOfMembers (.method m locals :: ms) = m.referencedNames ++ ownNamesOfMembers ms :=
  rfl

theorem ownNamesOfMembers_type (d : TypeDecl) (ms : List Member) :
    ownNamesOfMembers (.type d :: ms) = ownNamesOfMembers ms :=
  rfl

-- Two ways through a file: one collects names, the other one lists types.
mutual
theorem TypeDecl.mem_referencedNames_iff (d : TypeDecl) :
    name ∈ d.referencedNames ↔ ∃ t ∈ d.all, name ∈ t.ownNames := by
  match d with
  | .mk head ms =>
    rw [TypeDecl.referencedNames, TypeDecl.all, List.mem_append, mem_namesOfMembers_iff ms]
    simp only [List.mem_cons, exists_eq_or_imp, TypeDecl.ownNames_mk, List.mem_append, or_assoc]

theorem mem_namesOfMembers_iff (ms : List Member) :
    name ∈ namesOfMembers ms ↔
      name ∈ ownNamesOfMembers ms ∨ ∃ t ∈ allOfMembers ms, name ∈ t.ownNames := by
  match ms with
  | [] => simp [namesOfMembers, allOfMembers, ownNamesOfMembers, TypeDecl.methods, TypeDecl.members]
  | .method m locals :: ms =>
    rw [namesOfMembers, allOfMembers, List.mem_append, List.mem_append,
      mem_namesOfTypes_iff locals, mem_namesOfMembers_iff ms, ownNamesOfMembers_method]
    simp only [List.mem_append, or_and_right, exists_or, or_assoc, or_left_comm]
  | .type d :: ms =>
    rw [namesOfMembers, allOfMembers, List.mem_append, d.mem_referencedNames_iff,
      mem_namesOfMembers_iff ms, ownNamesOfMembers_type]
    simp only [List.mem_append, or_and_right, exists_or, or_left_comm]

theorem mem_namesOfTypes_iff (ds : List TypeDecl) :
    name ∈ namesOfTypes ds ↔ ∃ t ∈ allOfTypes ds, name ∈ t.ownNames := by
  match ds with
  | [] => simp [namesOfTypes, allOfTypes]
  | d :: ds =>
    rw [namesOfTypes, allOfTypes, List.mem_append, d.mem_referencedNames_iff,
      mem_namesOfTypes_iff ds]
    simp only [List.mem_append, or_and_right, exists_or]
end

end Own

namespace CompilationUnit

variable (u : CompilationUnit)

/-- What a file refers to is what its types refer to. -/
theorem mem_referencedNames_iff {name : String} :
    name ∈ u.referencedNames ↔ ∃ d ∈ u.allTypes, name ∈ d.ownNames :=
  mem_namesOfTypes_iff u.types

/-! ## Dropping imports -/

/-- Whether this is the import of a single one of the types, and nothing refers to it. -/
def isUnused (fqns : List String) (i : Import) : Bool :=
  !i.isStatic && !i.isWildcard && fqns.contains i.path && !u.referencedNames.contains i.simpleName

/-- The file without the imports of the types that nothing refers to. -/
def withoutUnused (fqns : List String) : CompilationUnit :=
  { u with imports := u.imports.filter fun i => !u.isUnused fqns i }

variable {u}

theorem importsType_and_unreferenced {fqn : String} {i : Import} :
    (i.importsType fqn && !u.referencedNames.contains i.simpleName) = u.isUnused [fqn] i := by
  have hpath : [fqn].contains i.path = (i.path == fqn) := by
    rw [List.contains_cons, List.contains_nil, Bool.or_false]
  rw [Import.importsType, isUnused, hpath]

/-- All imports of a type have the same simple name. -/
theorem simpleName_of_importsType {fqn : String} {i : Import} (h : i.importsType fqn) :
    i.simpleName = Text.lastSegment fqn := by
  simp only [Import.importsType, Bool.and_eq_true, beq_iff_eq] at h
  rw [Import.simpleName, h.2]

/-- Cleaning up after one type is a filter of the imports. -/
theorem dropUnusedImport_eq (fqn : String) : u.dropUnusedImport fqn = u.withoutUnused [fqn] := by
  have hsame : u.isUnused [fqn] = fun i =>
      i.importsType fqn && !u.referencedNames.contains (Text.lastSegment fqn) := by
    funext i
    rw [← importsType_and_unreferenced]
    cases hi : i.importsType fqn with
    | false => rfl
    | true => rw [simpleName_of_importsType hi]
  rw [dropUnusedImport, hasUnusedImport, withoutUnused, hsame]
  have hstays (h : ∀ i ∈ u.imports,
      (i.importsType fqn && !u.referencedNames.contains (Text.lastSegment fqn)) = false) :
      u.imports.filter (fun i =>
        !(i.importsType fqn && !u.referencedNames.contains (Text.lastSegment fqn))) =
        u.imports :=
    List.filter_eq_self.2 fun i hi => by rw [h i hi, Bool.not_false]
  cases hfind : u.imports.find? fun i => i.importsType fqn with
  | none =>
    rw [List.find?_eq_none] at hfind
    rw [hstays fun i hi => by simp [hfind i hi]]
    rfl
  | some first =>
    have hfirst : first.importsType fqn := by simpa using List.find?_some hfind
    simp only [simpleName_of_importsType hfirst]
    cases hnames : u.referencedNames.contains (Text.lastSegment fqn) with
    | false => simp
    | true =>
      rw [hnames] at hstays
      rw [hstays fun i _ => by simp]
      rfl

/-- References stay, so dropping imports twice is dropping those of both lists. -/
theorem withoutUnused_withoutUnused (front back : List String) :
    (u.withoutUnused front).withoutUnused back = u.withoutUnused (front ++ back) := by
  have hreferences : (u.withoutUnused front).isUnused back = u.isUnused back := rfl
  rw [withoutUnused, hreferences, withoutUnused, withoutUnused, List.filter_filter]
  congr 1
  refine List.filter_congr fun i _ => ?_
  rw [isUnused, isUnused, isUnused, List.contains_append]
  grind

theorem foldl_dropUnusedImport_eq_withoutUnused (u : CompilationUnit) (fqns : List String) :
    fqns.foldl dropUnusedImport u = u.withoutUnused fqns := by
  induction fqns generalizing u with
  | nil =>
    have hall : u.imports.filter (fun i => !u.isUnused [] i) = u.imports :=
      List.filter_eq_self.2 fun i _ => by simp [isUnused]
    rw [List.foldl_nil, withoutUnused, hall]
  | cons fqn fqns ih =>
    rw [List.foldl_cons, ih, dropUnusedImport_eq, withoutUnused_withoutUnused,
      List.singleton_append]

/-- **What is left of a file after cleaning up after a list of types**: in their order, all imports
    but those of a single type of the list whose simple name nothing in the file refers to. The
    order of the list and its repetitions are of no account. What the file refers to are the
    references of all its types, those of their methods, and the leading names of the entries of
    their throws clauses. -/
theorem foldl_dropUnusedImport (u : CompilationUnit) (fqns : List String) :
    (fqns.foldl dropUnusedImport u =
        { u with imports := u.imports.filter fun i => !u.isUnused fqns i }) ∧
      (∀ others : List String, (∀ fqn, fqn ∈ others ↔ fqn ∈ fqns) →
        others.foldl dropUnusedImport u = fqns.foldl dropUnusedImport u) ∧
      ∀ name, name ∈ u.referencedNames ↔
        ∃ d ∈ u.allTypes, (∃ r ∈ d.head.references, r.name = name) ∨
          ∃ m ∈ d.methods, (∃ r ∈ m.references, r.name = name) ∨
            ∃ e ∈ m.throwsEntries, e.leadingName = name := by
  refine ⟨foldl_dropUnusedImport_eq_withoutUnused u fqns, ?_, ?_⟩
  · intro others hothers
    have hsame : u.isUnused others = u.isUnused fqns := by
      funext i
      have hpath : others.contains i.path = fqns.contains i.path := by
        rw [Bool.eq_iff_iff, List.contains_iff_mem, List.contains_iff_mem, hothers]
      rw [isUnused, isUnused, hpath]
    rw [foldl_dropUnusedImport_eq_withoutUnused, foldl_dropUnusedImport_eq_withoutUnused,
      withoutUnused, withoutUnused, hsame]
  · intro name
    rw [mem_referencedNames_iff]
    simp only [TypeDecl.mem_ownNames_iff]

/-- Both imports of one type go, that of a type in a throws clause stays, and so does an import on
    demand. -/
theorem foldl_dropUnusedImport_throws :
    let importOf (path : String) : Import := ⟨path, false, false, ⟨0, 0⟩, ⟨0, 0⟩⟩
    let entry : TypeRef := ⟨"F", "F", ⟨0, 0⟩, none, false, false⟩
    let u : CompilationUnit :=
      { package := none
        imports := [importOf "a.E", importOf "b.F", importOf "a.E",
          { importOf "c" with isWildcard := true }]
        types := [.mk default [.method { (default : Method) with throws := some [entry] } []]] }
    (["b.F", "c", "a.E", "b.F"].foldl dropUnusedImport u).imports =
        [importOf "b.F", { importOf "c" with isWildcard := true }] ∧
      ["b.F", "c", "a.E", "b.F"].foldl dropUnusedImport u =
        ["a.E", "b.F", "c"].foldl dropUnusedImport u := by
  intro importOf entry u
  have hsame : ∀ fqn, fqn ∈ ["b.F", "c", "a.E", "b.F"] ↔ fqn ∈ ["a.E", "b.F", "c"] := by
    intro fqn
    simp only [List.mem_cons, List.not_mem_nil, or_false]
    grind
  refine ⟨?_, (foldl_dropUnusedImport u _).2.1 _ hsame⟩
  rw [(foldl_dropUnusedImport u _).1]
  decide

end CompilationUnit
end JavaThrows
