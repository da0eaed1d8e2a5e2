import JavaThrows.Proofs.Removal.Visit
import JavaThrows.Removal.Recipe

set_option autoImplicit false

/-!
# The file after a visit

A visited file declares the types that the file declares, in the same order and with the same heads,
and its methods are those of the file without the exception. A visit takes entries of throws clauses
and imports of single types away, and neither of them takes part in resolving a name or in matching
a method. Main statement: `visitUnit_visited`.
-/

namespace JavaThrows

/-! ## The methods of all types -/

/-- The type declares the method itself, with its own head as the enclosing type. -/
def TypeDecl.Owns (d : TypeDecl) (owned : TypeHead × Method) : Prop :=
  d.head = owned.1 ∧ owned.2 ∈ d.methods

section Owned

variable {owned : TypeHead × Method}

theorem owns_cons_method (enclosing : TypeHead) (m : Method) (locals : List TypeDecl)
    (ms : List Member) :
    (TypeDecl.mk enclosing (.method m locals :: ms)).Owns owned ↔
      owned = (enclosing, m) ∨ (TypeDecl.mk enclosing ms).Owns owned := by
  have hmethods : (TypeDecl.mk enclosing (.method m locals :: ms)).methods =
      m :: (TypeDecl.mk enclosing ms).methods := rfl
  rw [TypeDecl.Owns, TypeDecl.Owns, hmethods, List.mem_cons, and_or_left, Prod.ext_iff]
  exact or_congr_left (and_congr_left' eq_comm)

theorem owns_cons_type (enclosing : TypeHead) (d : TypeDecl) (ms : List Member) :
    (TypeDecl.mk enclosing (.type d :: ms)).Owns owned ↔
      (TypeDecl.mk enclosing ms).Owns owned :=
  Iff.rfl

-- Two ways through a file: one visits methods, the other one lists types with their methods.
mutual
theorem TypeDecl.mem_ownedMethods_iff (d : TypeDecl) :
    owned ∈ d.ownedMethods ↔ ∃ t ∈ d.all, t.Owns owned := by
  match d with
  | .mk head members =>
    rw [TypeDecl.ownedMethods, TypeDecl.all, mem_ownedMethodsOfMembers_iff head members]
    simp only [List.mem_cons, exists_eq_or_imp]

theorem mem_ownedMethodsOfMembers_iff (enclosing : TypeHead) (ms : List Member) :
    owned ∈ ownedMethodsOfMembers enclosing ms ↔
      (TypeDecl.mk enclosing ms).Owns owned ∨ ∃ t ∈ allOfMembers ms, t.Owns owned := by
  match ms with
  | [] =>
    simp [ownedMethodsOfMembers, allOfMembers, TypeDecl.Owns, TypeDecl.methods, TypeDecl.members]
  | .method m locals :: ms =>
    rw [ownedMethodsOfMembers, allOfMembers, List.mem_append, List.mem_cons,
      mem_ownedMethodsOfTypes_iff locals, mem_ownedMethodsOfMembers_iff enclosing ms,
      owns_cons_method]
    simp only [List.mem_append, or_and_right, exists_or, or_assoc, or_left_comm]
  | .type d :: ms =>
    rw [ownedMethodsOfMembers, allOfMembers, List.mem_append, d.mem_ownedMethods_iff,
      mem_ownedMethodsOfMembers_iff enclosing ms, owns_cons_type]
    simp only [List.mem_append, or_and_right, exists_or, or_left_comm]

theorem mem_ownedMethodsOfTypes_iff (ds : List TypeDecl) :
    owned ∈ ownedMethodsOfTypes ds ↔ ∃ t ∈ allOfTypes ds, t.Owns owned := by
  match ds with
  | [] => simp [ownedMethodsOfTypes, allOfTypes]
  | d :: ds =>
    rw [ownedMethodsOfTypes, allOfTypes, List.mem_append, d.mem_ownedMethods_iff,
      mem_ownedMethodsOfTypes_iff ds]
    simp only [List.mem_append, or_and_right, exists_or]
end

end Owned

/-! ## The types of a visited file -/

section MapMethods

variable (f : TypeHead → Method → Method)

theorem TypeDecl.head_mapMethods (d : TypeDecl) : (d.mapMethods f).head = d.head := by
  cases d; rfl

theorem methods_mapMethodsOfMembers (enclosing : TypeHead) (ms : List Member) :
    (TypeDecl.mk enclosing (mapMethodsOfMembers f enclosing ms)).methods =
      (TypeDecl.mk enclosing ms).methods.map (f enclosing) := by
  simp only [TypeDecl.methods, TypeDecl.members]
  induction ms with
  | nil => rfl
  | cons member ms ih =>
    cases member with
    | method m locals => simp only [mapMethodsOfMembers, List.filterMap_cons, List.map_cons, ih]
    | type d => simp only [mapMethodsOfMembers, List.filterMap_cons, ih]

theorem TypeDecl.methods_mapMethods (d : TypeDecl) :
    (d.mapMethods f).methods = d.methods.map (f d.head) := by
  cases d with
  | mk head members => exact methods_mapMethodsOfMembers f head members

mutual
theorem TypeDecl.all_mapMethods (d : TypeDecl) :
    (d.mapMethods f).all = d.all.map (TypeDecl.mapMethods f) := by
  match d with
  | .mk head members =>
    rw [TypeDecl.mapMethods, TypeDecl.all, TypeDecl.all, List.map_cons, TypeDecl.mapMethods,
      allOfMembers_mapMethods head members]

theorem allOfMembers_mapMethods (enclosing : TypeHead) (ms : List Member) :
    allOfMembers (mapMethodsOfMembers f enclosing ms) =
      (allOfMembers ms).map (TypeDecl.mapMethods f) := by
  match ms with
  | [] => rfl
  | .method m locals :: ms =>
    rw [mapMethodsOfMembers, allOfMembers, allOfMembers, List.map_append,
      allOfTypes_mapMethods locals, allOfMembers_mapMethods enclosing ms]
  | .type d :: ms =>
    rw [mapMethodsOfMembers, allOfMembers, allOfMembers, List.map_append,
      TypeDecl.all_mapMethods d, allOfMembers_mapMethods enclosing ms]

theorem allOfTypes_mapMethods (ds : List TypeDecl) :
    allOfTypes (mapMethodsOfTypes f ds) = (allOfTypes ds).map (TypeDecl.mapMethods f) := by
  match ds with
  | [] => rfl
  | d :: ds =>
    rw [mapMethodsOfTypes, allOfTypes, allOfTypes, List.map_append, TypeDecl.all_mapMethods d,
      allOfTypes_mapMethods ds]
end

end MapMethods

namespace Removal

variable (r : Removal) (index : TypeIndex) (unit : CompilationUnit)

theorem visitUnit_removals_eq_nil_iff :
    (r.visitUnit index unit).log.removals = [] ↔
      ∀ owned ∈ ownedMethodsOfTypes unit.types,
        (r.stripped index unit owned.1 owned.2).throws = owned.2.throws := by
  rw [visitUnit_removals, removalsOf, List.filterMap_eq_nil_iff]
  refine forall₂_congr fun owned _ => ?_
  rw [removedThrow?]
  split <;> simp_all

/-- A visit that has removed nothing has left the file alone, and its imports too. -/
theorem visitUnit_eq_untouched (h : (r.visitUnit index unit).log.removals = []) :
    r.visitUnit index unit = ⟨none, ⟨[], false⟩⟩ := by
  have hchanged := (r.visitUnit_changed_eq_none_iff index unit).2 h
  have himport : (r.visitUnit index unit).log.importRemoved = false :=
    Bool.eq_false_iff.2 fun hremoved => r.visitUnit_importRemoved index unit hremoved h
  generalize r.visitUnit index unit = visit at h hchanged himport
  obtain ⟨changed, removals, importRemoved⟩ := visit
  subst h hchanged himport
  rfl

/-- The file as it is after a visit, changed or not. -/
def visited : CompilationUnit :=
  (r.visitUnit index unit).changed.getD unit

theorem visited_allTypes :
    (r.visited index unit).allTypes =
      unit.allTypes.map (TypeDecl.mapMethods (r.stripped index unit)) := by
  rw [CompilationUnit.allTypes, visited, visitUnit_types, allOfTypes_mapMethods]
  rfl

/-- The import of a single type is no import on demand, so a visit drops none of those. -/
theorem visited_onDemandImports :
    (r.visited index unit).onDemandImports = unit.onDemandImports := by
  unfold CompilationUnit.onDemandImports visited
  rw [visitUnit_imports]
  split
  · rw [List.filter_filter]
    congr 1
    refine List.filter_congr fun i _ => ?_
    cases hw : i.isWildcard <;> simp [Import.importsType, hw]
  · rfl

theorem resolve_visited (named : TypeIndex) (type : TypeRef) :
    named.resolve (r.visited index unit) type = named.resolve unit type := by
  have hprefix : (r.visited index unit).packagePrefix = unit.packagePrefix := by
    rw [CompilationUnit.packagePrefix, visited, visitUnit_package, CompilationUnit.packagePrefix]
  rw [TypeIndex.resolve, TypeIndex.resolve, hprefix, visited_onDemandImports]

theorem erasure_visited (named : TypeIndex) (type : TypeRef) :
    named.erasure (r.visited index unit) type = named.erasure unit type := by
  rw [TypeIndex.erasure, TypeIndex.erasure, resolve_visited]

theorem superRef_visited (named : TypeIndex) (type : TypeRef) :
    named.superRef (r.visited index unit) type = named.superRef unit type := by
  rw [TypeIndex.superRef, TypeIndex.superRef, resolve_visited]

theorem erasedParams_visited (m : Method) :
    MethodPattern.erasedParams index (r.visited index unit) m =
      MethodPattern.erasedParams index unit m := by
  simp only [MethodPattern.erasedParams, erasure_visited]

theorem isMatch_visited (p : MethodPattern) (enclosing : TypeHead) (m : Method) :
    p.isMatch index (r.visited index unit) enclosing m = p.isMatch index unit enclosing m := by
  rw [MethodPattern.isMatch, MethodPattern.isMatch, erasedParams_visited,
    funext (r.superRef_visited index unit index)]

/-- Whether a pattern matches a method does not depend on its throws clause. -/
theorem isMatch_stripped (p : MethodPattern) (enclosing : TypeHead) (m : Method) :
    p.isMatch index unit enclosing (r.stripped index unit enclosing m) =
      p.isMatch index unit enclosing m := by
  unfold stripped
  split <;> rfl

/-! ## What is left of a matching method -/

/-- An entry that resolves to the exception names it. -/
theorem isTarget_of_resolve {entry : TypeRef} (hvar : entry.typeVar = false)
    (h : index.resolve unit entry = some r.exception) : r.isTarget index unit entry := by
  simp [isTarget, hvar, h]

theorem not_isTarget_of_mem_remainingThrows {throws : Option (List TypeRef)} {entry : TypeRef}
    (h : entry ∈ (r.remainingThrows index unit throws).getD []) :
    ¬ r.isTarget index unit entry := by
  match throws with
  | none => cases h
  | some [] => cases h
  | some (e :: es) =>
    simp only [remainingThrows] at h
    split at h
    · cases h
    · simpa using (List.mem_filter.1 h).2

theorem not_isTarget_of_isMatch {enclosing : TypeHead} {m : Method} {entry : TypeRef}
    (hmatch : r.pattern.isMatch index unit enclosing m)
    (h : entry ∈ (r.stripped index unit enclosing m).throwsEntries) :
    ¬ r.isTarget index unit entry := by
  rw [stripped, if_pos hmatch] at h
  exact r.not_isTarget_of_mem_remainingThrows index unit h

/-! ## Visiting again -/

theorem isTarget_visited (entry : TypeRef) :
    r.isTarget index (r.visited index unit) entry = r.isTarget index unit entry := by
  rw [isTarget, isTarget, resolve_visited, visited_onDemandImports]

/-- The methods of a visited file come from the file. -/
theorem exists_of_mem_visited {owned : TypeHead × Method}
    (h : owned ∈ ownedMethodsOfTypes (r.visited index unit).types) :
    ∃ m, owned.2 = r.stripped index unit owned.1 m := by
  obtain ⟨t, ht, hhead, hmethod⟩ := (mem_ownedMethodsOfTypes_iff _).1 h
  have htypes : t ∈ (r.visited index unit).allTypes := ht
  rw [visited_allTypes] at htypes
  obtain ⟨d, -, rfl⟩ := List.mem_map.1 htypes
  rw [TypeDecl.methods_mapMethods] at hmethod
  rw [TypeDecl.head_mapMethods] at hhead
  obtain ⟨m, -, hm⟩ := List.mem_map.1 hmethod
  exact ⟨m, by rw [← hm, hhead]⟩

/-- In a visited file no method that the pattern matches names the exception. -/
theorem not_isTarget_of_isMatch_visited {owned : TypeHead × Method}
    (h : owned ∈ ownedMethodsOfTypes (r.visited index unit).types)
    (hmatch : r.pattern.isMatch index (r.visited index unit) owned.1 owned.2) {entry : TypeRef}
    (hentry : entry ∈ owned.2.throwsEntries) :
    ¬ r.isTarget index (r.visited index unit) entry := by
  obtain ⟨m, hm⟩ := r.exists_of_mem_visited index unit h
  rw [hm] at hmatch hentry
  rw [isMatch_visited, isMatch_stripped] at hmatch
  rw [isTarget_visited]
  exact r.not_isTarget_of_isMatch index unit hmatch hentry

theorem remainingThrows_eq_self {throws : Option (List TypeRef)}
    (h : ∀ entry ∈ throws.getD [], ¬ r.isTarget index unit entry) :
    r.remainingThrows index unit throws = throws := by
  match throws with
  | none => rfl
  | some [] => rfl
  | some (e :: es) =>
    have hkept : (e :: es).filter (fun e => !r.isTarget index unit e) = e :: es :=
      List.filter_eq_self.2 fun entry hentry => by simpa using h entry hentry
    rw [remainingThrows, hkept]
    rfl

theorem visitUnit_visited_removals :
    (r.visitUnit index (r.visited index unit)).log.removals = [] := by
  rw [visitUnit_removals_eq_nil_iff]
  intro owned howned
  unfold stripped
  split
  · next hmatch =>
    exact r.remainingThrows_eq_self index _ fun entry hentry =>
      r.not_isTarget_of_isMatch_visited index unit howned hmatch hentry
  · rfl

theorem visited_visited : r.visited index (r.visited index unit) = r.visited index unit := by
  rw [visited, r.visitUnit_eq_untouched index _ (r.visitUnit_visited_removals index unit),
    Option.getD_none]

/-- **A second visit changes nothing.** No matching method of a visited file names the exception,
    although names are resolved and methods matched in the visited file now, without the entries
    and imports that are gone. So the file is left alone, nothing is logged, and no second import
    goes. -/
theorem visitUnit_visited :
    (∀ owned ∈ ownedMethodsOfTypes (r.visited index unit).types,
      r.pattern.isMatch index (r.visited index unit) owned.1 owned.2 →
        ∀ entry ∈ owned.2.throwsEntries, ¬ r.isTarget index (r.visited index unit) entry) ∧
      r.visitUnit index (r.visited index unit) = ⟨none, ⟨[], false⟩⟩ :=
  ⟨fun _ howned hmatch _ hentry =>
    r.not_isTarget_of_isMatch_visited index unit howned hmatch hentry,
   r.visitUnit_eq_untouched index _ (r.visitUnit_visited_removals index unit)⟩

set_option maxRecDepth 20000 in
/-- The first visit takes the import along that has told what the entry is. -/
theorem visitUnit_visited_import_gone :
    let unit := (CompilationUnit.parse
      "import a.E;class A\x7bvoid f()throws E,F\x7b\x7d\x7d".toList).toOption.getD default
    let r := (Recipe.compile ⟨"A f()", "a.E", none⟩).toOption.getD default
    let index := TypeIndex.build [unit]
    let after := r.visited index unit
    (r.visitUnit index unit).log.importRemoved ∧
      (∃ owned ∈ ownedMethodsOfTypes after.types,
        r.pattern.isMatch index after owned.1 owned.2 ∧ owned.2.throwsEntries ≠ [] ∧
          ∀ entry ∈ owned.2.throwsEntries, ¬ r.isTarget index after entry) ∧
      r.visitUnit index after = ⟨none, ⟨[], false⟩⟩ := by
  intro unit r index after
  obtain ⟨himport, owned, howned, hmatch, hentries⟩ :
      (r.visitUnit index unit).log.importRemoved ∧
      ∃ owned ∈ ownedMethodsOfTypes after.types,
        r.pattern.isMatch index after owned.1 owned.2 ∧ owned.2.throwsEntries ≠ [] := by
    decide +kernel
  exact ⟨himport, ⟨owned, howned, hmatch, hentries,
    (r.visitUnit_visited index unit).1 owned howned hmatch⟩, (r.visitUnit_visited index unit).2⟩

end Removal
end JavaThrows
