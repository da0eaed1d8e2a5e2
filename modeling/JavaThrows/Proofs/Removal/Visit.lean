import JavaThrows.Removal.Visit

set_option autoImplicit false

/-!
# What a visit makes of a file

A visit threads three things through types nested in methods nested in types: the innermost
enclosing type, the log, and whether anything further down has changed. Here the visited file is
described without any of them: every method at every depth is replaced by itself without the
exception, and the log lists the methods that this has changed. Main statement:
`visitUnit_strips_matching_methods`.
-/

namespace JavaThrows

/-! ## The methods of a tree -/

mutual
/-- The type with every method at every depth replaced by what `f` makes of it and of its innermost
    enclosing type. All else stays. -/
def TypeDecl.mapMethods (f : TypeHead → Method → Method) : TypeDecl → TypeDecl
  | .mk head members => .mk head (mapMethodsOfMembers f head members)

def mapMethodsOfMembers (f : TypeHead → Method → Method) (enclosing : TypeHead) :
    List Member → List Member
  | [] => []
  | .method m locals :: ms =>
    .method (f enclosing m) (mapMethodsOfTypes f locals) :: mapMethodsOfMembers f enclosing ms
  | .type d :: ms => .type (d.mapMethods f) :: mapMethodsOfMembers f enclosing ms

def mapMethodsOfTypes (f : TypeHead → Method → Method) : List TypeDecl → List TypeDecl
  | [] => []
  | d :: ds => d.mapMethods f :: mapMethodsOfTypes f ds
end

mutual
/-- All methods inside a type with their innermost enclosing types; those of the types in the body
    of a method come before the method. -/
def TypeDecl.ownedMethods : TypeDecl → List (TypeHead × Method)
  | .mk head members => ownedMethodsOfMembers head members

def ownedMethodsOfMembers (enclosing : TypeHead) : List Member → List (TypeHead × Method)
  | [] => []
  | .method m locals :: ms =>
    ownedMethodsOfTypes locals ++ (enclosing, m) :: ownedMethodsOfMembers enclosing ms
  | .type d :: ms => d.ownedMethods ++ ownedMethodsOfMembers enclosing ms

def ownedMethodsOfTypes : List TypeDecl → List (TypeHead × Method)
  | [] => []
  | d :: ds => d.ownedMethods ++ ownedMethodsOfTypes ds
end

/-! ## What should become of a method -/

namespace Removal

variable (r : Removal) (index : TypeIndex) (unit : CompilationUnit)

/-- What is left of a throws clause: the entries that do not name the exception, in their order. A
    clause that has entries and loses all of them is gone. -/
def remainingThrows : Option (List TypeRef) → Option (List TypeRef)
  | none => none
  | some [] => some []
  | some (e :: es) =>
    let kept := (e :: es).filter fun e => !r.isTarget index unit e
    if kept.isEmpty then none else some kept

/-- A method without the exception, if the pattern matches it in its enclosing type. -/
def stripped (enclosing : TypeHead) (m : Method) : Method :=
  if r.pattern.isMatch index unit enclosing m then
    { m with throws := r.remainingThrows index unit m.throws }
  else m

/-- The entry of the log for a method; none for a method that keeps its throws clause. -/
def removedThrow? (owned : TypeHead × Method) : Option RemovedThrow :=
  if (r.stripped index unit owned.1 owned.2).throws = owned.2.throws then none
  else some ⟨owned.1.fqn, owned.2.name, owned.2.throwsSpan.getD owned.2.span⟩

/-- The log of the given methods. -/
def removalsOf (methods : List (TypeHead × Method)) : List RemovedThrow :=
  methods.filterMap (r.removedThrow? index unit)

/-- What a visit may make of a file: every method is stripped, the import of the exception may go
    where a method has changed, and the log has an entry for each method that has. -/
structure Strips (after : CompilationUnit) (log : VisitLog) : Prop where
  types : after.types = mapMethodsOfTypes (r.stripped index unit) unit.types
  package : after.package = unit.package
  imports : after.imports =
    if log.importRemoved then unit.imports.filter fun i => !i.importsType r.exception
    else unit.imports
  importRemoved : log.importRemoved → log.removals ≠ []
  removals : log.removals = r.removalsOf index unit (ownedMethodsOfTypes unit.types)

end Removal

/-! ## Visits of parts -/

namespace Visited

variable {α β γ : Type}

/-- The visit of a part turns `before` into `after` and logs the given removals, and it leaves the
    part untouched exactly if there are none. -/
structure Describes (v : Visited α) (before after : α) (removals : List RemovedThrow) : Prop where
  value : v.valueOr before = after
  logged : v.removals = removals
  untouched : v.changed = none ↔ removals = []

theorem describes_untouched (a : α) : Describes untouched a a [] :=
  ⟨rfl, rfl, by simp [untouched]⟩

theorem Describes.combine {va : Visited α} {vb : Visited β} {a a' : α} {b b' : β}
    {ra rb : List RemovedThrow} (make : α → β → γ) (ha : va.Describes a a' ra)
    (hb : vb.Describes b b' rb) :
    (Visited.combine make a b va vb).Describes (make a b) (make a' b') (ra ++ rb) := by
  obtain ⟨rfl, rfl, hau⟩ := ha
  obtain ⟨rfl, rfl, hbu⟩ := hb
  refine ⟨?_, rfl, ?_⟩
  · cases hca : va.changed <;> cases hcb : vb.changed <;>
      simp [Visited.combine, valueOr, hca, hcb]
  · rw [List.append_eq_nil_iff, ← hau, ← hbu]
    cases hca : va.changed <;> cases hcb : vb.changed <;> simp [Visited.combine, hca, hcb]

/-- A visit of a part is also a visit of what is built around it. -/
theorem Describes.map {v : Visited α} {a a' : α} {rs : List RemovedThrow} (make : α → β)
    (h : v.Describes a a' rs) :
    Describes ⟨v.changed.map make, v.removals⟩ (make a) (make a') rs := by
  obtain ⟨rfl, rfl, hu⟩ := h
  refine ⟨?_, rfl, ?_⟩
  · cases hc : v.changed <;> simp [valueOr, hc]
  · rw [← hu, Option.map_eq_none_iff]

end Visited

namespace Removal

variable (r : Removal) (index : TypeIndex) (unit : CompilationUnit)

theorem remainingThrows_of_isEmpty {m : Method} (h : m.throwsEntries.isEmpty) :
    r.remainingThrows index unit m.throws = m.throws := by
  unfold Method.throwsEntries at h
  match hm : m.throws with
  | none => rfl
  | some [] => rfl
  | some (e :: es) => simp [hm] at h

theorem remainingThrows_eq_self_iff {m : Method} (h : ¬ m.throwsEntries.isEmpty) :
    r.remainingThrows index unit m.throws = m.throws ↔
      (m.throwsEntries.filter fun e => !r.isTarget index unit e).length =
        m.throwsEntries.length := by
  unfold Method.throwsEntries at h ⊢
  match hm : m.throws with
  | none => simp [hm] at h
  | some [] => simp [hm] at h
  | some (e :: es) =>
    simp only [remainingThrows, Option.getD_some]
    constructor
    · intro heq
      split at heq
      · exact absurd heq (by simp)
      · rw [Option.some.inj heq]
    · intro hlength
      simp [List.filter_sublist.eq_of_length hlength]

theorem strip?_eq_none {m : Method} (h : ¬ m.throwsEntries.isEmpty)
    (hsame : r.remainingThrows index unit m.throws = m.throws) : r.strip? index unit m = none := by
  rw [strip?, if_pos ((r.remainingThrows_eq_self_iff index unit h).1 hsame)]

theorem strip?_eq_some {m : Method} (h : ¬ m.throwsEntries.isEmpty)
    (hless : r.remainingThrows index unit m.throws ≠ m.throws) :
    r.strip? index unit m =
      some { m with throws := r.remainingThrows index unit m.throws } := by
  rw [strip?, if_neg (mt (r.remainingThrows_eq_self_iff index unit h).2 hless)]
  unfold Method.throwsEntries at h ⊢
  match hm : m.throws with
  | none => simp [hm] at h
  | some [] => simp [hm] at h
  | some (e :: es) => rfl

theorem visitMethod_describes (enclosing : TypeHead) (m : Method) :
    (r.visitMethod index unit enclosing m).Describes m (r.stripped index unit enclosing m)
      (r.removedThrow? index unit (enclosing, m)).toList := by
  unfold visitMethod
  by_cases hempty : m.throwsEntries.isEmpty
  · have hkeeps : r.stripped index unit enclosing m = m := by
      simp [stripped, r.remainingThrows_of_isEmpty index unit hempty]
    simp only [hempty, Bool.true_or, if_true, removedThrow?, hkeeps, Option.toList_none]
    exact Visited.describes_untouched m
  · -- The visit counts entries, the description compares clauses.
    by_cases hmatch : r.pattern.isMatch index unit enclosing m
    · have hstripped : r.stripped index unit enclosing m =
          { m with throws := r.remainingThrows index unit m.throws } := if_pos hmatch
      rw [if_neg (by simp [hempty, hmatch]), removedThrow?, hstripped]
      by_cases hsame : r.remainingThrows index unit m.throws = m.throws
      · rw [r.strip?_eq_none index unit hempty hsame, if_pos hsame, hsame]
        exact Visited.describes_untouched m
      · rw [r.strip?_eq_some index unit hempty hsame, if_neg hsame]
        exact ⟨rfl, rfl, by simp⟩
    · have hkeeps : r.stripped index unit enclosing m = m := by simp [stripped, hmatch]
      simp only [hmatch, Bool.not_false, Bool.or_true, if_true, removedThrow?, hkeeps,
        Option.toList_none]
      exact Visited.describes_untouched m

/-! ## Visits of types -/

theorem removalsOf_append (as bs : List (TypeHead × Method)) :
    r.removalsOf index unit (as ++ bs) = r.removalsOf index unit as ++ r.removalsOf index unit bs :=
  List.filterMap_append

theorem removalsOf_cons (a : TypeHead × Method) (bs : List (TypeHead × Method)) :
    r.removalsOf index unit (a :: bs) =
      (r.removedThrow? index unit a).toList ++ r.removalsOf index unit bs := by
  cases h : r.removedThrow? index unit a <;> simp [removalsOf, h]

-- The recursion of the visit itself: types, their members, and the types in bodies of methods.
mutual
theorem visitType_describes (d : TypeDecl) :
    (r.visitType index unit d).Describes d (d.mapMethods (r.stripped index unit))
      (r.removalsOf index unit d.ownedMethods) := by
  cases d with
  | mk head members =>
    have h := visitMembers_describes head members
    rw [visitType, TypeDecl.mapMethods, TypeDecl.ownedMethods]
    exact h.map (TypeDecl.mk head)

theorem visitMembers_describes (enclosing : TypeHead) (ms : List Member) :
    (r.visitMembers index unit enclosing ms).Describes ms
      (mapMethodsOfMembers (r.stripped index unit) enclosing ms)
      (r.removalsOf index unit (ownedMethodsOfMembers enclosing ms)) := by
  match ms with
  | [] =>
    rw [visitMembers, mapMethodsOfMembers, ownedMethodsOfMembers]
    exact Visited.describes_untouched []
  | .method m locals :: ms =>
    have hlocals := visitTypes_describes locals
    have hmethod := r.visitMethod_describes index unit enclosing m
    have hrest := visitMembers_describes enclosing ms
    rw [visitMembers, mapMethodsOfMembers, ownedMethodsOfMembers, removalsOf_append,
      removalsOf_cons, ← List.append_assoc]
    exact (hlocals.combine (fun locals m => Member.method m locals) hmethod).combine _ hrest
  | .type d :: ms =>
    have htype := visitType_describes d
    have hrest := visitMembers_describes enclosing ms
    rw [visitMembers, mapMethodsOfMembers, ownedMethodsOfMembers, removalsOf_append]
    exact (htype.map Member.type).combine _ hrest

theorem visitTypes_describes (ds : List TypeDecl) :
    (r.visitTypes index unit ds).Describes ds (mapMethodsOfTypes (r.stripped index unit) ds)
      (r.removalsOf index unit (ownedMethodsOfTypes ds)) := by
  match ds with
  | [] =>
    rw [visitTypes, mapMethodsOfTypes, ownedMethodsOfTypes]
    exact Visited.describes_untouched []
  | d :: ds =>
    have htype := visitType_describes d
    have hrest := visitTypes_describes ds
    rw [visitTypes, mapMethodsOfTypes, ownedMethodsOfTypes, removalsOf_append]
    exact htype.combine _ hrest
end

/-! ## Visits of files -/

theorem dropUnusedImport_imports (u : CompilationUnit) (fqn : String) :
    (u.dropUnusedImport fqn).imports =
      if u.hasUnusedImport fqn then u.imports.filter fun i => !i.importsType fqn
      else u.imports := by
  unfold CompilationUnit.dropUnusedImport
  split <;> rfl

theorem dropUnusedImport_types (u : CompilationUnit) (fqn : String) :
    (u.dropUnusedImport fqn).types = u.types := by
  unfold CompilationUnit.dropUnusedImport
  split <;> rfl

theorem dropUnusedImport_package (u : CompilationUnit) (fqn : String) :
    (u.dropUnusedImport fqn).package = u.package := by
  unfold CompilationUnit.dropUnusedImport
  split <;> rfl

theorem visitUnit_of_changed_eq_none (h : (r.visitTypes index unit unit.types).changed = none) :
    r.visitUnit index unit =
      ⟨none, ⟨(r.visitTypes index unit unit.types).removals, false⟩⟩ := by
  simp only [visitUnit, h]

theorem visitUnit_of_changed_eq_some {types : List TypeDecl}
    (h : (r.visitTypes index unit unit.types).changed = some types) :
    r.visitUnit index unit =
      ⟨some (CompilationUnit.dropUnusedImport { unit with types } r.exception),
        ⟨(r.visitTypes index unit unit.types).removals,
          CompilationUnit.hasUnusedImport { unit with types } r.exception⟩⟩ := by
  simp only [visitUnit, h]

theorem visitUnit_types :
    ((r.visitUnit index unit).changed.getD unit).types =
      mapMethodsOfTypes (r.stripped index unit) unit.types := by
  have h := (r.visitTypes_describes index unit unit.types).value
  cases hc : (r.visitTypes index unit unit.types).changed with
  | none =>
    rw [r.visitUnit_of_changed_eq_none index unit hc]
    simpa [Visited.valueOr, hc] using h
  | some types =>
    rw [r.visitUnit_of_changed_eq_some index unit hc, Option.getD_some, dropUnusedImport_types]
    simpa [Visited.valueOr, hc] using h

theorem visitUnit_package : ((r.visitUnit index unit).changed.getD unit).package = unit.package := by
  cases hc : (r.visitTypes index unit unit.types).changed with
  | none => rw [r.visitUnit_of_changed_eq_none index unit hc, Option.getD_none]
  | some types =>
    rw [r.visitUnit_of_changed_eq_some index unit hc, Option.getD_some, dropUnusedImport_package]

theorem visitUnit_imports :
    ((r.visitUnit index unit).changed.getD unit).imports =
      if (r.visitUnit index unit).log.importRemoved then
        unit.imports.filter fun i => !i.importsType r.exception
      else unit.imports := by
  cases hc : (r.visitTypes index unit unit.types).changed with
  | none =>
    rw [r.visitUnit_of_changed_eq_none index unit hc]
    rfl
  | some types =>
    rw [r.visitUnit_of_changed_eq_some index unit hc, Option.getD_some, dropUnusedImport_imports]

theorem visitUnit_removals :
    (r.visitUnit index unit).log.removals =
      r.removalsOf index unit (ownedMethodsOfTypes unit.types) := by
  have h := (r.visitTypes_describes index unit unit.types).logged
  cases hc : (r.visitTypes index unit unit.types).changed with
  | none => rw [r.visitUnit_of_changed_eq_none index unit hc, h]
  | some types => rw [r.visitUnit_of_changed_eq_some index unit hc, h]

theorem visitUnit_changed_eq_none_iff :
    (r.visitUnit index unit).changed = none ↔ (r.visitUnit index unit).log.removals = [] := by
  have h := r.visitTypes_describes index unit unit.types
  rw [visitUnit_removals, ← h.untouched]
  cases hc : (r.visitTypes index unit unit.types).changed with
  | none => simp [r.visitUnit_of_changed_eq_none index unit hc]
  | some types => simp [r.visitUnit_of_changed_eq_some index unit hc]

theorem visitUnit_importRemoved (h : (r.visitUnit index unit).log.importRemoved) :
    (r.visitUnit index unit).log.removals ≠ [] := by
  rw [ne_eq, ← visitUnit_changed_eq_none_iff]
  intro hnone
  cases hc : (r.visitTypes index unit unit.types).changed with
  | none => simp [r.visitUnit_of_changed_eq_none index unit hc] at h
  | some types => simp [r.visitUnit_of_changed_eq_some index unit hc] at hnone

/-- **A visit strips exactly the matching methods.** Whatever the nesting, the file that comes back
    is the file with every matching method rid of the exception, with or without the import of the
    exception, and the log has one entry for each method that has changed. The file comes back as
    untouched exactly if the log is empty. -/
theorem visitUnit_strips_matching_methods :
    r.Strips index unit ((r.visitUnit index unit).changed.getD unit)
        (r.visitUnit index unit).log ∧
      ((r.visitUnit index unit).changed = none ↔ (r.visitUnit index unit).log.removals = []) := by
  refine ⟨?_, r.visitUnit_changed_eq_none_iff index unit⟩
  exact {
    types := r.visitUnit_types index unit
    package := r.visitUnit_package index unit
    imports := r.visitUnit_imports index unit
    importRemoved := r.visitUnit_importRemoved index unit
    removals := r.visitUnit_removals index unit }

end Removal
end JavaThrows
