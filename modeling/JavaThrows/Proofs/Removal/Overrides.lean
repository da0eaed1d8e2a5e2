import JavaThrows.Proofs.Pattern.Supertypes
import JavaThrows.Proofs.Removal.Visited
import JavaThrows.Proofs.TypeIndex

set_option autoImplicit false

/-!
# Overriding methods lose the exception too

A method must not throw more than the methods that it overrides. If a pattern takes an exception
from a method of an indexed type, then the same removal takes it from every overriding method that
the index can see, wherever that is declared. Two things limit this: the pattern looks at the
erased parameters of each method itself, which need not be those of the overridden method where
that one has a type variable; and the walk up the supertypes must not meet an unresolved reference
with the name of an indexed type. Main statement: `no_override_throws`.
-/

namespace JavaThrows

/-! ## Overriding methods match -/

namespace TypeIndex

/-- The full names of the types above the given supertypes, by way of resolved ones alone. -/
inductive ResolvedAbove (index : TypeIndex) (starts : List SuperRef) : String → Prop where
  | start {s : SuperRef} (hs : s ∈ starts) (hresolved : s.resolved) :
      ResolvedAbove index starts s.name
  | follow {s : SuperRef} {name : String} {summary : TypeSummary}
      (h : ResolvedAbove index starts name) (hget : index.get? name = some summary)
      (hs : s ∈ summary.supertypes) (hresolved : s.resolved) : ResolvedAbove index starts s.name

theorem ResolvedAbove.exists_reachable {index : TypeIndex} {starts : List SuperRef} {name : String}
    (h : index.ResolvedAbove starts name) : ∃ s, index.Reachable starts s ∧ s.name = name := by
  induction h with
  | start hs _ => exact ⟨_, .start hs, rfl⟩
  | follow _ hget hs _ ih =>
    obtain ⟨t, ht, rfl⟩ := ih
    exact ⟨_, .follow ht hget hs, rfl⟩

/-- Parameters that a signature without type variables accepts are its own. -/
theorem eq_of_accepts {index : TypeIndex} {unit : CompilationUnit} {m : Method} {name : String}
    {params : List String} (h : (index.signature unit m).accepts name params)
    (hvar : ParamType.typeVar ∉ (index.signature unit m).params) :
    params = MethodPattern.erasedParams index unit m := by
  simp only [MethodSignature.accepts, signature, Bool.and_eq_true, beq_iff_eq, List.length_map]
    at h hvar
  obtain ⟨⟨-, hlength⟩, hall⟩ := h
  unfold MethodPattern.erasedParams
  generalize m.params = ps at hlength hall hvar
  induction ps generalizing params with
  | nil => exact List.length_eq_zero_iff.1 hlength.symm
  | cons p ps ih =>
    cases params with
    | nil => cases hlength
    | cons actual params =>
      simp only [List.map_cons, List.mem_cons, not_or] at hvar
      simp only [List.map_cons, List.zip_cons_cons, List.all_cons, Bool.and_eq_true] at hall
      have hp : p.type.typeVar = false := by
        cases hvar' : p.type.typeVar with
        | false => rfl
        | true => exact absurd (by simp [hvar']) hvar.1
      have hactual : index.erasure unit p.type = actual := by
        simpa [hp, ParamType.accepts] using hall.1
      rw [List.map_cons, hactual, ih (by simpa using hlength) hall.2 hvar.2]

end TypeIndex

namespace MethodPattern

/-- The pattern matches a method by the type that declares it. -/
structure Selects (p : MethodPattern) (index : TypeIndex) (unit : CompilationUnit) (d : TypeDecl)
    (m : Method) : Prop where
  declared : m ∈ d.methods
  target : p.target.isMatch d.fqn
  name : p.nameMatches m
  args : argsMatch p.args (erasedParams index unit m)

/-- A method overrides another one, as far as an index tells: the type of that one is above its own
    type, and the signature of that one takes its name and parameters. -/
structure Overrides (index : TypeIndex) (unit : CompilationUnit) (d : TypeDecl) (m : Method)
    (overriddenFqn : String) (overridden : MethodSignature) : Prop where
  declared : m ∈ d.methods
  isMethod : m.isConstructor = false
  above : index.ResolvedAbove (d.head.supertypes.map (index.superRef unit)) overriddenFqn
  accepted : overridden.accepts m.name (erasedParams index unit m)

variable {p : MethodPattern} {units : List CompilationUnit}

/-- An overriding method overrides one that the pattern matches, in terms of the hierarchy. -/
theorem Overrides.overridesAt (hdistinct : (TypeIndex.declaredNames units).Nodup)
    {unitT unitS : CompilationUnit} (hunitT : unitT ∈ units) {T S : TypeDecl}
    (hT : T ∈ unitT.allTypes) {t s : Method} (ht : p.Selects (.build units) unitT T t)
    (hs : Overrides (.build units) unitS S s T.fqn ((TypeIndex.build units).signature unitT t)) :
    p.OverridesAt (.build units) s (erasedParams (.build units) unitS s) T.fqn := by
  refine ⟨ht.target, .inl ⟨_, TypeIndex.get?_build hdistinct hunitT hT, ?_⟩⟩
  refine List.any_eq_true.2 ⟨(TypeIndex.build units).signature unitT t, ?_, hs.accepted⟩
  exact List.mem_map_of_mem ht.declared

/-- The pattern matches an overriding method if its arguments fit. -/
theorem Overrides.isMatch (hoverrides : p.matchOverrides)
    (hdistinct : (TypeIndex.declaredNames units).Nodup)
    {unitT unitS : CompilationUnit} (hunitT : unitT ∈ units) {T S : TypeDecl}
    (hT : T ∈ unitT.allTypes) {t s : Method} (ht : p.Selects (.build units) unitT T t)
    (htm : t.isConstructor = false)
    (hs : Overrides (.build units) unitS S s T.fqn ((TypeIndex.build units).signature unitT t))
    (hknown : p.WalksKnown (.build units) s (erasedParams (.build units) unitS s)
      (S.head.supertypes.map ((TypeIndex.build units).superRef unitS)))
    (hargs : ParamType.typeVar ∈ ((TypeIndex.build units).signature unitT t).params →
      argsMatch p.args (erasedParams (.build units) unitS s)) :
    p.isMatch (.build units) unitS S.head s := by
  have haccepted := hs.accepted
  have hsname : t.name = s.name := by
    simp only [MethodSignature.accepts, Bool.and_eq_true, beq_iff_eq] at haccepted
    exact haccepted.1.1
  have hname : p.nameMatches s := by simpa [nameMatches, htm, hs.isMethod, hsname] using ht.name
  have hfits : argsMatch p.args (erasedParams (.build units) unitS s) := by
    by_cases hvar : ParamType.typeVar ∈ ((TypeIndex.build units).signature unitT t).params
    · exact hargs hvar
    · rw [TypeIndex.eq_of_accepts haccepted hvar]
      exact ht.args
  have habove : p.matchesSupertype (.build units) s (erasedParams (.build units) unitS s)
      (S.head.supertypes.map ((TypeIndex.build units).superRef unitS)) := by
    obtain ⟨ref, href, hfqn⟩ := hs.above.exists_reachable
    exact (p.matchesSupertype_iff _ s _ hknown).2
      ⟨ref, href, hfqn ▸ hs.overridesAt hdistinct hunitT hT ht⟩
  simp [MethodPattern.isMatch, hname, hfits, hoverrides, hs.isMethod, habove]

end MethodPattern

namespace Removal

variable (r : Removal) {units : List CompilationUnit}

/-- **No overriding method keeps the exception.** Let a pattern match the method `t` of the indexed
    type `T` by the name of the type, and let `s` be a method of a visited file that overrides `t`
    by what the index has recorded of it. Then no entry of `s` resolves to the exception after the
    visit, if the walk up from the type of `s` meets no unresolved name of an indexed type, and if
    the pattern takes the parameters of `s` too where `t` has a type variable. -/
theorem no_override_throws (hdistinct : (TypeIndex.declaredNames units).Nodup)
    (hoverrides : r.pattern.matchOverrides) {unitT unitS : CompilationUnit} (hunitT : unitT ∈ units)
    {T S : TypeDecl} (hT : T ∈ unitT.allTypes) {t s : Method}
    (ht : r.pattern.Selects (.build units) unitT T t) (htm : t.isConstructor = false)
    (hS : S ∈ (r.visited (.build units) unitS).allTypes)
    (hs : MethodPattern.Overrides (.build units) (r.visited (.build units) unitS) S s T.fqn
      ((TypeIndex.build units).signature unitT t))
    (hknown : r.pattern.WalksKnown (.build units) s
      (MethodPattern.erasedParams (.build units) (r.visited (.build units) unitS) s)
      (S.head.supertypes.map
        ((TypeIndex.build units).superRef (r.visited (.build units) unitS))))
    (hargs : ParamType.typeVar ∈ ((TypeIndex.build units).signature unitT t).params →
      MethodPattern.argsMatch r.pattern.args
        (MethodPattern.erasedParams (.build units) (r.visited (.build units) unitS) s)) :
    ∀ entry ∈ s.throwsEntries, entry.typeVar = false →
      (TypeIndex.build units).resolve (r.visited (.build units) unitS) entry ≠
        some r.exception := by
  intro entry hentry hvar hresolve
  have hmatch : r.pattern.isMatch (.build units) (r.visited (.build units) unitS) S.head s :=
    hs.isMatch hoverrides hdistinct hunitT hT ht htm hknown hargs
  -- The visited type and method come from the file, and they match there just as well.
  rw [visited_allTypes] at hS
  obtain ⟨D, -, rfl⟩ := List.mem_map.1 hS
  have hdeclared := hs.declared
  rw [TypeDecl.methods_mapMethods] at hdeclared
  obtain ⟨m, -, rfl⟩ := List.mem_map.1 hdeclared
  rw [isMatch_visited, TypeDecl.head_mapMethods, isMatch_stripped] at hmatch
  rw [resolve_visited] at hresolve
  exact r.not_isTarget_of_isMatch _ unitS hmatch hentry
    (r.isTarget_of_resolve _ unitS hvar hresolve)

set_option maxRecDepth 20000 in
/-- An interface, and a class in another file that implements it. -/
theorem no_override_throws_two_files :
    let unitT := (CompilationUnit.parse
      "interface T\x7bvoid f()throws a.E;\x7d".toList).toOption.getD default
    let unitS := (CompilationUnit.parse
      "class S implements T\x7bpublic void f()throws a.E\x7b\x7d\x7d".toList).toOption.getD default
    let index := TypeIndex.build [unitT, unitS]
    let r := (Recipe.compile ⟨"T f()", "a.E", none⟩).toOption.getD default
    let after := r.visited index unitS
    (∃ S ∈ unitS.allTypes, ∃ s ∈ S.methods, ∃ entry ∈ s.throwsEntries,
        index.resolve unitS entry = some r.exception) ∧
      ∀ S ∈ after.allTypes, ∀ s ∈ S.methods, ∀ entry ∈ s.throwsEntries, entry.typeVar = false →
        index.resolve after entry ≠ some r.exception := by
  intro unitT unitS index r after
  obtain ⟨hdistinct, hoverrides, hbefore⟩ :
      (TypeIndex.declaredNames [unitT, unitS]).Nodup ∧ r.pattern.matchOverrides ∧
      ∃ S ∈ unitS.allTypes, ∃ s ∈ S.methods, ∃ entry ∈ s.throwsEntries,
        index.resolve unitS entry = some r.exception := by
    decide +kernel
  obtain ⟨T, hT, t, ht, htarget, hname, hargs, htm, hall⟩ :
      ∃ T ∈ unitT.allTypes, ∃ t ∈ T.methods,
        r.pattern.target.isMatch T.fqn ∧ r.pattern.nameMatches t ∧
        MethodPattern.argsMatch r.pattern.args (MethodPattern.erasedParams index unitT t) ∧
        t.isConstructor = false ∧
        ∀ S ∈ after.allTypes, ∀ s ∈ S.methods,
          s.isConstructor = false ∧
          (∃ ref ∈ S.head.supertypes.map (index.superRef after),
            ref.resolved ∧ ref.name = T.fqn) ∧
          (index.signature unitT t).accepts s.name (MethodPattern.erasedParams index after s) ∧
          (∀ ref ∈ r.pattern.walk index s (MethodPattern.erasedParams index after s)
              (S.head.supertypes.map (index.superRef after)),
            ref.resolved = false → index.get? ref.name = none) ∧
          ParamType.typeVar ∉ (index.signature unitT t).params := by
    decide +kernel
  refine ⟨hbefore, fun S hS s hs => ?_⟩
  obtain ⟨hsm, ⟨ref, href, hresolved, hfqn⟩, haccepts, hknown, hvar⟩ := hall S hS s hs
  have habove : index.ResolvedAbove (S.head.supertypes.map (index.superRef after)) T.fqn :=
    hfqn ▸ .start href hresolved
  exact r.no_override_throws hdistinct hoverrides List.mem_cons_self hT
    ⟨ht, htarget, hname, hargs⟩ htm hS ⟨hs, hsm, habove, haccepts⟩ hknown
    fun h => absurd h hvar

/-- Some method keeps the exception although it overrides one that has lost it, by what the index
    has recorded. -/
def LeavesOverride (r : Removal) (units : List CompilationUnit) : Prop :=
  let index := TypeIndex.build units
  ∃ unitT ∈ units, ∃ T ∈ unitT.allTypes, ∃ t,
    r.pattern.Selects index unitT T t ∧ t.isConstructor = false ∧
    (r.stripped index unitT T.head t).throws ≠ t.throws ∧
    ∃ unitS ∈ units, ∃ S ∈ (r.visited index unitS).allTypes, ∃ s,
      MethodPattern.Overrides index (r.visited index unitS) S s T.fqn (index.signature unitT t) ∧
      ∃ entry ∈ s.throwsEntries, entry.typeVar = false ∧
        index.resolve (r.visited index unitS) entry = some r.exception

/-- The part of `LeavesOverride` that can be evaluated, for two given files. -/
def keepsOverridden (r : Removal) (units : List CompilationUnit)
    (unitT unitS : CompilationUnit) : Bool :=
  let index := TypeIndex.build units
  let after := r.visited index unitS
  unitT.allTypes.any fun T => T.methods.any fun t =>
    !t.isConstructor && r.pattern.target.isMatch T.fqn && r.pattern.nameMatches t &&
      MethodPattern.argsMatch r.pattern.args (MethodPattern.erasedParams index unitT t) &&
      (r.stripped index unitT T.head t).throws != t.throws &&
      after.allTypes.any fun S => S.methods.any fun s =>
        !s.isConstructor &&
        (index.signature unitT t).accepts s.name (MethodPattern.erasedParams index after s) &&
        s.throwsEntries.any fun entry =>
          !entry.typeVar && index.resolve after entry == some r.exception

theorem leavesOverride_of_above {unitT unitS : CompilationUnit} (hunitT : unitT ∈ units)
    (hunitS : unitS ∈ units)
    (habove : ∀ T ∈ unitT.allTypes, ∀ S ∈ (r.visited (.build units) unitS).allTypes,
      (TypeIndex.build units).ResolvedAbove (S.head.supertypes.map
        ((TypeIndex.build units).superRef (r.visited (.build units) unitS))) T.fqn)
    (h : r.keepsOverridden units unitT unitS) : r.LeavesOverride units := by
  simp only [keepsOverridden, List.any_eq_true, Bool.and_eq_true, Bool.not_eq_true', bne_iff_ne,
    beq_iff_eq] at h
  obtain ⟨T, hT, t, ht, ⟨⟨⟨⟨htm, htarget⟩, hname⟩, hargs⟩, hloses⟩, S, hS, s, hs,
    ⟨hsm, haccepts⟩, hentry⟩ := h
  exact ⟨unitT, hunitT, T, hT, t, ⟨ht, htarget, hname, hargs⟩, htm, hloses, unitS, hunitS, S, hS,
    s, ⟨hs, hsm, habove T hT S hS, haccepts⟩, hentry⟩

set_option maxRecDepth 20000 in
/-- Neither condition can go: a pattern with the erasure of a type variable does not match the
    method that has a type argument in its place; and a walk that meets an unresolved `T` does not
    follow the indexed one, which it reaches by way of `Mid`. -/
theorem leavesOverride_type_var_and_unresolved_name :
    let parse (source : String) := (CompilationUnit.parse source.toList).toOption.getD default
    let compile (pattern : String) :=
      (Recipe.compile ⟨pattern, "a.E", none⟩).toOption.getD default
    let generic := [parse "interface T<X>\x7bvoid f(X x)throws a.E;\x7d",
      parse "class S implements T<String>\x7bpublic void f(String x)throws a.E\x7b\x7d\x7d"]
    let twice := [parse "interface T\x7bvoid f()throws a.E;\x7d",
      parse "package p;import Mid;class S implements T,Mid\x7bpublic void f()throws a.E\x7b\x7d\x7d",
      parse "interface Mid extends T\x7b\x7d"]
    ((TypeIndex.declaredNames generic).Nodup ∧ (compile "T f(Object)").pattern.matchOverrides ∧
        (compile "T f(Object)").LeavesOverride generic) ∧
      (TypeIndex.declaredNames twice).Nodup ∧ (compile "T f()").pattern.matchOverrides ∧
        (compile "T f()").LeavesOverride twice := by
  intro parse compile generic twice
  constructor
  · let index := TypeIndex.build generic
    let r := compile "T f(Object)"
    let after := r.visited index generic[1]
    have hT : generic[0] ∈ generic := List.getElem_mem _
    have hS : generic[1] ∈ generic := List.getElem_mem _
    obtain ⟨hdistinct, hoverrides, hdirect, hkeeps⟩ :
        (TypeIndex.declaredNames generic).Nodup ∧ r.pattern.matchOverrides ∧
        (∀ T ∈ generic[0].allTypes, ∀ S ∈ after.allTypes,
          ∃ ref ∈ S.head.supertypes.map (index.superRef after), ref.resolved ∧ ref.name = T.fqn) ∧
        r.keepsOverridden generic generic[0] generic[1] := by
      decide +kernel
    refine ⟨hdistinct, hoverrides, leavesOverride_of_above _ hT hS (fun T hT S hS => ?_) hkeeps⟩
    obtain ⟨ref, href, hresolved, hfqn⟩ := hdirect T hT S hS
    exact hfqn ▸ .start href hresolved
  · let index := TypeIndex.build twice
    let r := compile "T f()"
    let after := r.visited index twice[1]
    have hT : twice[0] ∈ twice := List.getElem_mem _
    have hS : twice[1] ∈ twice := List.getElem_mem _
    obtain ⟨hdistinct, hoverrides, hindirect, hkeeps⟩ :
        (TypeIndex.declaredNames twice).Nodup ∧ r.pattern.matchOverrides ∧
        (∀ T ∈ twice[0].allTypes, ∀ S ∈ after.allTypes,
          ∃ mid ∈ S.head.supertypes.map (index.superRef after), mid.resolved ∧
            ∃ summary ∈ (index.get? mid.name).toList, ∃ ref ∈ summary.supertypes,
              ref.resolved ∧ ref.name = T.fqn) ∧
        r.keepsOverridden twice twice[0] twice[1] := by
      decide +kernel
    refine ⟨hdistinct, hoverrides, leavesOverride_of_above _ hT hS (fun T hT S hS => ?_) hkeeps⟩
    obtain ⟨mid, hmid, hmidResolved, summary, hsummary, ref, href, hresolved, hfqn⟩ :=
      hindirect T hT S hS
    exact hfqn ▸ .follow (.start hmid hmidResolved) (Option.mem_toList.1 hsummary) href hresolved

end Removal
end JavaThrows
