import JavaThrows.Proofs.Pattern.Supertypes
import JavaThrows.Proofs.TypeIndex
import Mathlib.Data.List.Nodup

set_option autoImplicit false

/-!
# The order of the list of files

A later type replaces an earlier one of the same full name, so the order of the files counts where a
name is declared twice. Where none is, the list of the summaries follows the order of the files, and
that is all that the order decides: a lookup gives the same for every order, and neither resolving a
type nor a visit uses more of an index than lookups. Main statement: `build_perm`.
-/

namespace JavaThrows

open TypeIndex

/-! ## Visits look types up, and no more -/

section Lookups

variable {index other : TypeIndex} (h : ∀ fqn, index.get? fqn = other.get? fqn)

include h

theorem TypeIndex.contains_eq_of_get? (fqn : String) : index.contains fqn = other.contains fqn := by
  rw [contains_eq_isSome_get?, contains_eq_isSome_get?, h]

theorem reaches_eq_of_get? (indexed : SuperRef → TypeSummary → Bool) (foreign : SuperRef → Bool)
    (visited : List String) (waiting : List SuperRef) :
    reaches index indexed foreign visited waiting =
      reaches other indexed foreign visited waiting := by
  fun_induction reaches index indexed foreign visited waiting with
  | case1 => rw [reaches]
  | case2 visited s waiting hv ih => rw [reaches_of_visited hv, ih]
  | case3 visited s waiting hv summary hg ih =>
    rw [reaches_of_some hv (by rw [← h]; exact hg), ih]
  | case4 visited s waiting hv hg ih =>
    rw [reaches_of_none hv (by rw [← h]; exact hg), ih]

theorem MethodPattern.isMatch_eq_of_get? (p : MethodPattern) (unit : CompilationUnit)
    (enclosing : TypeHead) (m : Method) :
    p.isMatch index unit enclosing m = p.isMatch other unit enclosing m := by
  have hparams : erasedParams index unit m = erasedParams other unit m := by
    simp only [erasedParams, erasure_congr (contains_eq_of_get? h)]
  have hsupers : index.superRef unit = other.superRef unit :=
    funext (superRef_congr (contains_eq_of_get? h) unit)
  simp only [isMatch, hparams, hsupers, matchesSupertype, reaches_eq_of_get? h]

namespace Removal

variable (r : Removal) (unit : CompilationUnit)

theorem visitMethod_eq_of_get? (enclosing : TypeHead) (m : Method) :
    r.visitMethod index unit enclosing m = r.visitMethod other unit enclosing m := by
  have htarget : r.isTarget index unit = r.isTarget other unit := funext fun entry => by
    rw [isTarget, isTarget, resolve_congr (contains_eq_of_get? h)]
  rw [visitMethod, visitMethod, MethodPattern.isMatch_eq_of_get? h, strip?, strip?, htarget]

omit h in
mutual
theorem visitType_eq_of_get? (h : ∀ fqn, index.get? fqn = other.get? fqn) (d : TypeDecl) :
    r.visitType index unit d = r.visitType other unit d := by
  cases d with
  | mk head members => rw [visitType, visitType, visitMembers_eq_of_get? h head members]

theorem visitMembers_eq_of_get? (h : ∀ fqn, index.get? fqn = other.get? fqn)
    (enclosing : TypeHead) (members : List Member) :
    r.visitMembers index unit enclosing members = r.visitMembers other unit enclosing members := by
  match members with
  | [] => rw [visitMembers, visitMembers]
  | .method m locals :: members =>
    rw [visitMembers, visitMembers, visitTypes_eq_of_get? h locals, visitMethod_eq_of_get? h,
      visitMembers_eq_of_get? h enclosing members]
  | .type d :: members =>
    rw [visitMembers, visitMembers, visitType_eq_of_get? h d,
      visitMembers_eq_of_get? h enclosing members]

theorem visitTypes_eq_of_get? (h : ∀ fqn, index.get? fqn = other.get? fqn) (ds : List TypeDecl) :
    r.visitTypes index unit ds = r.visitTypes other unit ds := by
  match ds with
  | [] => rw [visitTypes, visitTypes]
  | d :: ds => rw [visitTypes, visitTypes, visitType_eq_of_get? h d, visitTypes_eq_of_get? h ds]
end

/-- Two indexes with the same lookups lead to the same visit, with the same log. -/
theorem visitUnit_eq_of_get? : r.visitUnit index unit = r.visitUnit other unit := by
  rw [visitUnit, visitUnit, r.visitTypes_eq_of_get? unit h]

theorem rewrite_eq_of_get? (source : List Char) :
    r.rewrite index source unit = r.rewrite other source unit := by
  rw [rewrite, rewrite, visitSource, visitSource, visitUnit_eq_of_get? h]

end Removal

end Lookups

/-! ## The summaries in another order -/

namespace TypeIndex

theorem get?_eq_some_iff {index : TypeIndex} (hnodup : (index.summaries.map TypeSummary.fqn).Nodup)
    {fqn : String} {s : TypeSummary} :
    index.get? fqn = some s ↔ s ∈ index.summaries ∧ s.fqn = fqn := by
  refine ⟨of_get?_eq_some, fun ⟨hs, hfqn⟩ => ?_⟩
  have hfound : (index.get? fqn).isSome := by
    rw [get?, List.find?_isSome]
    exact ⟨s, hs, by simpa using hfqn⟩
  obtain ⟨t, ht⟩ := Option.isSome_iff_exists.1 hfound
  obtain ⟨hmem, hname⟩ := of_get?_eq_some ht
  rw [ht, List.inj_on_of_nodup_map hnodup hmem hs (hname.trans hfqn.symm)]

/-- The order of summaries of different types does not change what is known of a type. -/
theorem get?_eq_of_perm {index other : TypeIndex} (hperm : other.summaries.Perm index.summaries)
    (hnodup : (index.summaries.map TypeSummary.fqn).Nodup) (fqn : String) :
    other.get? fqn = index.get? fqn := by
  have hother : (other.summaries.map TypeSummary.fqn).Nodup := (hperm.map _).nodup_iff.2 hnodup
  refine Option.ext fun s => ?_
  rw [get?_eq_some_iff hother, get?_eq_some_iff hnodup, hperm.mem_iff]

section Build

variable {units others : List CompilationUnit}

theorem declaredNames_perm (hperm : others.Perm units) :
    (declaredNames others).Perm (declaredNames units) :=
  hperm.flatMap_right _

theorem contains_build_perm (hperm : others.Perm units) (fqn : String) :
    (build others).contains fqn = (build units).contains fqn := by
  rw [contains_build, contains_build, contains_names, contains_names, Bool.eq_iff_iff,
    List.contains_iff_mem, List.contains_iff_mem, (declaredNames_perm hperm).mem_iff]

theorem summaries_build_perm (hperm : others.Perm units) (hdistinct : (declaredNames units).Nodup) :
    (build others).summaries.Perm (build units).summaries := by
  have hsummarize : (build others).summarize = (build units).summarize :=
    funext fun u => funext (summarize_congr (contains_build_perm hperm) u)
  rw [summaries_build hdistinct, summaries_build ((declaredNames_perm hperm).nodup_iff.2 hdistinct),
    hsummarize]
  exact hperm.flatMap_right _

theorem fqn_summaries_build (hdistinct : (declaredNames units).Nodup) :
    (build units).summaries.map TypeSummary.fqn = declaredNames units := by
  rw [summaries_build hdistinct]
  simp [declaredNames, List.map_flatMap, Function.comp_def, summarize]

/-- **The order of the files does not matter to the index.** Of files that declare no full name
    twice, the index holds one summary for each declared type and no other, its own one; files in
    another order give the same summaries in another order. So a lookup and the visit of a file
    come out the same for both, and the rewritten text with its log as well. -/
theorem build_perm (hperm : others.Perm units) (hdistinct : (declaredNames units).Nodup) :
    ((build units).summaries =
        units.flatMap fun u => u.allTypes.map ((build units).summarize u)) ∧
      (build others).summaries.Perm (build units).summaries ∧
      (∀ fqn, (build others).get? fqn = (build units).get? fqn) ∧
      ∀ (r : Removal) source unit,
        r.visitUnit (build others) unit = r.visitUnit (build units) unit ∧
          r.rewrite (build others) source unit = r.rewrite (build units) source unit := by
  have hsummaries := summaries_build_perm hperm hdistinct
  have hget : ∀ fqn, (build others).get? fqn = (build units).get? fqn :=
    get?_eq_of_perm hsummaries (by rw [fqn_summaries_build hdistinct]; exact hdistinct)
  exact ⟨summaries_build hdistinct, hsummaries, hget, fun r source unit =>
    ⟨r.visitUnit_eq_of_get? hget unit, r.rewrite_eq_of_get? hget unit source⟩⟩

set_option maxRecDepth 20000 in
/-- An interface of a package and a class of the package that implements it, in both orders: the
    class is known to override a method of the interface and loses the exception. -/
theorem build_perm_two_files :
    let parse (source : String) := (CompilationUnit.parse source.toList).toOption.getD default
    let interface := parse "package p;interface T\x7bvoid f()throws a.E;\x7d"
    let source := "package p;class S implements T\x7bpublic void f()throws a.E\x7b\x7d\x7d"
    let r := (Recipe.compile ⟨"p.T f()", "a.E", none⟩).toOption.getD default
    let units := [interface, parse source]
    let others := [parse source, interface]
    others.Perm units ∧ declaredNames units = ["p.T", "p.S"] ∧
      (build units).get? "p.S" =
        some ⟨"p.S", .classType, [⟨"p.T", true⟩], [⟨"f", []⟩]⟩ ∧
      (r.visitUnit (build units) (parse source)).log.removals.length = 1 ∧
      (build others).summaries.Perm (build units).summaries ∧
      r.rewrite (build others) source.toList (parse source) =
        r.rewrite (build units) source.toList (parse source) := by
  intro parse interface source r units others
  have hperm : others.Perm units := .swap _ _ _
  have hnames : declaredNames units = ["p.T", "p.S"] := by decide +kernel
  have hdistinct : (declaredNames units).Nodup := by rw [hnames]; decide
  obtain ⟨-, hsummaries, -, hvisits⟩ := build_perm hperm hdistinct
  exact ⟨hperm, hnames, by decide +kernel, by decide +kernel, hsummaries,
    (hvisits r source.toList (parse source)).2⟩

end Build

end TypeIndex
end JavaThrows
