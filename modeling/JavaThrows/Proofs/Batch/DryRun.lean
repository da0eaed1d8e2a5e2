import JavaThrows.Proofs.Batch.Containment

set_option autoImplicit false

/-!
# What a dry run tells

A dry run tells what a run would change, but it does not ask where the files lie that it would
write. It tells each change of the real run and no failure that the real run does not tell, and the
two reports agree exactly if the real run may write each file that it changes
(`dryRun_predicts_iff`). A link out of the root directory is told as a change by the dry run and as
a failure by the real one (`dryRun_of_link_to_outside`).
-/

namespace JavaThrows

section Choices

variable {α β : Type} {f g : α → Option β} {xs : List α}

theorem filterMap_sublist_filterMap (h : ∀ x ∈ xs, ∀ b, f x = some b → g x = some b) :
    (xs.filterMap f).Sublist (xs.filterMap g) := by
  induction xs with
  | nil => exact .slnil
  | cons x xs ih =>
    obtain ⟨hx, hxs⟩ := List.forall_mem_cons.1 h
    cases hf : f x with
    | some b =>
      rw [List.filterMap_cons_some hf, List.filterMap_cons_some (hx b hf)]
      exact (ih hxs).cons_cons b
    | none =>
      rw [List.filterMap_cons_none hf, List.filterMap_cons]
      split
      · exact ih hxs
      · exact (ih hxs).cons _

/-- Where all that is chosen first is chosen again, the choices give the same only if they agree. -/
theorem eq_of_filterMap_eq (h : ∀ x ∈ xs, ∀ b, f x = some b → g x = some b)
    (heq : xs.filterMap f = xs.filterMap g) : ∀ x ∈ xs, f x = g x := by
  induction xs with
  | nil => simp
  | cons x xs ih =>
    obtain ⟨hx, hxs⟩ := List.forall_mem_cons.1 h
    rw [List.forall_mem_cons]
    cases hf : f x with
    | some b =>
      have hg := hx b hf
      rw [List.filterMap_cons_some hf, List.filterMap_cons_some hg, List.cons.injEq] at heq
      exact ⟨hg.symm, ih hxs heq.2⟩
    | none =>
      cases hg : g x with
      | none =>
        rw [List.filterMap_cons_none hf, List.filterMap_cons_none hg] at heq
        exact ⟨rfl, ih hxs heq⟩
      | some b =>
        have hlength := (filterMap_sublist_filterMap hxs).length_le
        rw [List.filterMap_cons_none hf, List.filterMap_cons_some hg] at heq
        rw [heq, List.length_cons] at hlength
        omega

end Choices

theorem FileResult.fixedFile?_eq_none_of_error? {r : FileResult} {error : String}
    (h : r.error? = some error) : r.fixedFile? = none := by
  cases r with
  | unchanged => rfl
  | failed => rfl
  | changed => cases h

section Run

variable {removal : Removal} {o : BatchOptions} {t : FileTree}
  {refusal : Location → Option FileFault} {files : List String} {path : String}

variable (removal o t refusal files path) in
/-- A real run fails where the dry run does, and with what the dry run tells as a change if it may
    not be written. -/
theorem error?_fate_real :
    (fate removal { o with dryRun := false } refusal t files path).error? =
      match (fate removal { o with dryRun := true } refusal t files path).fixedFile?,
        t.writeTarget o.root refusal path with
      | some _, .error message => some message
      | _, _ => (fate removal { o with dryRun := true } refusal t files path).error? := by
  cases hload : loadFile t path with
  | error e => simp [fate, hload, FileResult.fixedFile?, FileResult.error?]
  | ok f =>
    simp only [fate_of_loadFile hload, processFile, FileTree.path_of_loadFile hload]
    cases removal.rewrite (t.indexOf files) f.source f.unit with
    | error cause => simp [FileResult.fixedFile?, FileResult.error?]
    | ok out =>
      cases hchanged : out.isChanged <;> cases t.writeTarget o.root refusal path <;>
        simp [hchanged, FileResult.fixedFile?, FileResult.error?]

theorem fixedFile?_fate_dry_of_real {entry : FixedFile}
    (h : (fate removal { o with dryRun := false } refusal t files path).fixedFile? = some entry) :
    (fate removal { o with dryRun := true } refusal t files path).fixedFile? = some entry := by
  rw [fixedFile?_fate_eq_some_iff] at h ⊢
  exact ⟨nofun, h.2⟩

theorem failureOf?_real_of_dry {failure : FailedFile}
    (h : failureOf? removal { o with dryRun := true } refusal t files path = some failure) :
    failureOf? removal { o with dryRun := false } refusal t files path = some failure := by
  obtain ⟨error, herror, rfl⟩ := Option.map_eq_some_iff.1 h
  have hnone := FileResult.fixedFile?_eq_none_of_error? herror
  rw [failureOf?, error?_fate_real, hnone, herror]
  rfl

/-- What becomes of a file that the real run may write is the same in both runs but for the write. -/
theorem fate_real_agrees
    (h : ∀ f out, Rewrites removal t files path f out →
      ∃ l, t.writeTarget o.root refusal path = .ok l) :
    (fate removal { o with dryRun := false } refusal t files path).fixedFile? =
        (fate removal { o with dryRun := true } refusal t files path).fixedFile? ∧
      (fate removal { o with dryRun := false } refusal t files path).error? =
        (fate removal { o with dryRun := true } refusal t files path).error? := by
  cases hdry : (fate removal { o with dryRun := true } refusal t files path).fixedFile? with
  | none =>
    refine ⟨Option.eq_none_iff_forall_ne_some.2 fun entry hreal => ?_, ?_⟩
    · rw [fixedFile?_fate_dry_of_real hreal] at hdry
      cases hdry
    · rw [error?_fate_real, hdry]
  | some entry =>
    obtain ⟨-, f, out, hrewrites, hentry⟩ := fixedFile?_fate_eq_some_iff.1 hdry
    obtain ⟨l, hl⟩ := h f out hrewrites
    refine ⟨fixedFile?_fate_eq_some_iff.2 ⟨fun _ => ⟨l, hl⟩, f, out, hrewrites, hentry⟩, ?_⟩
    rw [error?_fate_real, hdry, hl]

/-- **A dry run predicts the real run exactly if all that changes may be written.** In any case it
    tells each change of the real run, and no failure that the real run does not tell. -/
theorem dryRun_predicts_iff (recipe : Recipe) (removal : Removal) (o : BatchOptions) (t : FileTree)
    (paths : List String) (refusal : Location → Option FileFault) :
    let files := t.collect o.filter paths
    let report (isDry : Bool) :=
      (runRemoval recipe removal { o with dryRun := isDry } t paths refusal).report
    ((report false).fixed.Sublist (report true).fixed ∧
        (report true).failures.Sublist (report false).failures) ∧
      ((report true).fixed = (report false).fixed ∧
          (report true).failures = (report false).failures ↔
        ∀ path ∈ files, ∀ f out, Rewrites removal t files path f out →
          ∃ l, t.writeTarget o.root refusal path = .ok l) := by
  intro files report
  have hfixed (isDry : Bool) : (report isDry).fixed = files.filterMap fun path =>
      (fate removal { o with dryRun := isDry } refusal t files path).fixedFile? :=
    fixed_runRemoval recipe removal { o with dryRun := isDry } t paths refusal
  have hfailures (isDry : Bool) : (report isDry).failures = files.filterMap t.loadFailure? ++
      (files.filter t.loads).filterMap
        (failureOf? removal { o with dryRun := isDry } refusal t files) :=
    failures_runRemoval recipe removal { o with dryRun := isDry } t paths refusal
  have hchanges : ∀ path ∈ files, ∀ entry,
      (fate removal { o with dryRun := false } refusal t files path).fixedFile? = some entry →
        (fate removal { o with dryRun := true } refusal t files path).fixedFile? = some entry :=
    fun _ _ _ => fixedFile?_fate_dry_of_real
  simp only [hfixed, hfailures, List.append_cancel_left_eq]
  refine ⟨⟨filterMap_sublist_filterMap hchanges, ?_⟩, ?_, fun hwritable => ⟨?_, ?_⟩⟩
  · exact List.Sublist.append_left
      (filterMap_sublist_filterMap fun _ _ _ => failureOf?_real_of_dry) _
  · rintro ⟨heq, -⟩ path hpath f out h
    have hsame := eq_of_filterMap_eq hchanges heq.symm path hpath
    have hdry : (fate removal { o with dryRun := true } refusal t files path).fixedFile? =
        some (f.fixedFile out) := fixedFile?_fate_eq_some_iff.2 ⟨nofun, f, out, h, rfl⟩
    exact (fixedFile?_fate_eq_some_iff.1 (hsame.trans hdry)).1 rfl
  · exact List.filterMap_congr fun path hpath =>
      (fate_real_agrees (hwritable path hpath)).1.symm
  · refine List.filterMap_congr fun path hpath => ?_
    rw [failureOf?, failureOf?,
      (fate_real_agrees (hwritable path (List.mem_filter.1 hpath).1)).2]

end Run

/-! ## A link out of the root directory -/

namespace LinkOut

def source : String :=
  "class A\x7bvoid f()throws a.E\x7b\x7d\x7d"

/-- The directory `sub` has a link to the file beside it. -/
def tree : FileTree :=
  ⟨.dir [("A.java", .file source.toUTF8), ("sub", .dir [("L.java", .link "../A.java")])], []⟩

def recipe : Recipe := ⟨"A f()", "a.E", none⟩

def removal : Removal := recipe.compile.toOption.getD default

def options (isDry : Bool) : BatchOptions :=
  { (default : BatchOptions) with root := "sub", dryRun := isDry }

def unit : CompilationUnit := (CompilationUnit.parse source.toList).toOption.getD default

theorem parse_source : CompilationUnit.parse source.toList = .ok unit := by
  have hsome : (CompilationUnit.parse source.toList).toOption.isSome := by decide +kernel
  cases h : CompilationUnit.parse source.toList with
  | error e => rw [h] at hsome; cases hsome
  | ok u => simp only [unit, h, Except.toOption, Option.getD_some]

theorem locate_link : tree.locate "sub/L.java" = .ok ["A.java"] := by
  have htop : tree.root.kindAt? [] = some .dir := rfl
  have hsub : tree.root.kindAt? ["sub"] = some .dir := rfl
  have hlink : tree.root.kindAt? ["sub", "L.java"] = some (.link "../A.java") := rfl
  have hfile : tree.root.kindAt? ["A.java"] = some .file := rfl
  have hsteps : FileTree.steps "sub/L.java" = [.name "sub", .name "L.java"] := by decide
  have hback : FileTree.steps "../A.java" = [.up, .name "A.java"] := by decide
  show FileTree.follow tree.root false 40 [] (FileTree.steps "sub/L.java") = _
  rw [hsteps]
  simp [FileTree.follow_name_cons, FileTree.follow_up_cons, FileTree.follow, htop, hsub, hlink,
    hback, hfile]

theorem locate_root : tree.locate "sub" = .ok ["sub"] := by
  have htop : tree.root.kindAt? [] = some .dir := rfl
  have hsub : tree.root.kindAt? ["sub"] = some .dir := rfl
  have hsteps : FileTree.steps "sub" = [.name "sub"] := by decide
  show FileTree.follow tree.root false 40 [] (FileTree.steps "sub") = _
  rw [hsteps]
  simp [FileTree.follow_name_cons, FileTree.follow, htop, hsub]

theorem writeTarget_link : tree.writeTarget "sub" (fun _ => none) "sub/L.java" =
    .error "Path traversal detected: sub/L.java is outside of sub" := by
  rw [FileTree.writeTarget, FileTree.locateWithin, locate_link, locate_root]
  decide

theorem loadFile_link :
    loadFile tree "sub/L.java" = .ok ⟨"sub/L.java", source.toList, unit⟩ := by
  have htext : tree.readText "sub/L.java" = .ok source :=
    FileTree.readText_eq_ok_iff.2 ⟨_, _, locate_link, rfl, by decide +kernel⟩
  exact FileTree.loadFile_eq_ok_iff.2 ⟨source, unit, htext, parse_source, rfl⟩

def fateOf (isDry : Bool) : FileResult :=
  fate removal (options isDry) (fun _ => none) tree ["sub/L.java"] "sub/L.java"

theorem fate_dry : (fateOf true).fixedFile? = some ⟨"sub/L.java", [⟨"A", "f", 1⟩], false⟩ ∧
    (fateOf true).error? = none := by
  have hindex : tree.indexOf ["sub/L.java"] = .build [unit] := by
    simp [FileTree.indexOf, loadFile_link, Except.toOption]
  simp only [fateOf, fate_of_loadFile loadFile_link, hindex]
  decide +kernel

theorem fate_real : (fateOf false).fixedFile? = none ∧ (fateOf false).error? =
    some "Path traversal detected: sub/L.java is outside of sub" := by
  refine ⟨Option.eq_none_iff_forall_ne_some.2 fun entry h => ?_, ?_⟩
  · obtain ⟨l, hl⟩ := (fixedFile?_fate_eq_some_iff.1 h).1 rfl
    cases writeTarget_link.symm.trans hl
  · have hdry : (fate removal { options false with dryRun := true } (fun _ => none) tree
        ["sub/L.java"] "sub/L.java").fixedFile? = _ := fate_dry.1
    have hreal := error?_fate_real removal (options false) tree (fun _ => none) ["sub/L.java"]
      "sub/L.java"
    rw [hdry, show (options false).root = "sub" from rfl, writeTarget_link] at hreal
    exact hreal

end LinkOut

open LinkOut in
/-- **A dry run tells a change of a file that is not written.** The link leads out of the root
    directory, and the real run tells a failure instead. -/
theorem dryRun_of_link_to_outside :
    let report (isDry : Bool) :=
      (runRemoval recipe removal (options isDry) tree ["sub/L.java"]).report
    recipe.compile.toOption.isSome ∧
      (report true).fixed = [⟨"sub/L.java", [⟨"A", "f", 1⟩], false⟩] ∧
      (report true).failures = [] ∧ (report false).fixed = [] ∧
      (report false).failures =
        [⟨"sub/L.java", "Path traversal detected: sub/L.java is outside of sub"⟩] := by
  intro report
  have hreport (isDry : Bool) : (report isDry).fixed = (fateOf isDry).fixedFile?.toList ∧
      (report isDry).failures =
        ((fateOf isDry).error?.map (FailedFile.mk (Path.display "sub/L.java"))).toList :=
    report_runRemoval_singleton recipe removal (options isDry) tree _ loadFile_link
  have hdisplay : Path.display "sub/L.java" = "sub/L.java" := by decide +kernel
  refine ⟨by decide +kernel, ?_, ?_, ?_, ?_⟩
  · rw [(hreport true).1, fate_dry.1]
    rfl
  · rw [(hreport true).2, fate_dry.2]
    rfl
  · rw [(hreport false).1, fate_real.1]
    rfl
  · rw [(hreport false).2, fate_real.2, hdisplay]
    rfl

end JavaThrows
