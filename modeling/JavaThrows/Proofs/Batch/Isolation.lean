import JavaThrows.Proofs.Batch.Containment
import Mathlib.Data.List.Forall2

set_option autoImplicit false

/-!
# Files that cannot be loaded

A file that cannot be read or parsed is told among the failures, and that is all that it does to a
run: the index of types, and with it the fate of every other file, is that of the run over the other
files alone. Each path of a run has one of three fates, and only a file that is told as changed is
written. Main statement: `runRemoval_isolates`.
-/

namespace JavaThrows

section Loading

variable (t : FileTree)

/-- The failures of loading are those of the paths that do not load, one for each, in their order. -/
theorem forall₂_loadFailure? (files : List String) :
    List.Forall₂ (fun path failure => ∃ e, loadFile t path = .error e ∧
        failure = FailedFile.mk (Path.display path) e.message)
      (files.filter fun path => !t.loads path) (files.filterMap t.loadFailure?) := by
  induction files with
  | nil => exact .nil
  | cons path files ih =>
    cases hload : loadFile t path with
    | error e =>
      have hbad : t.loads path = false := by simp [FileTree.loads, hload, Except.toOption]
      have hfailure : t.loadFailure? path = some ⟨Path.display path, e.message⟩ := by
        rw [FileTree.loadFailure?, hload]
      rw [List.filter_cons_of_pos (by simp [hbad]), List.filterMap_cons_some hfailure]
      exact .cons ⟨e, hload, rfl⟩ ih
    | ok f =>
      have hgood : t.loads path = true := by simp [FileTree.loads, hload, Except.toOption]
      have hfailure : t.loadFailure? path = none := by rw [FileTree.loadFailure?, hload]
      rwa [List.filter_cons_of_neg (by simp [hgood]), List.filterMap_cons_none hfailure]

/-- Files that do not load declare nothing. -/
theorem indexOf_filter_loads (files : List String) :
    t.indexOf (files.filter t.loads) = t.indexOf files := by
  rw [FileTree.indexOf, FileTree.indexOf, List.filterMap_filter]
  congr 1
  refine List.filterMap_congr fun path _ => ?_
  rw [FileTree.loads]
  cases loadFile t path <;> rfl

theorem fate_filter_loads (removal : Removal) (o : BatchOptions)
    (refusal : Location → Option FileFault) (files : List String) (path : String) :
    fate removal o refusal t (files.filter t.loads) path =
      fate removal o refusal t files path := by
  rw [fate, fate, indexOf_filter_loads]

end Loading

/-! ## Counting fates -/

def FileResult.isUnchanged : FileResult → Bool
  | .unchanged => true
  | _ => false

theorem FileResult.write?_eq_none_of_fixedFile? {r : FileResult} (h : r.fixedFile? = none) :
    r.write? = none := by
  cases r with
  | unchanged => rfl
  | failed => rfl
  | changed => cases h

/-- Each result is counted once. -/
theorem length_eq_of_results {α : Type} (result : α → FileResult) (xs : List α) :
    xs.length = (xs.filterMap fun x => (result x).fixedFile?).length +
      (xs.filterMap fun x => (result x).error?).length +
      xs.countP fun x => (result x).isUnchanged := by
  induction xs with
  | nil => rfl
  | cons x xs ih =>
    cases hx : result x <;>
      grind [FileResult.fixedFile?, FileResult.error?, FileResult.isUnchanged]

section Run

variable {recipe : Recipe} {removal : Removal} {o : BatchOptions} {t : FileTree}
  {paths : List String} {refusal : Location → Option FileFault}

theorem failureOf?_of_not_loads {files : List String} {path : String} (h : ¬ t.loads path) :
    failureOf? removal o refusal t files path = t.loadFailure? path := by
  rw [failureOf?, fate, FileTree.loadFailure?]
  cases hload : loadFile t path with
  | error e => rfl
  | ok f => exact absurd (FileTree.loads_iff.2 ⟨f, hload⟩) h

variable (recipe removal o t paths refusal)

/-- **The failures of a run are those of its paths**, those of loading in front. -/
theorem failures_runRemoval_perm :
    (runRemoval recipe removal o t paths refusal).report.failures.Perm
      ((t.collect o.filter paths).filterMap
        (failureOf? removal o refusal t (t.collect o.filter paths))) := by
  rw [failures_runRemoval]
  generalize t.collect o.filter paths = files
  have hunloaded : files.filterMap t.loadFailure? =
      (files.filter fun path => !t.loads path).filterMap (failureOf? removal o refusal t files) := by
    rw [List.filterMap_filter]
    refine List.filterMap_congr fun path _ => ?_
    cases hload : t.loads path with
    | true =>
      have hnone : ¬ (t.loadFailure? path).isSome := by simp [FileTree.isSome_loadFailure?_iff, hload]
      simpa using hnone
    | false => simp [failureOf?_of_not_loads, hload]
  rw [hunloaded]
  refine List.perm_append_comm.trans ?_
  rw [← List.filterMap_append]
  exact (List.filter_append_perm t.loads files).filterMap _

/-- **The run over the files that load** tells the same changes and writes the same, and its
    failures are those that the run tells after the ones of loading. -/
theorem runRemoval_filter_loads :
    let files := t.collect o.filter paths
    let run := runRemoval recipe removal o t paths refusal
    let others := runRemoval recipe removal o t (files.filter t.loads) refusal
    run.report.fixed = others.report.fixed ∧ run.writes = others.writes ∧
      run.report.failures = files.filterMap t.loadFailure? ++ others.report.failures := by
  intro files run others
  have hcollect : t.collect o.filter (files.filter t.loads) = files.filter t.loads :=
    FileTree.collect_of_loads o.filter fun path h => (List.mem_filter.1 h).2
  have hnone : (files.filter t.loads).filterMap t.loadFailure? = [] := by
    refine List.filterMap_eq_nil_iff.2 fun path h => ?_
    have hunless : (t.loadFailure? path).isSome ↔ ¬ t.loads path := FileTree.isSome_loadFailure?_iff
    simpa [(List.mem_filter.1 h).2] using hunless
  refine ⟨?_, ?_, ?_⟩
  · rw [fixed_runRemoval, fixed_runRemoval, hcollect]
    simp only [fate_filter_loads]
    exact (filterMap_filter_loads fun _ => rfl).symm
  · rw [writes_runRemoval, writes_runRemoval, hcollect]
    simp only [fate_filter_loads]
    exact (filterMap_filter_loads fun _ => rfl).symm
  · rw [failures_runRemoval, failures_runRemoval, hcollect, hnone]
    unfold failureOf?
    simp only [fate_filter_loads, List.filter_filter, Bool.and_self, List.nil_append]
    rfl

variable {recipe removal o t paths refusal} in
/-- A file that a run does not tell as changed is left as it is, through whatever path. -/
theorem contentAt?_of_fixedFile?_eq_none {path : String} {l : Location}
    (hpath : path ∈ t.collect o.filter paths) (hl : t.locate path = .ok l)
    (h : (fate removal o refusal t (t.collect o.filter paths) path).fixedFile? = none) :
    (t.writeAll (runRemoval recipe removal o t paths refusal).writes).contentAt? l =
      t.contentAt? l := by
  by_contra hne
  obtain ⟨-, ⟨path', -, htarget⟩, htext⟩ :=
    contentAt?_writeAll_runRemoval hne
  obtain ⟨f, out, hrewrites, -⟩ := htext path hpath hl
  have hsome := fixedFile?_fate_eq_some_iff.2
    ⟨fun _ => ⟨l, FileTree.writeTarget_of_locate_eq htarget hl⟩, f, out, hrewrites, rfl⟩
  rw [h] at hsome
  cases hsome

/-- **Files that cannot be loaded change nothing for the others.** The entries and the writes of a
    run are those of the run over the files that load, and so are its failures but for one at the
    front for each path that does not load. Each path of the run is counted, and it is either told
    as changed, or told as failed, or unchanged. Unless it is told as changed, which no path is that
    does not load, it is not written, and its file keeps its content. -/
theorem runRemoval_isolates (recipe : Recipe) (removal : Removal) (o : BatchOptions) (t : FileTree)
    (paths : List String) (refusal : Location → Option FileFault) :
    let files := t.collect o.filter paths
    let run := runRemoval recipe removal o t paths refusal
    let others := runRemoval recipe removal o t (files.filter t.loads) refusal
    let fateOf := fate removal o refusal t files
    (run.report.fixed = others.report.fixed ∧ run.writes = others.writes ∧
      ∃ unloaded, run.report.failures = unloaded ++ others.report.failures ∧
        List.Forall₂ (fun path failure => ∃ e, loadFile t path = .error e ∧
            failure = FailedFile.mk (Path.display path) e.message)
          (files.filter fun path => !t.loads path) unloaded) ∧
    (run.report.filesScanned = files.length ∧
      run.report.fixed = files.filterMap (fun path => (fateOf path).fixedFile?) ∧
      run.report.failures.Perm (files.filterMap fun path =>
        (fateOf path).error?.map (FailedFile.mk (Path.display path))) ∧
      files.length = run.report.fixed.length + run.report.failures.length +
        files.countP fun path => (fateOf path).isUnchanged) ∧
    ∀ path ∈ files,
      (t.loads path = false → (fateOf path).fixedFile? = none) ∧
      ((fateOf path).fixedFile? = none → (fateOf path).write? = none ∧
        ∀ l, t.locate path = .ok l → (t.writeAll run.writes).contentAt? l = t.contentAt? l) := by
  intro files run others fateOf
  obtain ⟨hfixed, hwrites, hfailures⟩ := runRemoval_filter_loads recipe removal o t paths refusal
  have hentries : run.report.fixed = files.filterMap fun path => (fateOf path).fixedFile? :=
    fixed_runRemoval recipe removal o t paths refusal
  have hperm : run.report.failures.Perm (files.filterMap fun path =>
      (fateOf path).error?.map (FailedFile.mk (Path.display path))) :=
    failures_runRemoval_perm recipe removal o t paths refusal
  refine ⟨⟨hfixed, hwrites, _, hfailures, forall₂_loadFailure? t files⟩,
    ⟨rfl, hentries, hperm, ?_⟩, fun path hpath => ⟨fun hload => ?_, fun hnone => ⟨?_, ?_⟩⟩⟩
  · have herrors : run.report.failures.length =
        (files.filterMap fun path => (fateOf path).error?).length := by
      rw [hperm.length_eq]
      simp only [List.length_filterMap_eq_countP, Option.isSome_map]
    rw [herrors, hentries]
    exact length_eq_of_results fateOf files
  · have hunloaded : ¬ t.loads path := by simp [hload]
    obtain ⟨error, herror⟩ := exists_fate_eq_failed hunloaded
    exact congrArg FileResult.fixedFile? herror
  · exact FileResult.write?_eq_none_of_fixedFile? hnone
  · exact fun l hl =>
      contentAt?_of_fixedFile?_eq_none hpath hl hnone

end Run
end JavaThrows
