import JavaThrows.Proofs.Batch.Fate

set_option autoImplicit false

/-!
# A run writes inside its root directory

Whatever links a file tree has and whatever paths a run is given, the run changes the content of a
file only if the file lies in the root directory, all links followed, and one of the paths leads to
it. Several paths can lead to one file. They are read from the same place, so they come to the same
text, and it does not matter which of them is written last. Main statement: `runRecipe_writes_within_root`.
-/

namespace JavaThrows

/-- A run over the files changes the file at the path to this. -/
structure Rewrites (removal : Removal) (t : FileTree) (files : List String) (path : String)
    (f : LoadedFile) (out : Rewritten) : Prop where
  loaded : loadFile t path = .ok f
  rewritten : removal.rewrite (t.indexOf files) f.source f.unit = .ok out
  isChanged : out.isChanged = true

section Fate

variable {removal : Removal} {o : BatchOptions} {refusal : Location → Option FileFault}
  {t : FileTree} {files : List String} {path path' : String} {f f' : LoadedFile}
  {out out' : Rewritten} {l : Location}

/-- Paths to one file come to the same text. -/
theorem Rewrites.of_locate_eq (h : Rewrites removal t files path f out)
    (hsame : t.locate path' = t.locate path) :
    Rewrites removal t files path' { f with path := path' } out :=
  ⟨FileTree.loadFile_of_locate_eq hsame h.loaded, h.rewritten, h.isChanged⟩

theorem Rewrites.text_eq (h : Rewrites removal t files path f out)
    (h' : Rewrites removal t files path' f' out') (hsame : t.locate path' = t.locate path) :
    out'.text = out.text := by
  have h'' := h.of_locate_eq hsame
  obtain rfl : { f with path := path' } = f' :=
    Except.ok.inj (h''.loaded.symm.trans h'.loaded)
  rw [Except.ok.inj (h''.rewritten.symm.trans h'.rewritten)]

theorem not_rewrites_of_loadFile {e : LoadError} (hload : loadFile t path = .error e) :
    ¬ Rewrites removal t files path f out :=
  fun h => by cases hload.symm.trans h.loaded

theorem exists_rewrites_iff (hload : loadFile t path = .ok f)
    {P : LoadedFile → Rewritten → Prop} :
    (∃ f' out, Rewrites removal t files path f' out ∧ P f' out) ↔
      ∃ out, removal.rewrite (t.indexOf files) f.source f.unit = .ok out ∧
        out.isChanged = true ∧ P f out := by
  constructor
  · rintro ⟨f', out, h, hP⟩
    obtain rfl : f = f' := Except.ok.inj (hload.symm.trans h.loaded)
    exact ⟨out, h.rewritten, h.isChanged, hP⟩
  · rintro ⟨out, hout, hchanged, hP⟩
    exact ⟨f, out, ⟨hload, hout, hchanged⟩, hP⟩

/-- A file is written exactly if it changes in a run that is not dry and may write it. -/
theorem write?_fate_eq_some_iff {w : FileWrite} :
    (fate removal o refusal t files path).write? = some w ↔
      o.dryRun = false ∧ t.writeTarget o.root refusal path = .ok w.location ∧
        ∃ f out, Rewrites removal t files path f out ∧ String.ofList out.text = w.text := by
  cases hload : loadFile t path with
  | error e => simp [fate, hload, FileResult.write?, not_rewrites_of_loadFile hload]
  | ok f =>
    rw [fate_of_loadFile hload, write?_processFile_eq_some_iff,
      FileTree.path_of_loadFile hload, exists_rewrites_iff hload]

/-- A file that changes is told as changed, if the run is dry or may write it. -/
theorem fixedFile?_fate_eq_some_iff {entry : FixedFile} :
    (fate removal o refusal t files path).fixedFile? = some entry ↔
      (o.dryRun = false → ∃ l, t.writeTarget o.root refusal path = .ok l) ∧
        ∃ f out, Rewrites removal t files path f out ∧ f.fixedFile out = entry := by
  cases hload : loadFile t path with
  | error e => simp [fate, hload, FileResult.fixedFile?, not_rewrites_of_loadFile hload]
  | ok f =>
    rw [fate_of_loadFile hload, fixedFile?_processFile_eq_some_iff,
      FileTree.path_of_loadFile hload, exists_rewrites_iff hload]

end Fate

section Run

variable {recipe : Recipe} {removal : Removal} {o : BatchOptions} {t : FileTree}
  {paths : List String} {refusal : Location → Option FileFault}

theorem mem_writes_runRemoval_iff {w : FileWrite} :
    w ∈ (runRemoval recipe removal o t paths refusal).writes ↔
      ∃ path ∈ t.collect o.filter paths, o.dryRun = false ∧
        t.writeTarget o.root refusal path = .ok w.location ∧
        ∃ f out, Rewrites removal t (t.collect o.filter paths) path f out ∧
          String.ofList out.text = w.text := by
  simp only [writes_runRemoval, List.mem_filterMap, write?_fate_eq_some_iff]

/-- All that a run writes goes to files that are there. -/
theorem overwrites_runRemoval :
    t.Overwrites (runRemoval recipe removal o t paths refusal).writes := by
  intro w hw
  obtain ⟨path, -, -, htarget, f, out, hrewrites, -⟩ :=
    mem_writes_runRemoval_iff.1 hw
  obtain ⟨l, hl, hkind⟩ := FileTree.exists_locate_of_loadFile hrewrites.loaded
  obtain rfl : w.location = l :=
    Except.ok.inj ((FileTree.writeTarget_eq_ok_iff.1 htarget).1.symm.trans hl)
  exact hkind

/-- **The content of a file after a run:** unless it is as before, some path leads to the file and
    the run may write it, and it is what each path to the file is rewritten to. -/
theorem contentAt?_writeAll_runRemoval {l : Location}
    (h : (t.writeAll (runRemoval recipe removal o t paths refusal).writes).contentAt? l ≠
      t.contentAt? l) :
    o.dryRun = false ∧
      (∃ path ∈ t.collect o.filter paths, t.writeTarget o.root refusal path = .ok l) ∧
      ∀ path ∈ t.collect o.filter paths, t.locate path = .ok l →
        ∃ f out, Rewrites removal t (t.collect o.filter paths) path f out ∧
          (t.writeAll (runRemoval recipe removal o t paths refusal).writes).contentAt? l =
            some (String.ofList out.text).toUTF8 := by
  rcases FileTree.contentAt?_writeAll
    overwrites_runRemoval l with ⟨hsame, -⟩ | ⟨w, hw, rfl, htext⟩
  · exact absurd hsame h
  obtain ⟨path, hpath, hdry, htarget, f, out, hrewrites, hout⟩ :=
    mem_writes_runRemoval_iff.1 hw
  have hlocate := (FileTree.writeTarget_eq_ok_iff.1 htarget).1
  refine ⟨hdry, ⟨path, hpath, htarget⟩, fun path' _ hlocate' => ?_⟩
  refine ⟨_, out, hrewrites.of_locate_eq (hlocate'.trans hlocate.symm), ?_⟩
  rw [htext, hout]

/-- A file that a run rewrites and may write has the new text afterwards. -/
theorem contentAt?_of_rewrites {path : String} {l : Location} {f : LoadedFile} {out : Rewritten}
    (hdry : o.dryRun = false) (hpath : path ∈ t.collect o.filter paths)
    (htarget : t.writeTarget o.root refusal path = .ok l)
    (h : Rewrites removal t (t.collect o.filter paths) path f out) :
    (t.writeAll (runRemoval recipe removal o t paths refusal).writes).contentAt? l =
      some (String.ofList out.text).toUTF8 := by
  rcases FileTree.contentAt?_writeAll
    overwrites_runRemoval l with ⟨-, hnone⟩ | ⟨w, hw, rfl, htext⟩
  · have hw : ⟨l, String.ofList out.text⟩ ∈
        (runRemoval recipe removal o t paths refusal).writes :=
      mem_writes_runRemoval_iff.2
        ⟨path, hpath, hdry, htarget, f, out, h, rfl⟩
    exact absurd rfl (hnone _ hw)
  · obtain ⟨path', -, -, htarget', f', out', h', hout⟩ :=
      mem_writes_runRemoval_iff.1 hw
    have hsame : t.locate path' = t.locate path :=
      (FileTree.writeTarget_eq_ok_iff.1 htarget').1.trans
        (FileTree.writeTarget_eq_ok_iff.1 htarget).1.symm
    rw [htext, ← hout, h.text_eq h' hsame]

theorem writes_of_dryRun (h : o.dryRun = true) :
    (runRemoval recipe removal o t paths refusal).writes = [] := by
  refine List.eq_nil_iff_forall_not_mem.2 fun w hw => ?_
  obtain ⟨-, -, hdry, -⟩ := mem_writes_runRemoval_iff.1 hw
  rw [h] at hdry
  cases hdry

/-- **A run writes inside its root directory.** No entry of the tree comes, goes or turns into
    another kind. A dry run and a recipe that does not compile leave the tree as it is. A file whose
    content is another one afterwards lies in the root directory, all links followed on both
    sides, is denoted by a path of the run, and holds what all such paths are rewritten to. Every
    file that the run rewrites and is let write holds its new text. -/
theorem runRecipe_writes_within_root (recipe : Recipe) (o : BatchOptions) (t : FileTree)
    (paths : List String) (refusal : Location → Option FileFault) :
    let files := t.collect o.filter paths
    let after := t.after (runRecipe recipe o t paths refusal)
    (∀ l, after.kindAt? l = t.kindAt? l) ∧
    (o.dryRun = true ∨ (∃ e, recipe.compile = .error e) → after = t) ∧
    (∀ l, after.contentAt? l ≠ t.contentAt? l →
      ∃ removal, recipe.compile = .ok removal ∧ o.dryRun = false ∧
        (∃ root, t.locate o.root = .ok root ∧ l.isWithin root) ∧
        (∃ path ∈ files, t.locate path = .ok l) ∧
        ∀ path ∈ files, t.locate path = .ok l → ∃ f out, Rewrites removal t files path f out ∧
          after.contentAt? l = some (String.ofList out.text).toUTF8) ∧
    ∀ removal, recipe.compile = .ok removal → o.dryRun = false → ∀ path ∈ files, ∀ l f out,
      t.writeTarget o.root refusal path = .ok l → Rewrites removal t files path f out →
        after.contentAt? l = some (String.ofList out.text).toUTF8 := by
  intro files after
  cases hcompile : recipe.compile with
  | error e =>
    have hafter : after = t := by
      simp only [after, runRecipe, hcompile, Except.map, FileTree.after]
    rw [hafter]
    exact ⟨fun _ => rfl, fun _ => rfl, fun _ h => absurd rfl h, fun _ h => by cases h⟩
  | ok removal =>
    have hafter : after = t.writeAll (runRemoval recipe removal o t paths refusal).writes := by
      simp only [after, runRecipe, hcompile, Except.map, FileTree.after]
    rw [hafter]
    refine ⟨(FileTree.sameKinds_writeAll
      overwrites_runRemoval).kindAt?, ?_, ?_, ?_⟩
    · rintro (hdry | ⟨e, he⟩)
      · rw [writes_of_dryRun hdry]
        rfl
      · cases he
    · intro l h
      obtain ⟨hdry, ⟨path, hpath, htarget⟩, htext⟩ :=
        contentAt?_writeAll_runRemoval h
      obtain ⟨hlocate, hroot, -⟩ := FileTree.writeTarget_eq_ok_iff.1 htarget
      exact ⟨removal, rfl, hdry, hroot, ⟨path, hpath, hlocate⟩, htext⟩
    · rintro _ ⟨⟩ hdry path hpath l f out htarget h
      exact contentAt?_of_rewrites hdry hpath htarget h

end Run
end JavaThrows
