import JavaThrows.Proofs.Files.Writing
import Mathlib.Data.List.Basic

set_option autoImplicit false

/-!
# What becomes of the files of a run

A run handles the files that it has read one after another, and each of them in the tree that the
ones before it have left. All that a run writes goes to files that it has read, so none of this
moves a path (`SameKinds`), and what becomes of a file is the same as in the tree that the run began
with. A run is therefore told by the fate of each of its paths alone: `fate` gives it, and
`fixed_runRemoval`, `failures_runRemoval` and `writes_runRemoval` read a run off it.
-/

namespace JavaThrows

/-! ## Loading -/

namespace FileTree

variable {t : FileTree} {path path' : String} {f : LoadedFile}

/-- Whether the file can be read and parsed. -/
def loads (t : FileTree) (path : String) : Bool :=
  (loadFile t path).toOption.isSome

/-- What is told of a path that gives no file. -/
def loadFailure? (t : FileTree) (path : String) : Option FailedFile :=
  match loadFile t path with
  | .error e => some ⟨Path.display path, e.message⟩
  | .ok _ => none

theorem loads_iff : t.loads path ↔ ∃ f, loadFile t path = .ok f := by
  rw [loads]
  cases loadFile t path <;> simp [Except.toOption]

theorem isSome_loadFailure?_iff : (t.loadFailure? path).isSome ↔ ¬ t.loads path := by
  rw [loads, loadFailure?]
  cases loadFile t path <;> simp [Except.toOption]

theorem readText_eq_ok_iff {text : String} : t.readText path = .ok text ↔
    ∃ l content, t.locate path = .ok l ∧ t.contentAt? l = some content ∧
      String.fromUTF8? content = some text := by
  rw [readText]
  cases t.locate path with
  | error fault => simp
  | ok l =>
    simp only [Except.ok.injEq, contentAt?, Entry.contentAt?]
    cases hat : t.root.at? l with
    | none => simp [hat]
    | some e =>
      cases e with
      | file content => cases htext : String.fromUTF8? content <;> simp [hat, Entry.content?, htext]
      | link => simp [hat, Entry.content?]
      | dir => simp [hat, Entry.content?]

theorem loadFile_eq_ok_iff : loadFile t path = .ok f ↔
    ∃ text unit, t.readText path = .ok text ∧ CompilationUnit.parse text.toList = .ok unit ∧
      f = ⟨path, text.toList, unit⟩ := by
  rw [loadFile]
  cases t.readText path with
  | error cause => simp
  | ok text =>
    cases hparse : CompilationUnit.parse text.toList with
    | error cause => simp [hparse]
    | ok unit => simp [hparse, eq_comm]

theorem path_of_loadFile (h : loadFile t path = .ok f) : f.path = path := by
  obtain ⟨text, unit, -, -, rfl⟩ := loadFile_eq_ok_iff.1 h
  rfl

/-- A path that can be loaded denotes a file. -/
theorem exists_locate_of_loadFile (h : loadFile t path = .ok f) :
    ∃ l, t.locate path = .ok l ∧ t.kindAt? l = some .file := by
  obtain ⟨text, -, htext, -⟩ := loadFile_eq_ok_iff.1 h
  obtain ⟨l, content, hl, hcontent, -⟩ := readText_eq_ok_iff.1 htext
  exact ⟨l, hl, isSome_contentAt?_iff.1 (by rw [hcontent]; rfl)⟩

/-- Paths that denote the same location give the same file. -/
theorem loadFile_of_locate_eq (hsame : t.locate path' = t.locate path)
    (h : loadFile t path = .ok f) : loadFile t path' = .ok { f with path := path' } := by
  obtain ⟨text, unit, htext, hunit, rfl⟩ := loadFile_eq_ok_iff.1 h
  refine loadFile_eq_ok_iff.2 ⟨text, unit, readText_eq_ok_iff.2 ?_, hunit, rfl⟩
  rw [hsame]
  exact readText_eq_ok_iff.1 htext

theorem isDir_of_loadFile (h : loadFile t path = .ok f) : t.isDir path = false := by
  obtain ⟨l, hl, hkind⟩ := exists_locate_of_loadFile h
  obtain ⟨e, he, hfile⟩ := Option.map_eq_some_iff.1 hkind
  rw [isDir, FileTree.entry?, hl]
  simp only [he]
  cases e with
  | file => rfl
  | link => cases hfile
  | dir => cases hfile

/-- Files that can be loaded stand for themselves. -/
theorem collect_of_loads (filter : DirFilter) {files : List String}
    (h : ∀ path ∈ files, t.loads path) : t.collect filter files = files := by
  induction files with
  | nil => rfl
  | cons path files ih =>
    obtain ⟨hpath, hfiles⟩ := List.forall_mem_cons.1 h
    obtain ⟨f, hf⟩ := loads_iff.1 hpath
    have hrest := ih hfiles
    rw [collect] at hrest ⊢
    rw [List.flatMap_cons, isDir_of_loadFile hf, hrest]
    rfl

end FileTree

/-! ## One file -/

section Processing

variable {removal : Removal} {index : TypeIndex} {o : BatchOptions}
  {refusal : Location → Option FileFault} {t t' : FileTree}

namespace FileTree

variable {root path path' : String} {l : Location}

theorem locateWithin_eq_ok_iff : t.locateWithin path root = .ok l ↔
    t.locate path = .ok l ∧ ∃ r, t.locate root = .ok r ∧ l.isWithin r := by
  rw [locateWithin]
  cases t.locate path with
  | error cause => simp
  | ok l' =>
    cases t.locate root with
    | error cause => simp
    | ok r =>
      cases hwithin : l'.isWithin r <;> simp [hwithin] <;> grind

theorem writeTarget_eq_ok_iff : t.writeTarget root refusal path = .ok l ↔
    t.locate path = .ok l ∧ (∃ r, t.locate root = .ok r ∧ l.isWithin r) ∧ refusal l = none := by
  rw [← and_assoc, ← locateWithin_eq_ok_iff, writeTarget]
  cases t.locateWithin path root with
  | error cause => simp
  | ok l' =>
    cases hrefusal : refusal l' <;> simp [hrefusal] <;> grind

/-- Whether a file may be written is up to its location. -/
theorem writeTarget_of_locate_eq (h : t.writeTarget root refusal path = .ok l)
    (h' : t.locate path' = .ok l) : t.writeTarget root refusal path' = .ok l :=
  writeTarget_eq_ok_iff.2 ⟨h', (writeTarget_eq_ok_iff.1 h).2⟩

theorem SameKinds.writeTarget_eq (h : SameKinds t t') (root path : String) :
    t'.writeTarget root refusal path = t.writeTarget root refusal path := by
  rw [writeTarget, writeTarget, h.locateWithin_eq]

end FileTree

theorem processFile_congr (h : FileTree.SameKinds t t') (f : LoadedFile) :
    processFile removal index o refusal t' f = processFile removal index o refusal t f := by
  unfold processFile
  rw [h.writeTarget_eq]

theorem write?_processFile_eq_some_iff {f : LoadedFile} {w : FileWrite} :
    (processFile removal index o refusal t f).write? = some w ↔
      o.dryRun = false ∧ t.writeTarget o.root refusal f.path = .ok w.location ∧
        ∃ out, removal.rewrite index f.source f.unit = .ok out ∧ out.isChanged = true ∧
          String.ofList out.text = w.text := by
  obtain ⟨l, text⟩ := w
  unfold processFile
  cases removal.rewrite index f.source f.unit with
  | error cause => simp [FileResult.write?]
  | ok out =>
    cases hchanged : out.isChanged <;> cases hdry : o.dryRun <;>
      cases t.writeTarget o.root refusal f.path <;>
      simp [hchanged, FileResult.write?]

/-- The entry of a file that changes is the same in a dry run; a run that is not dry has to be able
    to write the file besides. -/
theorem fixedFile?_processFile_eq_some_iff {f : LoadedFile} {entry : FixedFile} :
    (processFile removal index o refusal t f).fixedFile? = some entry ↔
      (o.dryRun = false → ∃ l, t.writeTarget o.root refusal f.path = .ok l) ∧
        ∃ out, removal.rewrite index f.source f.unit = .ok out ∧ out.isChanged = true ∧
          f.fixedFile out = entry := by
  unfold processFile
  cases removal.rewrite index f.source f.unit with
  | error cause => simp [FileResult.fixedFile?]
  | ok out =>
    cases hchanged : out.isChanged <;> cases hdry : o.dryRun <;>
      cases t.writeTarget o.root refusal f.path <;>
      simp [hchanged, FileResult.fixedFile?]

/-! ## One file after another -/

/-- The writes of a file that was loaded go to a file. -/
theorem overwrites_processFile {f : LoadedFile}
    (h : ∃ l, t.locate f.path = .ok l ∧ t.kindAt? l = some .file) :
    t.Overwrites (processFile removal index o refusal t f).write?.toList := by
  intro w hw
  rw [Option.mem_toList, write?_processFile_eq_some_iff] at hw
  obtain ⟨-, htarget, -⟩ := hw
  obtain ⟨l, hl, hkind⟩ := h
  obtain rfl : l = w.location :=
    Except.ok.inj (hl.symm.trans (FileTree.writeTarget_eq_ok_iff.1 htarget).1)
  exact hkind

/-- **Each file is handled as in the tree that the run began with.** -/
theorem processAll_eq_map {files : List LoadedFile} (hkinds : FileTree.SameKinds t t')
    (h : ∀ f ∈ files, ∃ l, t.locate f.path = .ok l ∧ t.kindAt? l = some .file) :
    processAll removal index o refusal t' files =
      files.map fun f => (f.path, processFile removal index o refusal t f) := by
  induction files generalizing t' with
  | nil => rfl
  | cons f files ih =>
    obtain ⟨hf, hfiles⟩ := List.forall_mem_cons.1 h
    have hwrites : t'.Overwrites (processFile removal index o refusal t f).write?.toList :=
      (overwrites_processFile hf).of_sameKinds hkinds
    rw [processAll, processFile_congr hkinds,
      ih (hkinds.trans (FileTree.sameKinds_writeAll hwrites)) hfiles, List.map_cons]

end Processing

/-! ## A run -/

/-- The index of the types that the files declare. -/
def FileTree.indexOf (t : FileTree) (files : List String) : TypeIndex :=
  .build (files.filterMap fun path => (loadFile t path).toOption.map LoadedFile.unit)

/-- What becomes of a path in a run over the files. -/
def fate (removal : Removal) (o : BatchOptions) (refusal : Location → Option FileFault)
    (t : FileTree) (files : List String) (path : String) : FileResult :=
  match loadFile t path with
  | .error e => .failed e.message
  | .ok f => processFile removal (t.indexOf files) o refusal t f

/-- What a run tells of a path that fails. -/
def failureOf? (removal : Removal) (o : BatchOptions) (refusal : Location → Option FileFault)
    (t : FileTree) (files : List String) (path : String) : Option FailedFile :=
  (fate removal o refusal t files path).error?.map (FailedFile.mk (Path.display path))

section Run

variable {recipe : Recipe} {removal : Removal} {o : BatchOptions} {t : FileTree}
  {paths : List String} {refusal : Location → Option FileFault} {files : List String} {path : String}

theorem fate_of_loadFile {f : LoadedFile} (h : loadFile t path = .ok f) :
    fate removal o refusal t files path = processFile removal (t.indexOf files) o refusal t f := by
  rw [fate, h]

theorem exists_fate_eq_failed (h : ¬ t.loads path) :
    ∃ error, fate removal o refusal t files path = .failed error := by
  rw [fate]
  cases hload : loadFile t path with
  | error e => exact ⟨_, rfl⟩
  | ok f => exact absurd (FileTree.loads_iff.2 ⟨f, hload⟩) h

theorem mem_loadedFiles_iff {f : LoadedFile} :
    f ∈ loadedFiles (files.map fun path => (path, loadFile t path)) ↔
      ∃ path ∈ files, loadFile t path = .ok f := by
  simp only [loadedFiles, List.mem_filterMap, List.mem_map]
  constructor
  · rintro ⟨-, ⟨path, hpath, rfl⟩, hf⟩
    refine ⟨path, hpath, ?_⟩
    cases hload : loadFile t path with
    | error e => simp [hload, Except.toOption] at hf
    | ok f' => simpa [hload, Except.toOption] using hf
  · rintro ⟨path, hpath, hf⟩
    exact ⟨_, ⟨path, hpath, rfl⟩, by simp [hf, Except.toOption]⟩

/-- What is read off the results of a run is read off the fates of the files that were loaded. -/
theorem filterMap_processAll {β : Type} (g : String → FileResult → Option β) :
    ((processAll removal (t.indexOf files) o refusal t
        (loadedFiles (files.map fun path => (path, loadFile t path)))).filterMap
        fun r => g r.1 r.2) =
      (files.filter t.loads).filterMap fun path =>
        g path (fate removal o refusal t files path) := by
  have hplaces : ∀ f ∈ loadedFiles (files.map fun path => (path, loadFile t path)),
      ∃ l, t.locate f.path = .ok l ∧ t.kindAt? l = some .file := by
    intro f hf
    obtain ⟨path, -, hload⟩ := mem_loadedFiles_iff.1 hf
    rw [FileTree.path_of_loadFile hload]
    exact FileTree.exists_locate_of_loadFile hload
  rw [processAll_eq_map (.refl t) hplaces, loadedFiles, List.filterMap_map,
    List.filterMap_map, List.filterMap_filterMap, List.filterMap_filter]
  refine List.filterMap_congr fun path _ => ?_
  cases hload : loadFile t path with
  | error e => simp [FileTree.loads, hload, Except.toOption]
  | ok f =>
    simp [FileTree.loads, hload, Except.toOption, fate, FileTree.path_of_loadFile hload]

theorem indexOf_eq (t : FileTree) (files : List String) :
    TypeIndex.build ((loadedFiles (files.map fun path => (path, loadFile t path))).map
      LoadedFile.unit) = t.indexOf files := by
  simp [loadedFiles, FileTree.indexOf, List.filterMap_map, List.map_filterMap]

theorem loadErrors_eq (t : FileTree) (files : List String) :
    ((loadErrors (files.map fun path => (path, loadFile t path))).map
      fun f => FailedFile.mk (Path.display f.1) f.2.message) = files.filterMap t.loadFailure? := by
  rw [loadErrors, List.filterMap_map, List.map_filterMap]
  refine List.filterMap_congr fun path _ => ?_
  rw [Function.comp_apply, FileTree.loadFailure?]
  cases loadFile t path <;> rfl

/-- Files that were not loaded add nothing to what failed files have nothing of. -/
theorem filterMap_filter_loads {β : Type} {g : FileResult → Option β}
    (hg : ∀ error, g (.failed error) = none) :
    ((files.filter t.loads).filterMap fun path => g (fate removal o refusal t files path)) =
      files.filterMap fun path => g (fate removal o refusal t files path) := by
  rw [List.filterMap_filter]
  refine List.filterMap_congr fun path _ => ?_
  split
  · rfl
  next hload =>
    obtain ⟨error, herror⟩ : ∃ error, fate removal o refusal t files path = .failed error :=
      exists_fate_eq_failed hload
    rw [herror, hg]

variable (recipe removal o t paths refusal)

/-- **The entries of changed files**, in the order of the paths. -/
theorem fixed_runRemoval : (runRemoval recipe removal o t paths refusal).report.fixed =
    (t.collect o.filter paths).filterMap fun path =>
      (fate removal o refusal t (t.collect o.filter paths) path).fixedFile? := by
  rw [← filterMap_filter_loads fun _ => rfl, ← filterMap_processAll fun _ r => r.fixedFile?,
    ← indexOf_eq]
  simp only [runRemoval, List.filterMap_map, Function.comp_def]

/-- **The writes of a run**, in the order of the paths. -/
theorem writes_runRemoval : (runRemoval recipe removal o t paths refusal).writes =
    (t.collect o.filter paths).filterMap fun path =>
      (fate removal o refusal t (t.collect o.filter paths) path).write? := by
  rw [← filterMap_filter_loads fun _ => rfl, ← filterMap_processAll fun _ r => r.write?,
    ← indexOf_eq]
  simp only [runRemoval, List.filterMap_map, Function.comp_def]

/-- **The failures of a run:** first those of loading, then those of the files that were loaded. -/
theorem failures_runRemoval : (runRemoval recipe removal o t paths refusal).report.failures =
    (t.collect o.filter paths).filterMap t.loadFailure? ++
      ((t.collect o.filter paths).filter t.loads).filterMap
        (failureOf? removal o refusal t (t.collect o.filter paths)) := by
  unfold failureOf?
  rw [← loadErrors_eq,
    ← filterMap_processAll fun path r => r.error?.map (FailedFile.mk (Path.display path)),
    ← indexOf_eq]
  simp only [runRemoval, List.filterMap_map, List.map_map, Function.comp_def]

/-- The report on a single file that can be loaded. -/
theorem report_runRemoval_singleton {f : LoadedFile} (h : loadFile t path = .ok f) :
    (runRemoval recipe removal o t [path] refusal).report.fixed =
        (fate removal o refusal t [path] path).fixedFile?.toList ∧
      (runRemoval recipe removal o t [path] refusal).report.failures =
        (failureOf? removal o refusal t [path] path).toList := by
  have hloads : t.loads path = true := FileTree.loads_iff.2 ⟨f, h⟩
  have hunloaded : t.loadFailure? path = none := by rw [FileTree.loadFailure?, h]
  have hcollect : t.collect o.filter [path] = [path] :=
    FileTree.collect_of_loads o.filter (List.forall_mem_singleton.2 hloads)
  rw [fixed_runRemoval, failures_runRemoval, hcollect, List.filterMap_cons_none hunloaded,
    List.filter_cons_of_pos hloads, List.filter_nil, List.filterMap_nil, List.nil_append,
    List.filterMap_cons, List.filterMap_cons, List.filterMap_nil, List.filterMap_nil]
  constructor
  · cases (fate removal o refusal t [path] path).fixedFile? <;> rfl
  · cases failureOf? removal o refusal t [path] path <;> rfl

end Run
end JavaThrows
