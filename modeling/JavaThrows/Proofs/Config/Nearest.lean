import JavaThrows.Config.Settings
import JavaThrows.Proofs.Files.CommonRoot
import JavaThrows.Proofs.Files.Ways

set_option autoImplicit false

/-!
# Which configuration is found

The search for a configuration starts in the directory that a path denotes and goes on to the
parents that the text of the path shows. Cutting off a name goes up in the tree, and cutting off two
points goes down again, to a directory that the path only comes through. Main statement:
`fromNearest_iff`, the configuration is that of the nearest directory around the path exactly if the
first one that the search comes to lies around the path at all. Without two points it always does.
-/

namespace JavaThrows

namespace Config

variable {t : FileTree} {path : String} {d dir l : Location}

/-! ## The directories that are searched -/

theorem withParents_of_some {parent : String} (h : Path.parent? path = some parent) :
    withParents path = path :: withParents parent := by
  rw [withParents]
  split
  · next hparent =>
    rw [h, Option.some.injEq] at hparent
    rw [hparent]
  · next hparent => rw [h] at hparent; cases hparent

theorem withParents_of_none (h : Path.parent? path = none) : withParents path = [path] := by
  rw [withParents]
  split
  · next hparent => rw [h] at hparent; cases hparent
  · rfl

theorem head?_withParents (path : String) : (withParents path).head? = some path := by
  cases hparent : Path.parent? path with
  | none => rw [withParents_of_none hparent, List.head?_cons]
  | some parent => rw [withParents_of_some hparent, List.head?_cons]

theorem length_withParents_le (path : String) : (withParents path).length ≤ path.length + 1 := by
  induction path using withParents.induct with
  | case1 path parent hparent ih =>
    have hshorter := Path.length_of_parent?_eq_some hparent
    rw [withParents_of_some hparent, List.length_cons]
    omega
  | case2 path hparent => simp [withParents_of_none hparent]

/-- The search ends: no more directories are searched than the path has characters, and one. -/
theorem length_searchPath_le (t : FileTree) (path : String) :
    (searchPath t path).length ≤ path.length + 1 := by
  rw [searchPath]
  split
  · cases hparent : Path.parent? path with
    | none => exact length_withParents_le path
    | some parent =>
      have hshorter := Path.length_of_parent?_eq_some hparent
      have hlength := length_withParents_le parent
      rw [Option.getD_some]
      omega
  · exact length_withParents_le path

/-- The search for an existing path starts in its directory. -/
theorem exists_searchPath (hcwd : t.HasWorkingDir) (hexists : t.pathExists path)
    (h : t.LeadsTo path l) :
    ∃ start, searchPath t path = withParents start ∧ t.LeadsTo start (t.directoryAt path l) ∧
      t.kindAt? (t.directoryAt path l) = some .dir ∧
      (.up ∈ FileTree.steps start → .up ∈ FileTree.steps path) := by
  have hne := (h.pathExists_iff hcwd).1 hexists
  rw [searchPath, FileTree.directoryAt]
  rcases h.isSolid hcwd with hkind | hkind
  · have hfile : ¬ t.isFile path := by simp [h.isFile_iff hne, hkind]
    rw [if_neg hfile, if_pos ((h.isDir_iff hne).2 hkind)]
    exact ⟨path, rfl, h, hkind, id⟩
  · have hdir : ¬ t.isDir path := by simp [h.isDir_iff hne, hkind]
    rw [if_pos ((h.isFile_iff hne).2 hkind), if_neg hdir]
    cases hparent : Path.parent? path with
    | none =>
      rcases h.eq_of_parent?_eq_none hparent with rfl | rfl
      · simp [hcwd.isDir] at hkind
      · simp [hcwd.root] at hkind
    | some parent =>
      obtain ⟨dir, hway, hdir, ⟨name, rfl⟩ | rfl | ⟨-, rfl⟩⟩ := h.exists_parent? hparent
      · rw [List.dropLast_concat, Option.getD_some]
        exact ⟨parent, rfl, hway, hdir, FileTree.up_mem_steps_of_parent? hparent⟩
      · simp [hdir] at hkind
      · have houter : t.kindAt? dir.dropLast = some .dir :=
          FileTree.kindAt?_of_isPrefix (List.dropLast_prefix dir) hdir
        simp [houter] at hkind

/-- **Each path of the search leads to a directory, around the first one where no step goes up.** -/
theorem exists_of_mem_withParents (h : t.LeadsTo path d) (hdir : t.kindAt? d = some .dir)
    {p : String} (hp : p ∈ withParents path) :
    ∃ dir, t.LeadsTo p dir ∧ t.kindAt? dir = some .dir ∧
      (.up ∉ FileTree.steps path → dir <+: d) := by
  induction path using withParents.induct generalizing d with
  | case1 path parent hparent ih =>
    rw [withParents_of_some hparent] at hp
    rcases List.mem_cons.1 hp with rfl | hp
    · exact ⟨d, h, hdir, fun _ => List.prefix_rfl⟩
    · obtain ⟨outer, hway, houter, hplace⟩ := h.exists_parent? hparent
      obtain ⟨dir, hpdir, hkind, haround⟩ := ih hway houter hp
      refine ⟨dir, hpdir, hkind, fun hup => ?_⟩
      have hfront : dir <+: outer :=
        haround fun h => hup (FileTree.up_mem_steps_of_parent? hparent h)
      rcases hplace with ⟨name, rfl⟩ | rfl | ⟨hup', -⟩
      · exact hfront.trans (List.prefix_append outer [name])
      · exact hfront
      · exact absurd hup' hup
  | case2 path hparent =>
    rw [withParents_of_none hparent, List.mem_singleton] at hp
    exact ⟨d, hp ▸ h, hdir, fun _ => List.prefix_rfl⟩

/-- Going to the parent leaves out no directory but the one that the path leads to. -/
theorem exists_parent?_around {parent : String} (h : t.LeadsTo path d)
    (hparent : Path.parent? path = some parent) :
    ∃ outer, t.LeadsTo parent outer ∧ t.kindAt? outer = some .dir ∧
      ∀ l, l <+: d → l = d ∨ l <+: outer := by
  obtain ⟨outer, hway, hdir, hplace⟩ := h.exists_parent? hparent
  refine ⟨outer, hway, hdir, fun l hl => ?_⟩
  rcases hplace with ⟨name, rfl⟩ | rfl | ⟨-, rfl⟩
  · rwa [List.prefix_concat_iff] at hl
  · exact .inr hl
  · exact .inr (hl.trans (List.dropLast_prefix outer))

/-- **The search leaves out no directory on the way up.** What is around the first directory is
    around the one that the search has come to, or the search has been there. -/
theorem isPrefix_or_mem (h : t.LeadsTo path d) {p : String} {front back : List String}
    (hp : withParents path = front ++ p :: back) (hpdir : t.LeadsTo p dir) (hl : l <+: d) :
    l <+: dir ∨ ∃ q ∈ front, t.LeadsTo q l := by
  induction front generalizing path d with
  | nil =>
    have hhead := head?_withParents path
    rw [hp, List.nil_append, List.head?_cons, Option.some.injEq] at hhead
    subst hhead
    exact .inl (hpdir.eq h ▸ hl)
  | cons q front ih =>
    cases hparent : Path.parent? path with
    | none => simp [withParents_of_none hparent] at hp
    | some parent =>
      rw [withParents_of_some hparent, List.cons_append, List.cons.injEq] at hp
      obtain ⟨rfl, hp⟩ := hp
      obtain ⟨outer, hway, -, haround⟩ := exists_parent?_around h hparent
      rcases haround l hl with rfl | hl
      · exact .inr ⟨path, List.mem_cons_self, h⟩
      · refine (ih hway hp hl).imp_right ?_
        rintro ⟨q, hq, hql⟩
        exact ⟨q, List.mem_cons_of_mem path hq, hql⟩

/-- The search goes up to the working directory, or further. -/
theorem exists_mem_withParents (h : t.LeadsTo path d) (hl : l <+: d) :
    (∃ q ∈ withParents path, t.LeadsTo q l) ∨ l <+: t.workingDir ∧ l ≠ t.workingDir := by
  induction path using withParents.induct generalizing d with
  | case1 path parent hparent ih =>
    rw [withParents_of_some hparent]
    obtain ⟨outer, hway, -, haround⟩ := exists_parent?_around h hparent
    rcases haround l hl with rfl | hl
    · exact .inl ⟨path, List.mem_cons_self, h⟩
    · refine (ih hway hl).imp_left ?_
      rintro ⟨q, hq, hql⟩
      exact ⟨q, List.mem_cons_of_mem path hq, hql⟩
  | case2 path hparent =>
    by_cases hld : l = d
    · exact .inl ⟨path, by simp [withParents_of_none hparent], hld ▸ h⟩
    · rcases h.eq_of_parent?_eq_none hparent with rfl | rfl
      · exact .inr ⟨hl, hld⟩
      · exact absurd (List.prefix_nil.1 hl) hld

/-! ## The configuration of a directory -/

/-- The settings in the configuration file of the directory at a location; none where there is no
    such file or where it is no configuration. -/
def settingsIn? (t : FileTree) (dir : Location) : Option Settings :=
  (inDirectory? t dir.path).map Config.settings

/-- The path leads to the configuration file of the directory at a location, which may be a link,
    and meets no other link. -/
def LiesIn (t : FileTree) (file : String) (dir : Location) : Prop :=
  ∃ front, FileTree.steps file = front ++ [.name Settings.fileName] ∧
    t.Follows t.workingDir front dir

theorem isName_fileName : Path.IsName Settings.fileName :=
  ⟨by decide, by decide, by decide, by decide⟩

/-- **What is found by way of a path is what the directory holds that the path leads to.** -/
theorem inDirectory?_eq (hcwd : t.HasWorkingDir) (h : t.LeadsTo path dir)
    (hdir : t.kindAt? dir = some .dir) : inDirectory? t path =
      (settingsIn? t dir).map fun settings =>
        ⟨settings, some (Path.join path Settings.fileName)⟩ := by
  have hplace := h.locate_join isName_fileName
  have hdirect := (FileTree.leadsTo_path hdir (h.isName hcwd)).locate_join isName_fileName
  have hread : t.readText (Path.join path Settings.fileName) =
      t.readText (Path.join dir.path Settings.fileName) := by
    rw [FileTree.readText, FileTree.readText, hplace, hdirect]
  rw [settingsIn?, inDirectory?, inDirectory?, hread]
  cases t.readText (Path.join dir.path Settings.fileName) with
  | error => rfl
  | ok text => simp [Function.comp_def]

/-- Where its file is no link, a directory holds what the content of the file says. -/
theorem settingsIn?_eq (hdir : t.kindAt? dir = some .dir) (hnames : ∀ name ∈ dir, Path.IsName name)
    (hplain : ∀ target, t.kindAt? (dir ++ [Settings.fileName]) ≠ some (.link target)) :
    settingsIn? t dir = ((t.contentAt? (dir ++ [Settings.fileName])).bind String.fromUTF8?).bind
      Settings.ofText? := by
  have hlocate := (FileTree.leadsTo_path hdir hnames).locate_join isName_fileName
  rw [FileTree.kindAt?] at hdir
  simp only [FileTree.kindAt?, Entry.kindAt?] at hplain
  rw [FileTree.follow_name_cons, if_pos hdir, Entry.kindAt?] at hlocate
  rw [settingsIn?, inDirectory?, FileTree.readText, hlocate, FileTree.contentAt?, Entry.contentAt?]
  cases hat : t.root.at? (dir ++ [Settings.fileName]) with
  | none => simp
  | some e =>
    rw [hat] at hplain
    cases e with
    | file content =>
      cases htext : String.fromUTF8? content <;>
        simp [FileTree.follow, Entry.kind, Entry.content?, hat, htext, Function.comp_def]
    | link target => exact absurd rfl (hplain target)
    | dir entries => simp [FileTree.follow, Entry.kind, Entry.content?, hat]

theorem fromUTF8?_toUTF8 (text : String) : String.fromUTF8? text.toUTF8 = some text := by
  unfold String.fromUTF8?
  split
  · rfl
  · next h => exact absurd text.isValidUTF8 (by simpa using h)

theorem settingsIn?_of_text {text : String} (hdir : t.kindAt? dir = some .dir)
    (hnames : ∀ name ∈ dir, Path.IsName name)
    (htext : t.contentAt? (dir ++ [Settings.fileName]) = some text.toUTF8) :
    settingsIn? t dir = Settings.ofText? text := by
  have hkind := FileTree.isSome_contentAt?_iff.1 (Option.isSome_of_eq_some htext)
  rw [settingsIn?_eq hdir hnames (by simp [hkind]), htext, Option.bind_some, fromUTF8?_toUTF8,
    Option.bind_some]

theorem liesIn_join (h : t.LeadsTo path dir) :
    LiesIn t (Path.join path Settings.fileName) dir :=
  ⟨_, FileTree.steps_join isName_fileName path, h.follows_leadingSteps⟩

theorem liesIn_unique {file : String} {dir' : Location} (h : LiesIn t file dir)
    (h' : LiesIn t file dir') : dir = dir' := by
  obtain ⟨front, hsteps, hway⟩ := h
  obtain ⟨front', hsteps', hway'⟩ := h'
  obtain rfl := List.append_cancel_right (hsteps.symm.trans hsteps')
  exact hway.eq hway'

/-! ## What is found first -/

/-- The directory is the first one with a configuration that the search for a path comes to. -/
def FoundFirst (t : FileTree) (path : String) (dir : Location) : Prop :=
  ∃ front p back, searchPath t path = front ++ p :: back ∧ t.LeadsTo p dir ∧
    (settingsIn? t dir).isSome ∧ ∀ q ∈ front, ∀ other, t.LeadsTo q other →
      settingsIn? t other = none

/-- The settings for a path, if there are any, are those of a directory at or around `d`, and no
    directory that is closer to `d` holds a configuration. -/
def FromNearest (t : FileTree) (path : String) (d : Location) : Prop :=
  ∀ file, (load t path).file = some file → ∃ dir, LiesIn t file dir ∧ dir <+: d ∧
    settingsIn? t dir = some (load t path).settings ∧
    ∀ inner, inner <+: d → ¬ inner <+: dir → settingsIn? t inner = none

theorem file_of_inDirectory? {p : String} {c : Config} (h : inDirectory? t p = some c) :
    c.file = some (Path.join p Settings.fileName) := by
  rw [inDirectory?] at h
  split at h
  · obtain ⟨settings, -, rfl⟩ := Option.map_eq_some_iff.1 h
    rfl
  · cases h

theorem inDirectory?_eq_none_of_file (h : (load t path).file = none) :
    ∀ p ∈ searchPath t path, inDirectory? t p = none := by
  rw [← List.findSome?_eq_none_iff]
  cases hfind : (searchPath t path).findSome? (inDirectory? t) with
  | none => rfl
  | some found =>
    obtain ⟨p, -, hin⟩ := List.exists_of_findSome?_eq_some hfind
    rw [load, hfind, Option.getD_some, file_of_inDirectory? hin] at h
    cases h

section Existing

variable (hcwd : t.HasWorkingDir) (hexists : t.pathExists path) (h : t.LeadsTo path l)
include hcwd hexists h

theorem inDirectory?_of_mem {p : String} (hp : p ∈ searchPath t path) (hpdir : t.LeadsTo p dir) :
    inDirectory? t p = (settingsIn? t dir).map fun settings =>
      ⟨settings, some (Path.join p Settings.fileName)⟩ := by
  obtain ⟨start, hsearch, hstart, hdir, -⟩ := exists_searchPath hcwd hexists h
  obtain ⟨place, hplace, hkind, -⟩ := exists_of_mem_withParents hstart hdir (hsearch ▸ hp)
  obtain rfl := hpdir.eq hplace
  exact inDirectory?_eq hcwd hpdir hkind

theorem exists_leadsTo_of_mem {p : String} (hp : p ∈ searchPath t path) :
    ∃ dir, t.LeadsTo p dir ∧ (.up ∉ FileTree.steps path → dir <+: t.directoryAt path l) := by
  obtain ⟨start, hsearch, hstart, hdir, hup⟩ := exists_searchPath hcwd hexists h
  obtain ⟨dir, hway, -, haround⟩ := exists_of_mem_withParents hstart hdir (hsearch ▸ hp)
  exact ⟨dir, hway, fun hnone => haround fun hup' => hnone (hup hup')⟩

/-- **What is found first is loaded.** -/
theorem FoundFirst.exists_file (hfound : FoundFirst t path dir) :
    ∃ file, (load t path).file = some file ∧ LiesIn t file dir := by
  obtain ⟨front, p, back, hsplit, hway, hsome, hfront⟩ := hfound
  obtain ⟨settings, hsettings⟩ := Option.isSome_iff_exists.1 hsome
  have hp : p ∈ searchPath t path := hsplit ▸ List.mem_append_right _ List.mem_cons_self
  have hin := inDirectory?_of_mem hcwd hexists h hp hway
  rw [hsettings, Option.map_some] at hin
  have hnone : ∀ q ∈ front, inDirectory? t q = none := by
    intro q hq
    have hq' : q ∈ searchPath t path := hsplit ▸ List.mem_append_left _ hq
    obtain ⟨other, hother, -⟩ := exists_leadsTo_of_mem hcwd hexists h hq'
    rw [inDirectory?_of_mem hcwd hexists h hq' hother, hfront q hq other hother, Option.map_none]
  have hfind := List.findSome?_eq_some_iff.2 ⟨front, p, back, hsplit, hin, hnone⟩
  refine ⟨Path.join p Settings.fileName, ?_, liesIn_join hway⟩
  rw [load, hfind, Option.getD_some]

/-- **What is loaded is what is found first.** -/
theorem exists_foundFirst {file : String} (hfile : (load t path).file = some file) :
    ∃ dir, FoundFirst t path dir ∧ LiesIn t file dir ∧
      settingsIn? t dir = some (load t path).settings := by
  cases hfind : (searchPath t path).findSome? (inDirectory? t) with
  | none =>
    rw [load, hfind] at hfile
    cases hfile
  | some found =>
    obtain ⟨front, p, back, hsplit, hin, hfront⟩ := List.findSome?_eq_some_iff.1 hfind
    have hp : p ∈ searchPath t path := hsplit ▸ List.mem_append_right _ List.mem_cons_self
    obtain ⟨dir, hway, -⟩ := exists_leadsTo_of_mem hcwd hexists h hp
    rw [inDirectory?_of_mem hcwd hexists h hp hway, Option.map_eq_some_iff] at hin
    obtain ⟨settings, hsettings, rfl⟩ := hin
    rw [load, hfind, Option.getD_some] at hfile ⊢
    refine ⟨dir, ⟨front, p, back, hsplit, hway, Option.isSome_of_eq_some hsettings, ?_⟩,
      Option.some.inj hfile ▸ liesIn_join hway, hsettings⟩
    intro q hq other hother
    have hq' : q ∈ searchPath t path := hsplit ▸ List.mem_append_left _ hq
    have hnone := hfront q hq
    rwa [inDirectory?_of_mem hcwd hexists h hq' hother, Option.map_eq_none_iff] at hnone

/-- What lies around the path and does not lie around the directory found first has been passed
    over. -/
theorem FoundFirst.passes_over (hfound : FoundFirst t path dir) {inner : Location}
    (hinner : inner <+: t.directoryAt path l) (hnot : ¬ inner <+: dir) :
    settingsIn? t inner = none := by
  obtain ⟨front, p, back, hsplit, hway, -, hfront⟩ := hfound
  obtain ⟨start, hsearch, hstart, -, -⟩ := exists_searchPath hcwd hexists h
  rw [hsearch] at hsplit
  obtain ⟨q, hq, hqway⟩ := (isPrefix_or_mem hstart hsplit hway hinner).resolve_left hnot
  exact hfront q hq inner hqway

theorem fromNearest_of_foundFirst
    (haround : ∀ dir, FoundFirst t path dir → dir <+: t.directoryAt path l) :
    FromNearest t path (t.directoryAt path l) := by
  intro file hfile
  obtain ⟨dir, hfound, hlies, hsettings⟩ := exists_foundFirst hcwd hexists h hfile
  refine ⟨dir, hlies, haround dir hfound, hsettings, ?_⟩
  intro inner hinner hnot
  exact hfound.passes_over hcwd hexists h hinner hnot

/-- Where nothing is loaded, no directory holds a configuration but for those that are further out
    than the working directory. -/
theorem above_of_file_eq_none (hfile : (load t path).file = none) {inner : Location}
    (hinner : inner <+: t.directoryAt path l) (hsome : (settingsIn? t inner).isSome) :
    inner <+: t.workingDir ∧ inner ≠ t.workingDir := by
  obtain ⟨start, hsearch, hstart, -, -⟩ := exists_searchPath hcwd hexists h
  refine (exists_mem_withParents hstart hinner).resolve_left ?_
  rintro ⟨q, hq, hway⟩
  rw [← hsearch] at hq
  have hin := inDirectory?_of_mem hcwd hexists h hq hway
  rw [inDirectory?_eq_none_of_file hfile q hq, eq_comm, Option.map_eq_none_iff] at hin
  simp [hin] at hsome

end Existing

/-- **The configuration is that of the nearest directory exactly if the search comes to a directory
    around the path first.** A path without two points is enough. Each search ends, and if it finds
    nothing, there is nothing between the working directory and the path. -/
theorem fromNearest_iff (hcwd : t.HasWorkingDir) (hexists : t.pathExists path)
    (h : t.LeadsTo path l) :
    (searchPath t path).length ≤ path.length + 1 ∧
    (FromNearest t path (t.directoryAt path l) ↔
      ∀ dir, FoundFirst t path dir → dir <+: t.directoryAt path l) ∧
    (.up ∉ FileTree.steps path → FromNearest t path (t.directoryAt path l)) ∧
    ((load t path).file = none → ∀ inner, inner <+: t.directoryAt path l →
      (settingsIn? t inner).isSome → inner <+: t.workingDir ∧ inner ≠ t.workingDir) := by
  refine ⟨length_searchPath_le t path, ⟨?_, fromNearest_of_foundFirst hcwd hexists h⟩, ?_, ?_⟩
  · intro hnear dir hfound
    obtain ⟨file, hfile, hlies⟩ := hfound.exists_file hcwd hexists h
    obtain ⟨dir', hlies', haround, -⟩ := hnear file hfile
    rwa [liesIn_unique hlies hlies']
  · intro hup
    refine fromNearest_of_foundFirst hcwd hexists h ?_
    rintro dir ⟨front, p, back, hsplit, hway, -⟩
    have hp : p ∈ searchPath t path := hsplit ▸ List.mem_append_right _ List.mem_cons_self
    obtain ⟨dir', hway', haround⟩ := exists_leadsTo_of_mem hcwd hexists h hp
    exact hway'.eq hway ▸ haround hup
  · intro hfile inner hinner hsome
    exact above_of_file_eq_none hcwd hexists h hfile hinner hsome

end Config

namespace OutAndBack

/-- A directory with a configuration, and in it a directory whose file is none. -/
def tree : FileTree :=
  ⟨.dir [("w", .dir [("a", .dir [
    (".throwstrip.toml", .file "[throwstrip]\nmatch_overrides = false\n".toUTF8),
    ("b", .dir [(".throwstrip.toml", .file "[".toUTF8)])])])], ["w"]⟩

theorem hasWorkingDir : tree.HasWorkingDir where
  isDir := rfl
  names := by
    intro name hname
    rw [List.mem_singleton.1 hname]
    exact ⟨by decide, by decide, by decide, by decide⟩

theorem kinds : tree.kindAt? ["w"] = some .dir ∧ tree.kindAt? ["w", "a"] = some .dir ∧
    tree.kindAt? ["w", "a", "b"] = some .dir :=
  ⟨rfl, rfl, rfl⟩

theorem leadsTo_a : tree.LeadsTo "a" ["w", "a"] := by
  have hsteps : FileTree.steps "a" = [.name "a"] := by decide
  rw [FileTree.LeadsTo, hsteps]
  show tree.Follows ["w"] _ _
  simp [FileTree.IsSolid, kinds]

theorem leadsTo_inside : tree.LeadsTo "a/./b" ["w", "a", "b"] := by
  have hsteps : FileTree.steps "a/./b" = [.name "a", .here, .name "b"] := by decide
  rw [FileTree.LeadsTo, hsteps]
  show tree.Follows ["w"] _ _
  simp [FileTree.IsSolid, kinds]

theorem leadsTo_back : tree.LeadsTo "a/.." ["w"] := by
  have hsteps : FileTree.steps "a/.." = [.name "a", .up] := by decide
  rw [FileTree.LeadsTo, hsteps]
  show tree.Follows ["w"] _ _
  simp [FileTree.IsSolid, kinds]

theorem pathExists_of_leadsTo {path : String} {l : Location} (h : tree.LeadsTo path l)
    (hne : path ≠ "") : tree.pathExists path :=
  (h.pathExists_iff hasWorkingDir).2 hne

theorem settingsIn?_a :
    Config.settingsIn? tree ["w", "a"] = some ⟨none, none, some false, none, none⟩ := by
  rw [Config.settingsIn?_of_text rfl (leadsTo_a.isName hasWorkingDir) rfl]
  decide +kernel

theorem settingsIn?_b : Config.settingsIn? tree ["w", "a", "b"] = none := by
  rw [Config.settingsIn?_of_text rfl (leadsTo_inside.isName hasWorkingDir) rfl]
  decide +kernel

theorem settingsIn?_w : Config.settingsIn? tree ["w"] = none := by
  have hkind : tree.kindAt? ["w", Settings.fileName] = none := rfl
  rw [Config.settingsIn?_eq rfl (leadsTo_back.isName hasWorkingDir) (by simp [hkind])]
  rfl

/-- From a directory without settings the search goes on to `a`. -/
theorem load_file {path : String} {l : Location} (hway : tree.LeadsTo path l) (hne : path ≠ "")
    (hkind : tree.kindAt? l = some .dir) (hparent : Path.parent? path = some "a")
    (hnone : Config.settingsIn? tree l = none) :
    (Config.load tree path).file = some "a/.throwstrip.toml" := by
  have hfile : tree.isFile path = false := by
    rw [← Bool.not_eq_true, hway.isFile_iff hne, hkind]
    simp
  have ha : Config.inDirectory? tree "a" =
      some ⟨⟨none, none, some false, none, none⟩, some "a/.throwstrip.toml"⟩ := by
    have hjoin : Path.join "a" Settings.fileName = "a/.throwstrip.toml" := by decide
    rw [Config.inDirectory?_eq hasWorkingDir leadsTo_a rfl, settingsIn?_a, hjoin, Option.map_some]
  have hnext : Config.inDirectory? tree path = none := by
    rw [Config.inDirectory?_eq hasWorkingDir hway hkind, hnone, Option.map_none]
  rw [Config.load, Config.searchPath, hfile, if_neg Bool.false_ne_true,
    Config.withParents_of_some hparent]
  have hrest : Config.withParents "a" = ["a", ""] := by
    rw [Config.withParents_of_some (by decide : Path.parent? "a" = some ""),
      Config.withParents_of_none (by decide : Path.parent? "" = none)]
  rw [hrest, List.findSome?_cons, hnext, List.findSome?_cons, ha]
  rfl

theorem fromNearest_iff_inside : tree.HasWorkingDir ∧ tree.pathExists "a/./b" ∧
    tree.LeadsTo "a/./b" ["w", "a", "b"] ∧
    (Config.load tree "a/./b").file = some "a/.throwstrip.toml" ∧
    ∃ dir, Config.LiesIn tree "a/.throwstrip.toml" dir ∧ dir <+: ["w", "a", "b"] := by
  have hexists := pathExists_of_leadsTo leadsTo_inside (by decide)
  have hdir : tree.directoryAt "a/./b" ["w", "a", "b"] = ["w", "a", "b"] := by
    rw [FileTree.directoryAt, if_pos ((leadsTo_inside.isDir_iff (by decide)).2 rfl)]
  have hup : .up ∉ FileTree.steps "a/./b" := by decide +kernel
  obtain ⟨-, -, hnear, -⟩ := Config.fromNearest_iff hasWorkingDir hexists leadsTo_inside
  have hfile := load_file leadsTo_inside (by decide) rfl (by decide +kernel) settingsIn?_b
  obtain ⟨dir, hlies, haround, -⟩ := hnear hup _ hfile
  exact ⟨hasWorkingDir, hexists, leadsTo_inside, hfile, dir, hlies, hdir ▸ haround⟩

/-- From outside, the configuration of a directory that the path has come back from is taken. -/
theorem not_fromNearest_back : tree.pathExists "a/.." ∧ tree.LeadsTo "a/.." ["w"] ∧
    tree.directoryAt "a/.." ["w"] = ["w"] ∧
    (Config.load tree "a/..").file = some "a/.throwstrip.toml" ∧
    ¬ Config.FromNearest tree "a/.." ["w"] := by
  have hfile := load_file leadsTo_back (by decide) rfl (by decide +kernel) settingsIn?_w
  refine ⟨pathExists_of_leadsTo leadsTo_back (by decide), leadsTo_back, ?_, hfile, ?_⟩
  · rw [FileTree.directoryAt, if_pos ((leadsTo_back.isDir_iff (by decide)).2 rfl)]
  · intro hnear
    obtain ⟨dir, hlies, haround, -⟩ := hnear _ hfile
    have hjoin : Path.join "a" Settings.fileName = "a/.throwstrip.toml" := by decide +kernel
    have hinner := Config.liesIn_join leadsTo_a
    rw [hjoin] at hinner
    rw [Config.liesIn_unique hlies hinner] at haround
    exact absurd haround (by decide)

end OutAndBack
end JavaThrows
