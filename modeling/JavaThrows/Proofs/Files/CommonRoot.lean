import JavaThrows.Files.Containment
import JavaThrows.Proofs.Batch.Fate
import JavaThrows.Proofs.Files.Located

set_option autoImplicit false

/-!
# The deepest directory around several paths

The locations around a location are its prefixes, deepest first, so the first of them that another
directory lies in is the deepest prefix of both. A root that is widened to one directory after
another so ends as the deepest common prefix of all of them, whatever their order. Main statement:
`commonRoot?_deepest`.
-/

namespace JavaThrows

/-! ## Widening a root -/

namespace Location

variable {root dir l : Location}

theorem mem_ancestors_iff : l ∈ root.ancestors ↔ l <+: root := by
  induction root generalizing l with
  | nil => rw [ancestors, List.mem_singleton, List.prefix_nil]
  | cons name names ih =>
    rw [ancestors, List.mem_append, List.mem_map, List.mem_singleton, List.prefix_cons_iff, or_comm]
    simp only [ih, and_comm, eq_comm]

/-- From the inside out, each location lies in all that come later. -/
theorem ancestors_pairwise (root : Location) :
    root.ancestors.Pairwise fun inner outer => outer <+: inner := by
  induction root with
  | nil => exact List.pairwise_singleton _ _
  | cons name names ih =>
    rw [ancestors, List.pairwise_append]
    refine ⟨?_, List.pairwise_singleton _ _, ?_⟩
    · rw [List.pairwise_map]
      exact ih.imp fun h => List.cons_prefix_cons.2 ⟨rfl, h⟩
    · intro inner _ outer houter
      rw [List.mem_singleton.1 houter]
      exact List.nil_prefix

/-- **The widened root is the deepest location around the root and the directory.** -/
theorem isPrefix_widenTo_iff : l <+: root.widenTo dir ↔ l <+: root ∧ l <+: dir := by
  rw [widenTo]
  cases hfind : root.ancestors.find? dir.isWithin with
  | none =>
    -- The outermost location holds everything.
    have hnone := List.find?_eq_none.1 hfind [] (mem_ancestors_iff.2 List.nil_prefix)
    exact absurd rfl hnone
  | some deepest =>
    rw [Option.getD_some]
    obtain ⟨hwithin, deeper, wider, hsplit, hdeeper⟩ := List.find?_eq_some_iff_append.1 hfind
    have hdir : deepest <+: dir := List.isPrefixOf_iff_prefix.1 hwithin
    have hroot : deepest <+: root := by
      rw [← mem_ancestors_iff, hsplit]
      exact List.mem_append_right _ List.mem_cons_self
    constructor
    · intro hl
      exact ⟨hl.trans hroot, hl.trans hdir⟩
    · rintro ⟨hlroot, hldir⟩
      have hpairwise := ancestors_pairwise root
      rw [← mem_ancestors_iff, hsplit, List.mem_append, List.mem_cons] at hlroot
      rw [hsplit, List.pairwise_append, List.pairwise_cons] at hpairwise
      rcases hlroot with hl | rfl | hl
      · -- Then the search would have stopped earlier.
        have hmiss := hdeeper l hl
        simp [isWithin, List.isPrefixOf_iff_prefix.2 hldir] at hmiss
      · exact List.prefix_rfl
      · exact hpairwise.2.1.1 l hl

/-- The invariant of the search for a common root: what is around all directories met so far. -/
theorem isPrefix_foldl_widenTo_iff {dirs : List Location} :
    l <+: dirs.foldl widenTo dir ↔ ∀ d ∈ dir :: dirs, l <+: d := by
  induction dirs generalizing dir with
  | nil => simp
  | cons next dirs ih =>
    rw [List.foldl_cons, ih]
    simp only [List.forall_mem_cons, isPrefix_widenTo_iff, and_assoc]

/-- A location is told by the locations around it. -/
theorem eq_of_isPrefix_iff {a b : Location} (h : ∀ l, l <+: a ↔ l <+: b) : a = b := by
  have hab : a <+: b := (h a).1 List.prefix_rfl
  have hba : b <+: a := (h b).2 List.prefix_rfl
  exact hab.eq_of_length (Nat.le_antisymm hab.length_le hba.length_le)

end Location

namespace FileTree

variable {t : FileTree} {path : String} {paths : List String}

/-! ## Directories of paths -/

/-- The directory that a path denotes, or that its file lies in, for a path that denotes `l`. -/
def directoryAt (t : FileTree) (path : String) (l : Location) : Location :=
  if t.isDir path then l else l.dropLast

theorem directoryAt_isPrefix (t : FileTree) (path : String) (l : Location) :
    t.directoryAt path l <+: l := by
  rw [directoryAt]
  split
  · exact List.prefix_rfl
  · exact List.dropLast_prefix l

/-- What an existing path denotes is a directory or stands in one. -/
theorem exists_directoryOf? (hcwd : t.HasWorkingDir) (h : t.pathExists path) :
    ∃ l, t.locate path = .ok l ∧ t.directoryOf? path = some (t.directoryAt path l) ∧
      t.kindAt? (t.directoryAt path l) = some .dir := by
  obtain ⟨e, he⟩ := Option.isSome_iff_exists.1 h
  rw [ entry?] at he
  cases hlocate : t.locate path with
  | error fault =>
    rw [hlocate] at he
    cases he
  | ok l =>
    rw [hlocate] at he
    have hat : t.root.at? l = some e := he
    refine ⟨l, rfl, ?_, ?_⟩
    · rw [directoryOf?, hlocate, directoryAt]
    · rw [directoryAt]
      split
      · next hdir =>
        rw [isDir, entry?, hlocate] at hdir
        simp only [hat] at hdir
        cases e with
        | dir entries => exact Entry.kindAt?_eq_dir_iff.2 ⟨entries, hat⟩
        | file => cases hdir
        | link => cases hdir
      · next hdir =>
        -- The root is a directory, so there is a name to drop.
        have hne : l ≠ [] := by
          rintro rfl
          have hroot := kindAt?_of_isPrefix List.nil_prefix hcwd.isDir
          obtain ⟨entries, hentries⟩ := Entry.kindAt?_eq_dir_iff.1 hroot
          exact hdir (by simp [isDir, entry?, hlocate, hentries, Entry.isDir])
        rw [← List.dropLast_concat_getLast hne] at hat
        refine kindAt?_of_append (List.cons_ne_nil (l.getLast hne) []) ?_
        rw [Entry.kindAt?, hat]
        rfl

theorem exists_mapM_directoryOf? (h : ∀ path ∈ paths, ∃ dir, t.directoryOf? path = some dir) :
    ∃ dirs, paths.mapM t.directoryOf? = some dirs ∧
      dirs.map some = paths.map t.directoryOf? := by
  induction paths with
  | nil => exact ⟨[], rfl, rfl⟩
  | cons path paths ih =>
    obtain ⟨⟨dir, hdir⟩, hrest⟩ := List.forall_mem_cons.1 h
    obtain ⟨dirs, hdirs, hmap⟩ := ih hrest
    refine ⟨dir :: dirs, ?_, ?_⟩
    · rw [List.mapM_cons, hdir, hdirs]
      rfl
    · rw [List.map_cons, List.map_cons, hdir, hmap]

/-! ## The common root -/

/-- The locations around the common root are those around the directories of all paths. -/
theorem exists_commonRoot? (hne : paths ≠ [])
    (h : ∀ path ∈ paths, ∃ dir, t.directoryOf? path = some dir) :
    ∃ root, t.commonRoot? paths = some root ∧
      ∀ l, l <+: root ↔ ∀ path ∈ paths, ∃ dir, t.directoryOf? path = some dir ∧ l <+: dir := by
  obtain ⟨dirs, hmapM, hmap⟩ := exists_mapM_directoryOf? h
  cases dirs with
  | nil => exact absurd (List.map_eq_nil_iff.1 hmap.symm) hne
  | cons dir dirs =>
    refine ⟨dirs.foldl Location.widenTo dir, by rw [commonRoot?, hmapM], fun l => ?_⟩
    rw [Location.isPrefix_foldl_widenTo_iff]
    constructor
    · intro hl path hpath
      have hmem : t.directoryOf? path ∈ (dir :: dirs).map some :=
        hmap ▸ List.mem_map_of_mem hpath
      obtain ⟨d, hd, heq⟩ := List.mem_map.1 hmem
      exact ⟨d, heq.symm, hl d hd⟩
    · intro hl d hd
      have hmem : some d ∈ paths.map t.directoryOf? := hmap ▸ List.mem_map_of_mem hd
      obtain ⟨path, hpath, heq⟩ := List.mem_map.1 hmem
      obtain ⟨d', hd', hld⟩ := hl path hpath
      rw [heq, Option.some.injEq] at hd'
      rwa [hd']

/-- **The common root is the deepest directory around all paths.** The locations around it are just
    those around every path's directory, so each of them leads to it; the order of the paths and
    how often one is given do not matter; and each path lies within the root. -/
theorem commonRoot?_deepest (hcwd : t.HasWorkingDir) (hne : paths ≠ [])
    (h : ∀ path ∈ paths, t.pathExists path) :
    ∃ root, t.commonRoot? paths = some root ∧ t.kindAt? root = some .dir ∧
      (∀ path ∈ paths, ∃ l, t.locate path = .ok l ∧ root <+: t.directoryAt path l) ∧
      (∀ other : Location,
        (∀ path ∈ paths, ∃ l, t.locate path = .ok l ∧ other <+: t.directoryAt path l) →
          other <+: root) ∧
      (∀ others : List String, (∀ path, path ∈ others ↔ path ∈ paths) →
        t.commonRoot? others = some root) ∧
      ∀ path ∈ paths, ∃ l, t.locate path = .ok l ∧ t.locateWithin path root.path = .ok l := by
  have hdirs : ∀ path ∈ paths, ∃ dir, t.directoryOf? path = some dir := by
    intro path hpath
    obtain ⟨l, -, hdir, -⟩ := exists_directoryOf? hcwd (h path hpath)
    exact ⟨t.directoryAt path l, hdir⟩
  obtain ⟨root, hroot, haround⟩ := exists_commonRoot? hne hdirs
  have hlies : ∀ path ∈ paths, ∃ l, t.locate path = .ok l ∧ root <+: t.directoryAt path l ∧
      t.kindAt? (t.directoryAt path l) = some .dir := by
    intro path hpath
    obtain ⟨l, hlocate, hdir, hkind⟩ := exists_directoryOf? hcwd (h path hpath)
    obtain ⟨dir, hdir', hfront⟩ := (haround root).1 List.prefix_rfl path hpath
    rw [hdir, Option.some.injEq] at hdir'
    exact ⟨l, hlocate, hdir' ▸ hfront, hkind⟩
  obtain ⟨first, hfirst⟩ := List.exists_mem_of_ne_nil paths hne
  obtain ⟨place, hplace, hfront, hkind⟩ := hlies first hfirst
  have hdir : t.kindAt? root = some .dir := kindAt?_of_isPrefix hfront hkind
  have hnames : ∀ name ∈ root, Path.IsName name := by
    intro name hname
    have hmem := (hfront.trans (directoryAt_isPrefix t first place)).subset hname
    exact isName_of_locate hcwd hplace name hmem
  refine ⟨root, hroot, hdir, ?_, ?_, ?_, ?_⟩
  · intro path hpath
    obtain ⟨l, hlocate, hlroot, -⟩ := hlies path hpath
    exact ⟨l, hlocate, hlroot⟩
  · intro other hother
    rw [haround]
    intro path hpath
    obtain ⟨l, hlocate, hl⟩ := hother path hpath
    exact ⟨t.directoryAt path l, by rw [directoryOf?, hlocate, directoryAt], hl⟩
  · intro others hothers
    have hne' : others ≠ [] := List.ne_nil_of_mem ((hothers first).2 hfirst)
    obtain ⟨root', hroot', haround'⟩ :=
      exists_commonRoot? hne' fun path hpath => hdirs path ((hothers path).1 hpath)
    have heq : root' = root := by
      refine Location.eq_of_isPrefix_iff ?_
      intro l
      rw [haround, haround']
      simp only [hothers]
    rw [hroot', heq]
  · intro path hpath
    obtain ⟨l, hlocate, hlroot, -⟩ := hlies path hpath
    refine ⟨l, hlocate, locateWithin_eq_ok_iff.2 ⟨hlocate, root, locate_path hdir hnames, ?_⟩⟩
    exact List.isPrefixOf_iff_prefix.2 (hlroot.trans (directoryAt_isPrefix t path l))

end FileTree

namespace Neighbours

/-- Two directories, the name of one starting like the other's, and a link between them. -/
def tree : FileTree :=
  ⟨.dir [("w", .dir [("a", .dir [("A.java", .file ByteArray.empty), ("L", .link "../ab")]),
    ("ab", .dir [])])], ["w"]⟩

theorem hasWorkingDir : tree.HasWorkingDir where
  isDir := rfl
  names := by
    intro name hname
    rw [List.mem_singleton.1 hname]
    exact ⟨by decide, by decide, by decide, by decide⟩

theorem locate_file : tree.locate "a/A.java" = .ok ["w", "a", "A.java"] := by
  have hw : tree.root.kindAt? ["w"] = some .dir := rfl
  have ha : tree.root.kindAt? ["w", "a"] = some .dir := rfl
  have hfile : tree.root.kindAt? ["w", "a", "A.java"] = some .file := rfl
  have hsteps : FileTree.steps "a/A.java" = [.name "a", .name "A.java"] := by decide +kernel
  show FileTree.follow tree.root false 40 ["w"] (FileTree.steps "a/A.java") = _
  rw [hsteps]
  simp [FileTree.follow_name_cons, FileTree.follow, hw, ha, hfile]

theorem locate_link : tree.locate "a/L" = .ok ["w", "ab"] := by
  have hw : tree.root.kindAt? ["w"] = some .dir := rfl
  have ha : tree.root.kindAt? ["w", "a"] = some .dir := rfl
  have hlink : tree.root.kindAt? ["w", "a", "L"] = some (.link "../ab") := rfl
  have hab : tree.root.kindAt? ["w", "ab"] = some .dir := rfl
  have hsteps : FileTree.steps "a/L" = [.name "a", .name "L"] := by decide +kernel
  have htarget : FileTree.steps "../ab" = [.up, .name "ab"] := by decide +kernel
  show FileTree.follow tree.root false 40 ["w"] (FileTree.steps "a/L") = _
  rw [hsteps]
  simp [FileTree.follow_name_cons, FileTree.follow_up_cons, FileTree.follow, hw, ha, hlink,
    htarget, hab]

theorem commonRoot?_deepest_neighbours : tree.HasWorkingDir ∧ ["a/A.java", "a/L"] ≠ [] ∧
    (∀ path ∈ ["a/A.java", "a/L"], tree.pathExists path) ∧
    tree.commonRoot? ["a/L", "a/A.java", "a/L"] = some ["w"] ∧
    ∀ path ∈ ["a/A.java", "a/L"], ∃ l, tree.locateWithin path "/w" = .ok l := by
  have hexists : ∀ path ∈ ["a/A.java", "a/L"], tree.pathExists path := by
    simp only [FileTree.pathExists, FileTree.entry?, List.forall_mem_cons, locate_file,
      locate_link]
    exact ⟨rfl, rfl, List.forall_mem_nil _⟩
  obtain ⟨root, hroot, -, -, -, hothers, hwithin⟩ :=
    FileTree.commonRoot?_deepest hasWorkingDir (List.cons_ne_nil _ _) hexists
  have hw : root = ["w"] := by
    simp only [FileTree.commonRoot?, FileTree.directoryOf?, FileTree.isDir, FileTree.entry?,
      List.mapM_cons, List.mapM_nil, locate_file, locate_link] at hroot
    exact (Option.some.inj hroot).symm
  subst hw
  refine ⟨hasWorkingDir, List.cons_ne_nil _ _, hexists, hothers _ (by simp), ?_⟩
  intro path hpath
  obtain ⟨l, -, hl⟩ := hwithin path hpath
  exact ⟨l, hl⟩

end Neighbours
end JavaThrows
