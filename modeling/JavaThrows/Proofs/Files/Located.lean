import JavaThrows.Proofs.Files.Writing
import JavaThrows.Proofs.Text.Split

set_option autoImplicit false

/-!
# The path of a location

A path is followed to a location whose names stand in no link's place, and each of them has been a
piece of some path, so the path that is composed of these names leads back to the same location.
Main statement: `locate_path`.
-/

namespace JavaThrows

/-- A text that can be the name of an entry: as a piece of a path it means just this entry. -/
structure Path.IsName (name : String) : Prop where
  ne_empty : name.toList ≠ []
  ne_here : name.toList ≠ ['.']
  ne_up : name.toList ≠ ['.', '.']
  noSlash : '/' ∉ name.toList

namespace FileTree

/-! ## Names on the way -/

/-- The working directory is a directory that paths can lead to. -/
structure HasWorkingDir (t : FileTree) : Prop where
  isDir : t.kindAt? t.workingDir = some .dir
  names : ∀ name ∈ t.workingDir, Path.IsName name

theorem componentOf_of_isName {name : String} (h : Path.IsName name) :
    Path.componentOf name.toList = some (.name name) := by
  rw [Path.componentOf, if_neg (by simp [h.ne_empty, h.ne_here]), if_neg h.ne_up,
    String.ofList_toList]

/-- Each name that a path asks for is a piece of the path. -/
theorem isName_of_mem_steps {path name : String} (h : .name name ∈ steps path) :
    Path.IsName name := by
  simp only [steps, List.mem_append, List.mem_filterMap] at h
  rcases h with (h | ⟨piece, hpiece, h⟩) | h
  · split at h
    · simp at h
    · cases h
  · split at h
    · cases h
    · next hhere =>
      rw [Path.componentOf] at h
      split at h
      · cases h
      · next hidle =>
        split at h
        · cases h
        · next hup =>
          simp only [Option.some.injEq, Path.Component.name.injEq] at h
          rw [not_or] at hidle
          subst h
          refine ⟨?_, ?_, ?_, ?_⟩
          · rw [String.toList_ofList]
            exact hidle.1
          · rw [String.toList_ofList]
            exact hhere
          · rw [String.toList_ofList]
            exact hup
          · rw [String.toList_ofList]
            intro hslash
            exact (Text.mem_of_mem_splitOn hpiece hslash).2 rfl
  · split at h
    · simp at h
    · cases h

/-- Names come from the steps, from links on the way, and from where the way starts. -/
theorem isName_of_follow {root : Entry} {links : Nat} {here l : Location}
    {asked : List Path.Component} (hhere : ∀ name ∈ here, Path.IsName name)
    (hasked : ∀ name, .name name ∈ asked → Path.IsName name)
    (h : follow root false links here asked = .ok l) : ∀ name ∈ l, Path.IsName name := by
  induction links using Nat.strongRecOn generalizing here asked with
  | ind links ihLinks =>
    induction asked generalizing here with
    | nil =>
      rw [follow] at h
      cases h
      exact hhere
    | cons step rest ih =>
      have hrest : ∀ name, .name name ∈ rest → Path.IsName name := fun name hname =>
        hasked name (List.mem_cons_of_mem step hname)
      cases step with
      | root =>
        rw [follow] at h
        exact ih (List.forall_mem_nil _) hrest h
      | here =>
        rw [follow_here_cons] at h
        split at h
        · exact ih hhere hrest h
        · cases h
      | up =>
        rw [follow_up_cons] at h
        split at h
        · exact ih (fun name hname => hhere name (List.dropLast_subset here hname)) hrest h
        · cases h
      | name name =>
        rw [follow_name_cons] at h
        split at h
        · split at h
          · simp at h
          · -- The target of a link is a path as well.
            split at h
            · cases h
            · refine ihLinks _ (Nat.lt_succ_self _) hhere ?_ h
              intro other hother
              rcases List.mem_append.1 hother with hother | hother
              · exact isName_of_mem_steps hother
              · exact hrest other hother
          · refine ih ?_ hrest h
            intro other hother
            rcases List.mem_append.1 hother with hother | hother
            · exact hhere other hother
            · rw [List.mem_singleton.1 hother]
              exact hasked name List.mem_cons_self
        · cases h

variable {t : FileTree}

theorem isName_of_locate (hcwd : t.HasWorkingDir) {path : String} {l : Location}
    (h : t.locate path = .ok l) : ∀ name ∈ l, Path.IsName name := by
  rw [locate, locateWith] at h
  split at h
  · cases h
  · exact isName_of_follow hcwd.names (fun _ => isName_of_mem_steps) h

/-! ## The way down to a directory -/

/-- Whatever stands below a location, the location is that of a directory. -/
theorem kindAt?_of_append {e : Entry} {l below : Location} (hne : below ≠ [])
    (h : (e.kindAt? (l ++ below)).isSome) : e.kindAt? l = some .dir := by
  obtain ⟨name, names, rfl⟩ := List.exists_cons_of_ne_nil hne
  rw [Entry.kindAt?, Option.isSome_map, Entry.at?_append] at h
  obtain ⟨f, hf⟩ := Option.isSome_iff_exists.1 h
  obtain ⟨d, hd, hbelow⟩ := Option.bind_eq_some_iff.1 hf
  obtain ⟨entries, -, rfl, -, -⟩ := Entry.exists_child?_of_at?_cons hbelow
  exact Entry.kindAt?_eq_dir_iff.2 ⟨entries, hd⟩

theorem kindAt?_of_isPrefix {e : Entry} {l inner : Location} (hfront : l <+: inner)
    (h : e.kindAt? inner = some .dir) : e.kindAt? l = some .dir := by
  obtain ⟨below, rfl⟩ := hfront
  by_cases hbelow : below = []
  · rwa [hbelow, List.append_nil] at h
  · exact kindAt?_of_append hbelow (Option.isSome_of_eq_some h)

/-- The names on the way down to a directory are followed one by one. -/
theorem follow_map_name {root : Entry} {links : Nat} {here names : Location}
    (h : root.kindAt? (here ++ names) = some .dir) :
    follow root false links here (names.map .name) = .ok (here ++ names) := by
  induction names generalizing here with
  | nil => rw [List.map_nil, follow, List.append_nil]
  | cons name names ih =>
    have hhere : root.kindAt? here = some .dir :=
      kindAt?_of_isPrefix (List.prefix_append here _) h
    have hcons : here ++ name :: names = (here ++ [name]) ++ names := by simp
    rw [hcons] at h ⊢
    have hname : root.kindAt? (here ++ [name]) = some .dir :=
      kindAt?_of_isPrefix (List.prefix_append _ names) h
    rw [List.map_cons, follow_name_cons, if_pos hhere, hname]
    exact ih h

theorem steps_path {l : Location} (hnames : ∀ name ∈ l, Path.IsName name) :
    steps l.path = .root :: if l = [] then [.here] else l.map .name := by
  have hpath : l.path.toList = '/' :: List.intercalate ['/'] (l.map String.toList) := by
    simp [Location.path, String.toList_intercalate]
  have habsolute : Path.isAbsolute l.path := by
    simp [Path.isAbsolute, hpath]
  have hne : l.path.isEmpty = false := by
    simp [Location.path]
  rw [steps, if_pos habsolute, hne, hpath, Text.splitOn_cons_self]
  by_cases hl : l = []
  · subst hl
    rfl
  · have hpieces : Text.splitOn '/' (List.intercalate ['/'] (l.map String.toList)) =
        l.map String.toList := by
      refine Text.splitOn_intercalate (by simpa using hl) ?_
      intro piece hpiece
      obtain ⟨name, hname, rfl⟩ := List.mem_map.1 hpiece
      exact (hnames name hname).noSlash
    have hinside : (l.map String.toList).filterMap (fun piece =>
        if piece = ['.'] then some .here else Path.componentOf piece) =
          l.map Path.Component.name := by
      clear hpath habsolute hne hl hpieces
      induction l with
      | nil => rfl
      | cons name names ih =>
        obtain ⟨hname, hnames⟩ := List.forall_mem_cons.1 hnames
        rw [List.map_cons, List.map_cons, List.filterMap_cons_some, ih hnames]
        rw [if_neg hname.ne_here, componentOf_of_isName hname]
    have hlast : (([] :: l.map String.toList).getLast? == some []) = false := by
      have hmem := List.getLast_mem hl
      rw [List.getLast?_cons, List.getLast?_map, List.getLast?_eq_some_getLast hl]
      simpa using (hnames _ hmem).ne_empty
    rw [hpieces, hlast, if_neg hl, List.filterMap_cons_none rfl, hinside]
    simp

/-- **The path of a directory's location denotes the directory.** -/
theorem locate_path {l : Location} (hdir : t.kindAt? l = some .dir)
    (hnames : ∀ name ∈ l, Path.IsName name) : t.locate l.path = .ok l := by
  have hne : l.path.isEmpty = false := by
    simp [Location.path]
  rw [locate, locateWith, hne, steps_path hnames]
  show follow t.root false linkLimit t.workingDir _ = .ok l
  rw [follow]
  split
  · next hl =>
    subst hl
    have hroot : t.root.kindAt? [] = some .dir := hdir
    rw [follow_here_cons, if_pos hroot, follow]
  · exact follow_map_name hdir

end FileTree
end JavaThrows
