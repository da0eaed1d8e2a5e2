import JavaThrows.Files.Walk
import JavaThrows.Proofs.Text.Split

set_option autoImplicit false

/-!
# Directories that a walk enters

An exclusion covers names, one or all with an ending. An included text is no name to the walk: it
takes out the exclusion that is the same text, and a name stays covered by what is left. Main
statements: `mem_files_walkEntries_iff`, which files a walk finds, and `followsRequest_iff`, where
including a name is enough to have a directory entered. It is not where the user excludes an
ending (`included_name_is_passed_over`).
-/

namespace JavaThrows

/-! ## Exclusions -/

/-- The exclusion is the name, or it is a star before an ending of the name that starts with a
    point. -/
def Covers (pattern name : String) : Prop :=
  pattern = name ∨ ∃ ending, pattern.toList = '*' :: '.' :: ending ∧ '.' :: ending <:+ name.toList

theorem isSome_beforeEnd?_iff {piece cs : List Char} :
    (Text.beforeEnd? piece cs).isSome ↔ piece <:+ cs := by
  rw [Option.isSome_iff_exists]
  constructor
  · rintro ⟨rest, h⟩
    exact ⟨rest, (Text.eq_append_of_beforeEnd? h).symm⟩
  · rintro ⟨rest, rfl⟩
    exact ⟨rest, Text.beforeEnd?_append piece rest⟩

theorem isExcluded_iff {name : String} {patterns : List String} :
    isExcluded name patterns ↔ ∃ pattern ∈ patterns, Covers pattern name := by
  rw [isExcluded, List.any_eq_true]
  refine exists_congr fun pattern => and_congr_right fun _ => ?_
  split
  · next ending hpattern =>
    rw [isSome_beforeEnd?_iff, Covers, hpattern]
    constructor
    · exact fun h => .inr ⟨ending, rfl, h⟩
    · rintro (rfl | ⟨ending', heq, h⟩)
      · exact ⟨['*'], hpattern.symm⟩
      · rwa [(List.cons.inj (List.cons.inj heq).2).2]
  · next hplain =>
    rw [beq_iff_eq, Covers]
    constructor
    · exact fun h => .inl h.symm
    · rintro (rfl | ⟨ending, hpattern, -⟩)
      · rfl
      · exact absurd hpattern (hplain ending)

namespace DirFilter

variable {f : DirFilter} {name : String}

/-- **A directory is entered exactly if all exclusions that cover its name are taken out.** -/
theorem enters_iff : f.enters name ↔
    ∀ pattern ∈ f.excluded ++ defaultExcludes, Covers pattern name → pattern ∈ f.included := by
  rw [enters, Bool.not_eq_true', ← Bool.not_eq_true, isExcluded_iff, patterns]
  simp only [List.mem_filter, Bool.not_eq_true', List.contains_eq_mem, decide_eq_false_iff_not]
  constructor
  · intro h pattern hpattern hcovers
    exact Classical.byContradiction fun hnot => h ⟨pattern, ⟨hpattern, hnot⟩, hcovers⟩
  · rintro h ⟨pattern, ⟨hpattern, hnot⟩, hcovers⟩
    exact hnot (h pattern hpattern hcovers)

/-! ## What is asked for -/

variable (f name) in
/-- The directory is entered if it is included by name, or if nothing excludes it. -/
def FollowsRequest : Prop :=
  f.enters name ↔
    name ∈ f.included ∨ ∀ pattern ∈ f.excluded ++ defaultExcludes, ¬ Covers pattern name

theorem eq_of_covers_default {pattern : String} (hpattern : pattern ∈ defaultExcludes)
    (h : Covers pattern name) : pattern = name := by
  refine h.resolve_right ?_
  rintro ⟨ending, hstar, -⟩
  have hplain : ∀ p ∈ defaultExcludes, p.toList.head? ≠ some '*' := by decide
  exact hplain pattern hpattern (by rw [hstar]; rfl)

end DirFilter

/-! ## Files that a walk finds -/

/-- The names of directories lead from the entries down to an entry that is no directory. -/
inductive Leads : List (String × Entry) → List String → String → Prop
  | found {entries : List (String × Entry)} {file : String} {e : Entry} :
    (file, e) ∈ entries → e.isDir = false → Leads entries [] file
  | through {entries inside : List (String × Entry)} {name file : String} {names : List String} :
    (name, .dir inside) ∈ entries → Leads inside names file → Leads entries (name :: names) file

/-- No ignore file passes over a directory on the way or over the file itself. -/
def Unignored (t : FileTree) (levels : List IgnoreLevel) (location : Location) :
    List String → String → Prop
  | [], file => ¬ IgnoreLevel.isIgnored levels (location ++ [file]) false
  | name :: names, file =>
    ¬ IgnoreLevel.isIgnored levels (location ++ [name]) true ∧
      Unignored t (.ofLocation t (location ++ [name]) :: levels) (location ++ [name]) names file

/-- The way from a directory to the Java file at a path is open to a walk. -/
structure IsOpen (t : FileTree) (filter : DirFilter) (levels : List IgnoreLevel)
    (location : Location) (path : String) (names : List String) (file found : String) : Prop where
  path_eq : found = Path.join (names.foldl Path.join path) file
  isJavaPath : isJavaPath found
  enters : ∀ name ∈ names, filter.enters name
  unignored : Unignored t levels location names file

section Walk

variable {t : FileTree} {filter : DirFilter} {levels : List IgnoreLevel} {location : Location}
  {path name file found : String} {names : List String} {entries inside rest : List (String × Entry)}
  {e : Entry}

theorem isOpen_nil_iff : IsOpen t filter levels location path [] file found ↔
    found = Path.join path file ∧ JavaThrows.isJavaPath found ∧
      ¬ IgnoreLevel.isIgnored levels (location ++ [file]) false :=
  ⟨fun h => ⟨h.path_eq, h.isJavaPath, h.unignored⟩,
    fun ⟨hpath, hjava, hignored⟩ => ⟨hpath, hjava, List.forall_mem_nil _, hignored⟩⟩

theorem isOpen_cons_iff : IsOpen t filter levels location path (name :: names) file found ↔
    (filter.enters name ∧ ¬ IgnoreLevel.isIgnored levels (location ++ [name]) true) ∧
      IsOpen t filter (.ofLocation t (location ++ [name]) :: levels) (location ++ [name])
        (Path.join path name) names file found := by
  constructor
  · rintro ⟨hpath, hjava, henters, hname, hignored⟩
    obtain ⟨hhere, hbelow⟩ := List.forall_mem_cons.1 henters
    exact ⟨⟨hhere, hname⟩, hpath, hjava, hbelow, hignored⟩
  · rintro ⟨⟨hhere, hname⟩, hpath, hjava, hbelow, hignored⟩
    exact ⟨hpath, hjava, List.forall_mem_cons.2 ⟨hhere, hbelow⟩, hname, hignored⟩

theorem leads_dir_cons_iff : Leads ((name, .dir inside) :: rest) names file ↔
    (∃ below, names = name :: below ∧ Leads inside below file) ∨ Leads rest names file := by
  constructor
  · intro h
    cases h with
    | found hmem hfile =>
      rcases List.mem_cons.1 hmem with heq | hmem
      · cases heq
        cases hfile
      · exact .inr (.found hmem hfile)
    | through hmem hleads =>
      rcases List.mem_cons.1 hmem with heq | hmem
      · cases heq
        exact .inl ⟨_, rfl, hleads⟩
      · exact .inr (.through hmem hleads)
  · rintro (⟨below, rfl, hleads⟩ | h)
    · exact .through List.mem_cons_self hleads
    · cases h with
      | found hmem hfile => exact .found (List.mem_cons_of_mem _ hmem) hfile
      | through hmem hleads => exact .through (List.mem_cons_of_mem _ hmem) hleads

theorem leads_file_cons_iff (he : e.isDir = false) : Leads ((name, e) :: rest) names file ↔
    (names = [] ∧ file = name) ∨ Leads rest names file := by
  constructor
  · intro h
    cases h with
    | found hmem hfile =>
      rcases List.mem_cons.1 hmem with heq | hmem
      · cases heq
        exact .inl ⟨rfl, rfl⟩
      · exact .inr (.found hmem hfile)
    | through hmem hleads =>
      rcases List.mem_cons.1 hmem with heq | hmem
      · cases heq
        cases he
      · exact .inr (.through hmem hleads)
  · rintro (⟨rfl, rfl⟩ | h)
    · exact .found List.mem_cons_self he
    · cases h with
      | found hmem hfile => exact .found (List.mem_cons_of_mem _ hmem) hfile
      | through hmem hleads => exact .through (List.mem_cons_of_mem _ hmem) hleads

theorem not_leads_nil : ¬ Leads [] names file := by
  rintro (⟨h, -⟩ | ⟨h, -⟩)
  · exact List.not_mem_nil h
  · exact List.not_mem_nil h

/-- **A walk finds just the Java files to which the way is open.** -/
theorem mem_files_walkEntries_iff :
    found ∈ (walkEntries t filter levels location path entries).files ↔
      ∃ names file, Leads entries names file ∧
        IsOpen t filter levels location path names file found := by
  fun_induction walkEntries t filter levels location path entries with
  | case1 =>
    refine iff_of_false List.not_mem_nil ?_
    rintro ⟨names, file, hleads, -⟩
    exact not_leads_nil hleads
  | case2 levels location path name inside rest location' entered ihInside ihRest =>
    show found ∈ entered.files ++ _ ↔ _
    rw [List.mem_append, ihRest]
    simp only [leads_dir_cons_iff, or_and_right, exists_or]
    refine or_congr_left ?_
    -- The walk goes on inside the directory, or nothing inside is found.
    have hinside : found ∈ entered.files ↔
        (filter.enters name ∧ ¬ IgnoreLevel.isIgnored levels (location ++ [name]) true) ∧
          ∃ names file, Leads inside names file ∧
            IsOpen t filter (.ofLocation t location' :: levels) location' (Path.join path name)
              names file found := by
      rw [← ihInside]
      simp only [entered]
      split
      · next hclosed =>
        refine iff_of_false List.not_mem_nil fun hopen => ?_
        simp [hopen.1.1, hopen.1.2, location'] at hclosed
      · next hopen =>
        simp only [Bool.or_eq_true, not_or, Bool.not_eq_true', Bool.not_eq_false] at hopen
        rw [and_iff_right ⟨hopen.2, hopen.1⟩]
        rfl
    rw [hinside]
    constructor
    · rintro ⟨hhere, names, file, hleads, hopen⟩
      exact ⟨name :: names, file, ⟨names, rfl, hleads⟩, isOpen_cons_iff.2 ⟨hhere, hopen⟩⟩
    · rintro ⟨_, file, ⟨names, rfl, hleads⟩, hopen⟩
      obtain ⟨hhere, hbelow⟩ := isOpen_cons_iff.1 hopen
      exact ⟨hhere, names, file, hleads, hbelow⟩
  | case3 levels location path name e rest hfile path' here ih =>
    show found ∈ here ++ _ ↔ _
    rw [List.mem_append, ih]
    have he : e.isDir = false := by
      cases e with
      | dir entries => exact absurd rfl (hfile entries)
      | file => rfl
      | link => rfl
    simp only [leads_file_cons_iff he, or_and_right, exists_or]
    refine or_congr_left ?_
    have hhere : found ∈ here ↔ found = Path.join path name ∧ isJavaPath found ∧
        ¬ IgnoreLevel.isIgnored levels (location ++ [name]) false := by
      simp only [here]
      split
      · next hopen =>
        simp only [Bool.and_eq_true, Bool.not_eq_true'] at hopen
        rw [List.mem_singleton]
        constructor
        · rintro rfl
          exact ⟨rfl, hopen.1, by simp [hopen.2]⟩
        · exact fun h => h.1
      · next hclosed =>
        refine iff_of_false List.not_mem_nil ?_
        rintro ⟨rfl, hjava, hignored⟩
        exact hclosed (by simpa [path', hjava] using hignored)
    rw [hhere, ← isOpen_nil_iff]
    constructor
    · exact fun hopen => ⟨[], name, ⟨rfl, rfl⟩, hopen⟩
    · rintro ⟨_, _, ⟨rfl, rfl⟩, hopen⟩
      exact hopen

end Walk

/-! ## Included names -/

namespace DirFilter

/-- **Where a walk does what is asked for.** A walk finds just the Java files that it enters all
    directories around, if it ignores nothing on the way. A directory that is included by name is
    entered exactly if each exclusion of the user that covers its name is included as well, as a
    text. For any other directory, exclusions count as asked for unless one of those that cover its
    name is included and with it all of them are. -/
theorem followsRequest_iff (f : DirFilter) :
    (∀ (t : FileTree) (levels : List IgnoreLevel) (location : Location) (path : String)
      (entries : List (String × Entry)) (found : String),
      found ∈ (walkEntries t f levels location path entries).files ↔
        ∃ names file, Leads entries names file ∧ IsOpen t f levels location path names file found) ∧
    ∀ name, f.FollowsRequest name ↔
      if name ∈ f.included then
        ∀ pattern ∈ f.excluded, Covers pattern name → pattern ∈ f.included
      else
        ∀ pattern ∈ f.excluded, Covers pattern name → pattern ∈ f.included →
          ∃ other ∈ f.excluded ++ defaultExcludes, Covers other name ∧ other ∉ f.included := by
  refine ⟨fun t levels location path entries found => mem_files_walkEntries_iff, fun name => ?_⟩
  rw [FollowsRequest, enters_iff]
  split
  · next hname =>
    simp only [hname, true_or, iff_true, List.forall_mem_append, and_iff_left_iff_imp]
    -- A default exclusion that covers the name is the name.
    rintro - pattern hpattern hcovers
    rwa [eq_of_covers_default hpattern hcovers]
  · next hname =>
    simp only [hname, false_or]
    constructor
    · intro hasked pattern hpattern hcovers _
      refine Classical.byContradiction fun hnone => ?_
      have hall : ∀ p ∈ f.excluded ++ defaultExcludes, Covers p name → p ∈ f.included :=
        fun p hp hp' => Classical.byContradiction fun hnot => hnone ⟨p, hp, hp', hnot⟩
      exact hasked.1 hall pattern (List.mem_append_left _ hpattern) hcovers
    · intro hother
      refine ⟨fun hall pattern hpattern hcovers => ?_,
        fun hnone p hp hcovers => absurd hcovers (hnone p hp)⟩
      have hincluded := hall pattern hpattern hcovers
      rcases List.mem_append.1 hpattern with huser | hdefault
      · obtain ⟨other, hmem, hcovers', hnot⟩ := hother pattern huser hcovers hincluded
        exact hnot (hall other hmem hcovers')
      · exact hname (eq_of_covers_default hdefault hcovers ▸ hincluded)

end DirFilter

/-- **A directory that is included by name is passed over**, because a star covers it; and one that
    nobody includes is entered, because the star that covers it is included. -/
theorem included_name_is_passed_over :
    let f : DirFilter := ⟨["*.b"], ["a.b"]⟩
    let g : DirFilter := ⟨["*.b"], ["*.b"]⟩
    ("a.b" ∈ f.included ∧ f.enters "a.b" = false) ∧
      "a.b" ∉ g.included ∧ isExcluded "a.b" g.excluded ∧ g.enters "a.b" := by
  decide +kernel

end JavaThrows
