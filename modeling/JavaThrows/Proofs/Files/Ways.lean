import JavaThrows.Proofs.Files.Located

set_option autoImplicit false

/-!
# Ways without links

On a way that meets no link, each step of a path goes one place further: into an entry, up from a
directory, or nowhere. So the way of a path comes through the directory that the path without its
last component leads to. That directory need not be the one around: behind two points it is the one
that the way has come up from. Main statements: `LeadsTo.exists_parent?` for one component less and
`LeadsTo.locate_join` for a name more.
-/

namespace JavaThrows.FileTree

variable {t : FileTree}

/-! ## Following steps -/

/-- The steps lead from one location to another and meet no link. -/
def Follows (t : FileTree) (here : Location) (asked : List Path.Component) (l : Location) : Prop :=
  follow t.root false 0 here asked = .ok l

/-- The path leads to the location and meets no link on the way. -/
def LeadsTo (t : FileTree) (path : String) (l : Location) : Prop :=
  t.Follows t.workingDir (steps path) l

variable {here l l' : Location} {asked rest : List Path.Component} {path : String}

theorem Follows.eq (h : t.Follows here asked l) (h' : t.Follows here asked l') : l = l' :=
  Except.ok.inj (h.symm.trans h')

@[simp] theorem follows_nil : t.Follows here [] l ↔ here = l := by
  rw [Follows, follow, Except.ok.injEq]

@[simp] theorem follows_root : t.Follows here (.root :: rest) l ↔ t.Follows [] rest l := by
  rw [Follows, follow, Follows]

@[simp] theorem follows_here :
    t.Follows here (.here :: rest) l ↔ t.kindAt? here = some .dir ∧ t.Follows here rest l := by
  rw [Follows, follow_here_cons, Follows, kindAt?]
  split <;> simp_all

@[simp] theorem follows_up : t.Follows here (.up :: rest) l ↔
    t.kindAt? here = some .dir ∧ t.Follows here.dropLast rest l := by
  rw [Follows, follow_up_cons, Follows, kindAt?]
  split <;> simp_all

/-- What a way without links can be followed into. -/
def IsSolid (t : FileTree) (l : Location) : Prop :=
  t.kindAt? l = some .dir ∨ t.kindAt? l = some .file

@[simp] theorem follows_name {name : String} : t.Follows here (.name name :: rest) l ↔
    t.kindAt? here = some .dir ∧ t.IsSolid (here ++ [name]) ∧
      t.Follows (here ++ [name]) rest l := by
  simp only [Follows, follow_name_cons, IsSolid, kindAt?]
  split
  · next hdir =>
    cases hkind : t.root.kindAt? (here ++ [name]) with
    | none => simp
    | some kind => cases kind <;> simp [hdir]
  · next hdir => simp [hdir]

/-- **Without links, steps can be followed piece by piece.** -/
theorem follows_append :
    t.Follows here (asked ++ rest) l ↔ ∃ mid, t.Follows here asked mid ∧ t.Follows mid rest l := by
  induction asked generalizing here with
  | nil => simp
  | cons step asked ih => cases step <;> simp [ih, and_assoc]

/-- On a way without links it does not matter how many links would be allowed. -/
theorem Follows.follow_append (h : t.Follows here asked l) (links : Nat)
    (rest : List Path.Component) :
    follow t.root false links here (asked ++ rest) = follow t.root false links l rest := by
  induction asked generalizing here with
  | nil => rw [follows_nil.1 h, List.nil_append]
  | cons step asked ih =>
    rw [List.cons_append]
    cases step with
    | root => rw [follow, ih (follows_root.1 h)]
    | here =>
      obtain ⟨hdir, hrest⟩ := follows_here.1 h
      rw [kindAt?] at hdir
      rw [follow_here_cons, if_pos hdir, ih hrest]
    | up =>
      obtain ⟨hdir, hrest⟩ := follows_up.1 h
      rw [kindAt?] at hdir
      rw [follow_up_cons, if_pos hdir, ih hrest]
    | name name =>
      obtain ⟨hdir, hsolid, hrest⟩ := follows_name.1 h
      rw [kindAt?] at hdir
      rw [IsSolid, kindAt?] at hsolid
      rw [follow_name_cons, if_pos hdir, ← ih hrest]
      rcases hsolid with hkind | hkind
      · rw [hkind]
      · rw [hkind]

/-- Steps that ask for nothing but a directory. -/
def Idle (asked : List Path.Component) : Prop :=
  ∀ step ∈ asked, step = .here

theorem Idle.follows_iff (hidle : Idle asked) (hdir : t.kindAt? here = some .dir) :
    t.Follows here asked l ↔ here = l := by
  induction asked with
  | nil => exact follows_nil
  | cons step asked ih =>
    obtain ⟨rfl, hrest⟩ := List.forall_mem_cons.1 hidle
    rw [follows_here, ih hrest, and_iff_right hdir]

theorem Follows.eq_of_idle (h : t.Follows here asked l) (hidle : Idle asked) : here = l := by
  cases asked with
  | nil => exact follows_nil.1 h
  | cons step asked =>
    obtain ⟨rfl, -⟩ := List.forall_mem_cons.1 hidle
    exact (hidle.follows_iff (follows_here.1 h).1).1 h

/-- Where one more step leads, from a directory. -/
theorem exists_of_follows_cons {step : Path.Component} (hroot : step ≠ .root)
    (h : t.Follows here (step :: rest) l) :
    t.kindAt? here = some .dir ∧ ∃ next, t.Follows next rest l ∧
      ((∃ name, next = here ++ [name]) ∨ next = here ∨ step = .up ∧ next = here.dropLast) := by
  cases step with
  | root => exact absurd rfl hroot
  | here =>
    obtain ⟨hdir, hrest⟩ := follows_here.1 h
    exact ⟨hdir, here, hrest, .inr (.inl rfl)⟩
  | up =>
    obtain ⟨hdir, hrest⟩ := follows_up.1 h
    exact ⟨hdir, here.dropLast, hrest, .inr (.inr ⟨rfl, rfl⟩)⟩
  | name name =>
    obtain ⟨hdir, -, hrest⟩ := follows_name.1 h
    exact ⟨hdir, here ++ [name], hrest, .inl ⟨name, rfl⟩⟩

/-! ## Steps of joined and cut paths -/

def stepOf? (piece : List Char) : Option Path.Component :=
  if piece = ['.'] then some .here else Path.componentOf piece

/-- The steps of a path but for the one that a slash at its end asks for. -/
def leadingSteps (path : String) : List Path.Component :=
  (if Path.isAbsolute path then [.root] else []) ++
    (Text.splitOn '/' path.toList).filterMap stepOf?

theorem exists_steps_eq (path : String) :
    ∃ idle, Idle idle ∧ steps path = leadingSteps path ++ idle := by
  refine ⟨_, ?_, rfl⟩
  split
  · exact List.forall_mem_singleton.2 rfl
  · exact List.forall_mem_nil _

theorem stepOf?_ne_root (piece : List Char) : stepOf? piece ≠ some .root := by
  rw [stepOf?, Path.componentOf]
  repeat' split
  all_goals simp

theorem exists_stepOf? {piece : List Char} (h : piece ≠ []) :
    ∃ step, stepOf? piece = some step ∧ step ≠ .root := by
  have hsome : (stepOf? piece).isSome := by
    rw [stepOf?, Path.componentOf]
    repeat' split
    all_goals simp_all
  obtain ⟨step, hstep⟩ := Option.isSome_iff_exists.1 hsome
  exact ⟨step, hstep, fun hroot => stepOf?_ne_root piece (hroot ▸ hstep)⟩

/-- Pieces that `dropIdle` drops. -/
def IdlePieces (pieces : List (List Char)) : Prop :=
  ∀ piece ∈ pieces, piece = [] ∨ piece = ['.']

theorem IdlePieces.idle {pieces : List (List Char)} (h : IdlePieces pieces) :
    Idle (pieces.filterMap stepOf?) := by
  intro step hstep
  obtain ⟨piece, hpiece, hstep⟩ := List.mem_filterMap.1 hstep
  rcases h piece hpiece with rfl | rfl
  · cases hstep
  · exact (Option.some.inj hstep).symm

theorem exists_dropIdle (pieces : List (List Char)) :
    ∃ idle, IdlePieces idle ∧ pieces = idle ++ Path.dropIdle pieces := by
  fun_induction Path.dropIdle pieces with
  | case1 => exact ⟨[], List.forall_mem_nil _, rfl⟩
  | case2 => exact ⟨[[]], by simp [IdlePieces], rfl⟩
  | case3 piece => exact ⟨[], List.forall_mem_nil _, rfl⟩
  | case4 piece pieces _ hpiece ih =>
    obtain ⟨idle, hidle, hpieces⟩ := ih
    exact ⟨piece :: idle, List.forall_mem_cons.2 ⟨hpiece, hidle⟩, congrArg (piece :: ·) hpieces⟩
  | case5 piece pieces => exact ⟨[], List.forall_mem_nil _, rfl⟩

theorem isAbsolute_iff : Path.isAbsolute path ↔
    ∃ rest, rest ≠ [] ∧ Text.splitOn '/' path.toList = [] :: rest := by
  rw [Path.isAbsolute, beq_iff_eq]
  cases path.toList with
  | nil => simp [Text.splitOn]
  | cons c cs =>
    rw [Text.splitOn]
    split
    · next hc => simp [hc, Text.splitOn_ne_nil]
    · next hc =>
      cases Text.splitOn '/' cs with
      | nil => simp [hc]
      | cons piece pieces => simp [hc]

/-- Whether a path is absolute is told by any front of it that ends in a piece with text. -/
theorem isAbsolute_eq_of_splitOn {front : String} {pieces back : List (List Char)}
    {piece : List Char} (hpiece : piece ≠ [])
    (hfront : Text.splitOn '/' front.toList = pieces ++ [piece])
    (hpath : Text.splitOn '/' path.toList = pieces ++ piece :: back) :
    Path.isAbsolute front = Path.isAbsolute path := by
  rw [Bool.eq_iff_iff, isAbsolute_iff, isAbsolute_iff, hfront, hpath]
  cases pieces with
  | nil => simp [hpiece]
  | cons first pieces => simp

/-- A front of the pieces of a path, taken for a path by itself, asks for the same steps. -/
theorem leadingSteps_intercalate {pieces back : List (List Char)} {piece : List Char}
    (hpiece : piece ≠ [])
    (hpath : Text.splitOn '/' path.toList = pieces ++ piece :: back) :
    leadingSteps (String.ofList (List.intercalate ['/'] (pieces ++ [piece]))) =
      (if Path.isAbsolute path then [.root] else []) ++
        (pieces ++ [piece]).filterMap stepOf? := by
  have hsplit : Text.splitOn '/'
      (String.ofList (List.intercalate ['/'] (pieces ++ [piece]))).toList = pieces ++ [piece] := by
    rw [String.toList_ofList, Text.splitOn_intercalate (by simp)]
    intro p hp hslash
    have hmem : p ∈ Text.splitOn '/' path.toList := by
      rw [hpath, List.append_cons]
      exact List.mem_append_left back hp
    exact (Text.mem_of_mem_splitOn hmem hslash).2 rfl
  rw [leadingSteps, hsplit, isAbsolute_eq_of_splitOn hpiece hsplit hpath]

/-- **A path is its parent and one more component.** -/
theorem exists_steps_of_parent? {parent : String} (h : Path.parent? path = some parent) :
    ∃ idle step idle', Idle idle ∧ Idle idle' ∧ step ≠ .root ∧
      steps path = leadingSteps parent ++ (idle ++ step :: idle') := by
  rw [Path.parent?] at h
  split at h
  · cases h
  next piece front hcut =>
    obtain ⟨behind, hbehind, hsplit⟩ := exists_dropIdle (Text.splitOn '/' path.toList).reverse
    obtain ⟨between, hbetween, hfront⟩ := exists_dropIdle front
    obtain ⟨step, hstep, hroot⟩ := exists_stepOf? (Path.ne_nil_of_dropIdle_eq_cons hcut)
    obtain ⟨last, hlast, hsteps⟩ := exists_steps_eq path
    rw [hcut, hfront] at hsplit
    have hpieces : Text.splitOn '/' path.toList =
        (Path.dropIdle front).reverse ++ (between.reverse ++ piece :: behind.reverse) := by
      rw [← List.reverse_reverse (Text.splitOn '/' path.toList), hsplit]
      simp
    -- What is before the last component gives the same steps in both paths.
    have hparent : leadingSteps parent = (if Path.isAbsolute path then [.root] else []) ++
        (Path.dropIdle front).reverse.filterMap stepOf? := by
      split at h
      · next hkept =>
        rw [hkept, ← Option.some.inj h]
        split
        · decide
        · decide
      · next hkept =>
        obtain ⟨kept, keeps, hcons⟩ := List.exists_cons_of_ne_nil hkept
        rw [hcons, List.reverse_cons] at h hpieces ⊢
        rw [← Option.some.inj h]
        exact leadingSteps_intercalate (Path.ne_nil_of_dropIdle_eq_cons hcons)
          (hpieces.trans (List.append_assoc _ _ _))
    refine ⟨between.reverse.filterMap stepOf?, step, behind.reverse.filterMap stepOf? ++ last,
      ?_, ?_, hroot, ?_⟩
    · exact IdlePieces.idle fun p hp => hbetween p (List.mem_reverse.1 hp)
    · intro s hs
      rcases List.mem_append.1 hs with hs | hs
      · exact IdlePieces.idle (fun p hp => hbehind p (List.mem_reverse.1 hp)) s hs
      · exact hlast s hs
    · rw [hsteps, leadingSteps, hpieces, hparent, List.filterMap_append, List.filterMap_append,
        List.filterMap_cons_some hstep]
      simp only [List.append_assoc, List.cons_append]

theorem idle_of_parent?_eq_none (h : Path.parent? path = none) :
    Idle ((Text.splitOn '/' path.toList).filterMap stepOf?) := by
  rw [Path.parent?] at h
  split at h
  · next hcut =>
    obtain ⟨idle, hidle, hsplit⟩ := exists_dropIdle (Text.splitOn '/' path.toList).reverse
    rw [hcut, List.append_nil] at hsplit
    refine IdlePieces.idle fun piece hpiece => hidle piece ?_
    rwa [← hsplit, List.mem_reverse]
  · split at h <;> cases h

/-- A file name behind the leading steps of a path is the last step of the joined path. -/
theorem steps_eq_of_splitOn {name : String} (hname : Path.IsName name) {pieces : List (List Char)}
    (hpath : Text.splitOn '/' path.toList = pieces ++ [name.toList]) :
    steps path = (if Path.isAbsolute path then [.root] else []) ++ pieces.filterMap stepOf? ++
      [.name name] := by
  have hlast : ((pieces ++ [name.toList]).getLast? == some []) = false := by
    simpa using hname.ne_empty
  have hstep : stepOf? name.toList = some (.name name) := by
    rw [stepOf?, if_neg hname.ne_here, componentOf_of_isName hname]
  rw [steps, hpath, hlast, Bool.and_false]
  show _ ++ (pieces ++ [name.toList]).filterMap stepOf? ++ [] = _
  rw [List.filterMap_append, List.filterMap_cons_some hstep, List.filterMap_nil, List.append_nil,
    List.append_assoc]

theorem isAbsolute_append (hpath : path ≠ "") (tail : String) :
    Path.isAbsolute (path ++ tail) = Path.isAbsolute path := by
  have hne : path.toList ≠ [] := by simpa using hpath
  obtain ⟨c, cs, hcons⟩ := List.exists_cons_of_ne_nil hne
  rw [Path.isAbsolute, Path.isAbsolute, String.toList_append, hcons]
  rfl

/-- **Joining a name puts one step behind those of the path.** -/
theorem steps_join {name : String} (hname : Path.IsName name) (path : String) :
    steps (Path.join path name) = leadingSteps path ++ [.name name] := by
  have hpieces := Text.splitOn_of_notMem hname.noSlash
  have hrelative : Path.isAbsolute name = false := by
    rw [← Bool.not_eq_true, isAbsolute_iff, hpieces]
    simp
  rw [Path.join, hrelative, Bool.false_or]
  split
  · next hempty =>
    rw [String.isEmpty_iff] at hempty
    rw [steps_eq_of_splitOn hname (hpieces.trans (List.nil_append _).symm), hrelative, hempty]
    rfl
  · next hne =>
    rw [String.isEmpty_iff] at hne
    split
    · next hslash =>
      obtain ⟨front, hfront⟩ := List.getLast?_eq_some_iff.1 hslash
      have hsplit : Text.splitOn '/' (path ++ name).toList =
          Text.splitOn '/' front ++ [name.toList] := by
        rw [String.toList_append, hfront, List.append_assoc, List.singleton_append,
          Text.splitOn_append_sep_cons, hpieces]
      -- The slash at the end makes one more piece, which is empty.
      have hempty : (Text.splitOn '/' []).filterMap stepOf? = [] := rfl
      rw [steps_eq_of_splitOn hname hsplit, isAbsolute_append hne, leadingSteps, hfront,
        Text.splitOn_append_sep_cons, List.filterMap_append, hempty, List.append_nil]
    · have hsplit : Text.splitOn '/' (path ++ "/" ++ name).toList =
          Text.splitOn '/' path.toList ++ [name.toList] := by
        rw [String.toList_append, String.toList_append, List.append_assoc, ← hpieces]
        exact Text.splitOn_append_sep_cons _ _
      rw [steps_eq_of_splitOn hname hsplit, String.append_assoc, isAbsolute_append hne,
        leadingSteps]

/-! ## Paths -/

/-- A slash at the end of a path does not change where it leads. -/
theorem LeadsTo.follows_leadingSteps (h : t.LeadsTo path l) :
    t.Follows t.workingDir (leadingSteps path) l := by
  obtain ⟨last, hlast, hsteps⟩ := exists_steps_eq path
  rw [LeadsTo, hsteps, follows_append] at h
  obtain ⟨mid, hmid, hrest⟩ := h
  exact hrest.eq_of_idle hlast ▸ hmid

/-- **The way of a path comes through the directory of its parent.** -/
theorem LeadsTo.exists_parent? {parent : String} (h : t.LeadsTo path l)
    (hparent : Path.parent? path = some parent) :
    ∃ dir, t.LeadsTo parent dir ∧ t.kindAt? dir = some .dir ∧
      ((∃ name, l = dir ++ [name]) ∨ l = dir ∨ .up ∈ steps path ∧ l = dir.dropLast) := by
  obtain ⟨idle, step, idle', hidle, hidle', hroot, hsteps⟩ := exists_steps_of_parent? hparent
  obtain ⟨last, hlast, hparentSteps⟩ := exists_steps_eq parent
  rw [LeadsTo, hsteps, follows_append] at h
  obtain ⟨dir, hdir, h⟩ := h
  obtain ⟨mid, hmid, h⟩ := follows_append.1 h
  obtain rfl := hmid.eq_of_idle hidle
  obtain ⟨hkind, next, hnext, hplace⟩ := exists_of_follows_cons hroot h
  obtain rfl := hnext.eq_of_idle hidle'
  refine ⟨dir, ?_, hkind, hplace.imp_right (Or.imp_right (And.imp_left ?_))⟩
  · rw [LeadsTo, hparentSteps, follows_append]
    exact ⟨dir, hdir, (hlast.follows_iff hkind).2 rfl⟩
  · rintro rfl
    simp [hsteps]

/-- The parent asks for nothing that the path does not ask for. -/
theorem up_mem_steps_of_parent? {parent : String} (hparent : Path.parent? path = some parent)
    (h : .up ∈ steps parent) : .up ∈ steps path := by
  obtain ⟨idle, step, idle', -, -, -, hsteps⟩ := exists_steps_of_parent? hparent
  obtain ⟨last, hlast, hparentSteps⟩ := exists_steps_eq parent
  rw [hparentSteps, List.mem_append] at h
  rw [hsteps]
  rcases h with h | h
  · exact List.mem_append_left _ h
  · cases hlast _ h

/-- A path without a parent leads nowhere, or to the root. -/
theorem LeadsTo.eq_of_parent?_eq_none (h : t.LeadsTo path l)
    (hparent : Path.parent? path = none) : l = t.workingDir ∨ l = [] := by
  have hsteps := h.follows_leadingSteps
  have hidle := idle_of_parent?_eq_none hparent
  rw [leadingSteps] at hsteps
  split at hsteps
  · exact .inr ((follows_root.1 hsteps).eq_of_idle hidle).symm
  · exact .inl (Follows.eq_of_idle hsteps hidle).symm

/-- **A name that is joined to a path is looked up where the path leads.** -/
theorem LeadsTo.locate_join {name : String} (h : t.LeadsTo path l) (hname : Path.IsName name) :
    t.locate (Path.join path name) = follow t.root false linkLimit l [.name name] := by
  have hne : (Path.join path name).isEmpty = false := by
    rw [← Bool.not_eq_true, String.isEmpty_iff]
    intro hempty
    have hnil : leadingSteps path ++ [.name name] = [] := (steps_join hname path).symm.trans
      (congrArg steps hempty)
    simp at hnil
  rw [locate, locateWith, hne, steps_join hname]
  exact h.follows_leadingSteps.follow_append linkLimit _

/-- The path of a directory's location leads there without links. -/
theorem leadsTo_path (hdir : t.kindAt? l = some .dir) (hnames : ∀ name ∈ l, Path.IsName name) :
    t.LeadsTo l.path l := by
  rw [LeadsTo, steps_path hnames, follows_root]
  split
  · next hl =>
    subst hl
    exact follows_here.2 ⟨hdir, follows_nil.2 rfl⟩
  · exact follow_map_name hdir

/-! ## What a path denotes -/

theorem HasWorkingDir.root (hcwd : t.HasWorkingDir) : t.kindAt? [] = some .dir :=
  kindAt?_of_isPrefix List.nil_prefix hcwd.isDir

/-- A way without links ends in a directory or at a file. -/
theorem Follows.isSolid (hcwd : t.HasWorkingDir) (hhere : t.IsSolid here)
    (h : t.Follows here asked l) : t.IsSolid l := by
  induction asked generalizing here with
  | nil => rwa [← follows_nil.1 h]
  | cons step asked ih =>
    cases step with
    | root => exact ih (.inl hcwd.root) (follows_root.1 h)
    | here => exact ih hhere (follows_here.1 h).2
    | up =>
      obtain ⟨hdir, hrest⟩ := follows_up.1 h
      exact ih (.inl (kindAt?_of_isPrefix (List.dropLast_prefix here) hdir)) hrest
    | name name =>
      obtain ⟨-, hsolid, hrest⟩ := follows_name.1 h
      exact ih hsolid hrest

theorem LeadsTo.isSolid (hcwd : t.HasWorkingDir) (h : t.LeadsTo path l) : t.IsSolid l :=
  Follows.isSolid hcwd (.inl hcwd.isDir) h

theorem LeadsTo.isName (hcwd : t.HasWorkingDir) (h : t.LeadsTo path l) :
    ∀ name ∈ l, Path.IsName name :=
  isName_of_follow hcwd.names (fun _ => isName_of_mem_steps) h

/-- On a way without links, a path denotes what it leads to. -/
theorem LeadsTo.locate_eq (h : t.LeadsTo path l) (hne : path ≠ "") : t.locate path = .ok l := by
  have hfollow := h.follow_append linkLimit []
  rw [List.append_nil, follow] at hfollow
  rw [locate, locateWith, if_neg (by simpa using hne)]
  exact hfollow

theorem LeadsTo.pathExists_iff (hcwd : t.HasWorkingDir) (h : t.LeadsTo path l) :
    t.pathExists path ↔ path ≠ "" := by
  constructor
  · rintro hexists rfl
    cases hexists
  · intro hne
    have hsome : (t.kindAt? l).isSome := by
      rcases h.isSolid hcwd with hkind | hkind
      · rw [hkind, Option.isSome_some]
      · rw [hkind, Option.isSome_some]
    rw [pathExists, entry?, h.locate_eq hne]
    rwa [kindAt?, Entry.kindAt?, Option.isSome_map] at hsome

theorem LeadsTo.isDir_iff (h : t.LeadsTo path l) (hne : path ≠ "") :
    t.isDir path ↔ t.kindAt? l = some .dir := by
  rw [isDir, entry?, h.locate_eq hne, kindAt?, Entry.kindAt?]
  dsimp only
  cases t.root.at? l with
  | none => simp
  | some e => cases e <;> simp [Entry.isDir, Entry.kind]

theorem LeadsTo.isFile_iff (h : t.LeadsTo path l) (hne : path ≠ "") :
    t.isFile path ↔ t.kindAt? l = some .file := by
  rw [isFile, entry?, h.locate_eq hne, kindAt?, Entry.kindAt?]
  dsimp only
  cases t.root.at? l with
  | none => simp
  | some e => cases e <;> simp [Entry.kind]

end JavaThrows.FileTree
