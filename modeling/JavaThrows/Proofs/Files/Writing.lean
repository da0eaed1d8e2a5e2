import JavaThrows.Batch

set_option autoImplicit false

/-!
# Writing to files that are there

Writing to a file of a tree changes the content at one location and nothing else: no entry comes or
goes, and no link leads elsewhere. What a path denotes is decided by directories and links alone, so
a path denotes the same location before and after. Both are stated over look-ups (`kindAt?`,
`contentAt?`), which makes them independent of the order in which a directory lists its entries.

Main statements: `contentAt?_write` and `sameKinds_write` for one write, `sameKinds_writeAll` for a
row of them, and `SameKinds.locate_eq`.
-/

namespace JavaThrows

/-- What something is, where the content of a file is left out. -/
inductive EntryKind where
  | file
  | link (target : String)
  | dir
deriving DecidableEq, Repr

namespace Entry

def kind : Entry → EntryKind
  | .file _ => .file
  | .link target => .link target
  | .dir _ => .dir

def content? : Entry → Option ByteArray
  | .file content => some content
  | _ => none

def kindAt? (e : Entry) (l : Location) : Option EntryKind :=
  (e.at? l).map kind

def contentAt? (e : Entry) (l : Location) : Option ByteArray :=
  (e.at? l).bind content?

/-! ## Look-ups -/

theorem contentAt?_eq_some_iff {e : Entry} {l : Location} {content : ByteArray} :
    e.contentAt? l = some content ↔ e.at? l = some (.file content) := by
  rw [contentAt?, Option.bind_eq_some_iff]
  constructor
  · rintro ⟨f, hf, hcontent⟩
    cases f <;> simp_all [content?]
  · exact fun h => ⟨_, h, rfl⟩

theorem kindAt?_eq_dir_iff {e : Entry} {l : Location} :
    e.kindAt? l = some .dir ↔ ∃ entries, e.at? l = some (.dir entries) := by
  rw [kindAt?, Option.map_eq_some_iff]
  constructor
  · rintro ⟨d, hd, hkind⟩
    cases d <;> simp_all [kind]
  · exact fun ⟨entries, h⟩ => ⟨_, h, rfl⟩

theorem at?_append (e : Entry) (l l' : Location) :
    e.at? (l ++ l') = (e.at? l).bind fun f => f.at? l' := by
  induction l generalizing e with
  | nil => rfl
  | cons name names ih =>
    rw [List.cons_append, at?, at?]
    cases e.child? name with
    | none => rfl
    | some c => exact ih c

theorem kindAt?_append_singleton {e : Entry} {l : Location} {entries : List (String × Entry)}
    (h : e.at? l = some (.dir entries)) (name : String) :
    e.kindAt? (l ++ [name]) = ((Entry.dir entries).child? name).map kind := by
  rw [kindAt?, at?_append, h]
  show (((Entry.dir entries).child? name).bind some).map kind = _
  rw [Option.bind_fun_some]

/-! ## Putting a file in the place of another one -/

theorem child?_insert (name other : String) (e : Entry) (entries : List (String × Entry)) :
    (Entry.dir (insert name e entries)).child? other =
      if other = name then some e else (Entry.dir entries).child? other := by
  fun_induction insert name e entries with
  | case1 =>
    by_cases h : other = name
    · simp [child?, h]
    · simp [child?, h, Ne.symm h]
  | case2 n f rest hlt =>
    by_cases h : other = name
    · simp [child?, h]
    · simp [child?, h, Ne.symm h]
  | case3 f rest =>
    by_cases h : other = name
    · simp [child?, h]
    · simp [child?, h, Ne.symm h]
  | case4 n f rest _ hne ih =>
    by_cases hn : n = other
    · subst hn
      simp [child?, Ne.symm hne]
    · simpa [child?, hn] using ih

/-- A location below a directory: either what is put there is on the way, or nothing changes. -/
theorem at?_put_cons {entries : List (String × Entry)} {name : String} {child : Entry}
    (hchild : (Entry.dir entries).child? name = some child) (names : Location) (new : Entry)
    (other : String) (others : Location) :
    ((Entry.dir entries).put (name :: names) new).at? (other :: others) =
      if other = name then (child.put names new).at? others
      else (Entry.dir entries).at? (other :: others) := by
  rw [put, hchild, at?]
  simp only [child?_insert, Option.getD_some]
  split
  · rfl
  · rfl

/-- What a location starts with that leads to a file is a directory with the file's way in it. -/
theorem exists_child?_of_at?_cons {e f : Entry} {name : String} {names : Location}
    (h : e.at? (name :: names) = some f) :
    ∃ entries child, e = .dir entries ∧ (Entry.dir entries).child? name = some child ∧
      child.at? names = some f := by
  obtain ⟨child, hchild, hf⟩ := Option.bind_eq_some_iff.1 h
  cases e with
  | file => cases hchild
  | link => cases hchild
  | dir entries => exact ⟨entries, child, rfl, hchild, hf⟩

variable {e : Entry} {l : Location} {old : ByteArray} (new : ByteArray)

theorem kindAt?_put_file (h : e.at? l = some (.file old)) (l' : Location) :
    (e.put l (.file new)).kindAt? l' = e.kindAt? l' := by
  induction l generalizing e l' with
  | nil =>
    obtain rfl : e = .file old := Option.some.inj h
    cases l' <;> rfl
  | cons name names ih =>
    obtain ⟨entries, child, rfl, hchild, hfile⟩ := exists_child?_of_at?_cons h
    cases l' with
    | nil => rfl
    | cons other others =>
      rw [kindAt?, at?_put_cons hchild]
      split
      next heq =>
        subst heq
        rw [← kindAt?, ih hfile, kindAt?, kindAt?, at?, hchild]
        rfl
      · rfl

theorem contentAt?_put_file (h : e.at? l = some (.file old)) (l' : Location) :
    (e.put l (.file new)).contentAt? l' = if l' = l then some new else e.contentAt? l' := by
  induction l generalizing e l' with
  | nil =>
    obtain rfl : e = .file old := Option.some.inj h
    cases l' <;> rfl
  | cons name names ih =>
    obtain ⟨entries, child, rfl, hchild, hfile⟩ := exists_child?_of_at?_cons h
    cases l' with
    | nil => rfl
    | cons other others =>
      rw [contentAt?, at?_put_cons hchild]
      by_cases heq : other = name
      · subst heq
        rw [if_pos rfl, ← contentAt?, ih hfile, contentAt?, contentAt?, at?, hchild]
        simp
      · simp [heq, contentAt?]

end Entry

namespace FileTree

def kindAt? (t : FileTree) (l : Location) : Option EntryKind :=
  t.root.kindAt? l

/-- The content of the file at a location. -/
def contentAt? (t : FileTree) (l : Location) : Option ByteArray :=
  t.root.contentAt? l

/-- One tree is the other one but for the content of files. -/
structure SameKinds (t t' : FileTree) : Prop where
  workingDir : t'.workingDir = t.workingDir
  kindAt? : ∀ l, t'.kindAt? l = t.kindAt? l

theorem SameKinds.refl (t : FileTree) : SameKinds t t :=
  ⟨rfl, fun _ => rfl⟩

theorem SameKinds.trans {t t' t'' : FileTree} (h : SameKinds t t') (h' : SameKinds t' t'') :
    SameKinds t t'' :=
  ⟨h'.workingDir.trans h.workingDir, fun l => (h'.kindAt? l).trans (h.kindAt? l)⟩

theorem isSome_contentAt?_iff {t : FileTree} {l : Location} :
    (t.contentAt? l).isSome ↔ t.kindAt? l = some .file := by
  rw [contentAt?, kindAt?, Entry.contentAt?, Entry.kindAt?]
  cases t.root.at? l with
  | none => simp
  | some e => cases e <;> simp [Entry.content?, Entry.kind]

/-! ## What a path denotes -/

theorem follow_here_cons (root : Entry) (mayBeNew : Bool) (links : Nat) (here : Location)
    (rest : List Path.Component) :
    follow root mayBeNew links here (.here :: rest) =
      if root.kindAt? here = some .dir then follow root mayBeNew links here rest
      else .error .notDirectory := by
  rw [follow]
  split
  next entries hhere => rw [if_pos (Entry.kindAt?_eq_dir_iff.2 ⟨entries, hhere⟩)]
  next hhere => rw [if_neg fun h => (Entry.kindAt?_eq_dir_iff.1 h).elim hhere]

theorem follow_up_cons (root : Entry) (mayBeNew : Bool) (links : Nat) (here : Location)
    (rest : List Path.Component) :
    follow root mayBeNew links here (.up :: rest) =
      if root.kindAt? here = some .dir then follow root mayBeNew links here.dropLast rest
      else .error .notDirectory := by
  rw [follow]
  split
  next entries hhere => rw [if_pos (Entry.kindAt?_eq_dir_iff.2 ⟨entries, hhere⟩)]
  next hhere => rw [if_neg fun h => (Entry.kindAt?_eq_dir_iff.1 h).elim hhere]

theorem follow_name_cons (root : Entry) (mayBeNew : Bool) (links : Nat) (here : Location)
    (name : String) (rest : List Path.Component) :
    follow root mayBeNew links here (.name name :: rest) =
      if root.kindAt? here = some .dir then
        match root.kindAt? (here ++ [name]) with
        | none => if mayBeNew && rest.isEmpty then .ok (here ++ [name]) else .error .notFound
        | some (.link target) =>
          match links with
          | 0 => .error .tooManyLinks
          | links + 1 => follow root mayBeNew links here (steps target ++ rest)
        | some _ => follow root mayBeNew links (here ++ [name]) rest
      else .error .notDirectory := by
  cases hhere : root.at? here with
  | none => simp [follow, hhere, Entry.kindAt?]
  | some e =>
    cases e with
    | file => simp [follow, hhere, Entry.kindAt?, Entry.kind]
    | link => simp [follow, hhere, Entry.kindAt?, Entry.kind]
    | dir entries =>
      rw [if_pos (Entry.kindAt?_eq_dir_iff.2 ⟨entries, hhere⟩),
        Entry.kindAt?_append_singleton hhere]
      cases hchild : (Entry.dir entries).child? name with
      | none => simp [follow, hhere, hchild]
      | some child => cases child <;> cases links <;> simp [follow, hhere, hchild, Entry.kind]

/-- **Following steps looks at directories and links only.** -/
theorem follow_eq_of_kindAt? {root root' : Entry} (h : ∀ l, root'.kindAt? l = root.kindAt? l)
    (mayBeNew : Bool) (links : Nat) (here : Location) (steps : List Path.Component) :
    follow root' mayBeNew links here steps = follow root mayBeNew links here steps := by
  -- A link uses up one of the links that are left, and every other step the row of steps.
  induction links using Nat.strongRecOn generalizing here steps with
  | ind links ihLinks =>
    induction steps generalizing here with
    | nil => rw [follow, follow]
    | cons step rest ih =>
      cases step with
      | root => rw [follow, follow, ih]
      | here => rw [follow_here_cons, follow_here_cons, h, ih]
      | up => rw [follow_up_cons, follow_up_cons, h, ih]
      | name name =>
        simp only [follow_name_cons, h, ih]
        cases links with
        | zero => rfl
        | succ links => simp only [ihLinks links links.lt_succ_self]

namespace SameKinds

variable {t t' : FileTree} (h : SameKinds t t')
include h

theorem locate_eq (path : String) : t'.locate path = t.locate path := by
  rw [locate, locate, locateWith, locateWith, h.workingDir, follow_eq_of_kindAt? h.kindAt?]

theorem locateWithin_eq (path root : String) :
    t'.locateWithin path root = t.locateWithin path root := by
  rw [locateWithin, locateWithin, h.locate_eq, h.locate_eq]

end SameKinds

/-! ## Writing -/

variable {t : FileTree}

theorem sameKinds_write {l : Location} (h : t.kindAt? l = some .file) (text : String) :
    SameKinds t (t.write l text) := by
  obtain ⟨old, hold⟩ := Option.isSome_iff_exists.1 (isSome_contentAt?_iff.2 h)
  exact ⟨rfl, Entry.kindAt?_put_file _ (Entry.contentAt?_eq_some_iff.1 hold)⟩

/-- **Writing to a file changes the content of that file and of no other one.** -/
theorem contentAt?_write {l : Location} (h : t.kindAt? l = some .file) (text : String)
    (l' : Location) :
    (t.write l text).contentAt? l' = if l' = l then some text.toUTF8 else t.contentAt? l' := by
  obtain ⟨old, hold⟩ := Option.isSome_iff_exists.1 (isSome_contentAt?_iff.2 h)
  exact Entry.contentAt?_put_file _ (Entry.contentAt?_eq_some_iff.1 hold) l'

/-- Whether all of the writes are to files of the tree. -/
def Overwrites (t : FileTree) (writes : List FileWrite) : Prop :=
  ∀ w ∈ writes, t.kindAt? w.location = some .file

theorem Overwrites.of_sameKinds {t' : FileTree} {writes : List FileWrite}
    (h : t.Overwrites writes) (hkinds : SameKinds t t') : t'.Overwrites writes :=
  fun w hw => (hkinds.kindAt? _).trans (h w hw)

theorem sameKinds_writeAll {writes : List FileWrite} (h : t.Overwrites writes) :
    SameKinds t (t.writeAll writes) := by
  induction writes generalizing t with
  | nil => exact .refl t
  | cons w ws ih =>
    obtain ⟨hw, hws⟩ := List.forall_mem_cons.1 h
    have hfirst := sameKinds_write hw w.text
    exact hfirst.trans (ih (Overwrites.of_sameKinds hws hfirst))

/-- **After a row of writes a file has either its old content or that of a write to it.** -/
theorem contentAt?_writeAll {writes : List FileWrite} (h : t.Overwrites writes) (l : Location) :
    (t.writeAll writes).contentAt? l = t.contentAt? l ∧ (∀ w ∈ writes, w.location ≠ l) ∨
      ∃ w ∈ writes, w.location = l ∧
        (t.writeAll writes).contentAt? l = some w.text.toUTF8 := by
  induction writes generalizing t with
  | nil => exact .inl ⟨rfl, by simp⟩
  | cons w ws ih =>
    obtain ⟨hw, hws⟩ := List.forall_mem_cons.1 h
    have hfirst := sameKinds_write hw w.text
    rcases ih (Overwrites.of_sameKinds hws hfirst) with ⟨hsame, hother⟩ | ⟨w', hw', hloc, htext⟩
    · by_cases hl : w.location = l
      · refine .inr ⟨w, by simp, hl, hsame.trans ?_⟩
        rw [contentAt?_write hw, if_pos hl.symm]
      · refine .inl ⟨hsame.trans ?_, List.forall_mem_cons.2 ⟨hl, hother⟩⟩
        rw [contentAt?_write hw, if_neg (Ne.symm hl)]
    · exact .inr ⟨w', List.mem_cons_of_mem _ hw', hloc, htext⟩

end FileTree
end JavaThrows
