import JavaThrows.Proofs.Edit.Deletion
import JavaThrows.Removal.Edits

set_option autoImplicit false

/-!
# Deleting entries of a throws clause

The edits of a clause delete runs of removed entries, each with one separator. Here the same bytes
are told entry by entry: a removed entry goes with the separator after it if an entry that stays
follows at any later place, and else with the separator before it (`entryCuts`). Main statements:
`coveredBy_entryRuns_iff`, runs and single entries cover the same bytes, and
`disjoint_of_mem_entryCuts`, no byte of an entry that stays is covered.
-/

namespace JavaThrows

/-! ## Entry by entry -/

/-- What goes with removed entries that stand between the entry `before` and the entries `after`:
    the separator after them if one of the entries after them stays, and else the separator before
    them. -/
def withSeparator (keeps : TypeRef → Bool) (before : Option TypeRef) (removed : Span)
    (after : List TypeRef) : Span :=
  if after.any keeps then ⟨removed.start, (after.head?.map (·.span.start)).getD removed.stop⟩
  else ⟨(before.map (·.span.stop)).getD removed.start, removed.stop⟩

/-- What goes with each of the removed entries of a list. -/
def entryCuts (keeps : TypeRef → Bool) (before : Option TypeRef) : List TypeRef → List Span
  | [] => []
  | e :: es =>
    if keeps e then entryCuts keeps (some e) es
    else withSeparator keeps before e.span es :: entryCuts keeps (some e) es

/-- The entries are not empty, and each ends before the next one starts. -/
structure InOrder (es : List TypeRef) : Prop where
  nonempty : ∀ e ∈ es, e.span.start < e.span.stop
  increasing : es.Pairwise fun a b => a.span.stop ≤ b.span.start

theorem InOrder.tail {e : TypeRef} {es : List TypeRef} (h : InOrder (e :: es)) : InOrder es :=
  ⟨fun f hf => h.nonempty f (List.mem_cons_of_mem _ hf), (List.pairwise_cons.1 h.increasing).2⟩

theorem InOrder.head_lt {e : TypeRef} {es : List TypeRef} (h : InOrder (e :: es)) :
    e.span.start < e.span.stop :=
  h.nonempty e List.mem_cons_self

theorem InOrder.head_le {e f : TypeRef} {es : List TypeRef} (h : InOrder (e :: es)) (hf : f ∈ es) :
    e.span.stop ≤ f.span.start :=
  (List.pairwise_cons.1 h.increasing).1 f hf

/-- Entries of one list with the same span are the same entry. -/
theorem InOrder.eq_of_span_eq {es : List TypeRef} (h : InOrder es) {e f : TypeRef} (he : e ∈ es)
    (hf : f ∈ es) (hspan : e.span = f.span) : e = f := by
  induction es with
  | nil => simp at he
  | cons g gs ih =>
    have hlt := h.head_lt
    rcases List.mem_cons.1 he with rfl | he' <;> rcases List.mem_cons.1 hf with rfl | hf'
    · rfl
    · have := h.head_le hf'
      rw [← hspan] at this
      omega
    · have := h.head_le he'
      have hpos := h.nonempty e he
      rw [hspan] at this hpos
      omega
    · exact ih h.tail he' hf'

/-! ## Runs of entries -/

/-- The spans of the edits. -/
def entryRuns (isKept : TypeRef → Bool) (previous : Option TypeRef) (run : Option Span)
    (es : List TypeRef) : List Span :=
  (entryEdits isKept previous run es).map Edit.span

theorem eq_delete_of_mem_entryEdits {isKept : TypeRef → Bool} {previous : Option TypeRef}
    {run : Option Span} {es : List TypeRef} {edit : Edit}
    (h : edit ∈ entryEdits isKept previous run es) : edit = .delete edit.span := by
  induction es generalizing previous run with
  | nil =>
    unfold entryEdits at h
    split at h
    · rw [List.mem_singleton.1 h]
      rfl
    · simp at h
  | cons e es ih =>
    unfold entryEdits at h
    split at h
    · split at h
      · rcases List.mem_cons.1 h with rfl | h
        · rfl
        · exact ih h
      · exact ih h
    · exact ih h

theorem map_delete_entryRuns (isKept : TypeRef → Bool) (previous : Option TypeRef)
    (run : Option Span) (es : List TypeRef) :
    (entryRuns isKept previous run es).map Edit.delete = entryEdits isKept previous run es := by
  have hdelete : ∀ e ∈ entryEdits isKept previous run es, (Edit.delete ∘ Edit.span) e = e :=
    fun _ he => (eq_delete_of_mem_entryEdits he).symm
  rw [entryRuns, List.map_map, List.map_congr_left hdelete, List.map_id']

theorem entryEdits_congr {p q : TypeRef → Bool} {es : List TypeRef} (h : ∀ e ∈ es, p e = q e)
    (previous : Option TypeRef) (run : Option Span) :
    entryEdits p previous run es = entryEdits q previous run es := by
  induction es generalizing previous run with
  | nil => simp [entryEdits]
  | cons e es ih =>
    have hrest := ih fun f hf => h f (List.mem_cons_of_mem _ hf)
    simp only [entryEdits, h e List.mem_cons_self, hrest]

section Steps

variable {keeps : TypeRef → Bool} {e : TypeRef} (previous : Option TypeRef) (es : List TypeRef)

theorem entryRuns_nil : entryRuns keeps previous none [] = [] := by
  simp [entryRuns, entryEdits]

theorem entryRuns_nil_open (p : TypeRef) (removed : Span) :
    entryRuns keeps (some p) (some removed) [] = [⟨p.span.stop, removed.stop⟩] := by
  simp [entryRuns, entryEdits, Edit.delete]

theorem entryRuns_cons_kept (h : keeps e) :
    entryRuns keeps previous none (e :: es) = entryRuns keeps (some e) none es := by
  simp [entryRuns, entryEdits, h]

theorem entryRuns_cons_kept_open (h : keeps e) (removed : Span) :
    entryRuns keeps previous (some removed) (e :: es) =
      ⟨removed.start, e.span.start⟩ :: entryRuns keeps (some e) none es := by
  simp [entryRuns, entryEdits, h, Edit.delete]

/-- The run after one more removed entry. -/
def grow (run : Option Span) (e : TypeRef) : Span :=
  ⟨(run.map Span.start).getD e.span.start, e.span.stop⟩

theorem entryRuns_cons_removed (h : ¬ keeps e) (run : Option Span) :
    entryRuns keeps previous run (e :: es) = entryRuns keeps previous (some (grow run e)) es := by
  simp [entryRuns, entryEdits, h, grow]

end Steps

/-- Where the walk over the entries stands: the last kept entry comes first, then the run that is
    open, then the entries that are left. -/
structure Walking (previous : Option TypeRef) (run : Option Span) (es : List TypeRef) : Prop where
  entries : InOrder es
  run_ordered : ∀ r ∈ run, r.start ≤ r.stop
  run_before : ∀ r ∈ run, ∀ e ∈ es, r.stop ≤ e.span.start
  previous_run : ∀ p ∈ previous, ∀ r ∈ run, p.span.stop ≤ r.start
  previous_before : ∀ p ∈ previous, ∀ e ∈ es, p.span.stop ≤ e.span.start

namespace Walking

variable {previous : Option TypeRef} {run : Option Span} {e : TypeRef} {es : List TypeRef}

theorem start (h : InOrder es) : Walking none none es :=
  ⟨h, by simp, by simp, by simp, by simp⟩

theorem kept (h : Walking previous run (e :: es)) : Walking (some e) none es := by
  refine ⟨h.entries.tail, by simp, by simp, by simp, ?_⟩
  rintro p ⟨⟩ f hf
  exact h.entries.head_le hf

theorem removed (h : Walking previous run (e :: es)) : Walking previous (some (grow run e)) es := by
  have hlt := h.entries.head_lt
  refine ⟨h.entries.tail, ?_, ?_, ?_,
    fun p hp f hf => h.previous_before p hp f (List.mem_cons_of_mem _ hf)⟩
  · rintro r ⟨⟩
    cases run with
    | none => exact Nat.le_of_lt hlt
    | some r =>
      have hr := h.run_ordered r rfl
      have hbefore := h.run_before r rfl e List.mem_cons_self
      show r.start ≤ e.span.stop
      omega
  · rintro r ⟨⟩ f hf
    exact h.entries.head_le hf
  · rintro p hp r ⟨⟩
    cases run with
    | none => exact h.previous_before p hp e List.mem_cons_self
    | some r => exact h.previous_run p hp r rfl

end Walking

/-! ## The same bytes -/

variable {keeps : TypeRef → Bool} {previous : Option TypeRef} {run : Option Span}

/-- A run that grows by an entry covers what it has covered before and what goes with the entry. -/
theorem covers_withSeparator_grow {removed : Span} {b e : TypeRef} {es : List TypeRef} {o : Nat}
    (h : Walking previous (some removed) (e :: es)) (hb : b.span.stop = removed.stop)
    (hkeeps : ¬ keeps e) :
    (withSeparator keeps previous (grow (some removed) e) es).covers o ↔
      (withSeparator keeps previous removed (e :: es)).covers o ∨
        (withSeparator keeps (some b) e.span es).covers o := by
  have hlt := h.entries.head_lt
  have hremoved := h.run_ordered removed rfl
  have hbefore := h.run_before removed rfl e List.mem_cons_self
  simp only [withSeparator, grow, List.any_cons, hkeeps, Bool.false_or, Option.map_some,
    Option.getD_some]
  by_cases hany : es.any keeps
  · cases es with
    | nil => simp at hany
    | cons f fs =>
      have hle := h.entries.head_le (f := f) List.mem_cons_self
      simp only [hany, if_true, List.head?_cons, Option.map_some, Option.getD_some,
        Span.covers_iff]
      omega
  · simp only [hany, Bool.false_eq_true, if_false, Span.covers_iff]
    cases previous with
    | none =>
      simp only [Option.map_none, Option.getD_none]
      omega
    | some p =>
      have hp := h.previous_run p rfl removed rfl
      simp only [Option.map_some, Option.getD_some]
      omega

/-- **Runs of removed entries cover the same bytes as the removed entries one by one.** A run that
    is open counts with its separator; the entry `before` ends where the run does. -/
theorem coveredBy_entryRuns_iff {es : List TypeRef} (before : Option TypeRef) (o : Nat)
    (h : Walking previous run es) (hstays : previous.isSome ∨ es.any keeps)
    (hclosed : run = none → before = previous)
    (hopen : ∀ r ∈ run, ∃ b, before = some b ∧ b.span.stop = r.stop) :
    CoveredBy (entryRuns keeps previous run es) o ↔
      (∃ r ∈ run, (withSeparator keeps previous r es).covers o) ∨
        CoveredBy (entryCuts keeps before es) o := by
  induction es generalizing previous run before with
  | nil =>
    cases run with
    | none => simp [entryRuns_nil, entryCuts]
    | some removed =>
      obtain ⟨p, rfl⟩ := Option.isSome_iff_exists.1 (hstays.resolve_right (by simp))
      simp [entryRuns_nil_open, entryCuts, withSeparator]
  | cons e es ih =>
    by_cases he : keeps e
    · have hrest := ih (some e) h.kept (.inl rfl) (fun _ => rfl) (by simp)
      rw [entryCuts, if_pos he]
      cases run with
      | none => simpa [entryRuns_cons_kept previous es he] using hrest
      | some removed =>
        rw [entryRuns_cons_kept_open previous es he, coveredBy_cons, hrest]
        simp [withSeparator, he]
    · -- The run grows by `e`; what the larger run covers falls into the run and what goes with `e`.
      have hstays' : previous.isSome ∨ es.any keeps := by simpa [he] using hstays
      have hrest := ih (some e) h.removed hstays' (by simp) (by simp [grow])
      rw [entryRuns_cons_removed previous es he, hrest, entryCuts, if_neg he, coveredBy_cons,
        ← or_assoc]
      refine or_congr_left ?_
      cases run with
      | none =>
        rw [hclosed rfl]
        simp [grow]
      | some removed =>
        obtain ⟨b, rfl, hb⟩ := hopen removed rfl
        simpa using covers_withSeparator_grow h hb he

/-! ## Places of the runs -/

/-- What holds of the ends of the entries holds of the ends of the runs. -/
theorem endpoints_of_mem_entryRuns {P : Nat → Prop} {es : List TypeRef} {s : Span}
    (hprevious : ∀ p ∈ previous, P p.span.stop) (hrun : ∀ r ∈ run, P r.start ∧ P r.stop)
    (hes : ∀ e ∈ es, P e.span.start ∧ P e.span.stop) (hs : s ∈ entryRuns keeps previous run es) :
    P s.start ∧ P s.stop := by
  induction es generalizing previous run with
  | nil =>
    cases run with
    | none => simp [entryRuns_nil] at hs
    | some removed =>
      cases previous with
      | none => simp [entryRuns, entryEdits] at hs
      | some p =>
        rw [entryRuns_nil_open, List.mem_singleton] at hs
        subst hs
        exact ⟨hprevious p rfl, (hrun removed rfl).2⟩
  | cons e es ih =>
    obtain ⟨hstart, hstop⟩ := hes e List.mem_cons_self
    have hes' : ∀ f ∈ es, P f.span.start ∧ P f.span.stop :=
      fun f hf => hes f (List.mem_cons_of_mem _ hf)
    have hkept : ∀ p ∈ some e, P p.span.stop := by
      rintro p ⟨⟩
      exact hstop
    by_cases he : keeps e
    · cases run with
      | none =>
        rw [entryRuns_cons_kept previous es he] at hs
        exact ih hkept (by simp) hes' hs
      | some removed =>
        rw [entryRuns_cons_kept_open previous es he] at hs
        rcases List.mem_cons.1 hs with rfl | hs
        · exact ⟨(hrun removed rfl).1, hstart⟩
        · exact ih hkept (by simp) hes' hs
    · rw [entryRuns_cons_removed previous es he] at hs
      refine ih hprevious ?_ hes' hs
      rintro r ⟨⟩
      cases run with
      | none => exact ⟨hstart, hstop⟩
      | some removed => exact ⟨(hrun removed rfl).1, hstop⟩

/-- Runs go forward, and each ends before the next one starts. -/
theorem entryRuns_increasing (keeps : TypeRef → Bool) {es : List TypeRef} (h : Walking previous run es) :
    (∀ s ∈ entryRuns keeps previous run es, s.start ≤ s.stop) ∧
      (entryRuns keeps previous run es).Pairwise fun s t => s.stop ≤ t.start := by
  induction es generalizing previous run with
  | nil =>
    cases run with
    | none => simp [entryRuns_nil]
    | some removed =>
      cases previous with
      | none => simp [entryRuns, entryEdits]
      | some p =>
        have hp := h.previous_run p rfl removed rfl
        have hr := h.run_ordered removed rfl
        simp only [entryRuns_nil_open, List.mem_singleton, forall_eq, List.pairwise_singleton,
          and_true]
        omega
  | cons e es ih =>
    by_cases he : keeps e
    · -- An entry that stays closes the run.
      cases run with
      | none =>
        rw [entryRuns_cons_kept previous es he]
        exact ih h.kept
      | some removed =>
        obtain ⟨hforward, hpairs⟩ := ih h.kept
        have hr := h.run_ordered removed rfl
        have hbefore := h.run_before removed rfl e List.mem_cons_self
        have hlt := h.entries.head_lt
        rw [entryRuns_cons_kept_open previous es he, List.forall_mem_cons, List.pairwise_cons]
        refine ⟨⟨?_, hforward⟩, fun s hs => ?_, hpairs⟩
        · show removed.start ≤ e.span.start
          omega
        · -- What is left of the walk starts behind the kept entry.
          have hpast := endpoints_of_mem_entryRuns (P := fun o => e.span.stop ≤ o)
            (by rintro p ⟨⟩; exact Nat.le_refl _) (by simp)
            (fun f hf => by
              have hle := h.entries.head_le hf
              have hpos := h.entries.tail.nonempty f hf
              exact ⟨hle, by omega⟩) hs
          show e.span.start ≤ s.start
          have := hpast.1
          omega
    · rw [entryRuns_cons_removed previous es he]
      exact ih h.removed

/-! ## Places of the cuts -/

/-- What holds of the ends of the entries holds of the ends of what goes with them. -/
theorem endpoints_of_mem_entryCuts {P : Nat → Prop} {before : Option TypeRef} {es : List TypeRef}
    {s : Span} (hbefore : ∀ b ∈ before, P b.span.stop)
    (hes : ∀ e ∈ es, P e.span.start ∧ P e.span.stop) (hs : s ∈ entryCuts keeps before es) :
    P s.start ∧ P s.stop := by
  induction es generalizing before with
  | nil => simp [entryCuts] at hs
  | cons e es ih =>
    obtain ⟨hstart, hstop⟩ := hes e List.mem_cons_self
    have hes' : ∀ f ∈ es, P f.span.start ∧ P f.span.stop :=
      fun f hf => hes f (List.mem_cons_of_mem _ hf)
    have hrest : s ∈ entryCuts keeps (some e) es → P s.start ∧ P s.stop :=
      ih (by rintro b ⟨⟩; exact hstop) hes'
    by_cases he : keeps e
    · rw [entryCuts, if_pos he] at hs
      exact hrest hs
    · rw [entryCuts, if_neg he] at hs
      rcases List.mem_cons.1 hs with rfl | hs
      · unfold withSeparator
        split
        · cases es with
          | nil => exact ⟨hstart, hstop⟩
          | cons f fs => exact ⟨hstart, (hes' f List.mem_cons_self).1⟩
        · cases before with
          | none => exact ⟨hstart, hstop⟩
          | some b => exact ⟨hbefore b rfl, hstop⟩
      · exact hrest hs

/-- **An entry that stays loses no byte.** -/
theorem disjoint_of_mem_entryCuts {before : Option TypeRef} {es : List TypeRef} {s : Span}
    {k : TypeRef} (h : InOrder es) (hs : s ∈ entryCuts keeps before es) (hk : k ∈ es)
    (hkeeps : keeps k) : s.Disjoint k.span := by
  induction es generalizing before with
  | nil => simp at hk
  | cons e es ih =>
    by_cases he : keeps e
    · rw [entryCuts, if_pos he] at hs
      rcases List.mem_cons.1 hk with rfl | hk
      · have hpast := endpoints_of_mem_entryCuts (P := fun o => k.span.stop ≤ o)
          (by rintro b ⟨⟩; exact Nat.le_refl _)
          (fun f hf => by
            have hle := h.head_le hf
            have hpos := h.tail.nonempty f hf
            exact ⟨hle, by omega⟩) hs
        exact .inr hpast.1
      · exact ih h.tail hs hk
    · rw [entryCuts, if_neg he] at hs
      have hk' : k ∈ es := (List.mem_cons.1 hk).resolve_left fun heq => he (heq ▸ hkeeps)
      rcases List.mem_cons.1 hs with rfl | hs
      · -- An entry that stays follows, so what goes ends where the next entry starts.
        have hany : es.any keeps := List.any_eq_true.2 ⟨k, hk', hkeeps⟩
        left
        unfold withSeparator
        rw [if_pos hany]
        cases es with
        | nil => simp at hk'
        | cons f fs =>
          show f.span.start ≤ k.span.start
          rcases List.mem_cons.1 hk' with rfl | hk'
          · exact Nat.le_refl _
          · have hle := h.tail.head_le hk'
            have hlt := h.tail.head_lt
            omega
      · exact ih h.tail hs hk'

/-- **A removed entry goes as a whole.** -/
theorem exists_mem_entryCuts {before : Option TypeRef} {es : List TypeRef} {e : TypeRef}
    (h : InOrder es) (hbefore : ∀ b ∈ before, ∀ f ∈ es, b.span.stop ≤ f.span.start) (he : e ∈ es)
    (hgone : ¬ keeps e) : ∃ s ∈ entryCuts keeps before es, e.span.Inside s := by
  induction es generalizing before with
  | nil => simp at he
  | cons f fs ih =>
    have hrest : e ∈ fs → ∃ s ∈ entryCuts keeps (some f) fs, e.span.Inside s := by
      refine ih h.tail ?_
      rintro b ⟨⟩ g hg
      exact h.head_le hg
    by_cases hf : keeps f
    · rw [entryCuts, if_pos hf]
      exact hrest ((List.mem_cons.1 he).resolve_left fun heq => hgone (heq ▸ hf))
    · rw [entryCuts, if_neg hf]
      rcases List.mem_cons.1 he with rfl | he
      · refine ⟨_, List.mem_cons_self, ?_⟩
        unfold withSeparator
        split
        · cases fs with
          | nil => exact ⟨Nat.le_refl _, Nat.le_refl _⟩
          | cons g gs => exact ⟨Nat.le_refl _, h.head_le List.mem_cons_self⟩
        · cases before with
          | none => exact ⟨Nat.le_refl _, Nat.le_refl _⟩
          | some b => exact ⟨hbefore b rfl e List.mem_cons_self, Nat.le_refl _⟩
      · obtain ⟨s, hs, hinside⟩ := hrest he
        exact ⟨s, List.mem_cons_of_mem _ hs, hinside⟩

/-- Nothing goes where all entries stay. -/
theorem entryCuts_eq_nil {before : Option TypeRef} {es : List TypeRef} (h : ∀ e ∈ es, keeps e) :
    entryCuts keeps before es = [] := by
  induction es generalizing before with
  | nil => rfl
  | cons e es ih =>
    rw [entryCuts, if_pos (h e List.mem_cons_self)]
    exact ih fun f hf => h f (List.mem_cons_of_mem _ hf)

end JavaThrows
