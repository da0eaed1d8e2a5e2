import JavaThrows.Proofs.Cst.Ends
import JavaThrows.Proofs.Removal.Layout
import JavaThrows.Proofs.Text.Gaps

set_option autoImplicit false

/-!
# Lines of imports that go

What goes with an import is white space around it, so it never reaches into a type of the file. It
can only meet what goes with another import, and does so where two imports that go share a gap. Main
statements: `importCut_disjoint_of_javaTree`, `importCuts_disjoint_iff`.
-/

namespace JavaThrows

open JavaThrows.Cst

variable {source : List Char}

/-! ## Imports of a file -/

/-- The import is a piece of the text between white space, and its line is the line of that
    piece. -/
structure Import.Stands (source : List Char) (i : Import) : Prop where
  isPieceOf : i.span.IsPieceOf source
  nonempty : i.span.start < i.span.stop
  starts : Text.SolidAt source i.span.start
  ends : Text.SolidBefore source i.span.stop
  lineSpan_eq : i.lineSpan = Text.lineSpan source i.span

theorem imports_stand_of_javaTree {root : Node} (h : javaTree source = some root) :
    ∀ i ∈ (CompilationUnit.ofTree source root).imports, i.Stands source := by
  intro i hi
  obtain ⟨n, hn, rfl⟩ := List.mem_map.1 hi
  obtain ⟨hmem, hkind⟩ := List.mem_filter.1 hn
  have hplaced := ((javaTree_placed h).placed_of_mem hmem).1
  obtain ⟨hstart, hstop⟩ := javaTree_solid h n hmem
  have hcomment : ¬ n.isComment := by
    rw [Node.isComment, beq_iff_eq.1 hkind]
    decide
  exact ⟨hplaced.isPieceOf, hplaced.nonempty, hstart, hstop hcomment, rfl⟩

/-- The imports of a file stand in it one after the other. -/
theorem imports_ordered_of_javaTree {root : Node} (h : javaTree source = some root) :
    (CompilationUnit.ofTree source root).imports.Pairwise
      fun i j => i.span.stop ≤ j.span.start :=
  List.pairwise_map.2 ((javaTree_placed h).pairwise.sublist List.filter_sublist)

/-! ## What goes with an import -/

section Cut

variable {i j : Import}

theorem importCut_start (takesBlanks : Bool) :
    (importCut source takesBlanks i).start = i.lineSpan.start := by
  unfold importCut
  split <;> rfl

/-- White space goes with an import, and nothing else. -/
theorem importCut_padded (h : i.Stands source) (takesBlanks : Bool) :
    Text.Padded source i.span (importCut source takesBlanks i) := by
  have hline := Text.lineSpan_padded h.isPieceOf
  rw [← h.lineSpan_eq] at hline
  unfold importCut
  split
  · obtain ⟨stop, hstop, hle, hboundary, hblank⟩ :=
      Text.skipBlankLines?_eq_some hline.isPieceOf.stop_isBoundary
    have heq : i.lineAndBlanks source = ⟨i.lineSpan.start, stop⟩ := by
      rw [Import.lineAndBlanks, hstop, Option.getD_some]
    obtain ⟨⟨hordered, hstart, -⟩, ⟨hin, hin'⟩, hbefore, hafter⟩ := hline
    rw [heq]
    refine ⟨⟨?_, hstart, hboundary⟩, ⟨hin, ?_⟩, hbefore, hafter.trans hblank⟩
    · exact Nat.le_trans hordered hle
    · exact Nat.le_trans hin' hle
  · exact hline

/-- What goes with an import stays clear of a piece that neither starts nor ends with white
    space. -/
theorem Text.Padded.disjoint {s t u : Span} (h : Text.Padded source s t) (hdisjoint : s.Disjoint u)
    (hstart : Text.SolidAt source u.start) (hstop : Text.SolidBefore source u.stop) :
    t.Disjoint u := by
  rcases hdisjoint with hle | hle
  · left
    have houtside := hstart.outside h.after
    omega
  · right
    have houtside := hstop.outside h.before h.isPieceOf.start_isBoundary
    omega

/-- What goes with an import meets what goes with a later one exactly if they share a gap. -/
theorem lineSpan_disjoint_importCut_iff (hi : i.Stands source) (hj : j.Stands source)
    (hle : i.span.stop ≤ j.span.start) (takesBlanks : Bool) :
    i.lineSpan.Disjoint (importCut source takesBlanks j) ↔
      ¬ Text.ShareGap source i.span j.span := by
  have hinside := (Text.lineSpan_padded hi.isPieceOf).inside
  have hinside' := (importCut_padded hj takesBlanks).inside
  rw [← hi.lineSpan_eq] at hinside
  have hiff := Text.lineSpan_stop_le_iff hi.isPieceOf hj.isPieceOf hi.ends hj.starts hle
  rw [← hi.lineSpan_eq, ← hj.lineSpan_eq, ← importCut_start takesBlanks] at hiff
  rw [← hiff]
  constructor
  · rintro (hbefore | hbehind)
    · exact hbefore
    · -- The later one would have to end before the earlier one starts.
      have hpos := hi.nonempty
      have hordered := hj.isPieceOf.ordered
      have hstart := hinside.start
      have hstop := hinside'.stop
      omega
  · exact Or.inl

end Cut

/-! ## Imports that go -/

theorem exists_of_mem_importCuts {noneStays : Bool} {is : List Import} {cut : Span}
    (h : cut ∈ importCuts source noneStays is) :
    ∃ i ∈ is, ∃ takesBlanks, cut = importCut source takesBlanks i := by
  induction is with
  | nil => simp [importCuts] at h
  | cons i is ih =>
    rw [importCuts, List.mem_cons] at h
    rcases h with rfl | h
    · exact ⟨i, List.mem_cons_self, _, rfl⟩
    · obtain ⟨j, hj, hcut⟩ := ih h
      exact ⟨j, List.mem_cons_of_mem _ hj, hcut⟩

theorem forall_mem_importCuts_iff {noneStays : Bool} {is : List Import} {good : Span → Prop}
    {good' : Import → Prop}
    (h : ∀ i ∈ is, ∀ takesBlanks, good (importCut source takesBlanks i) ↔ good' i) :
    (∀ cut ∈ importCuts source noneStays is, good cut) ↔ ∀ i ∈ is, good' i := by
  induction is with
  | nil => simp [importCuts]
  | cons i is ih =>
    rw [List.forall_mem_cons] at h
    rw [importCuts, List.forall_mem_cons, List.forall_mem_cons, h.1, ih h.2]

/-- Two of the imports share a gap. -/
def SomeShareGap (source : List Char) (is : List Import) : Prop :=
  ∃ i ∈ is, ∃ j ∈ is, Text.ShareGap source i.span j.span

theorem Text.ShareGap.stop_lt {s t : Span} (h : Text.ShareGap source s t) : s.stop < t.start := by
  obtain ⟨a, b, m, c, -, -, -, hm, -, hne, -⟩ := h
  have hpos := Text.length_le_byteLength m
  have hlength := List.length_pos_iff.2 hne
  omega

/-- Of imports one after the other, only an earlier one and a later one can share a gap. -/
theorem not_someShareGap_iff {is : List Import} (hstand : ∀ i ∈ is, i.Stands source)
    (hordered : is.Pairwise fun i j => i.span.stop ≤ j.span.start) :
    ¬ SomeShareGap source is ↔
      is.Pairwise fun i j => ¬ Text.ShareGap source i.span j.span := by
  induction is with
  | nil => simp [SomeShareGap]
  | cons i is ih =>
    rw [List.forall_mem_cons] at hstand
    rw [List.pairwise_cons] at hordered ⊢
    rw [← ih hstand.2 hordered.2]
    simp only [SomeShareGap, List.mem_cons]
    constructor
    · intro hnone
      refine ⟨fun j hj hshare => hnone ⟨i, .inl rfl, j, .inr hj, hshare⟩, ?_⟩
      rintro ⟨j, hj, k, hk, hshare⟩
      exact hnone ⟨j, .inr hj, k, .inr hk, hshare⟩
    · rintro ⟨hfirst, hrest⟩ ⟨j, hj, k, hk, hshare⟩
      have hlt := hshare.stop_lt
      rcases hj with rfl | hj <;> rcases hk with rfl | hk
      · have hpos := hstand.1.nonempty
        omega
      · exact hfirst k hk hshare
      · have hle := hordered.1 j hj
        have hpos := hstand.1.nonempty
        have hpos' := (hstand.2 j hj).nonempty
        omega
      · exact hrest ⟨j, hj, k, hk, hshare⟩

/-- **The cuts of imports meet exactly if two of the imports share a gap.** -/
theorem importCuts_disjoint_iff {noneStays : Bool} {is : List Import}
    (hstand : ∀ i ∈ is, i.Stands source)
    (hordered : is.Pairwise fun i j => i.span.stop ≤ j.span.start) :
    (importCuts source noneStays is).Pairwise Span.Disjoint ↔ ¬ SomeShareGap source is := by
  rw [not_someShareGap_iff hstand hordered]
  induction is with
  | nil => simp [importCuts]
  | cons i is ih =>
    rw [List.forall_mem_cons] at hstand
    rw [List.pairwise_cons] at hordered
    rw [importCuts, List.pairwise_cons, List.pairwise_cons, ih hstand.2 hordered.2]
    refine and_congr_left fun _ => forall_mem_importCuts_iff fun j hj takesBlanks => ?_
    -- Only the last import takes blank lines along, and `i` is not the last one.
    have hline : importCut source (noneStays && is.isEmpty) i = i.lineSpan := by
      cases is with
      | nil => simp at hj
      | cons k ks => simp [importCut]
    rw [hline]
    exact lineSpan_disjoint_importCut_iff hstand.1 (hstand.2 j hj) (hordered.1 j hj) takesBlanks

/-- **What goes with an import meets no clause** of a file that has been read. -/
theorem importCut_disjoint_of_javaTree {root : Node} (h : javaTree source = some root) :
    ∀ i ∈ (CompilationUnit.ofTree source root).imports, ∀ takesBlanks,
      ∀ clause ∈ clausesOfTypes (CompilationUnit.ofTree source root).types,
        clause.Disjoint (importCut source takesBlanks i) := by
  intro i hi takesBlanks clause hclause
  have hpadded := importCut_padded (imports_stand_of_javaTree h i hi) takesBlanks
  obtain ⟨n, hn, rfl⟩ := List.mem_map.1 hi
  obtain ⟨hmem, hkind⟩ := List.mem_filter.1 hn
  obtain ⟨t, ht, htype, hinside⟩ := clauses_inTypes_of_javaTree h clause hclause
  obtain ⟨hstart, hstop⟩ := javaTree_solid h t ht
  have hcomment : ¬ t.isComment := by
    intro hcomment
    simp only [Node.isComment, Bool.or_eq_true, beq_iff_eq] at hcomment
    rcases hcomment with hkind | hkind
    · rw [hkind] at htype
      exact absurd htype (by decide)
    · rw [hkind] at htype
      exact absurd htype (by decide)
  have hne : n ≠ t := by
    rintro rfl
    rw [beq_iff_eq.1 hkind] at htype
    exact absurd htype (by decide)
  have hnodes := disjoint_of_placed (javaTree_placed h) hmem ht hne
  have hapart := hpadded.disjoint hnodes hstart (hstop hcomment)
  exact hapart.symm.mono hinside (.refl _)

end JavaThrows
