import JavaThrows.Edit
import JavaThrows.Proofs.Text.Cut

set_option autoImplicit false

/-!
# Edits that delete

Checking edits comes down to a statement on the edits one by one and on pairs of them
(`validate_eq_ok_iff`). Deletions that pass the check and run forward can always be applied, and
what comes out is the text with their spans cut out, in whatever order they were made
(`apply_deletions`).
-/

namespace JavaThrows.Edit

open Text

/-! ## Checking -/

theorem fault?_eq_none_iff {source : List Char} {index : Nat} {e : Edit} :
    e.fault? source index = none ↔
      e.span.stop ≤ byteLength source ∧ isBoundary source e.span.start ∧
        isBoundary source e.span.stop := by
  unfold fault?
  split
  · simp
    omega
  · split
    · next hcut =>
      simp only [Bool.not_eq_true', Bool.and_eq_false_iff] at hcut
      simp only [reduceCtorEq, false_iff]
      rintro ⟨-, hstart, hstop⟩
      simp [hstart, hstop] at hcut
    · next hle hcut =>
      simp only [Bool.not_eq_true', Bool.not_eq_false, Bool.and_eq_true] at hcut
      simp only [true_iff]
      exact ⟨by omega, hcut⟩

theorem firstFault_eq_none_iff {source : List Char} (index : Nat) {edits : List Edit} :
    firstFault source index edits = none ↔
      ∀ e ∈ edits, e.span.stop ≤ byteLength source ∧ isBoundary source e.span.start ∧
        isBoundary source e.span.stop := by
  induction edits generalizing index with
  | nil => simp [firstFault]
  | cons e es ih => simp [firstFault, ih, fault?_eq_none_iff]

theorem overlapWith_eq_none_iff {e : Edit} (index : Nat) {edits : List Edit} :
    e.overlapWith index edits = none ↔ ∀ f ∈ edits, e.overlaps f = false := by
  induction edits generalizing index with
  | nil => simp [overlapWith]
  | cons f fs ih =>
    by_cases h : e.overlaps f <;> simp [overlapWith, h, ih]

theorem firstOverlap_eq_none_iff (index : Nat) {edits : List Edit} :
    firstOverlap index edits = none ↔ edits.Pairwise fun a b => a.overlaps b = false := by
  induction edits generalizing index with
  | nil => simp [firstOverlap]
  | cons e es ih =>
    rw [List.pairwise_cons, ← overlapWith_eq_none_iff (index + 1), ← ih (index + 1), firstOverlap]
    cases e.overlapWith (index + 1) es <;> simp

/-- **Edits pass the check exactly if** each of them lies in the text, cuts no character, and
    shares no byte with another one. -/
theorem validate_eq_ok_iff {source : List Char} {edits : List Edit} :
    validate source edits = .ok () ↔
      (∀ e ∈ edits, e.span.stop ≤ byteLength source ∧ isBoundary source e.span.start ∧
        isBoundary source e.span.stop) ∧
      edits.Pairwise fun a b => a.overlaps b = false := by
  rw [← firstFault_eq_none_iff 0, ← firstOverlap_eq_none_iff 0, validate]
  cases firstFault source 0 edits <;> cases firstOverlap 0 edits <;> simp

/-- The check of pairs finds nothing but overlaps. -/
theorem firstOverlap_eq_some {index : Nat} {edits : List Edit} {e : RewriteError}
    (h : firstOverlap index edits = some e) : ∃ first second, e = .overlapping first second := by
  induction edits generalizing index with
  | nil => simp [firstOverlap] at h
  | cons a as ih =>
    rw [firstOverlap] at h
    split at h
    · next other _ => exact ⟨index, other, (Option.some.inj h).symm⟩
    · exact ih h

/-- Edits that lie in the text and share a byte are refused because they overlap. -/
theorem validate_eq_overlapping {source : List Char} {edits : List Edit}
    (hpieces : ∀ e ∈ edits, e.span.stop ≤ byteLength source ∧ isBoundary source e.span.start ∧
      isBoundary source e.span.stop)
    (hmeet : ¬ edits.Pairwise fun a b => a.overlaps b = false) :
    ∃ first second, validate source edits = .error (.overlapping first second) := by
  rw [← firstOverlap_eq_none_iff 0, ← ne_eq, Option.ne_none_iff_exists'] at hmeet
  obtain ⟨e, he⟩ := hmeet
  obtain ⟨first, second, rfl⟩ := firstOverlap_eq_some he
  refine ⟨first, second, ?_⟩
  rw [validate, (firstFault_eq_none_iff 0).2 hpieces, he]
  rfl

theorem overlaps_eq_false_iff {a b : Edit} : a.overlaps b = false ↔ a.span.Disjoint b.span := by
  simp only [overlaps, Span.Disjoint, Bool.and_eq_false_iff, decide_eq_false_iff_not]
  omega

/-! ## Applying -/

theorem replace?_delete {s : Span} {text : List Char} (h : s.IsPieceOf text) :
    replace? text (delete s) = some (cut [s] text) := by
  obtain ⟨a, b, c, rfl, hstart, hstop⟩ := exists_parts_of_isPieceOf h
  have hlength : s.stop - s.start = byteLength b := by omega
  rw [replace?, delete, if_pos h.ordered, hlength, ← hstart, splitAt?_append, Option.bind_some,
    splitAt?_append, cut_singleton_parts hstart hstop]
  simp

/-- Deletions from back to front leave what the cut of all their spans leaves. -/
theorem replaceAll?_deletions {spans : List Span} {text : List Char}
    (hpieces : ∀ s ∈ spans, s.IsPieceOf text)
    (hback : spans.Pairwise fun s t => t.stop ≤ s.start ∨ s.stop ≤ s.start) :
    replaceAll? text (spans.map delete) = some (cut spans text) := by
  induction spans generalizing text with
  | nil => simp [replaceAll?, cut, cutFrom_nil]
  | cons s ss ih =>
    obtain ⟨hs, hss⟩ := List.pairwise_cons.1 hback
    have hpiece := hpieces s List.mem_cons_self
    -- What is left to delete stands in front of `s`, so its offsets are still good.
    rw [List.map_cons, replaceAll?, replace?_delete hpiece, Option.bind_some, ← cut_cons hpiece hs]
    exact ih (fun t ht => isPieceOf_cut hpiece (hpieces t (List.mem_cons_of_mem _ ht)) (hs t ht)) hss

theorem span_delete (s : Span) : (delete s).span = s := rfl

theorem backToFront_perm (edits : List Edit) : (backToFront edits).Perm edits :=
  List.mergeSort_perm _ _

theorem backToFront_sorted (edits : List Edit) :
    (backToFront edits).Pairwise fun a b => b.span.start ≤ a.span.start := by
  have h : (backToFront edits).Pairwise fun a b => decide (b.span.start ≤ a.span.start) :=
    List.pairwise_mergeSort
      (fun a b c hab hbc => by simp only [decide_eq_true_eq] at *; omega)
      (fun a b => by simp only [Bool.or_eq_true, decide_eq_true_eq]; omega) edits
  exact h.imp fun hab => of_decide_eq_true hab

/-- **Disjoint deletions always apply**, and what is left is the text without their spans. -/
theorem apply_deletions {spans : List Span} {source : List Char}
    (hpieces : ∀ s ∈ spans, s.IsPieceOf source) (hdisjoint : spans.Pairwise Span.Disjoint) :
    validate source (spans.map delete) = .ok () ∧
      apply source (spans.map delete) = .ok (cut spans source) := by
  have hvalid : validate source (spans.map delete) = .ok () := by
    rw [validate_eq_ok_iff, List.forall_mem_map, List.pairwise_map]
    refine ⟨fun s hs => ?_, hdisjoint.imp fun h => overlaps_eq_false_iff.2 h⟩
    have hpiece := hpieces s hs
    exact ⟨le_byteLength_of_isBoundary hpiece.stop_isBoundary, hpiece.start_isBoundary,
      hpiece.stop_isBoundary⟩
  refine ⟨hvalid, ?_⟩
  -- The sorted edits are again deletions: those of the spans in the sorted order.
  let sorted := (backToFront (spans.map delete)).map Edit.span
  have hperm : sorted.Perm spans := by
    have h := (backToFront_perm (spans.map delete)).map Edit.span
    simpa [List.map_map, Function.comp_def, span_delete] using h
  have hdelete : ∀ e ∈ backToFront (spans.map delete), (delete ∘ Edit.span) e = e := by
    intro e he
    obtain ⟨s, -, rfl⟩ := List.mem_map.1 ((backToFront_perm _).mem_iff.1 he)
    rfl
  have hsorted : sorted.map delete = backToFront (spans.map delete) := by
    rw [List.map_map, List.map_congr_left hdelete, List.map_id']
  have hback : sorted.Pairwise fun s t => t.stop ≤ s.start ∨ s.stop ≤ s.start := by
    have hdis : sorted.Pairwise Span.Disjoint :=
      (hperm.pairwise_iff fun h => Span.Disjoint.symm h).2 hdisjoint
    have hdesc : sorted.Pairwise fun s t => t.start ≤ s.start :=
      List.pairwise_map.2 (backToFront_sorted _)
    refine (hdis.and hdesc).imp ?_
    rintro s t ⟨hor | hor, hle⟩
    · exact .inr (by omega)
    · exact .inl hor
  have happlied := replaceAll?_deletions
    (fun s hs => hpieces s (hperm.mem_iff.1 hs)) hback
  rw [hsorted, cut_perm hperm] at happlied
  simp only [apply, hvalid, happlied, bind, Except.bind, pure, Except.pure]

end JavaThrows.Edit
