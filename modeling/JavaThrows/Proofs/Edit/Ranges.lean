import JavaThrows.Decl.Basic
import JavaThrows.Proofs.Edit.Deletion

set_option autoImplicit false

/-!
# Deletions inside ranges

Deletions that are made for different parts of a file are put together. `TakesOut` says which bytes
they take; it holds of two parts together whenever it holds of both. `Deletes` says besides that
each deletion stays inside the range that belongs to its part, so that parts with ranges that do not
meet cannot disturb each other. Main statements: `TakesOut.eq_cut`, edits that apply leave the text
without the cuts, and `Deletes.apply`, edits in ranges that do not meet do apply.
-/

namespace JavaThrows

/-- The edits delete pieces of the text, and these cover the same bytes as the cuts. -/
structure TakesOut (source : List Char) (edits : List Edit) (cuts : List Span) : Prop where
  deletions : (edits.map Edit.span).map .delete = edits
  pieces : ∀ e ∈ edits, e.span.IsPieceOf source
  covered : ∀ o, CoveredBy (edits.map Edit.span) o ↔ CoveredBy cuts o

/-- The edits delete pieces of the text inside the given ranges that do not meet. They cover the
    same bytes as the cuts, and none of what is kept. -/
structure Deletes (source : List Char) (ranges : List Span) (edits : List Edit) (cuts : List Span)
    (kept : List TypeRef) : Prop extends TakesOut source edits cuts where
  disjoint : edits.Pairwise fun a b => a.span.Disjoint b.span
  keeps : ∀ s ∈ cuts, ∀ k ∈ kept, s.Disjoint k.span
  edits_inside : ∀ e ∈ edits, ∃ range ∈ ranges, e.span.Inside range
  cuts_inside : ∀ s ∈ cuts, ∃ range ∈ ranges, s.Inside range
  kept_inside : ∀ k ∈ kept, ∃ range ∈ ranges, k.span.Inside range

variable {source : List Char}

/-! ## The bytes that edits take -/

namespace TakesOut

theorem nil : TakesOut source [] [] :=
  ⟨rfl, by simp, by simp⟩

theorem append {ca cb : List Span} {ea eb : List Edit} (ha : TakesOut source ea ca)
    (hb : TakesOut source eb cb) : TakesOut source (ea ++ eb) (ca ++ cb) := by
  refine ⟨?_, List.forall_mem_append.2 ⟨ha.pieces, hb.pieces⟩, fun o => ?_⟩
  · rw [List.map_append, List.map_append, ha.deletions, hb.deletions]
  · rw [List.map_append, coveredBy_append, coveredBy_append, ha.covered, hb.covered]

theorem single {s : Span} (h : s.IsPieceOf source) : TakesOut source [.delete s] [s] := by
  refine ⟨rfl, ?_, fun o => Iff.rfl⟩
  rintro e he
  rw [List.mem_singleton.1 he]
  exact h

theorem flatMap {α : Type} {items : List α} {cuts : α → List Span} {edits : α → List Edit}
    (h : ∀ a ∈ items, TakesOut source (edits a) (cuts a)) :
    TakesOut source (items.flatMap edits) (items.flatMap cuts) := by
  induction items with
  | nil => exact nil
  | cons a as ih =>
    simp only [List.flatMap_cons]
    exact (h a List.mem_cons_self).append (ih fun b hb => h b (List.mem_cons_of_mem _ hb))

variable {edits : List Edit} {cuts : List Span}

theorem apply (h : TakesOut source edits cuts)
    (hdisjoint : edits.Pairwise fun a b => a.span.Disjoint b.span) :
    Edit.validate source edits = .ok () ∧ Edit.apply source edits = .ok (Text.cut cuts source) := by
  have hcut : Text.cut (edits.map Edit.span) source = Text.cut cuts source := by
    refine Text.cut_congr (fun o => ?_) source
    rw [Bool.eq_iff_iff, any_covers_iff, any_covers_iff]
    exact h.covered o
  have happlied := Edit.apply_deletions (List.forall_mem_map.2 h.pieces)
    (List.pairwise_map.2 hdisjoint)
  rwa [h.deletions, hcut] at happlied

/-- Edits that meet are refused. -/
theorem apply_eq_overlapping (h : TakesOut source edits cuts)
    (hmeet : ¬ edits.Pairwise fun a b => a.span.Disjoint b.span) :
    ∃ first second, Edit.apply source edits = .error (.overlapping first second) := by
  have hpieces : ∀ e ∈ edits, e.span.stop ≤ Text.byteLength source ∧
      Text.isBoundary source e.span.start ∧ Text.isBoundary source e.span.stop := by
    intro e he
    obtain ⟨-, hstart, hstop⟩ := h.pieces e he
    exact ⟨Text.le_byteLength_of_isBoundary hstop, hstart, hstop⟩
  simp only [← Edit.overlaps_eq_false_iff] at hmeet
  obtain ⟨first, second, hvalid⟩ := Edit.validate_eq_overlapping hpieces hmeet
  exact ⟨first, second, by simp [Edit.apply, hvalid, bind, Except.bind]⟩

/-- **Edits that apply leave the text without the cuts.** -/
theorem eq_cut (h : TakesOut source edits cuts) {text : List Char}
    (happly : Edit.apply source edits = .ok text) : text = Text.cut cuts source := by
  have hvalid : Edit.validate source edits = .ok () := by
    cases hv : Edit.validate source edits with
    | ok => rfl
    | error e => simp [Edit.apply, hv, bind, Except.bind] at happly
  have hdisjoint := (Edit.validate_eq_ok_iff.1 hvalid).2
  have hcut := (h.apply (hdisjoint.imp Edit.overlaps_eq_false_iff.1)).2
  exact Except.ok.inj (happly.symm.trans hcut)

end TakesOut

/-! ## Ranges that do not meet -/

namespace Deletes

theorem nil : Deletes source [] [] [] [] := by
  refine ⟨.nil, ?_, ?_, ?_, ?_, ?_⟩ <;> simp

/-- Deletions in ranges that do not meet can be made together. -/
theorem append {ra rb ca cb : List Span} {ea eb : List Edit} {ka kb : List TypeRef}
    (ha : Deletes source ra ea ca ka) (hb : Deletes source rb eb cb kb)
    (hranges : ∀ s ∈ ra, ∀ t ∈ rb, s.Disjoint t) :
    Deletes source (ra ++ rb) (ea ++ eb) (ca ++ cb) (ka ++ kb) := by
  have hmeet : ∀ {s t : Span}, (∃ range ∈ ra, s.Inside range) → (∃ range ∈ rb, t.Inside range) →
      s.Disjoint t := by
    rintro s t ⟨x, hx, hsx⟩ ⟨y, hy, hty⟩
    exact (hranges x hx y hy).mono hsx hty
  have hleft : ∀ {s : Span}, (∃ range ∈ ra, s.Inside range) → ∃ range ∈ ra ++ rb, s.Inside range :=
    fun ⟨x, hx, hs⟩ => ⟨x, List.mem_append_left _ hx, hs⟩
  have hright : ∀ {s : Span}, (∃ range ∈ rb, s.Inside range) → ∃ range ∈ ra ++ rb, s.Inside range :=
    fun ⟨x, hx, hs⟩ => ⟨x, List.mem_append_right _ hx, hs⟩
  refine ⟨ha.toTakesOut.append hb.toTakesOut, ?_, ?_, ?_, ?_, ?_⟩
  · refine List.pairwise_append.2 ⟨ha.disjoint, hb.disjoint, fun a hea b heb => ?_⟩
    exact hmeet (ha.edits_inside a hea) (hb.edits_inside b heb)
  · -- A cut of one part cannot meet what the other part keeps: both stay in their ranges.
    intro s hs k hk
    rcases List.mem_append.1 hs with hs | hs <;> rcases List.mem_append.1 hk with hk | hk
    · exact ha.keeps s hs k hk
    · exact hmeet (ha.cuts_inside s hs) (hb.kept_inside k hk)
    · exact (hmeet (ha.kept_inside k hk) (hb.cuts_inside s hs)).symm
    · exact hb.keeps s hs k hk
  · exact List.forall_mem_append.2 ⟨fun e he => hleft (ha.edits_inside e he),
      fun e he => hright (hb.edits_inside e he)⟩
  · exact List.forall_mem_append.2 ⟨fun s hs => hleft (ha.cuts_inside s hs),
      fun s hs => hright (hb.cuts_inside s hs)⟩
  · exact List.forall_mem_append.2 ⟨fun k hk => hleft (ha.kept_inside k hk),
      fun k hk => hright (hb.kept_inside k hk)⟩

theorem single {s range : Span} (hpiece : s.IsPieceOf source) (hinside : s.Inside range) :
    Deletes source [range] [.delete s] [s] [] := by
  refine ⟨.single hpiece, List.pairwise_singleton _ _, by simp, ?_, ?_, by simp⟩
  · rintro e he
    rw [List.mem_singleton.1 he]
    exact ⟨_, List.mem_singleton_self _, hinside⟩
  · rintro t ht
    rw [List.mem_singleton.1 ht]
    exact ⟨_, List.mem_singleton_self _, hinside⟩

/-- Deletions for the items of a list, each in its own ranges. -/
theorem flatMap {α : Type} {items : List α} {ranges cuts : α → List Span} {edits : α → List Edit}
    {kept : α → List TypeRef}
    (h : ∀ a ∈ items, Deletes source (ranges a) (edits a) (cuts a) (kept a))
    (hranges : (items.flatMap ranges).Pairwise Span.Disjoint) :
    Deletes source (items.flatMap ranges) (items.flatMap edits) (items.flatMap cuts)
      (items.flatMap kept) := by
  induction items with
  | nil => exact nil
  | cons a as ih =>
    rw [List.flatMap_cons, List.pairwise_append] at hranges
    simp only [List.flatMap_cons]
    exact (h a List.mem_cons_self).append
      (ih (fun b hb => h b (List.mem_cons_of_mem _ hb)) hranges.2.1) hranges.2.2

/-- **Deletions that do not meet apply**, and leave the text without the cuts. -/
theorem apply {ranges cuts : List Span} {edits : List Edit} {kept : List TypeRef}
    (h : Deletes source ranges edits cuts kept) :
    Edit.validate source edits = .ok () ∧
      Edit.apply source edits = .ok (Text.cut cuts source) :=
  h.toTakesOut.apply h.disjoint

end Deletes
end JavaThrows
