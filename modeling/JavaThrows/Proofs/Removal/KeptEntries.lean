import Mathlib.Data.List.Perm.Subperm
import JavaThrows.Proofs.Cst.Spelling
import JavaThrows.Proofs.Removal.Entries
import JavaThrows.Proofs.Text.Gaps

set_option autoImplicit false

/-!
# What is left of a clause

A clause that loses some of its entries stays a list with one separator between any two of them.
Each entry is taken together with the gap behind it: what is left is the entries that stay, each but
the last one with its own gap, and the last one without. Main statement: `apply_entryEdits`.
-/

namespace JavaThrows

open Text

/-! ## Entries and the gaps behind them -/

/-- The entries of a list, each with the span up to the next one. -/
def withGaps : List TypeRef → List (TypeRef × Span)
  | [] => []
  | [e] => [(e, ⟨e.span.stop, e.span.stop⟩)]
  | e :: f :: es => (e, ⟨e.span.stop, f.span.start⟩) :: withGaps (f :: es)

/-- The texts of entries in a row, each followed by its gap but for the last one. -/
def joined (source : List Char) : List (TypeRef × Span) → List Char
  | [] => []
  | [(e, _)] => (slice source e.span).toList
  | (e, gap) :: next :: rest =>
    (slice source e.span).toList ++ ((slice source gap).toList ++ joined source (next :: rest))

/-- The text of the entries that stay. -/
def keptText (source : List Char) (keeps : TypeRef → Bool) (es : List TypeRef) : List Char :=
  joined source ((withGaps es).filter fun entry => keeps entry.1)

section KeptText

variable {source : List Char} {keeps : TypeRef → Bool} {e f : TypeRef} {es : List TypeRef}

theorem any_withGaps (keeps : TypeRef → Bool) (es : List TypeRef) :
    ((withGaps es).any fun entry => keeps entry.1) = es.any keeps := by
  fun_induction withGaps es with
  | case1 => rfl
  | case2 e => rfl
  | case3 e f es ih => rw [List.any_cons, ih, List.any_cons (l := f :: es)]

theorem filter_withGaps_eq_nil_iff :
    ((withGaps es).filter fun entry => keeps entry.1) = [] ↔ ¬ es.any keeps := by
  rw [← any_withGaps, List.filter_eq_nil_iff, List.any_eq_true]
  push Not
  rfl

theorem joined_cons (source : List Char) (e : TypeRef) (gap : Span)
    (rest : List (TypeRef × Span)) :
    joined source ((e, gap) :: rest) = (slice source e.span).toList ++
      ((if rest = [] then [] else (slice source gap).toList) ++ joined source rest) := by
  cases rest <;> simp [joined]

theorem keptText_cons_removed (he : ¬ keeps e) :
    keptText source keeps (e :: es) = keptText source keeps es := by
  cases es <;> simp [keptText, withGaps, he]

theorem keptText_singleton (he : keeps e) :
    keptText source keeps [e] = (slice source e.span).toList := by
  simp [keptText, withGaps, he, joined]

/-- An entry that stays has its gap behind it if another one follows that stays too. -/
theorem keptText_cons_kept (he : keeps e) :
    keptText source keeps (e :: f :: es) = (slice source e.span).toList ++
      ((if (f :: es).any keeps then (slice source ⟨e.span.stop, f.span.start⟩).toList else []) ++
        keptText source keeps (f :: es)) := by
  rw [keptText, withGaps, List.filter_cons_of_pos (by simpa using he), joined_cons, ← keptText]
  simp only [filter_withGaps_eq_nil_iff, ite_not]

end KeptText

/-! ## Places of the gaps -/

section Cuts

variable {source : List Char} {keeps : TypeRef → Bool} {before : Option TypeRef} {e f : TypeRef}
  {es : List TypeRef}

/-- Everything that goes lies behind what stands in front of the entries. -/
theorem le_start_of_mem_entryCuts {o : Nat} {s : Span} (h : InOrder es)
    (hbefore : ∀ b ∈ before, o ≤ b.span.stop) (hes : ∀ e ∈ es, o ≤ e.span.start)
    (hs : s ∈ entryCuts keeps before es) : o ≤ s.start := by
  refine (endpoints_of_mem_entryCuts (P := fun n => o ≤ n) hbefore (fun e he => ⟨hes e he, ?_⟩) hs).1
  have hle := hes e he
  have hlt := h.nonempty e he
  omega

/-- The gap in front of entries of which one stays is left alone. -/
theorem head_le_of_mem_entryCuts {s : Span} (h : InOrder (f :: es)) (hany : (f :: es).any keeps)
    (hs : s ∈ entryCuts keeps before (f :: es)) : f.span.start ≤ s.start := by
  have hrest : s ∈ entryCuts keeps (some f) es → f.span.start ≤ s.start := by
    have hlt := h.head_lt
    refine le_start_of_mem_entryCuts h.tail ?_ ?_
    · rintro b ⟨⟩
      omega
    · intro g hg
      have hle := h.head_le hg
      omega
  rw [entryCuts] at hs
  split at hs
  · exact hrest hs
  · next hf =>
    have hany' : es.any keeps := by simpa [hf] using hany
    rcases List.mem_cons.1 hs with rfl | hs
    · rw [withSeparator, if_pos hany']
    · exact hrest hs

/-- The gap in front of entries of which none stays goes. -/
theorem exists_mem_entryCuts_gap (h : InOrder (f :: es)) (hnone : ¬ (f :: es).any keeps) :
    ∃ s ∈ entryCuts keeps (some e) (f :: es), s.start = e.span.stop ∧ f.span.start ≤ s.stop := by
  obtain ⟨hf, hes⟩ : ¬ keeps f ∧ ¬ es.any keeps := by simpa using hnone
  refine ⟨withSeparator keeps (some e) f.span es, ?_, ?_⟩
  · rw [entryCuts, if_neg hf]
    exact List.mem_cons_self
  · rw [withSeparator, if_neg hes]
    exact ⟨rfl, Nat.le_of_lt h.head_lt⟩

end Cuts

/-! ## The text that is left -/

/-- A piece stands behind whatever text reaches up to its start. -/
theorem exists_piece_behind {source a x : List Char} {s : Span} (hsource : source = a ++ x)
    (ha : byteLength a = s.start) (hs : s.IsPieceOf source) :
    ∃ b c, x = b ++ c ∧ byteLength a + byteLength b = s.stop ∧
      (slice source s).toList = b := by
  obtain ⟨a', b, c, hparts, ha', hb⟩ := exists_parts_of_isPieceOf hs
  obtain ⟨rfl, rfl⟩ := append_inj_of_byteLength (hsource.symm.trans hparts) (ha.trans ha'.symm)
  refine ⟨b, c, rfl, hb, ?_⟩
  obtain ⟨start, stop⟩ := s
  simp only at ha hb
  subst ha hb
  rw [hsource, ← List.append_assoc, ← byteLength_append, Cst.slice_middle, String.toList_ofList]

section Left

variable {source : List Char} {keeps : TypeRef → Bool} {before : Option TypeRef} {e f : TypeRef}
  {es : List TypeRef} {text : List Char}

/-- An entry is left as a whole, or it goes as a whole. -/
theorem cutFrom_entryCuts_entry (h : InOrder (e :: es))
    (hbefore : ∀ b ∈ before, b.span.stop ≤ e.span.start)
    (htext : e.span.start + byteLength text = e.span.stop) :
    cutFrom (entryCuts keeps before (e :: es)) e.span.start text = if keeps e then text else [] := by
  split
  · next he =>
    refine cutFrom_eq_self fun s hs => .inr ?_
    rw [entryCuts, if_pos he] at hs
    rw [htext]
    refine le_start_of_mem_entryCuts h.tail ?_ (fun f hf => h.head_le hf) hs
    rintro b ⟨⟩
    exact Nat.le_refl _
  · next he =>
    have hfront : ∀ b ∈ before, ∀ f ∈ e :: es, b.span.stop ≤ f.span.start := by
      intro b hb f hf
      rcases List.mem_cons.1 hf with rfl | hf
      · exact hbefore b hb
      · have hle := hbefore b hb
        have hlt := h.head_lt
        have hnext := h.head_le hf
        omega
    obtain ⟨s, hs, hstart, hstop⟩ := exists_mem_entryCuts h hfront List.mem_cons_self he
    exact cutFrom_eq_nil hs hstart (htext ▸ hstop)

/-- The gap behind an entry is left if the entry stays and another one behind it does. -/
theorem cutFrom_entryCuts_gap (h : InOrder (e :: f :: es))
    (htext : e.span.stop + byteLength text = f.span.start) :
    cutFrom (entryCuts keeps before (e :: f :: es)) e.span.stop text =
      if keeps e ∧ (f :: es).any keeps then text else [] := by
  by_cases hany : (f :: es).any keeps
  · by_cases he : keeps e
    · rw [if_pos ⟨he, hany⟩, entryCuts, if_pos he]
      exact cutFrom_eq_self fun s hs => .inr (htext ▸ head_le_of_mem_entryCuts h.tail hany hs)
    · rw [if_neg fun hboth => he hboth.1, entryCuts, if_neg he]
      refine cutFrom_eq_nil List.mem_cons_self ?_ ?_
      · rw [withSeparator, if_pos hany]
        exact Nat.le_of_lt h.head_lt
      · rw [withSeparator, if_pos hany, htext]
        exact Nat.le_refl _
  · rw [if_neg fun hboth => hany hboth.2]
    obtain ⟨s, hs, hstart, hstop⟩ := exists_mem_entryCuts_gap (e := e) h.tail hany
    refine cutFrom_eq_nil ?_ (Nat.le_of_eq hstart) (htext ▸ hstop)
    rw [entryCuts]
    split
    · exact hs
    · exact List.mem_cons_of_mem _ hs

/-- Behind an entry and its gap only the cuts of the other entries count. -/
theorem cutFrom_entryCuts_behind {o : Nat} (hstop : e.span.stop ≤ o)
    (hnext : ∀ f ∈ es.head?, f.span.start ≤ o) :
    cutFrom (entryCuts keeps before (e :: es)) o text =
      cutFrom (entryCuts keeps (some e) es) o text := by
  rw [entryCuts]
  split
  · rfl
  · refine cutFrom_congr fun p hp _ => ?_
    have hend : (withSeparator keeps before e.span es).stop ≤ o := by
      rw [withSeparator]
      split
      · cases es with
        | nil => exact hstop
        | cons f es => exact hnext f rfl
      · exact hstop
    have hcovers : (withSeparator keeps before e.span es).covers p = false := by
      simp only [Span.covers, Bool.and_eq_false_iff, decide_eq_false_iff_not]
      omega
    rw [List.any_cons, hcovers, Bool.false_or]

/-- **From the first entry on:** what is left up to the end of the last entry is the text of the
    entries that stay, and what follows is all there. -/
theorem cutFrom_entryCuts {a x : List Char} (hsource : source = a ++ x)
    (ha : byteLength a = e.span.start) (h : InOrder (e :: es))
    (hpieces : ∀ f ∈ e :: es, f.span.IsPieceOf source)
    (hbefore : ∀ b ∈ before, b.span.stop ≤ e.span.start) :
    ∃ region back, x = region ++ back ∧
      byteLength (a ++ region) = ((e :: es).getLast (List.cons_ne_nil e es)).span.stop ∧
      cutFrom (entryCuts keeps before (e :: es)) e.span.start x =
        keptText source keeps (e :: es) ++ back := by
  induction es generalizing before e a x with
  | nil =>
    obtain ⟨b, c, rfl, hb, hpiece⟩ :=
      exists_piece_behind hsource ha (hpieces e List.mem_cons_self)
    refine ⟨b, c, rfl, by rw [byteLength_append, hb, List.getLast_singleton], ?_⟩
    rw [cutFrom_append, ← ha, hb, cutFrom_entryCuts_behind (Nat.le_refl _) (by simp), entryCuts,
      cutFrom_nil, ha, cutFrom_entryCuts_entry h hbefore (by omega)]
    congr 1
    split
    · next he => rw [keptText_singleton he, hpiece]
    · next he => rw [keptText_cons_removed he, keptText, withGaps, List.filter_nil, joined]
  | cons f es ih =>
    obtain ⟨b, c, rfl, hb, hpiece⟩ :=
      exists_piece_behind hsource ha (hpieces e List.mem_cons_self)
    have hle : e.span.stop ≤ f.span.start := h.head_le List.mem_cons_self
    have hbetween : Span.IsPieceOf ⟨e.span.stop, f.span.start⟩ source :=
      ⟨hle, (hpieces e List.mem_cons_self).stop_isBoundary,
        (hpieces f (List.mem_cons_of_mem e List.mem_cons_self)).start_isBoundary⟩
    -- The gap reaches up to the next entry, and the rest of the text starts there.
    obtain ⟨g, y, rfl, hg, hgap⟩ : ∃ g y, c = g ++ y ∧
        byteLength (a ++ b) + byteLength g = f.span.start ∧
        (slice source ⟨e.span.stop, f.span.start⟩).toList = g :=
      exists_piece_behind (by rw [hsource, List.append_assoc]) (by rw [byteLength_append, hb])
        hbetween
    have hbehind : ∃ region back, y = region ++ back ∧
        byteLength (a ++ b ++ g ++ region) =
          ((f :: es).getLast (List.cons_ne_nil f es)).span.stop ∧
        cutFrom (entryCuts keeps (some e) (f :: es)) f.span.start y =
          keptText source keeps (f :: es) ++ back :=
      ih (by rw [hsource]; simp) (by rw [byteLength_append, hg]) h.tail
        (fun k hk => hpieces k (List.mem_cons_of_mem e hk)) (by rintro b ⟨⟩; exact hle)
    obtain ⟨region, back, rfl, hregion, hleft⟩ := hbehind
    refine ⟨b ++ (g ++ region), back, by simp, ?_, ?_⟩
    · rw [List.getLast_cons (List.cons_ne_nil f es), ← hregion]
      simp
    · rw [byteLength_append] at hg
      rw [cutFrom_append, cutFrom_append, cutFrom_entryCuts_entry h hbefore (by omega), ← ha, hb,
        cutFrom_entryCuts_gap h (by omega), ← hb, hg,
        cutFrom_entryCuts_behind (by omega) (by simp), hleft]
      by_cases he : keeps e
      · simp [he, keptText_cons_kept he, hpiece, hgap]
      · simp [he, keptText_cons_removed he]

end Left

/-! ## The edits of a clause -/

section Clause

variable {source : List Char} {es kept : List TypeRef}

theorem InOrder.nodup (h : InOrder es) : es.Nodup := by
  refine h.increasing.imp_of_mem fun {a b} ha _ hle heq => ?_
  have hlt := h.nonempty a ha
  rw [heq] at hle hlt
  omega

theorem map_fst_withGaps (es : List TypeRef) : (withGaps es).map Prod.fst = es := by
  fun_induction withGaps es with
  | case1 => rfl
  | case2 e => rfl
  | case3 e f es ih => rw [List.map_cons, ih]

/-- A part of a list without repetition is chosen by membership. -/
theorem filter_mem_of_sublist (h : InOrder es) (hkept : kept.Sublist es) :
    es.filter (fun e => decide (e ∈ kept)) = kept := by
  have hself : kept.filter (fun e => decide (e ∈ kept)) = kept :=
    List.filter_eq_self.2 fun e he => by simpa using he
  have hfront : kept.Sublist (es.filter fun e => decide (e ∈ kept)) := by
    have h := hkept.filter fun e => decide (e ∈ kept)
    rwa [hself] at h
  have hback : (es.filter fun e => decide (e ∈ kept)).Subperm kept :=
    List.subperm_of_subset (h.nodup.filter _) fun e he => of_decide_eq_true (List.mem_filter.1 he).2
  exact (hfront.eq_of_length_le hback.length_le).symm

/-- The runs of removed entries can be deleted, and what is left is told entry by entry. -/
theorem apply_entryEdits_eq_cut {keeps : TypeRef → Bool} (h : InOrder es)
    (hpieces : ∀ e ∈ es, e.span.IsPieceOf source) (hany : es.any keeps) :
    (entryEdits keeps none none es).Pairwise (fun a b => a.span.Disjoint b.span) ∧
      Edit.apply source (entryEdits keeps none none es) =
        .ok (cut (entryCuts keeps none es) source) := by
  obtain ⟨hforward, hpairs⟩ := entryRuns_increasing keeps (Walking.start h)
  have hdisjoint : (entryRuns keeps none none es).Pairwise Span.Disjoint :=
    hpairs.imp fun hle => .inl hle
  have hruns : ∀ s ∈ entryRuns keeps none none es, s.IsPieceOf source := by
    intro s hs
    obtain ⟨hstart, hstop⟩ := endpoints_of_mem_entryRuns (P := fun o => isBoundary source o)
      (by simp) (by simp)
      (fun e he => ⟨(hpieces e he).start_isBoundary, (hpieces e he).stop_isBoundary⟩) hs
    exact ⟨hforward s hs, hstart, hstop⟩
  have hcut : cut (entryRuns keeps none none es) source = cut (entryCuts keeps none es) source := by
    refine cut_congr (fun o => Bool.eq_iff_iff.2 ?_) source
    rw [any_covers_iff, any_covers_iff, coveredBy_entryRuns_iff none o (Walking.start h)
      (.inr hany) (fun _ => rfl) (by simp)]
    simp
  refine ⟨List.pairwise_map.1 hdisjoint, ?_⟩
  rw [← map_delete_entryRuns, (Edit.apply_deletions hruns hdisjoint).2, hcut]

/-- **A clause that loses entries keeps one separator between any two that stay.** The edits are
    disjoint, and they apply. From the start of the first entry to the end of the last one, what is
    left is the entries that stay, in their order, joined by the gap that has followed each of them
    but the last one; all text in front and behind is as it was. -/
theorem apply_entryEdits (hes : InOrder es) (hpieces : ∀ e ∈ es, e.span.IsPieceOf source)
    (hkept : kept.Sublist es) (hne : kept ≠ []) :
    let edits := entryEdits (fun e => kept.any fun k => k.span = e.span) none none es
    let left := (withGaps es).filter fun entry => entry.1 ∈ kept
    edits.Pairwise (fun a b => a.span.Disjoint b.span) ∧ left.map Prod.fst = kept ∧
      ∃ first last front region back, es.head? = some first ∧ es.getLast? = some last ∧
        source = front ++ (region ++ back) ∧ byteLength front = first.span.start ∧
        byteLength (front ++ region) = last.span.stop ∧
        Edit.apply source edits = .ok (front ++ (joined source left ++ back)) := by
  intro edits left
  have hedits : edits = entryEdits (fun e => decide (e ∈ kept)) none none es := by
    refine entryEdits_congr (fun e he => Bool.eq_iff_iff.2 ?_) none none
    rw [List.any_eq_true, decide_eq_true_iff]
    constructor
    · rintro ⟨k, hk, hspan⟩
      rwa [← hes.eq_of_span_eq (hkept.subset hk) he (of_decide_eq_true hspan)]
    · exact fun hk => ⟨e, hk, decide_eq_true rfl⟩
  have hany : es.any fun e => decide (e ∈ kept) := by
    obtain ⟨k, hk⟩ := List.exists_mem_of_ne_nil kept hne
    exact List.any_eq_true.2 ⟨k, hkept.subset hk, decide_eq_true hk⟩
  obtain ⟨hdisjoint, happly⟩ := apply_entryEdits_eq_cut hes hpieces hany
  refine ⟨hedits ▸ hdisjoint, ?_, ?_⟩
  · show ((withGaps es).filter ((fun e => decide (e ∈ kept)) ∘ Prod.fst)).map Prod.fst = kept
    rw [← List.filter_map, map_fst_withGaps, filter_mem_of_sublist hes hkept]
  · cases es with
    | nil => simp at hany
    | cons first es =>
      obtain ⟨front, x, hsource, hfront⟩ :=
        isBoundary_iff.1 (hpieces first List.mem_cons_self).start_isBoundary
      have hbehind : ∃ region back, x = region ++ back ∧
          byteLength (front ++ region) =
            ((first :: es).getLast (List.cons_ne_nil first es)).span.stop ∧
          cutFrom (entryCuts (fun e => decide (e ∈ kept)) none (first :: es)) first.span.start x =
            keptText source (fun e => decide (e ∈ kept)) (first :: es) ++ back :=
        cutFrom_entryCuts hsource hfront hes hpieces (by simp)
      obtain ⟨region, back, rfl, hregion, hleft⟩ := hbehind
      refine ⟨first, _, front, region, back, rfl, List.getLast?_eq_some_getLast _, hsource, hfront,
        hregion, ?_⟩
      have hstays : cutFrom (entryCuts (fun e => decide (e ∈ kept)) none (first :: es)) 0 front =
          front := by
        refine cutFrom_eq_self fun s hs => .inr ?_
        rw [Nat.zero_add, hfront]
        exact head_le_of_mem_entryCuts hes hany hs
      have htext : cutFrom (entryCuts (fun e => decide (e ∈ kept)) none (first :: es)) 0 source =
          front ++ (joined source left ++ back) := by
        conv_lhs => rw [hsource]
        rw [cutFrom_append, hstays, Nat.zero_add, hfront, hleft]
        rfl
      rw [hedits, happly, cut, htext]

end Clause

namespace TwoRuns

def source : List Char :=
  "throws X, Y , Z,W;".toList

def entryAt (text : String) (start : Nat) : TypeRef :=
  { (default : TypeRef) with text, erased := text, span := ⟨start, start + 1⟩ }

def entries : List TypeRef :=
  [entryAt "X" 7, entryAt "Y" 10, entryAt "Z" 14, entryAt "W" 16]

/-- One run of removed entries stands at the front and one in the middle. -/
def kept : List TypeRef :=
  [entryAt "Y" 10, entryAt "W" 16]

theorem apply_entryEdits_two_runs :
    InOrder entries ∧ (∀ e ∈ entries, e.span.IsPieceOf source) ∧ kept.Sublist entries ∧
      kept ≠ [] ∧
      Edit.apply source (entryEdits (fun e => kept.any fun k => k.span = e.span) none none entries) =
        .ok "throws Y , W;".toList := by
  have hes : InOrder entries := ⟨by decide, by decide⟩
  have hpieces : ∀ e ∈ entries, e.span.IsPieceOf source := by
    have h : ∀ e ∈ entries, e.span.start ≤ e.span.stop ∧ isBoundary source e.span.start ∧
      isBoundary source e.span.stop := by decide +kernel
    exact fun e he => ⟨(h e he).1, (h e he).2.1, (h e he).2.2⟩
  have hkept : kept.Sublist entries := by decide
  refine ⟨hes, hpieces, hkept, by decide, ?_⟩
  obtain ⟨-, -, first, last, front, region, back, hfirst, hlast, hsource, hfront, hregion, happly⟩ :=
    apply_entryEdits hes hpieces hkept (by decide)
  obtain rfl : entryAt "X" 7 = first := Option.some.inj hfirst
  obtain rfl : entryAt "W" 16 = last := Option.some.inj hlast
  -- The lengths tell the three parts of the source.
  obtain ⟨rfl, hrest⟩ := append_inj_of_byteLength (a := "throws ".toList)
    (b := "X, Y , Z,W;".toList) hsource (by rw [hfront]; decide)
  have hlength : byteLength "X, Y , Z,W".toList = byteLength region := by
    have hfrontLength : byteLength "throws ".toList = 7 := by decide
    have hregionLength : byteLength "X, Y , Z,W".toList = 10 := by decide
    have hstop : (entryAt "W" 16).span.stop = 17 := rfl
    rw [byteLength_append] at hregion
    omega
  obtain ⟨rfl, rfl⟩ := append_inj_of_byteLength (b := [';']) hrest hlength
  rw [happly]
  decide +kernel

end TwoRuns
end JavaThrows
