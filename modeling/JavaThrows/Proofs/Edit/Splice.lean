import JavaThrows.Proofs.Edit.Deletion
import JavaThrows.Proofs.Text.Bytes

set_option autoImplicit false

/-!
# Edits made all at once

Edits are applied one after the other, each to a text that the edits before it have changed. What
they come to is said here without any of that, by a walk over the bytes of the text as it was: at
each offset go in the replacements of the edits that start there, and the byte itself stays unless
an edit covers it (`splice`). From back to front this is what comes out as long as every edit ends
where the one before it starts, or in front of that (`exists_replaceAll?`). Main statement:
`apply_eq_splice`.
-/

namespace JavaThrows.Edit

open Text

/-! ## Splicing -/

/-- The bytes that go in at an offset. Of several edits that start there, the one that was made last
    comes first. -/
def inserted (edits : List Edit) (offset : Nat) : List UInt8 :=
  (edits.filter fun e => e.span.start == offset).reverse.flatMap fun e => bytes e.replacement.toList

/-- The bytes from an offset on, with all edits made in them. -/
def spliceFrom (edits : List Edit) (offset : Nat) : List UInt8 → List UInt8
  | [] => inserted edits offset
  | b :: bs =>
    inserted edits offset ++
      ((if edits.any fun e => e.span.covers offset then [] else [b]) ++
        spliceFrom edits (offset + 1) bs)

/-- The bytes of a text with all edits made in them at once. -/
def splice (edits : List Edit) (source : List UInt8) : List UInt8 :=
  spliceFrom edits 0 source

variable {edits edits' : List Edit} {e : Edit} {offset : Nat}

theorem inserted_cons (e : Edit) (edits : List Edit) (offset : Nat) :
    inserted (e :: edits) offset =
      inserted edits offset ++
        if e.span.start = offset then bytes e.replacement.toList else [] := by
  by_cases h : e.span.start = offset <;> simp [inserted, h]

theorem inserted_eq_nil (h : ∀ e ∈ edits, e.span.start ≠ offset) : inserted edits offset = [] := by
  have hnone : (edits.filter fun e => e.span.start == offset) = [] :=
    List.filter_eq_nil_iff.2 fun e he => by simpa using h e he
  rw [inserted, hnone]
  rfl

theorem covers_eq_false {s : Span} (h : s.stop ≤ offset ∨ offset < s.start) :
    s.covers offset = false := by
  simp only [Span.covers, Bool.and_eq_false_iff, decide_eq_false_iff_not]
  omega

theorem any_covers_eq_false (h : ∀ e ∈ edits, e.span.stop ≤ offset) :
    (edits.any fun e => e.span.covers offset) = false :=
  List.any_eq_false.2 fun e he => by simp [covers_eq_false (.inl (h e he))]

/-- Where all edits lie behind, the bytes stay. -/
theorem spliceFrom_behind (hstart : ∀ e ∈ edits, e.span.start ≤ offset)
    (hstop : ∀ e ∈ edits, e.span.stop ≤ offset) (bs : List UInt8) :
    spliceFrom edits offset bs = inserted edits offset ++ bs := by
  induction bs generalizing offset with
  | nil => rw [spliceFrom, List.append_nil]
  | cons b bs ih =>
    have hnone : inserted edits (offset + 1) = [] :=
      inserted_eq_nil fun e he => Nat.ne_of_lt (Nat.lt_succ_of_le (hstart e he))
    rw [spliceFrom, any_covers_eq_false hstop, ih (fun e he => Nat.le_succ_of_le (hstart e he))
      fun e he => Nat.le_succ_of_le (hstop e he), hnone]
    rfl

/-- What an edit covers goes, up to where the edit stops. -/
theorem spliceFrom_covered (he : e ∈ edits) (hstart : ∀ e ∈ edits, e.span.start < offset)
    {covered : List UInt8} (hstop : offset + covered.length ≤ e.span.stop) (bs : List UInt8) :
    spliceFrom edits offset (covered ++ bs) = spliceFrom edits (offset + covered.length) bs := by
  induction covered generalizing offset with
  | nil => rfl
  | cons b covered ih =>
    rw [List.length_cons] at hstop
    have hcovers : (edits.any fun e => e.span.covers offset) = true := by
      refine List.any_eq_true.2 ⟨e, he, Span.covers_iff.2 ⟨Nat.le_of_lt (hstart e he), by omega⟩⟩
    have hnone : inserted edits offset = [] := inserted_eq_nil fun f hf => Nat.ne_of_lt (hstart f hf)
    rw [List.cons_append, spliceFrom, hcovers, hnone,
      ih (fun f hf => Nat.lt_succ_of_lt (hstart f hf)) (by omega), List.length_cons,
      Nat.add_comm covered.length, ← Nat.add_assoc]
    rfl

/-- Where two rows of edits agree, they do the same. -/
theorem spliceFrom_append_congr {front bs bs' : List UInt8}
    (hinserted : ∀ o < offset + front.length, inserted edits o = inserted edits' o)
    (hcovers : ∀ o < offset + front.length,
      (edits.any fun e => e.span.covers o) = edits'.any fun e => e.span.covers o)
    (hrest : spliceFrom edits (offset + front.length) bs =
      spliceFrom edits' (offset + front.length) bs') :
    spliceFrom edits offset (front ++ bs) = spliceFrom edits' offset (front ++ bs') := by
  induction front generalizing offset with
  | nil => exact hrest
  | cons b front ih =>
    have hlength : offset + (b :: front).length = offset + 1 + front.length := by
      rw [List.length_cons]
      omega
    rw [hlength] at hinserted hcovers hrest
    rw [List.cons_append, List.cons_append, spliceFrom, spliceFrom, hinserted offset (by omega),
      hcovers offset (by omega), ih hinserted hcovers hrest]

theorem splice_congr (hinserted : ∀ o, inserted edits o = inserted edits' o)
    (hcovers : ∀ o, (edits.any fun e => e.span.covers o) = edits'.any fun e => e.span.covers o)
    (source : List UInt8) : splice edits source = splice edits' source := by
  have h : spliceFrom edits 0 (source ++ []) = spliceFrom edits' 0 (source ++ []) :=
    spliceFrom_append_congr (fun o _ => hinserted o) (fun o _ => hcovers o) (hinserted _)
  rwa [List.append_nil] at h

/-- **The last edit can be made first**, if the others stop at its start or in front of it. -/
theorem splice_cons {front covered behind : List UInt8} (hfront : front.length = e.span.start)
    (hcovered : front.length + covered.length = e.span.stop)
    (hstart : ∀ f ∈ edits, f.span.start ≤ e.span.start)
    (hstop : ∀ f ∈ edits, f.span.stop ≤ e.span.start) :
    splice (e :: edits) (front ++ (covered ++ behind)) =
      splice edits (front ++ (bytes e.replacement.toList ++ behind)) := by
  have hlt : ∀ o < 0 + front.length, o < e.span.start := fun o ho => by omega
  refine spliceFrom_append_congr (fun o ho => ?_) (fun o ho => ?_) ?_
  · rw [inserted_cons, if_neg (Nat.ne_of_gt (hlt o ho)), List.append_nil]
  · rw [List.any_cons, covers_eq_false (.inr (hlt o ho)), Bool.false_or]
  rw [Nat.zero_add, hfront, spliceFrom_behind hstart hstop, ← List.append_assoc]
  -- What the edit inserts comes behind what the others insert at the same place.
  have hhere : inserted (e :: edits) e.span.start =
      inserted edits e.span.start ++ bytes e.replacement.toList := by
    rw [inserted_cons, if_pos rfl]
  cases covered with
  | nil =>
    have hempty : e.span.stop = e.span.start := by simpa [hfront] using hcovered.symm
    rw [List.nil_append, spliceFrom_behind, hhere]
    · exact List.forall_mem_cons.2 ⟨Nat.le_refl _, hstart⟩
    · exact List.forall_mem_cons.2 ⟨Nat.le_of_eq hempty, hstop⟩
  | cons b covered =>
    rw [List.length_cons] at hcovered
    have hcovers : ((e :: edits).any fun f => f.span.covers e.span.start) = true :=
      List.any_eq_true.2 ⟨e, List.mem_cons_self, Span.covers_iff.2 ⟨Nat.le_refl _, by omega⟩⟩
    have hbefore : ∀ f ∈ e :: edits, f.span.start < e.span.start + 1 :=
      List.forall_mem_cons.2 ⟨Nat.lt_succ_self _, fun f hf => Nat.lt_succ_of_le (hstart f hf)⟩
    have hstops : e.span.start + 1 + covered.length = e.span.stop := by omega
    have hpast : ∀ f ∈ e :: edits, f.span.start < e.span.stop :=
      fun f hf => Nat.lt_of_lt_of_le (hbefore f hf) (by omega)
    have hbehind : spliceFrom (e :: edits) e.span.stop behind = behind := by
      rw [spliceFrom_behind, inserted_eq_nil fun f hf => Nat.ne_of_lt (hpast f hf), List.nil_append]
      · exact fun f hf => Nat.le_of_lt (hpast f hf)
      · refine List.forall_mem_cons.2 ⟨Nat.le_refl _, fun f hf => ?_⟩
        exact Nat.le_trans (hstop f hf) (Nat.le_of_lt (hpast e List.mem_cons_self))
    rw [List.cons_append, spliceFrom, hcovers, if_pos rfl, List.nil_append, hhere,
      spliceFrom_covered List.mem_cons_self hbefore (Nat.le_of_eq hstops), hstops, hbehind]

/-! ## From back to front -/

/-- The edit changes no text. -/
def IsIdle (e : Edit) : Prop :=
  e.span.stop = e.span.start ∧ e.replacement = ""

theorem splice_idle (he : e.IsIdle) (source : List UInt8) :
    splice (e :: edits) source = splice edits source := by
  obtain ⟨hstop, hreplacement⟩ := he
  refine splice_congr (fun o => ?_) (fun o => ?_) source
  · rw [inserted_cons, hreplacement]
    split <;> exact List.append_nil _
  · rw [List.any_cons, covers_eq_false (by omega), Bool.false_or]

theorem length_bytes (cs : List Char) : (bytes cs).length = byteLength cs := by
  induction cs with
  | nil => rfl
  | cons c cs ih => rw [bytes_cons, List.length_append, String.length_utf8EncodeChar, ih, byteLength]

/-- What is replaced is a piece of the text. -/
theorem replace?_eq_some_iff {text text' : List Char} :
    replace? text e = some text' ↔
      ∃ a b c, text = a ++ (b ++ c) ∧ byteLength a = e.span.start ∧
        byteLength a + byteLength b = e.span.stop ∧ text' = a ++ (e.replacement.toList ++ c) := by
  rw [replace?]
  constructor
  · intro h
    split at h
    · next hle =>
      obtain ⟨⟨a, rest⟩, hfront, h⟩ := Option.bind_eq_some_iff.1 h
      obtain ⟨⟨b, c⟩, hback, rfl⟩ := Option.map_eq_some_iff.1 h
      obtain ⟨rfl, ha⟩ := splitAt?_eq_some_iff.1 hfront
      obtain ⟨rfl, hb⟩ := splitAt?_eq_some_iff.1 hback
      exact ⟨a, b, c, rfl, ha, by omega, List.append_assoc ..⟩
    · cases h
  · rintro ⟨a, b, c, rfl, ha, hb, rfl⟩
    have hlength : e.span.stop - e.span.start = byteLength b := by omega
    rw [if_pos (by omega), ← ha, splitAt?_append, Option.bind_some, ha, hlength, splitAt?_append,
      Option.map_some, List.append_assoc]

/-- **From back to front, edits can be made one after the other**, if each of those that are left
    stops where the one that is made starts, or if that one is idle. -/
theorem exists_replaceAll? {text : List Char} (hpieces : ∀ e ∈ edits, e.span.IsPieceOf text)
    (hback : edits.Pairwise fun e f => f.span.stop ≤ e.span.start ∨ e.IsIdle) :
    ∃ text', replaceAll? text edits = some text' ∧ bytes text' = splice edits (bytes text) := by
  induction edits generalizing text with
  | nil =>
    refine ⟨text, rfl, ?_⟩
    rw [splice, spliceFrom_behind (List.forall_mem_nil _) (List.forall_mem_nil _)]
    rfl
  | cons e edits ih =>
    obtain ⟨hfirst, hback⟩ := List.pairwise_cons.1 hback
    obtain ⟨hpiece, hpieces⟩ := List.forall_mem_cons.1 hpieces
    obtain ⟨a, b, c, rfl, hstart, hstop⟩ := exists_parts_of_isPieceOf hpiece
    have hreplace : replace? (a ++ (b ++ c)) e = some (a ++ (e.replacement.toList ++ c)) :=
      replace?_eq_some_iff.2 ⟨a, b, c, rfl, hstart, hstop, rfl⟩
    rw [replaceAll?, hreplace, Option.bind_some]
    by_cases hidle : e.IsIdle
    · have hb : b = [] := byteLength_eq_zero (by have := hidle.1; omega)
      obtain ⟨text', htext, hbytes⟩ := ih hpieces hback
      rw [hb] at htext hbytes ⊢
      rw [hidle.2]
      exact ⟨text', htext, hbytes.trans (splice_idle hidle _).symm⟩
    · -- What is left stands in front of `e`, so its offsets are still good.
      have hbefore : ∀ f ∈ edits, f.span.stop ≤ e.span.start :=
        fun f hf => (hfirst f hf).resolve_right hidle
      have hleft : ∀ f ∈ edits, f.span.IsPieceOf (a ++ (e.replacement.toList ++ c)) := by
        intro f hf
        obtain ⟨hordered, hfstart, hfstop⟩ := hpieces f hf
        have hle := hbefore f hf
        rw [isBoundary_append_left (by omega)] at hfstart hfstop
        refine ⟨hordered, ?_, ?_⟩
        · rwa [isBoundary_append_left (by omega)]
        · rwa [isBoundary_append_left (by omega)]
      obtain ⟨text', htext, hbytes⟩ := ih hleft hback
      refine ⟨text', htext, hbytes.trans ?_⟩
      simp only [bytes_append]
      refine (splice_cons ?_ ?_ (fun f hf => ?_) hbefore).symm
      · rw [length_bytes, hstart]
      · rw [length_bytes, length_bytes, hstop]
      · exact Nat.le_trans (hpieces f hf).ordered (hbefore f hf)

/-! ## Edits with the same start -/

/-- Sorting keeps the edits that start at the same place in the order in which they were made. -/
theorem filter_backToFront (edits : List Edit) (offset : Nat) :
    ((backToFront edits).filter fun e => e.span.start == offset) =
      edits.filter fun e => e.span.start == offset := by
  have hsame : (edits.filter fun e => e.span.start == offset).Pairwise
      fun e f => decide (f.span.start ≤ e.span.start) := by
    rw [List.pairwise_iff_forall_sublist]
    intro e f hef
    have he := (List.mem_filter.1 (hef.subset List.mem_cons_self)).2
    have hf := (List.mem_filter.1 (hef.subset (List.mem_cons_of_mem e List.mem_cons_self))).2
    rw [beq_iff_eq] at he hf
    simp [he, hf]
  have hsorted : (edits.filter fun e => e.span.start == offset).Sublist (backToFront edits) :=
    List.sublist_mergeSort
      (fun a b c hab hbc => by simp only [decide_eq_true_eq] at *; omega)
      (fun a b => by simp only [Bool.or_eq_true, decide_eq_true_eq]; omega) hsame List.filter_sublist
  have hfiltered := hsorted.filter fun e => e.span.start == offset
  rw [List.filter_filter] at hfiltered
  simp only [Bool.and_self] at hfiltered
  exact (hfiltered.eq_of_length ((backToFront_perm edits).filter _).length_eq.symm).symm

/-- Text that an edit replaces is not replaced after something was inserted at its start: what is
    inserted would come to stand in the range that is to be replaced. -/
def InsertsLast (edits : List Edit) : Prop :=
  edits.Pairwise fun e f =>
    e.span.start = f.span.start → f.span.start < f.span.stop → e.replacement = ""

/-- Only the order of the edits with a common start counts. -/
theorem InsertsLast.congr (hsame : ∀ o, (edits'.filter fun e => e.span.start == o) =
    edits.filter fun e => e.span.start == o) (h : InsertsLast edits) : InsertsLast edits' := by
  refine List.pairwise_iff_forall_sublist.2 fun {e f} hef hstart => ?_
  have hhere := hef.filter fun g => g.span.start == f.span.start
  rw [hsame, List.filter_cons_of_pos (by simpa using hstart),
    List.filter_cons_of_pos (by simp), List.filter_nil] at hhere
  exact List.pairwise_iff_forall_sublist.1 h (hhere.trans List.filter_sublist) hstart

theorem insertsLast_backToFront_iff : InsertsLast (backToFront edits) ↔ InsertsLast edits :=
  ⟨.congr fun o => (filter_backToFront edits o).symm, .congr fun o => filter_backToFront edits o⟩

/-- Sorted edits that share no byte each stop in front of the one before, or that one is idle. -/
theorem stops_of_sorted (hforward : ∀ e ∈ edits, e.span.start ≤ e.span.stop)
    (hsorted : edits.Pairwise fun e f => f.span.start ≤ e.span.start)
    (hdisjoint : edits.Pairwise fun e f => e.overlaps f = false) (hlast : InsertsLast edits) :
    edits.Pairwise fun e f => f.span.stop ≤ e.span.start ∨ e.IsIdle := by
  refine (hsorted.and (hdisjoint.and hlast)).imp_of_mem ?_
  rintro e f he hf ⟨hsorted, hdisjoint, hlast⟩
  rcases overlaps_eq_false_iff.1 hdisjoint with hstop | hstop
  · -- Both start at the same place, and `e` replaces nothing.
    have heforward := hforward e he
    by_cases hempty : f.span.stop ≤ f.span.start
    · exact .inl (by omega)
    · exact .inr ⟨by omega, hlast (by omega) (by omega)⟩
  · exact .inl hstop

/-- Whether edits share a byte does not depend on their order. -/
theorem pairwise_overlaps_perm (hperm : edits'.Perm edits) :
    edits'.Pairwise (fun e f => e.overlaps f = false) ↔
      edits.Pairwise fun e f => e.overlaps f = false :=
  hperm.pairwise_iff fun h => overlaps_eq_false_iff.2 (overlaps_eq_false_iff.1 h).symm

theorem splice_backToFront (edits : List Edit) (source : List UInt8) :
    splice (backToFront edits) source = splice edits source := by
  refine splice_congr (fun o => ?_) (fun o => (backToFront_perm edits).any_eq) source
  rw [inserted, filter_backToFront, inserted]

/-- **Edits that insert last are made all at once.** -/
theorem exists_apply {source : List Char} (hforward : ∀ e ∈ edits, e.span.start ≤ e.span.stop)
    (hvalid : validate source edits = .ok ()) (hlast : InsertsLast edits) :
    ∃ text, apply source edits = .ok text ∧ bytes text = splice edits (bytes source) := by
  obtain ⟨hpieces, hdisjoint⟩ := validate_eq_ok_iff.1 hvalid
  have hsorted : ∀ e ∈ backToFront edits, e.span.IsPieceOf source := by
    intro e he
    have he := (backToFront_perm edits).mem_iff.1 he
    exact ⟨hforward e he, (hpieces e he).2.1, (hpieces e he).2.2⟩
  have hback := stops_of_sorted (fun e he => (hsorted e he).ordered) (backToFront_sorted edits)
    ((pairwise_overlaps_perm (backToFront_perm edits)).2 hdisjoint)
    (insertsLast_backToFront_iff.2 hlast)
  obtain ⟨text, htext, hbytes⟩ := exists_replaceAll? hsorted hback
  refine ⟨text, ?_, hbytes.trans (splice_backToFront edits _)⟩
  simp only [apply, hvalid, htext, bind, Except.bind, pure, Except.pure]

/-! ## The order of the edits -/

theorem insertsLast_of_nodup (h : (edits.map fun e => e.span.start).Nodup) : InsertsLast edits :=
  (List.pairwise_map.1 h).imp fun hne hstart => absurd hstart hne

theorem validate_perm {others : List Edit} (hperm : others.Perm edits) (source : List Char) :
    validate source others = .ok () ↔ validate source edits = .ok () := by
  rw [validate_eq_ok_iff, validate_eq_ok_iff, pairwise_overlaps_perm hperm]
  simp only [hperm.mem_iff]

/-- Of edits with different starts, at most one starts at a place. -/
theorem filter_eq_of_perm {others : List Edit} (hperm : others.Perm edits)
    (hstarts : (edits.map fun e => e.span.start).Nodup) (offset : Nat) :
    (others.filter fun e => e.span.start == offset) =
      edits.filter fun e => e.span.start == offset := by
  have hne := (List.pairwise_map.1 hstarts).filter fun e => e.span.start == offset
  have hhere : ∀ e ∈ edits.filter fun e => e.span.start == offset, e.span.start = offset :=
    fun e he => by simpa using (List.mem_filter.1 he).2
  have hfiltered := hperm.filter fun e => e.span.start == offset
  generalize (edits.filter fun e => e.span.start == offset) = here at hne hhere hfiltered ⊢
  match here with
  | [] => exact List.perm_nil.1 hfiltered
  | [e] => exact List.perm_singleton.1 hfiltered
  | e :: f :: _ =>
    have hboth := List.rel_of_pairwise_cons hne List.mem_cons_self
    have he := hhere e List.mem_cons_self
    have hf := hhere f (List.mem_cons_of_mem e List.mem_cons_self)
    exact absurd (he.trans hf.symm) hboth

/-- **Edits with different starts are made all at once**, if they run forward and pass the check:
    they can be applied, and the bytes of the result are those of the text with each range replaced
    where it stands. Neither the check nor the result depends on the order in which the edits were
    made. -/
theorem apply_eq_splice (hforward : ∀ e ∈ edits, e.span.start ≤ e.span.stop)
    (hstarts : (edits.map fun e => e.span.start).Nodup) (source : List Char) :
    (validate source edits = .ok () →
      ∃ text, apply source edits = .ok text ∧ bytes text = splice edits (bytes source)) ∧
    ∀ others : List Edit, others.Perm edits →
      (validate source others = .ok () ↔ validate source edits = .ok ()) ∧
      (validate source edits = .ok () → apply source others = apply source edits) := by
  refine ⟨fun hvalid => exists_apply hforward hvalid (insertsLast_of_nodup hstarts), ?_⟩
  intro others hperm
  refine ⟨validate_perm hperm source, fun hvalid => ?_⟩
  have hothers : ∀ e ∈ others, e.span.start ≤ e.span.stop :=
    fun e he => hforward e (hperm.mem_iff.1 he)
  have hnodup : (others.map fun e => e.span.start).Nodup := (hperm.map _).nodup_iff.2 hstarts
  obtain ⟨text, htext, hbytes⟩ := exists_apply hforward hvalid (insertsLast_of_nodup hstarts)
  obtain ⟨text', htext', hbytes'⟩ :=
    exists_apply hothers ((validate_perm hperm source).2 hvalid) (insertsLast_of_nodup hnodup)
  have hsplice : splice others (bytes source) = splice edits (bytes source) := by
    refine splice_congr (fun o => ?_) (fun o => hperm.any_eq) _
    rw [inserted, filter_eq_of_perm hperm hstarts, inserted]
  have hsame : text' = text := bytes_inj.1 (by rw [hbytes', hsplice, hbytes])
  rw [htext, htext', hsame]

/-- An insertion between two replaced ranges of a text with characters of several bytes, in whatever
    order the three edits are made. -/
theorem apply_eq_splice_touching :
    let edits : List Edit := [⟨⟨3, 3⟩, "-"⟩, ⟨⟨5, 6⟩, ""⟩, ⟨⟨1, 3⟩, "xy"⟩]
    let source := "aßécd".toList
    (∀ e ∈ edits, e.span.start ≤ e.span.stop) ∧ (edits.map fun e => e.span.start).Nodup ∧
      validate source edits = .ok () ∧
      ∀ others : List Edit, others.Perm edits → apply source others = .ok "axy-éd".toList := by
  intro edits source
  have hforward : ∀ e ∈ edits, e.span.start ≤ e.span.stop := by decide
  have hstarts : (edits.map fun e => e.span.start).Nodup := by decide
  have hvalid : validate source edits = .ok () := by rfl
  obtain ⟨hsplice, horder⟩ := apply_eq_splice hforward hstarts source
  obtain ⟨text, htext, hbytes⟩ := hsplice hvalid
  have hresult : text = "axy-éd".toList := by
    refine bytes_inj.1 (hbytes.trans ?_)
    rfl
  refine ⟨hforward, hstarts, hvalid, fun others hperm => ?_⟩
  rw [(horder others hperm).2 hvalid, htext, hresult]

end JavaThrows.Edit
