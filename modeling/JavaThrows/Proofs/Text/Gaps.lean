import Mathlib.Data.List.TakeWhile
import JavaThrows.Proofs.Text.Lines

set_option autoImplicit false

/-!
# Pieces that share a gap

Where two pieces of a text stand on one line, the first one may take the gap after it along and the
second one the gap before it. Main statement: `lineSpan_stop_le_iff`, what goes with two pieces
meets exactly if they share a gap in this way.
-/

namespace JavaThrows.Text

open JavaThrows.Unicode

/-- Nothing but a gap stands between the two pieces, and nothing but white space before the first
    of them on its line. -/
def ShareGap (text : List Char) (s t : Span) : Prop :=
  ∃ a b m c, text = a ++ (b ++ (m ++ c)) ∧ byteLength a = s.start ∧
    byteLength a + byteLength b = s.stop ∧ s.stop + byteLength m = t.start ∧
    isBlank (lastLine a) ∧ m ≠ [] ∧ ∀ d ∈ m, isGap d

/-! ## Runs of characters -/

theorem takeWhile_append_cons_of_neg {p : Char → Bool} {c : Char} (hc : ¬ p c) (m d : List Char) :
    (m ++ c :: d).takeWhile p = m.takeWhile p := by
  induction m with
  | nil => simp [hc]
  | cons x m ih => simp [List.takeWhile_cons, ih]

theorem firstLine_append_newline (m d : List Char) : firstLine (m ++ '\n' :: d) = firstLine m :=
  takeWhile_append_cons_of_neg (by simp) m d

theorem lastLine_append_newline (m d : List Char) : lastLine (m ++ '\n' :: d) = lastLine d := by
  unfold lastLine
  rw [List.reverse_append, List.reverse_cons, List.append_assoc, List.singleton_append,
    takeWhile_append_cons_of_neg (by simp)]

theorem isSpace_ne_newline {c : Char} (h : isSpace c = false) : c ≠ '\n' := by
  rintro rfl
  exact absurd h (by decide)

theorem lastLine_append_of_notMem {m : List Char} (h : '\n' ∉ m) (d : List Char) :
    lastLine (d ++ m) = lastLine d ++ m := by
  have hfirst := firstLine_append_of_notMem (m := m.reverse) (by simpa using h) d.reverse
  unfold lastLine
  rw [List.reverse_append]
  show (firstLine (m.reverse ++ d.reverse)).reverse = _
  rw [hfirst]
  simp [firstLine]

theorem length_le_byteLength (cs : List Char) : cs.length ≤ byteLength cs := by
  induction cs with
  | nil => simp
  | cons c cs ih =>
    have hc := c.utf8Size_pos
    rw [List.length_cons, byteLength]
    omega

theorem byteLength_firstLine_le (cs : List Char) : byteLength (firstLine cs) ≤ byteLength cs := by
  obtain ⟨lineBreak, rest, hcs, -, -⟩ := exists_append_firstLine cs
  have hlength := congrArg byteLength hcs
  rw [byteLength_append] at hlength
  omega

theorem byteLength_lastLine_le (cs : List Char) : byteLength (lastLine cs) ≤ byteLength cs := by
  obtain ⟨front, hcs, -⟩ := exists_append_lastLine cs
  have hlength := congrArg byteLength hcs
  rw [byteLength_append] at hlength
  omega

theorem byteLength_reverse (cs : List Char) : byteLength cs.reverse = byteLength cs := by
  induction cs with
  | nil => rfl
  | cons c cs ih =>
    rw [List.reverse_cons, byteLength_append, ih, byteLength, byteLength, byteLength, Nat.add_zero,
      Nat.add_comm]

theorem length_gap_le (cs : List Char) :
    (cs.takeWhile isGap).length ≤ byteLength (firstLine cs) := by
  rw [← takeWhile_gap_firstLine]
  exact Nat.le_trans (List.takeWhile_prefix isGap).length_le (length_le_byteLength _)

theorem length_gap_reverse_le (cs : List Char) :
    (cs.reverse.takeWhile isGap).length ≤ byteLength (lastLine cs) := by
  rw [← takeWhile_gap_lastLine, ← byteLength_reverse]
  exact Nat.le_trans (List.takeWhile_prefix isGap).length_le (length_le_byteLength _)

/-- The gaps at both ends of a text do not meet, unless the text is one gap. -/
theorem gaps_le_iff (m : List Char) :
    (m.takeWhile isGap).length + (m.reverse.takeWhile isGap).length ≤ byteLength m ↔
      ¬ (m ≠ [] ∧ ∀ d ∈ m, isGap d) := by
  by_cases hm : ∀ d ∈ m, isGap d
  · have hfront : m.takeWhile isGap = m := List.takeWhile_eq_self_iff.2 hm
    have hback : m.reverse.takeWhile isGap = m.reverse :=
      List.takeWhile_eq_self_iff.2 fun d hd => hm d (List.mem_reverse.1 hd)
    rw [hfront, hback, byteLength_of_all_gap hm, List.length_reverse]
    constructor
    · rintro hle ⟨hne, -⟩
      exact hne (List.eq_nil_of_length_eq_zero (by omega))
    · intro hnot
      have hnil : m = [] := Decidable.byContradiction fun hne => hnot ⟨hne, hm⟩
      simp [hnil]
  · refine iff_of_true ?_ fun h => hm h.2
    -- Some character is no gap: it ends the one in front, and the one at the back stays behind it.
    obtain ⟨d, hd, hgap⟩ : ∃ d ∈ m, ¬ isGap d := by simpa using hm
    obtain ⟨x, y, rfl⟩ := List.append_of_mem hd
    have hfront := (List.takeWhile_prefix isGap (l := x)).length_le
    have hback := (List.takeWhile_prefix isGap (l := y.reverse)).length_le
    have hlength := length_le_byteLength (x ++ d :: y)
    rw [List.reverse_append, List.reverse_cons, List.append_assoc, List.singleton_append,
      takeWhile_append_cons_of_neg hgap, takeWhile_append_cons_of_neg hgap]
    simp only [List.length_append, List.length_cons, List.length_reverse] at *
    omega

/-! ## What goes with pieces -/

section Parts

variable {a b c : List Char} {s : Span} (hstart : byteLength a = s.start)
  (hstop : byteLength a + byteLength b = s.stop)

include hstart hstop

/-- What goes with a piece ends on the line on which the piece does. -/
theorem lineSpan_stop_le :
    (lineSpan (a ++ (b ++ c)) s).stop ≤ s.stop + byteLength (firstLine c) + 1 := by
  have hgap := length_gap_le c
  rw [lineSpan_of_parts hstart hstop]
  split
  · split
    · show s.stop + _ + _ ≤ _
      split <;> omega
    · show s.stop + _ ≤ _
      omega
  · show s.stop ≤ _
    omega

/-- What goes with a piece starts on the line on which the piece does. -/
theorem le_lineSpan_start :
    s.start ≤ (lineSpan (a ++ (b ++ c)) s).start + byteLength (lastLine a) := by
  have hgap := length_gap_reverse_le a
  rw [lineSpan_of_parts hstart hstop]
  split
  · split
    · show s.start ≤ s.start - _ + _
      omega
    · show s.start ≤ s.start + _
      omega
  · show s.start ≤ s.start - _ + _
    omega

end Parts

/-- A character that is no white space makes a line that is not blank. -/
theorem isBlank_eq_false {cs : List Char} {c : Char} (hmem : c ∈ cs) (hc : isSpace c = false) :
    isBlank cs = false := by
  rw [isBlank, List.all_eq_false]
  exact ⟨c, hmem, by simp [hc]⟩

/-- A text is split in one way into parts of given lengths. -/
theorem append_inj_of_byteLength {a b a' b' : List Char} (h : a ++ b = a' ++ b')
    (hlength : byteLength a = byteLength a') : a = a' ∧ b = b' := by
  obtain ⟨t, rfl, rfl⟩ := exists_append_of_byteLength_le h (Nat.le_of_eq hlength)
  have ht : t = [] := by
    refine byteLength_eq_zero ?_
    rw [byteLength_append] at hlength
    omega
  simp [ht]

theorem exists_eq_concat_of_solidBefore {a b : List Char}
    (h : SolidBefore (a ++ b) (byteLength a)) :
    ∃ front c, a = front ++ [c] ∧ isSpace c = false := by
  obtain ⟨x, c, y, htext, hlength, hc⟩ := h
  have hparts : a ++ b = (x ++ [c]) ++ y := by simpa using htext
  refine ⟨x, c, (append_inj_of_byteLength hparts ?_).1, hc⟩
  rw [byteLength_append, byteLength, byteLength]
  omega

theorem exists_eq_cons_of_solidAt {a b : List Char} (h : SolidAt (a ++ b) (byteLength a)) :
    ∃ c back, b = c :: back ∧ isSpace c = false := by
  obtain ⟨x, c, y, htext, hlength, hc⟩ := h
  exact ⟨c, y, (append_inj_of_byteLength htext hlength.symm).2, hc⟩

theorem shareGap_iff_of_parts {a b m c : List Char} {s t : Span} (hstart : byteLength a = s.start)
    (hstop : byteLength a + byteLength b = s.stop) (hm : s.stop + byteLength m = t.start) :
    ShareGap (a ++ (b ++ (m ++ c))) s t ↔
      isBlank (lastLine a) ∧ m ≠ [] ∧ ∀ d ∈ m, isGap d := by
  constructor
  · rintro ⟨a', b', m', c', htext, hstart', hstop', hm', hshare⟩
    obtain ⟨rfl, hrest⟩ := append_inj_of_byteLength htext (by omega)
    obtain ⟨rfl, hrest'⟩ := append_inj_of_byteLength hrest (by omega)
    obtain ⟨rfl, -⟩ := append_inj_of_byteLength hrest' (by omega)
    exact hshare
  · intro hshare
    exact ⟨a, b, m, c, rfl, hstart, hstop, hm, hshare⟩

/-- **What goes with two pieces meets exactly if they share a gap.** -/
theorem lineSpan_stop_le_iff {text : List Char} {s t : Span} (hs : s.IsPieceOf text)
    (ht : t.IsPieceOf text) (hend : SolidBefore text s.stop) (hstart : SolidAt text t.start)
    (hle : s.stop ≤ t.start) :
    (lineSpan text s).stop ≤ (lineSpan text t).start ↔ ¬ ShareGap text s t := by
  obtain ⟨a, b, c, rfl, hsa, hsb⟩ := exists_parts_of_isPieceOf hs
  obtain ⟨a', b', c', htext, hta, htb⟩ := exists_parts_of_isPieceOf ht
  -- The text is `a b m b' c'` with the first piece at `b` and the second one at `b'`.
  rw [← List.append_assoc] at htext
  obtain ⟨m, rfl, rfl⟩ := exists_append_of_byteLength_le htext (by rw [byteLength_append]; omega)
  have hm : s.stop + byteLength m = t.start := by
    simp only [byteLength_append] at hta
    omega
  rw [shareGap_iff_of_parts hsa hsb hm]
  have htext' : a ++ (b ++ (m ++ (b' ++ c'))) = (a ++ b ++ m) ++ (b' ++ c') := by simp
  by_cases hbreak : '\n' ∈ m
  · -- A line ends between the two, and what goes with them stays on the lines of their ends.
    obtain ⟨x, y, rfl⟩ := List.append_of_mem hbreak
    refine iff_of_true ?_ fun h => absurd (h.2.2 '\n' hbreak) (by decide)
    have hstop := lineSpan_stop_le hsa hsb (c := (x ++ '\n' :: y) ++ (b' ++ c'))
    have hstart' := le_lineSpan_start hta htb (c := c')
    rw [← htext'] at hstart'
    rw [List.append_assoc x, List.cons_append, firstLine_append_newline] at hstop
    rw [← List.append_assoc (a ++ b), lastLine_append_newline] at hstart'
    have hfirst := byteLength_firstLine_le x
    have hlast := byteLength_lastLine_le y
    simp only [byteLength_append, byteLength, List.append_assoc, List.cons_append] at *
    have hnewline : '\n'.utf8Size = 1 := by decide
    omega
  · -- Both stand on one line, so neither of them has the line to itself.
    obtain ⟨p, q, hp, hq⟩ : ∃ p q, a ++ b = p ++ [q] ∧ isSpace q = false := by
      refine exists_eq_concat_of_solidBefore (b := m ++ (b' ++ c')) ?_
      rwa [byteLength_append, hsb, List.append_assoc]
    obtain ⟨q', d, hd, hq'⟩ : ∃ q' d, b' ++ c' = q' :: d ∧ isSpace q' = false := by
      refine exists_eq_cons_of_solidAt (a := a ++ b ++ m) ?_
      rwa [hta, ← htext']
    have hgapq : ¬ isGap q := fun h => by simp [isSpace_of_isGap h] at hq
    have hgapq' : ¬ isGap q' := fun h => by simp [isSpace_of_isGap h] at hq'
    have hbefore : isBlank (lastLine (a ++ b ++ m)) = false := by
      have hline : '\n' ∉ q :: m := by simp [hbreak, (isSpace_ne_newline hq).symm]
      rw [hp, List.append_assoc, List.singleton_append, lastLine_append_of_notMem hline]
      exact isBlank_eq_false (by simp) hq
    have hafter : isBlank (firstLine (m ++ (b' ++ c'))) = false := by
      have hline : '\n' ∉ m ++ [q'] := by simp [hbreak, (isSpace_ne_newline hq').symm]
      rw [hd, ← List.singleton_append, ← List.append_assoc, firstLine_append_of_notMem hline]
      exact isBlank_eq_false (by simp) hq'
    have hstop : (lineSpan (a ++ (b ++ (m ++ (b' ++ c')))) s).stop =
        s.stop + if isBlank (lastLine a) then (m.takeWhile isGap).length else 0 := by
      rw [lineSpan_of_parts hsa hsb, hafter, hd, takeWhile_append_cons_of_neg hgapq']
      split <;> rfl
    have hstart' : (lineSpan (a ++ (b ++ (m ++ (b' ++ c')))) t).start =
        t.start - (m.reverse.takeWhile isGap).length := by
      rw [htext', lineSpan_of_parts hta htb, hbefore, hp, List.append_assoc p,
        List.singleton_append, List.reverse_append, List.reverse_cons, List.append_assoc,
        List.singleton_append, takeWhile_append_cons_of_neg hgapq]
      rfl
    have hgap := Nat.le_trans (length_gap_reverse_le m) (byteLength_lastLine_le m)
    have hgaps := gaps_le_iff m
    rw [hstop, hstart']
    by_cases hblank : isBlank (lastLine a)
    · simp only [hblank, if_true, true_and, ← hgaps]
      omega
    · simp only [hblank, Bool.false_eq_true, if_false, false_and, not_false_iff, iff_true]
      omega

end JavaThrows.Text
