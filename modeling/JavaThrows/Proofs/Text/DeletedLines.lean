import JavaThrows.Proofs.Text.Cut
import JavaThrows.Text.Lines
import Mathlib.Data.List.TakeWhile

set_option autoImplicit false

/-!
# What goes with a deleted piece of a line

A piece that is deleted takes only white space of its own lines along. Alone on them it takes all of
that and the line break at their end; else it takes the gap on one side, before it where something
else stands there. Blank lines that are skipped afterwards are whole lines of white space, each with
its line break. Main statement: `deletion_takes_blanks`.
-/

namespace JavaThrows.Text

open JavaThrows.Unicode

/-! ## White space in a line -/

/-- White space inside a line. -/
def Blanks (cs : List Char) : Prop :=
  ∀ c ∈ cs, isSpace c ∧ c ≠ '\n'

theorem Blanks.nil : Blanks [] :=
  List.forall_mem_nil _

theorem Blanks.newline_notMem {cs : List Char} (h : Blanks cs) : '\n' ∉ cs :=
  fun hmem => (h _ hmem).2 rfl

theorem blanks_of_isBlank {cs : List Char} (h : isBlank cs) (hline : '\n' ∉ cs) : Blanks cs := by
  rw [isBlank, List.all_eq_true] at h
  exact fun c hc => ⟨h c hc, fun heq => hline (heq ▸ hc)⟩

theorem byteLength_of_all_gap {cs : List Char} (h : ∀ c ∈ cs, isGap c) :
    byteLength cs = cs.length := by
  induction cs with
  | nil => rfl
  | cons c cs ih =>
    rw [List.forall_mem_cons] at h
    have hsize : c.utf8Size = 1 := by
      have hgap := h.1
      simp only [isGap, Bool.or_eq_true, beq_iff_eq] at hgap
      rcases hgap with rfl | rfl <;> rfl
    rw [byteLength, List.length_cons, ih h.2, hsize, Nat.add_comm]

theorem isSpace_of_isGap {c : Char} (h : isGap c) : isSpace c := by
  simp only [isGap, Bool.or_eq_true, beq_iff_eq] at h
  rcases h with rfl | rfl <;> rfl

theorem isGap_ne_newline {c : Char} (h : isGap c) : c ≠ '\n' := by
  rintro rfl
  exact absurd h (by decide)

theorem blanks_of_isGap {cs : List Char} (h : ∀ c ∈ cs, isGap c) : Blanks cs :=
  fun c hc => ⟨isSpace_of_isGap (h c hc), isGap_ne_newline (h c hc)⟩

/-! ## The first and the last line of a text -/

/-- The characters of the line that a text starts with. -/
def firstLine (cs : List Char) : List Char :=
  cs.takeWhile (· != '\n')

theorem firstLine_append_of_notMem {m : List Char} (h : '\n' ∉ m) (d : List Char) :
    firstLine (m ++ d) = m ++ firstLine d := by
  refine List.takeWhile_append_of_pos fun c hc => ?_
  have hne : c ≠ '\n' := fun heq => h (heq ▸ hc)
  simpa using hne

theorem newline_notMem_firstLine (cs : List Char) : '\n' ∉ firstLine cs := by
  intro h
  simpa using List.mem_takeWhile_imp h

theorem newline_notMem_lastLine (cs : List Char) : '\n' ∉ lastLine cs := by
  intro h
  exact newline_notMem_firstLine cs.reverse (List.mem_reverse.1 h)

/-- The first line of a text, with the line break that ends it if one does. -/
theorem exists_append_firstLine (cs : List Char) :
    ∃ lineBreak rest, cs = firstLine cs ++ (lineBreak ++ rest) ∧
      (lineBreak = ['\n'] ∨ lineBreak = [] ∧ rest = []) ∧
      byteLength lineBreak = if (firstLine cs).length < cs.length then 1 else 0 := by
  by_cases hmem : '\n' ∈ cs
  · obtain ⟨line, rest, rfl, hline⟩ := List.eq_append_cons_of_mem hmem
    have hfirst : firstLine (line ++ '\n' :: rest) = line := by
      rw [firstLine_append_of_notMem hline]
      simp [firstLine]
    rw [hfirst]
    exact ⟨['\n'], rest, rfl, .inl rfl, by rw [if_pos (by simp)]; rfl⟩
  · have hfirst : firstLine cs = cs := by
      simpa [firstLine] using firstLine_append_of_notMem hmem []
    rw [hfirst]
    exact ⟨[], [], by simp, .inr ⟨rfl, rfl⟩, by simp [byteLength]⟩

theorem takeWhile_dropWhile (p : Char → Bool) (cs : List Char) :
    (cs.dropWhile p).takeWhile p = [] := by
  induction cs with
  | nil => rfl
  | cons c cs ih =>
    by_cases hc : p c
    · rwa [List.dropWhile_cons_of_pos hc]
    · rw [List.dropWhile_cons_of_neg hc, List.takeWhile_cons_of_neg hc]

/-- What stands before the last line of a text ends with a line. -/
theorem exists_append_lastLine (cs : List Char) :
    ∃ front, cs = front ++ lastLine cs ∧ lastLine front = [] := by
  refine ⟨(cs.reverse.dropWhile (· != '\n')).reverse, ?_, ?_⟩
  · rw [lastLine, ← List.reverse_append, List.takeWhile_append_dropWhile, List.reverse_reverse]
  · rw [lastLine, List.reverse_reverse, takeWhile_dropWhile, List.reverse_nil]

/-- The gap at the start of a text ends before its first line does. -/
theorem takeWhile_gap_firstLine (cs : List Char) :
    (firstLine cs).takeWhile isGap = cs.takeWhile isGap := by
  induction cs with
  | nil => rfl
  | cons c cs ih =>
    unfold firstLine at *
    by_cases hgap : isGap c
    · have hline : (c != '\n') = true := by simpa using isGap_ne_newline hgap
      simp only [List.takeWhile_cons, hline, hgap, if_true, ih]
    · rw [List.takeWhile_cons_of_neg hgap, List.takeWhile_cons]
      split
      · rw [List.takeWhile_cons_of_neg hgap]
      · rfl

theorem takeWhile_gap_lastLine (cs : List Char) :
    (lastLine cs).reverse.takeWhile isGap = cs.reverse.takeWhile isGap := by
  rw [lastLine, List.reverse_reverse]
  exact takeWhile_gap_firstLine cs.reverse

/-! ## A piece and its surroundings -/

/-- A text around a piece of it that is to be deleted. What goes with the piece is what stands right
    before and right after it, and a line break. -/
structure Surroundings where
  front : List Char
  before : List Char
  piece : List Char
  after : List Char
  lineBreak : List Char
  rest : List Char

namespace Surroundings

def text (p : Surroundings) : List Char :=
  p.front ++ (p.before ++ (p.piece ++ (p.after ++ (p.lineBreak ++ p.rest))))

/-- Where the piece stands. -/
def span (p : Surroundings) : Span :=
  ⟨byteLength (p.front ++ p.before), byteLength (p.front ++ p.before ++ p.piece)⟩

/-- The piece with all that goes with it. -/
def deletion (p : Surroundings) : Span :=
  ⟨byteLength p.front,
    byteLength (p.front ++ p.before ++ p.piece ++ p.after ++ p.lineBreak)⟩

/-- Nothing but white space of its lines goes with the piece, and the line break at their end only
    where nothing else stands on them. -/
structure TakesBlanks (p : Surroundings) : Prop where
  before : Blanks p.before
  after : Blanks p.after
  lineBreak : p.lineBreak = [] ∨ p.lineBreak = ['\n'] ∧ lastLine p.front = []

/-- How much goes with the piece. -/
inductive TakesItsShare (p : Surroundings) : Prop
  /-- Alone on its lines, the piece takes them whole. -/
  | lines (hstart : lastLine p.front = [])
    (hstop : p.lineBreak = ['\n'] ∨ p.lineBreak = [] ∧ p.rest = [])
  /-- First on its line, it takes the gap between it and what comes next. -/
  | gapAfter (hbefore : p.before = []) (hbreak : p.lineBreak = [])
    (hfirst : isBlank (lastLine p.front)) (hshared : ¬ isBlank (firstLine (p.after ++ p.rest)))
    (hgap : p.after = (p.after ++ p.rest).takeWhile isGap)
  /-- Behind something else, it takes the gap in between. -/
  | gapBefore (hafter : p.after = []) (hbreak : p.lineBreak = [])
    (hshared : ¬ isBlank (lastLine (p.front ++ p.before)))
    (hgap : p.before.reverse = (p.front ++ p.before).reverse.takeWhile isGap)

variable (p : Surroundings)

theorem deletion_isPieceOf : p.deletion.IsPieceOf p.text := by
  refine ⟨?_, isBoundary_iff.2 ⟨p.front, _, rfl, rfl⟩, isBoundary_iff.2
    ⟨p.front ++ p.before ++ p.piece ++ p.after ++ p.lineBreak, p.rest, by simp [text], rfl⟩⟩
  simp only [deletion, byteLength_append]
  omega

theorem span_inside_deletion : p.span.Inside p.deletion := by
  refine ⟨?_, ?_⟩ <;> simp only [span, deletion, byteLength_append] <;> omega

end Surroundings

/-! ## What goes with a piece -/

/-- What goes with a piece `b` of a text: its line, the gap after it or the gap before it. -/
theorem lineSpan_of_parts {a b c : List Char} {s : Span} (hstart : byteLength a = s.start)
    (hstop : byteLength a + byteLength b = s.stop) :
    lineSpan (a ++ (b ++ c)) s =
      if isBlank (lastLine a) then
        if isBlank (firstLine c) then
          ⟨s.start - byteLength (lastLine a), s.stop + byteLength (firstLine c) +
            if (firstLine c).length < c.length then 1 else 0⟩
        else ⟨s.start, s.stop + (c.takeWhile isGap).length⟩
      else ⟨s.start - (a.reverse.takeWhile isGap).length, s.stop⟩ := by
  have hlength : s.stop - s.start = byteLength b := by omega
  rw [lineSpan, ← hstart, splitAt?_append, hstart]
  have hfirst : c.takeWhile (· != '\n') = firstLine c := rfl
  simp only [hlength, splitAt?_append, takeWhile_gap_lastLine, hfirst, takeWhile_gap_firstLine]
  cases isBlank (lastLine a)
  · rfl
  · cases isBlank (firstLine c)
    · rfl
    · simp only [Bool.and_true, if_true]
      split <;> rfl

/-- **What goes with a piece of a text** is white space of its lines: all of it with the line break
    where the piece stands alone on them, else the gap on one side. -/
theorem lineSpan_surroundings {text : List Char} {s : Span} (h : s.IsPieceOf text) :
    ∃ p : Surroundings, p.text = text ∧ p.span = s ∧ p.deletion = lineSpan text s ∧
      p.TakesBlanks ∧ p.TakesItsShare := by
  obtain ⟨a, b, c, rfl, hstart, hstop⟩ := exists_parts_of_isPieceOf h
  rw [lineSpan_of_parts hstart hstop]
  obtain ⟨start, stop⟩ := s
  obtain rfl : byteLength a = start := hstart
  obtain rfl : byteLength a + byteLength b = stop := hstop
  split
  · next hbefore =>
    split
    · next hafter =>
      obtain ⟨front, ha, hfront⟩ := exists_append_lastLine a
      obtain ⟨lineBreak, rest, hc, hbreak, hlength⟩ := exists_append_firstLine c
      have hlengths := congrArg byteLength ha
      rw [byteLength_append] at hlengths
      refine ⟨⟨front, lastLine a, b, firstLine c, lineBreak, rest⟩, ?_, ?_, ?_, ⟨?_, ?_, ?_⟩,
        .lines hfront hbreak⟩
      · simp only [Surroundings.text, ← hc, ← List.append_assoc, ← ha]
      · simp only [Surroundings.span, ← ha, byteLength_append]
      · simp only [Surroundings.deletion, ← ha, byteLength_append, hlength,
          Span.mk.injEq, and_true]
        omega
      · exact blanks_of_isBlank hbefore (newline_notMem_lastLine a)
      · exact blanks_of_isBlank hafter (newline_notMem_firstLine c)
      · exact hbreak.symm.imp And.left fun hline => ⟨hline, hfront⟩
    · next hafter =>
      have hgap : ∀ d ∈ c.takeWhile isGap, isGap d := fun d hd => List.mem_takeWhile_imp hd
      have hc : c.takeWhile isGap ++ c.dropWhile isGap = c := List.takeWhile_append_dropWhile
      refine ⟨⟨a, [], b, c.takeWhile isGap, [], c.dropWhile isGap⟩, ?_, ?_, ?_,
        ⟨.nil, blanks_of_isGap hgap, .inl rfl⟩, .gapAfter rfl rfl hbefore ?_ ?_⟩
      · simp only [Surroundings.text, List.nil_append, hc]
      · simp only [Surroundings.span, List.append_nil, byteLength_append]
      · simp only [Surroundings.deletion, List.append_nil, byteLength_append,
          byteLength_of_all_gap hgap]
      · simpa only [hc] using hafter
      · simp only [hc]
  · next hbefore =>
    have hgap : ∀ d ∈ (a.reverse.takeWhile isGap).reverse, isGap d :=
      fun d hd => List.mem_takeWhile_imp (List.mem_reverse.1 hd)
    have ha : (a.reverse.dropWhile isGap).reverse ++ (a.reverse.takeWhile isGap).reverse = a := by
      rw [← List.reverse_append, List.takeWhile_append_dropWhile, List.reverse_reverse]
    have hlengths := congrArg byteLength ha
    rw [byteLength_append, byteLength_of_all_gap hgap, List.length_reverse] at hlengths
    refine ⟨⟨(a.reverse.dropWhile isGap).reverse, (a.reverse.takeWhile isGap).reverse, b, [], [], c⟩,
      ?_, ?_, ?_, ⟨blanks_of_isGap hgap, .nil, .inl rfl⟩, .gapBefore rfl rfl ?_ ?_⟩
    · simp only [Surroundings.text, List.nil_append, ← List.append_assoc, ha]
    · simp only [Surroundings.span, ha, byteLength_append]
    · simp only [Surroundings.deletion, ha, byteLength_append, List.append_nil,
        Span.mk.injEq, and_true]
      omega
    · simpa only [ha] using hbefore
    · simp only [ha, List.reverse_reverse]

/-! ## Blank lines -/

/-- Lines with their line breaks. -/
def terminated (rows : List (List Char)) : List Char :=
  rows.flatMap (· ++ ['\n'])

@[simp] theorem terminated_nil : terminated [] = [] := rfl

@[simp] theorem terminated_cons (row : List Char) (rows : List (List Char)) :
    terminated (row :: rows) = row ++ '\n' :: terminated rows := by
  simp [terminated]

theorem isSpace_of_mem_terminated {rows : List (List Char)} (h : ∀ row ∈ rows, Blanks row) :
    ∀ c ∈ terminated rows, isSpace c := by
  intro c hc
  obtain ⟨row, hrow, hc⟩ := List.mem_flatMap.1 hc
  rcases List.mem_append.1 hc with hc | hc
  · exact (h row hrow c hc).1
  · rw [List.mem_singleton.1 hc]
    rfl

/-- From one place of a text to another one there are whole blank lines, and behind them is a line
    that is not blank or has no line break. -/
def SkipsBlankLines (text : List Char) (start stop : Nat) : Prop :=
  ∃ front rows rest, text = front ++ (terminated rows ++ rest) ∧ byteLength front = start ∧
    byteLength (front ++ terminated rows) = stop ∧ (∀ row ∈ rows, Blanks row) ∧
    ('\n' ∉ rest ∨ ¬ isBlank (firstLine rest))

/-- Blank lines are passed over whole, where the first of them has begun with white space before the
    text that is left. -/
theorem skipBlankFrom_rows (lineStart : Nat) {begun : List Char} (hbegun : Blanks begun)
    (text : List Char) :
    ∃ rows rest, begun ++ text = terminated rows ++ rest ∧ (∀ row ∈ rows, Blanks row) ∧
      ('\n' ∉ rest ∨ ¬ isBlank (firstLine rest)) ∧
      skipBlankFrom lineStart (lineStart + byteLength begun) text =
        lineStart + byteLength (terminated rows) := by
  induction text generalizing lineStart begun with
  | nil =>
    exact ⟨[], begun, by simp, by simp, .inl hbegun.newline_notMem, rfl⟩
  | cons c text ih =>
    rw [skipBlankFrom]
    by_cases hbreak : c = '\n'
    · -- The line that has begun is a blank one, and the next one starts.
      subst hbreak
      obtain ⟨rows, rest, rfl, hrows, hrest, heq⟩ := ih (lineStart + byteLength begun + 1) .nil
      refine ⟨begun :: rows, rest, by simp, List.forall_mem_cons.2 ⟨hbegun, hrows⟩,
        hrest, ?_⟩
      have hnext : skipBlankFrom (lineStart + byteLength begun + ('\n').utf8Size)
          (lineStart + byteLength begun + ('\n').utf8Size) (terminated rows ++ rest) =
          lineStart + byteLength begun + ('\n').utf8Size + byteLength (terminated rows) := heq
      rw [if_pos rfl, hnext, terminated_cons, byteLength_append, byteLength]
      omega
    · rw [if_neg hbreak]
      by_cases hspace : isSpace c
      · have hlonger : Blanks (begun ++ [c]) :=
          List.forall_mem_append.2 ⟨hbegun, List.forall_mem_singleton.2 ⟨hspace, hbreak⟩⟩
        obtain ⟨rows, rest, hrest, hrows, hstop, heq⟩ := ih lineStart hlonger
        refine ⟨rows, rest, by simpa using hrest, hrows, hstop, ?_⟩
        rw [if_pos hspace, ← heq, byteLength_append, ← Nat.add_assoc]
        rfl
      · refine ⟨[], begun ++ c :: text, by simp, by simp, .inr ?_, ?_⟩
        · rw [firstLine_append_of_notMem hbegun.newline_notMem, firstLine,
            List.takeWhile_cons_of_pos (by simpa using hbreak)]
          simp [isBlank, hspace]
        · rw [if_neg hspace]
          rfl

theorem skipBlankLines?_rows {text : List Char} {offset : Nat} (h : isBoundary text offset) :
    ∃ stop, skipBlankLines? text offset = some stop ∧ SkipsBlankLines text offset stop := by
  obtain ⟨front, rest, rfl, rfl⟩ := isBoundary_iff.1 h
  unfold skipBlankLines?
  split
  · next hend =>
    -- Nothing is left to look at.
    rw [byteLength_append] at hend
    obtain rfl : rest = [] := byteLength_eq_zero (by omega)
    exact ⟨_, rfl, front, [], [], by simp, rfl, by simp, by simp, by simp⟩
  · obtain ⟨rows, rest, rfl, hrows, hstop, heq⟩ := skipBlankFrom_rows (byteLength front) .nil rest
    rw [splitAt?_append, Option.map_some]
    refine ⟨_, rfl, front, rows, rest, rfl, rfl, ?_, hrows, hstop⟩
    rw [byteLength_append]
    exact heq.symm

/-! ## Deletions -/

/-- **A deletion takes blanks only.** What goes with a piece of a text is a piece of the text around
    it. Beside the piece it holds white space of the lines that the piece stands on, at most with the
    line break at their end, and that only where nothing else stands on them. The blank lines that
    are skipped from a place on are whole lines, up to one that is not blank or not terminated. -/
theorem deletion_takes_blanks {text : List Char} {s : Span} (h : s.IsPieceOf text) {offset : Nat}
    (hoffset : isBoundary text offset) :
    ((lineSpan text s).IsPieceOf text ∧ s.Inside (lineSpan text s) ∧
      ∃ p : Surroundings, p.text = text ∧ p.span = s ∧ p.deletion = lineSpan text s ∧
        p.TakesBlanks ∧ p.TakesItsShare) ∧
    ∃ stop, skipBlankLines? text offset = some stop ∧ SkipsBlankLines text offset stop := by
  obtain ⟨p, htext, hspan, hdeletion, htakes⟩ := lineSpan_surroundings h
  refine ⟨⟨?_, ?_, p, htext, hspan, hdeletion, htakes⟩, skipBlankLines?_rows hoffset⟩
  · rw [← hdeletion, ← htext]
    exact p.deletion_isPieceOf
  · rw [← hdeletion, ← hspan]
    exact p.span_inside_deletion

/-- An import behind a form feed, in front of a wide space and a line break of two characters; then
    a blank line, and a class. -/
theorem deletion_takes_blanks_wide_space :
    let text := "a;\n\x0cimport b.C;\u2003\r\n \nclass D".toList
    let s : Span := ⟨4, 15⟩
    s.IsPieceOf text ∧ isBoundary text 20 ∧ lineSpan text s = ⟨3, 20⟩ ∧
      skipBlankLines? text 20 = some 22 ∧
      (∃ p : Surroundings, p.text = text ∧ p.span = s ∧ p.deletion = lineSpan text s ∧
        p.TakesBlanks ∧ p.TakesItsShare) ∧
      ∃ stop, skipBlankLines? text 20 = some stop ∧ SkipsBlankLines text 20 stop := by
  intro text s
  have hpiece : s.IsPieceOf text := ⟨by decide, by decide +kernel, by decide +kernel⟩
  have hoffset : isBoundary text 20 := by decide +kernel
  obtain ⟨⟨-, -, hline⟩, hskip⟩ := deletion_takes_blanks hpiece hoffset
  exact ⟨hpiece, hoffset, by decide +kernel, by decide +kernel, hline, hskip⟩

end JavaThrows.Text
