import Mathlib.Data.List.TakeWhile
import JavaThrows.Cst.Token
import JavaThrows.Proofs.Unicode.Space

set_option autoImplicit false

/-!
# Where tokens start and end

White space stands between tokens and inside literals and comments, and never at the start of a
token or a comment or at the end of a token. Main statement: `hasEnds_of_piece`.
-/

namespace JavaThrows.Cst

open JavaThrows.Unicode

theorem isSpace_of_isWordStart {c : Char} (h : isWordStart c) : isSpace c = false :=
  isSpace_eq_false (by decide +kernel) h

theorem isSpace_of_isWordPart {c : Char} (h : isWordPart c) : isSpace c = false :=
  isSpace_eq_false (by decide +kernel) h

/-! ## Runs without white space -/

/-- The first `n` characters are no white space. -/
def Firm (n : Nat) (cs : List Char) : Prop :=
  ∀ c ∈ cs.take n, isSpace c = false

theorem firm_zero (cs : List Char) : Firm 0 cs := by
  simp [Firm]

theorem Firm.add {m n : Nat} {cs : List Char} (hm : Firm m cs) (hn : Firm n (cs.drop m)) :
    Firm (m + n) cs := by
  unfold Firm
  rw [List.take_add]
  exact List.forall_mem_append.2 ⟨hm, hn⟩

theorem Firm.cons {n : Nat} {c : Char} {cs : List Char} (hc : isSpace c = false)
    (h : Firm n cs) : Firm (n + 1) (c :: cs) := by
  unfold Firm
  rw [List.take_succ_cons]
  exact List.forall_mem_cons.2 ⟨hc, h⟩

theorem Firm.congr {m n : Nat} {cs : List Char} (h : Firm m cs) (heq : n = m) : Firm n cs :=
  heq ▸ h

theorem Firm.max {m n : Nat} {cs : List Char} (hm : Firm m cs) (hn : Firm n cs) :
    Firm (max m n) cs := by
  rcases Nat.le_total m n with h | h
  · rwa [Nat.max_eq_right h]
  · rwa [Nat.max_eq_left h]

theorem firm_leading {choices : List Char} (h : choices.all fun c => !isSpace c) (cs : List Char) :
    Firm (leading choices cs) cs := by
  cases cs with
  | nil => exact firm_zero _
  | cons c cs =>
    rw [leading]
    split
    · next hc =>
      rw [List.all_eq_true] at h
      have hspace := h c (by simpa using hc)
      exact (firm_zero cs).cons (by simpa using hspace)
    · exact firm_zero _

/-! ### Numbers -/

section Digits

variable {isDigit : Char → Bool} (hdigit : ∀ c, isDigit c → isSpace c = false)

include hdigit

theorem firm_digitsLength (cs : List Char) : Firm (digitsLength isDigit cs) cs := by
  fun_induction digitsLength isDigit cs with
  | case1 => exact firm_zero _
  | case2 c cs hc ih =>
    rw [Nat.add_comm]
    exact ih.cons (hdigit c hc)
  | case3 => exact firm_zero _
  | case4 c cs hc hlow hn ih =>
    rw [Nat.add_comm]
    obtain rfl : c = '_' := by simpa using hlow
    exact ih.cons (by decide)
  | case5 => exact firm_zero _

theorem firm_runLength (cs : List Char) : Firm (runLength isDigit cs) cs := by
  unfold runLength
  split
  · split
    · exact firm_digitsLength hdigit _
    · exact firm_zero _
  · exact firm_zero _

end Digits

theorem isSpace_of_isAsciiDigit (c : Char) (h : isAsciiDigit c) : isSpace c = false :=
  isSpace_eq_false (by decide) h

theorem isSpace_of_isHexDigit (c : Char) (h : isHexDigit c) : isSpace c = false :=
  isSpace_eq_false (by decide) h

theorem isSpace_of_isOctalDigit (c : Char) (h : isOctalDigit c) : isSpace c = false :=
  isSpace_eq_false (by decide) h

theorem isSpace_of_isBinaryDigit (c : Char) (h : c == '0' || c == '1') : isSpace c = false :=
  @isSpace_eq_false (fun c => c == '0' || c == '1') (by decide) c h

theorem firm_exponentLength {marks : List Char} (h : marks.all fun c => !isSpace c)
    (cs : List Char) : Firm (exponentLength marks cs) cs := by
  unfold exponentLength
  split
  · next c cs =>
    split
    · next hc =>
      rw [List.all_eq_true] at h
      have hspace : isSpace c = false := by simpa using h c (by simpa using hc)
      have hsign := @firm_leading ['+', '-'] (by decide) cs
      dsimp only
      split
      · exact firm_zero _
      · next n hn =>
        have hdigits := firm_runLength isSpace_of_isAsciiDigit (cs.drop (leading ['+', '-'] cs))
        rw [Nat.add_assoc, Nat.add_comm]
        exact (hsign.add hdigits).cons hspace
    · exact firm_zero _
  · exact firm_zero _

theorem firm_decimalLength (cs : List Char) : Firm (decimalLength cs) cs := by
  unfold decimalLength
  split
  · exact (firm_zero _).cons (by decide)
  · exact firm_runLength isSpace_of_isAsciiDigit cs

theorem firm_withSuffix {suffixes : List Char} (h : suffixes.all fun c => !isSpace c) {n : Nat}
    {cs : List Char} (hn : Firm n cs) : Firm (withSuffix suffixes cs n) cs := by
  unfold withSuffix
  split
  · exact firm_zero _
  · exact hn.add (firm_leading h _)

theorem firm_markedLength {marks : List Char} (h : marks.all fun c => !isSpace c)
    {isDigit : Char → Bool} (hdigit : ∀ c, isDigit c → isSpace c = false) (cs : List Char) :
    Firm (markedLength marks isDigit cs) cs := by
  unfold markedLength
  split
  · next c cs =>
    split
    · next hc =>
      rw [List.all_eq_true] at h
      have hspace : isSpace c = false := by simpa using h c (by simpa using hc)
      split
      · exact firm_zero _
      · next n hn =>
        refine firm_withSuffix (by decide) ?_
        rw [Nat.add_comm]
        exact ((firm_runLength hdigit cs).cons hspace).cons (by decide)
    · exact firm_zero _
  · exact firm_zero _

theorem firm_octalLength (cs : List Char) : Firm (octalLength cs) cs := by
  unfold octalLength
  split
  · next cs =>
    split
    · exact firm_zero _
    · next n hn =>
      refine firm_withSuffix (by decide) ?_
      rw [Nat.add_comm]
      exact (firm_runLength isSpace_of_isOctalDigit cs).cons (by decide)
  · exact firm_zero _

theorem firm_floatLength (cs : List Char) : Firm (floatLength cs) cs := by
  have hwhole := firm_runLength isSpace_of_isAsciiDigit cs
  unfold floatLength
  dsimp only
  split
  · next rest hrest =>
    split
    · exact firm_zero _
    · have hfraction := firm_runLength isSpace_of_isAsciiDigit rest
      have hexponent := @firm_exponentLength ['e', 'E'] (by decide)
        (rest.drop (runLength isAsciiDigit rest))
      have hpoint : Firm _ ('.' :: rest) := (hfraction.add hexponent).cons (by decide)
      rw [← hrest] at hpoint
      exact ((hwhole.add hpoint).congr (by omega)).add (firm_leading (by decide) _)
  · split
    · exact firm_zero _
    · split
      · exact firm_zero _
      · refine ((firm_decimalLength cs).add ?_).add (firm_leading (by decide) _)
        exact firm_exponentLength (by decide) _

theorem firm_hexFloatLength (cs : List Char) : Firm (hexFloatLength cs) cs := by
  unfold hexFloatLength
  split
  · next x cs =>
    split
    · next hx =>
      have hspace : isSpace x = false :=
        @isSpace_eq_false (fun c => c == 'x' || c == 'X') (by decide) x hx
      have hwhole := firm_runLength isSpace_of_isHexDigit cs
      have hpoint := @firm_leading ['.'] (by decide) (cs.drop (runLength isHexDigit cs))
      dsimp only
      generalize runLength isHexDigit cs = whole at *
      generalize leading ['.'] (cs.drop whole) = point at *
      have hfraction :
          Firm (if point == 1 then runLength isHexDigit (cs.drop (whole + 1)) else 0)
            (cs.drop (whole + point)) := by
        split
        · next hone =>
          obtain rfl : point = 1 := by simpa using hone
          exact firm_runLength isSpace_of_isHexDigit _
        · exact firm_zero _
      generalize (if point == 1 then runLength isHexDigit (cs.drop (whole + 1)) else 0) =
        fraction at *
      have hexponent := @firm_exponentLength ['p', 'P'] (by decide)
        (cs.drop (whole + point + fraction))
      have hnumber := (((hwhole.add hpoint).add hfraction).add hexponent).cons hspace
      have hmarked : Firm _ ('0' :: x :: cs) := hnumber.cons (by decide)
      split
      · exact firm_zero _
      · refine (hmarked.congr (by omega)).add ?_
        split
        · exact firm_zero _
        · rw [Nat.add_comm 2]
          exact firm_leading (by decide) _
    · exact firm_zero _
  · exact firm_zero _

theorem firm_numberLength (cs : List Char) : Firm (numberLength cs) cs := by
  have hlengths : ∀ n ∈ [withSuffix ['l', 'L'] cs (decimalLength cs),
      markedLength ['x', 'X'] isHexDigit cs,
      markedLength ['b', 'B'] (fun c => c == '0' || c == '1') cs,
      markedLength ['o', 'O'] isOctalDigit cs, octalLength cs, floatLength cs,
      hexFloatLength cs], Firm n cs := by
    simp only [List.forall_mem_cons]
    exact ⟨firm_withSuffix (by decide) (firm_decimalLength cs),
      firm_markedLength (by decide) isSpace_of_isHexDigit cs,
      firm_markedLength (by decide) isSpace_of_isBinaryDigit cs,
      firm_markedLength (by decide) isSpace_of_isOctalDigit cs,
      firm_octalLength cs, firm_floatLength cs, firm_hexFloatLength cs, List.forall_mem_nil _⟩
  have hfold : ∀ (ns : List Nat) (m : Nat), Firm m cs → (∀ n ∈ ns, Firm n cs) →
      Firm (ns.foldl max m) cs := by
    intro ns
    induction ns with
    | nil => exact fun m hm _ => hm
    | cons n ns ih =>
      intro m hm hns
      rw [List.forall_mem_cons] at hns
      exact ih _ (hm.max hns.1) hns.2
  exact hfold _ 0 (firm_zero cs) hlengths

/-! ### Symbols -/

theorem firm_of_isPrefixOf {word cs : List Char} (hword : word.all fun c => !isSpace c)
    (h : word.isPrefixOf cs) : Firm word.length cs := by
  obtain ⟨rest, rfl⟩ := List.isPrefixOf_iff_prefix.1 h
  rw [Firm, List.take_left]
  simpa using hword

theorem firm_symbolLength (cs : List Char) : Firm (symbolLength cs) cs := by
  unfold symbolLength
  dsimp only
  split
  · next h =>
    simp only [Bool.and_eq_true] at h
    exact firm_of_isPrefixOf (by decide) h.1
  · split
    · next s hs =>
      have hall : longSymbols.all fun s => s.toList.all fun c => !isSpace c := by decide
      have hfirm := List.all_eq_true.1 hall s (List.mem_of_find?_eq_some hs)
      have hprefix := List.find?_some hs
      rw [← String.length_toList]
      exact firm_of_isPrefixOf hfirm hprefix
    · exact firm_leading (by decide) cs

/-! ## Tokens -/

/-- The text starts and ends with characters that are no white space. -/
structure Solid (text : List Char) : Prop where
  head : ∃ c rest, text = c :: rest ∧ isSpace c = false
  last : ∃ front c, text = front ++ [c] ∧ isSpace c = false

theorem Firm.solid {n : Nat} {c : Char} {cs : List Char} (h : Firm (n + 1) (c :: cs)) :
    Solid ((c :: cs).take (n + 1)) := by
  unfold Firm at h
  rw [List.take_succ_cons] at h ⊢
  refine ⟨⟨c, _, rfl, h c List.mem_cons_self⟩, ?_⟩
  obtain ⟨front, d, hd⟩ := (List.eq_nil_or_concat (c :: cs.take n)).resolve_left (by simp)
  rw [List.concat_eq_append] at hd
  refine ⟨front, d, hd, h d ?_⟩
  rw [hd]
  exact List.mem_append_right _ List.mem_cons_self

/-- The text ends with one of these characters. -/
def EndsWith (ends : List Char) (text : List Char) : Prop :=
  ∃ front c, text = front ++ [c] ∧ c ∈ ends

theorem EndsWith.append {ends xs ys : List Char} (h : EndsWith ends ys) :
    EndsWith ends (xs ++ ys) := by
  obtain ⟨front, c, rfl, hc⟩ := h
  exact ⟨xs ++ front, c, by simp, hc⟩

theorem EndsWith.take_add {ends cs : List Char} {m n : Nat}
    (h : EndsWith ends ((cs.drop m).take n)) :
    EndsWith ends (cs.take (m + n)) := by
  rw [List.take_add]
  exact h.append

/-- A literal is solid if it starts and ends with characters that are no white space. -/
theorem EndsWith.solid {ends : List Char} {n : Nat} {c : Char} {cs : List Char}
    (h : EndsWith ends ((c :: cs).take n)) (hc : isSpace c = false)
    (hends : ends.all fun c => !isSpace c) : Solid ((c :: cs).take n) := by
  obtain ⟨front, d, hd, hmem⟩ := h
  rw [List.all_eq_true] at hends
  refine ⟨?_, front, d, hd, by simpa using hends d hmem⟩
  cases n with
  | zero => simp at hd
  | succ n => exact ⟨c, cs.take n, rfl, hc⟩

theorem endsWith_characterLength {cs : List Char} {n : Nat} (h : characterLength cs = some n) :
    EndsWith ['\''] (cs.take n) := by
  fun_induction characterLength cs generalizing n with
  | case1 => simp at h
  | case2 cs =>
    cases h
    exact ⟨[], '\'', rfl, List.mem_cons_self⟩
  | case3 => simp at h
  | case4 c cs ih =>
    obtain ⟨m, hm, rfl⟩ := Option.map_eq_some_iff.1 h
    exact EndsWith.take_add (ih hm)
  | case5 c cs _ _ _ ih =>
    obtain ⟨m, hm, rfl⟩ := Option.map_eq_some_iff.1 h
    exact EndsWith.take_add (ih hm)

theorem endsWith_lineTextLength {cs : List Char} {n : Nat} {stop : TextEnd}
    (h : lineTextLength cs = some (n, stop)) : EndsWith ['"', '\x7b'] (cs.take n) := by
  fun_induction lineTextLength cs generalizing n stop with
  | case1 => simp at h
  | case2 cs =>
    cases h
    exact ⟨[], '"', rfl, List.mem_cons_self⟩
  | case3 cs =>
    cases h
    exact ⟨['\\'], '\x7b', rfl, by simp⟩
  | case4 c cs _ _ ih =>
    obtain ⟨⟨m, e⟩, hm, heq⟩ := Option.map_eq_some_iff.1 h
    cases heq
    exact EndsWith.take_add (ih hm)
  | case5 => simp at h
  | case6 c cs _ _ _ ih =>
    obtain ⟨⟨m, e⟩, hm, heq⟩ := Option.map_eq_some_iff.1 h
    cases heq
    exact EndsWith.take_add (ih hm)

theorem endsWith_blockTextLength {cs : List Char} {n : Nat} {stop : TextEnd}
    (h : blockTextLength cs = some (n, stop)) : EndsWith ['"', '\x7b'] (cs.take n) := by
  fun_induction blockTextLength cs generalizing n stop with
  | case1 => simp at h
  | case2 cs =>
    cases h
    exact ⟨['"', '"'], '"', rfl, List.mem_cons_self⟩
  | case3 cs =>
    cases h
    exact ⟨['\\'], '\x7b', rfl, by simp⟩
  | case4 c cs _ ih =>
    obtain ⟨⟨m, e⟩, hm, heq⟩ := Option.map_eq_some_iff.1 h
    cases heq
    exact EndsWith.take_add (ih hm)
  | case5 c cs _ _ _ ih =>
    obtain ⟨⟨m, e⟩, hm, heq⟩ := Option.map_eq_some_iff.1 h
    cases heq
    exact EndsWith.take_add (ih hm)

/-- What is known of the ends of a piece that starts with the character `c`. -/
def Piece.HasEnds (c : Char) (cs : List Char) : Piece → Prop
  | .blank => True
  | .comment _ _ => isSpace c = false
  | .token _ length _ => Solid ((c :: cs).take length)

theorem hasEnds_of_textPiece {inside block : Bool} {opening : Nat} {holes : List Hole} {c : Char}
    {cs : List Char} {p : Piece} (hc : isSpace c = false)
    (h : textPiece inside block opening holes (c :: cs) = some p) : p.HasEnds c cs := by
  unfold textPiece textLength at h
  obtain ⟨⟨n, stop⟩, hn, rfl⟩ := Option.map_eq_some_iff.1 h
  have hends : EndsWith ['"', '\x7b'] (((c :: cs).drop opening).take n) := by
    cases block with
    | false => exact endsWith_lineTextLength hn
    | true => exact endsWith_blockTextLength hn
  have hsolid := hends.take_add.solid hc (by decide)
  cases stop <;> exact hsolid

/-- **Tokens are solid**, and comments start with a character that is no white space. -/
theorem hasEnds_of_piece {holes : List Hole} {c : Char} {cs : List Char} {p : Piece}
    (h : piece holes (c :: cs) = some p) : p.HasEnds c cs := by
  rw [piece] at h
  split at h
  · cases h
    trivial
  split at h
  · next hslash =>
    simp only [Bool.and_eq_true, beq_iff_eq] at hslash
    cases h
    rw [Piece.HasEnds, hslash.1]
    rfl
  split at h
  · next hslash =>
    simp only [Bool.and_eq_true, beq_iff_eq] at hslash
    obtain ⟨n, -, rfl⟩ := Option.map_eq_some_iff.1 h
    rw [Piece.HasEnds, hslash.1]
    rfl
  split at h
  · next hword =>
    cases h
    have hfirm : Firm ((cs.takeWhile isWordPart).length + 1) (c :: cs) := by
      refine Firm.cons (isSpace_of_isWordStart hword) fun d hd => ?_
      rw [← List.prefix_iff_eq_take.1 (List.takeWhile_prefix isWordPart)] at hd
      exact isSpace_of_isWordPart (List.mem_takeWhile_imp hd)
    rw [Piece.HasEnds, Nat.add_comm]
    exact hfirm.solid
  split at h
  · next hquote =>
    have hspace : isSpace c = false := by
      obtain rfl : c = '"' := by simpa using hquote
      rfl
    split at h
    · exact hasEnds_of_textPiece hspace h
    · exact hasEnds_of_textPiece hspace h
  split at h
  · next hquote =>
    have hspace : isSpace c = false := by
      obtain rfl : c = '\'' := by simpa using hquote
      rfl
    split at h
    · next n hn =>
      split at h
      · simp at h
      · cases h
        have hends : EndsWith ['\''] (((c :: cs).drop 1).take n) := endsWith_characterLength hn
        exact hends.take_add.solid hspace (by decide)
    · simp at h
  split at h
  · next n hn =>
    cases h
    exact (hn ▸ firm_numberLength (c :: cs)).solid
  split at h
  · simp at h
  next n hn =>
  have hfirm := firm_symbolLength (c :: cs)
  obtain ⟨m, hm⟩ : ∃ m, symbolLength (c :: cs) = m + 1 := ⟨_, (Nat.succ_pred hn).symm⟩
  have hsolid : Solid ((c :: cs).take (symbolLength (c :: cs))) := by
    rw [hm] at hfirm ⊢
    exact hfirm.solid
  split at h
  · cases h
    exact hsolid
  · exact hasEnds_of_textPiece (by decide) h
  · cases h
    exact hsolid
  · cases h
    exact hsolid

end JavaThrows.Cst
