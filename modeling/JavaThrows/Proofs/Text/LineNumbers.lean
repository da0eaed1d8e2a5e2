import JavaThrows.Proofs.Text.Bytes
import JavaThrows.Text.Lines

set_option autoImplicit false

/-!
# Line numbers

The table of line starts rises, since each entry stands behind a line break of its own. In a rising
table the entries that are no more than an offset come first, so their number tells a binary search
where to end: at the last of them, whether that is the offset itself or not. Main statement:
`line_ofText`, the number of a line is one more than the number of newline bytes before the offset.
-/

namespace JavaThrows.Text

/-! ## Searching a rising table -/

variable {table : List Nat} {offset base size i : Nat}

/-- The number of entries that are no more than an offset. -/
def entriesUpTo (table : List Nat) (offset : Nat) : Nat :=
  table.countP (· ≤ offset)

theorem entriesUpTo_le_length (table : List Nat) (offset : Nat) :
    entriesUpTo table offset ≤ table.length :=
  List.countP_le_length

theorem entriesUpTo_eq_zero_of_lt (h : ∀ entry ∈ table, offset < entry) :
    entriesUpTo table offset = 0 := by
  rw [entriesUpTo, List.countP_eq_zero]
  intro entry hentry
  simpa using h entry hentry

/-- The entries that are no more than an offset come first. -/
theorem getElem_le_iff (h : table.Pairwise (· < ·)) (hi : i < table.length) :
    table[i] ≤ offset ↔ i < entriesUpTo table offset := by
  induction table generalizing i with
  | nil => simp at hi
  | cons entry table ih =>
    obtain ⟨hentry, htable⟩ := List.pairwise_cons.1 h
    by_cases hle : entry ≤ offset
    · rw [entriesUpTo, List.countP_cons_of_pos (by simpa using hle)]
      cases i with
      | zero => simpa using hle
      | succ i => simpa [entriesUpTo] using ih htable (by simpa using hi)
    · -- The entries behind are greater still.
      have hall : ∀ e ∈ entry :: table, offset < e := by
        rw [List.forall_mem_cons]
        exact ⟨by omega, fun e he => by have := hentry e he; omega⟩
      have := hall _ (List.getElem_mem hi)
      rw [entriesUpTo_eq_zero_of_lt hall]
      omega

/-- The last entry that is no more than the offset, or else the first entry of all, is among the
    `size` entries from `base` on. -/
structure EndsWithin (table : List Nat) (offset base size : Nat) : Prop where
  bound : base + size ≤ table.length
  lower : base ≤ entriesUpTo table offset - 1
  upper : entriesUpTo table offset - 1 < base + size

/-- Looking at one entry tells which part of the table the search goes on in. -/
theorem EndsWithin.halve (h : EndsWithin table offset base size)
    (hrising : table.Pairwise (· < ·)) (hsize : 1 < size) :
    EndsWithin table offset (if offset < table.getD (base + size / 2) 0 then base
      else base + size / 2) (size - size / 2) := by
  obtain ⟨hbound, hlower, hupper⟩ := h
  have hmiddle : base + size / 2 < table.length := by omega
  have hiff : table[base + size / 2] ≤ offset ↔ base + size / 2 < entriesUpTo table offset :=
    getElem_le_iff hrising hmiddle
  rw [List.getD_eq_getElem?_getD, List.getElem?_eq_getElem hmiddle, Option.getD_some]
  split
  · refine ⟨?_, ?_, ?_⟩ <;> omega
  · refine ⟨?_, ?_, ?_⟩ <;> omega

theorem halve_eq (h : EndsWithin table offset base size) (hrising : table.Pairwise (· < ·)) :
    halve table offset base size = entriesUpTo table offset - 1 := by
  fun_induction halve table offset base size with
  | case1 base size hsize middle base' ih => exact ih (h.halve hrising hsize)
  | case2 base size hsize =>
    obtain ⟨-, hlower, hupper⟩ := h
    omega

/-- **A binary search** ends at the offset where the table has it, and behind the entries before it
    where not. -/
theorem search_eq (hrising : table.Pairwise (· < ·)) :
    search table offset =
      if offset ∈ table then .hit (entriesUpTo table offset - 1)
      else .missing (entriesUpTo table offset) := by
  have hlength := entriesUpTo_le_length table offset
  rcases List.eq_nil_or_concat table with rfl | ⟨_, _, hconcat⟩
  · rw [if_neg List.not_mem_nil, search, List.getElem?_nil]
    rfl
  have hpos : 0 < table.length := by simp [hconcat]
  have hbase : entriesUpTo table offset - 1 < table.length := by omega
  have hwithin : EndsWithin table offset 0 table.length := ⟨by omega, by omega, by omega⟩
  have hle : table[entriesUpTo table offset - 1] ≤ offset ↔
      entriesUpTo table offset - 1 < entriesUpTo table offset :=
    getElem_le_iff hrising hbase
  rw [search, halve_eq hwithin hrising]
  simp only [List.getElem?_eq_getElem hbase]
  by_cases hmem : offset ∈ table
  · -- The offset is the last entry that is no more than the offset.
    obtain ⟨j, hj, hoffset⟩ := List.getElem_of_mem hmem
    have hlast := (getElem_le_iff hrising hj).1 (Nat.le_of_eq hoffset)
    have heq : table[entriesUpTo table offset - 1] = offset := by
      refine Nat.le_antisymm (hle.2 (by omega)) ?_
      rcases Nat.lt_or_eq_of_le (Nat.le_sub_one_of_lt hlast) with hlt | heq
      · have := List.pairwise_iff_getElem.1 hrising j _ hj hbase hlt
        omega
      · simp only [← heq, hoffset, Nat.le_refl]
    rw [if_pos heq, if_pos hmem]
  · have hne : table[entriesUpTo table offset - 1] ≠ offset := fun heq =>
      hmem (heq ▸ List.getElem_mem hbase)
    rw [if_neg hne, if_neg hmem]
    split <;> congr 1 <;> omega

/-! ## The table of line starts -/

theorem lt_of_mem_startsAfterBreaks {text : List Char} {start : Nat}
    (h : start ∈ startsAfterBreaks base text) : base < start := by
  induction text generalizing base with
  | nil => cases h
  | cons c text ih =>
    have hsize := c.utf8Size_pos
    rw [startsAfterBreaks] at h
    split at h
    · rcases List.mem_cons.1 h with rfl | h
      · omega
      · have := ih h
        omega
    · have := ih h
      omega

theorem startsAfterBreaks_rising (base : Nat) (text : List Char) :
    (startsAfterBreaks base text).Pairwise (· < ·) := by
  induction text generalizing base with
  | nil => exact .nil
  | cons c text ih =>
    rw [startsAfterBreaks]
    split
    · exact .cons (fun start hstart => lt_of_mem_startsAfterBreaks hstart) (ih _)
    · exact ih _

/-- **The table rises**, each start after the line break before it. -/
theorem starts_ofText_rising (text : List Char) :
    (LineIndex.ofText text).starts.Pairwise (· < ·) :=
  .cons (fun _ h => lt_of_mem_startsAfterBreaks h) (startsAfterBreaks_rising 0 text)

/-- The line breaks among the first bytes of a text. -/
def breaksBefore (text : List Char) (offset : Nat) : Nat :=
  ((bytes text).take offset).count '\n'.toUInt8

/-- A line break is a byte of its own, and no byte of another character. -/
theorem count_break_utf8EncodeChar (c : Char) :
    (String.utf8EncodeChar c).count '\n'.toUInt8 = if c = '\n' then 1 else 0 := by
  split
  · next hc => rw [hc]; rfl
  · next hc =>
    refine List.count_eq_zero.2 fun hmem => hc ?_
    have hbytes : '\n'.toUInt8 ∈ bytes [c] := by simpa [bytes] using hmem
    simpa [eq_comm] using mem_of_toUInt8_mem_bytes (by decide) hbytes

/-- The entries of the table up to an offset are as many as the line breaks before it. An offset
    inside a character counts like the start of the character. -/
theorem entriesUpTo_startsAfterBreaks (base : Nat) (text : List Char) (offset : Nat) :
    entriesUpTo (startsAfterBreaks base text) (base + offset) = breaksBefore text offset := by
  induction text generalizing base offset with
  | nil => simp [startsAfterBreaks, entriesUpTo, breaksBefore, bytes]
  | cons c text ih =>
    have hlength := String.length_utf8EncodeChar c
    have hcount := count_break_utf8EncodeChar c
    rw [breaksBefore, bytes_cons, startsAfterBreaks]
    rcases Nat.lt_or_ge offset c.utf8Size with hlt | hge
    · -- No line break has ended yet.
      have hzero :
          ((String.utf8EncodeChar c ++ bytes text).take offset).count '\n'.toUInt8 = 0 := by
        rw [List.take_append_of_le_length (by omega)]
        by_cases hc : c = '\n'
        · subst hc
          obtain rfl : offset = 0 := Nat.lt_one_iff.1 hlt
          rfl
        · rw [if_neg hc, List.count_eq_zero] at hcount
          exact List.count_eq_zero.2 fun hmem => hcount (List.mem_of_mem_take hmem)
      rw [hzero]
      refine entriesUpTo_eq_zero_of_lt fun start hstart => ?_
      have hle : base + c.utf8Size ≤ start := by
        split at hstart
        · rcases List.mem_cons.1 hstart with rfl | hstart
          · exact Nat.le_refl _
          · exact Nat.le_of_lt (lt_of_mem_startsAfterBreaks hstart)
        · exact Nat.le_of_lt (lt_of_mem_startsAfterBreaks hstart)
      omega
    · have hrest := ih (base + c.utf8Size) (offset - c.utf8Size)
      have hoffset : base + c.utf8Size + (offset - c.utf8Size) = base + offset := by omega
      rw [hoffset, breaksBefore] at hrest
      rw [List.take_append, List.take_of_length_le (by omega), hlength, List.count_append, hcount,
        ← hrest]
      split
      · rw [entriesUpTo, List.countP_cons_of_pos (by simp; omega), Nat.add_comm]
        rfl
      · rw [Nat.zero_add]

/-! ## The numbers -/

/-- **The number of a line** is one more than the number of newline bytes before the offset, which
    may stand inside a character or past the end. -/
theorem LineIndex.line_ofText (text : List Char) (offset : Nat) :
    (LineIndex.ofText text).line offset = 1 + breaksBefore text offset := by
  have hcount :
      entriesUpTo (LineIndex.ofText text).starts offset = 1 + breaksBefore text offset := by
    rw [LineIndex.ofText, entriesUpTo, List.countP_cons_of_pos (by simp), Nat.add_comm,
      ← entriesUpTo_startsAfterBreaks 0 text offset, Nat.zero_add]
    rfl
  rw [LineIndex.line, search_eq (starts_ofText_rising text), hcount]
  split
  · next i hsearch =>
    split at hsearch <;> cases hsearch
    omega
  · next i hsearch =>
    split at hsearch <;> cases hsearch
    rfl

-- The newline itself, the inside of a character, and what is past the end.
example : [2, 3, 4, 6, 100].map (LineIndex.ofText "a\r\nü\n".toList).line = [1, 2, 2, 3, 3] := by
  decide +kernel

theorem breaksBefore_mono (text : List Char) {offset offset' : Nat} (h : offset ≤ offset') :
    breaksBefore text offset ≤ breaksBefore text offset' :=
  (List.take_prefix_take_left h).sublist.count_le _

end JavaThrows.Text
