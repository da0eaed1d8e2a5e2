import JavaThrows.Unicode.CharClass

set_option autoImplicit false

/-!
# White space

White space is a short list of characters, so a class of characters is settled to hold none of it by
looking at each. A text that neither starts nor ends with white space is left alone by trimming.
-/

namespace JavaThrows.Unicode

def spaceCodes : List Nat :=
  [0x09, 0x0a, 0x0b, 0x0c, 0x0d, 0x20, 0x85, 0xa0, 0x1680, 0x2000, 0x2001, 0x2002, 0x2003, 0x2004,
    0x2005, 0x2006, 0x2007, 0x2008, 0x2009, 0x200a, 0x2028, 0x2029, 0x202f, 0x205f, 0x3000]

theorem mem_spaces_of_isSpace {c : Char} (h : isSpace c) : c ∈ spaceCodes.map Char.ofNat := by
  have hcode : c.toNat ∈ spaceCodes := by
    simp only [isSpace, Bool.or_eq_true, Bool.and_eq_true, decide_eq_true_eq, beq_iff_eq] at h
    simp only [spaceCodes, List.mem_cons, List.not_mem_nil, or_false]
    omega
  exact List.mem_map.2 ⟨_, hcode, Char.ofNat_toNat c⟩

/-- A class of characters has no white space in it if it has none of the few characters that are. -/
theorem isSpace_eq_false {p : Char → Bool} (hp : (spaceCodes.map Char.ofNat).all fun c => !p c)
    {c : Char} (h : p c) : isSpace c = false := by
  rw [List.all_eq_true] at hp
  cases hspace : isSpace c with
  | false => rfl
  | true =>
    have hc := hp c (mem_spaces_of_isSpace hspace)
    simp [h] at hc

/-! ## Trimming -/

theorem trimStart_eq_self {cs : List Char} (h : ∀ c ∈ cs.head?, isSpace c = false) :
    trimStart cs = cs := by
  cases cs with
  | nil => rfl
  | cons c cs => rw [trimStart, List.dropWhile_cons_of_neg (by simp [h c rfl])]

theorem trimEnd_eq_self {cs : List Char} (h : ∀ c ∈ cs.getLast?, isSpace c = false) :
    trimEnd cs = cs := by
  have hfront : trimStart cs.reverse = cs.reverse :=
    trimStart_eq_self (by rwa [List.head?_reverse])
  rw [trimEnd, ← trimStart, hfront, List.reverse_reverse]

theorem trim_eq_self {cs : List Char} (hstart : ∀ c ∈ cs.head?, isSpace c = false)
    (hstop : ∀ c ∈ cs.getLast?, isSpace c = false) : trim cs = cs := by
  rw [trim, trimStart_eq_self hstart, trimEnd_eq_self hstop]

/-- A text without white space in it. -/
theorem trim_of_forall {cs : List Char} (h : ∀ c ∈ cs, isSpace c = false) : trim cs = cs :=
  trim_eq_self (fun c hc => h c (List.mem_of_mem_head? hc))
    fun c hc => h c (List.mem_of_mem_getLast? hc)

theorem isSpace_of_mem_head?_trimStart {cs : List Char} {c : Char}
    (hc : c ∈ (trimStart cs).head?) : isSpace c = false := by
  have h := List.head?_dropWhile_not isSpace cs
  rw [Option.mem_def, trimStart] at hc
  simpa [hc] using h

theorem isSpace_of_mem_getLast?_trimEnd {cs : List Char} {c : Char}
    (hc : c ∈ (trimEnd cs).getLast?) : isSpace c = false := by
  rw [trimEnd, List.getLast?_reverse] at hc
  exact isSpace_of_mem_head?_trimStart hc

theorem trimEnd_prefix (cs : List Char) : trimEnd cs <+: cs := by
  have h := (List.dropWhile_suffix isSpace (l := cs.reverse)).reverse
  rwa [List.reverse_reverse] at h

theorem trim_trim (cs : List Char) : trim (trim cs) = trim cs := by
  refine trim_eq_self (fun c hc => ?_) fun c hc => isSpace_of_mem_getLast?_trimEnd hc
  -- What trimming leaves starts the way the text starts after its first white space.
  obtain ⟨rest, hrest⟩ := trimEnd_prefix (trimStart cs)
  have hstart : c ∈ (trimStart cs).head? := by
    rw [← hrest, List.head?_append]
    exact Option.or_eq_some_iff.2 (.inl hc)
  exact isSpace_of_mem_head?_trimStart hstart

theorem trim_cons_space {c : Char} (hc : isSpace c) (cs : List Char) :
    trim (c :: cs) = trim cs := by
  rw [trim, trim, trimStart, List.dropWhile_cons_of_pos hc, trimStart]

theorem trimEnd_append_space {c : Char} (hc : isSpace c) (cs : List Char) :
    trimEnd (cs ++ [c]) = trimEnd cs := by
  rw [trimEnd, List.reverse_append, List.reverse_singleton, List.singleton_append,
    List.dropWhile_cons_of_pos hc, trimEnd]

theorem trim_append_space {c : Char} (hc : isSpace c) (cs : List Char) :
    trim (cs ++ [c]) = trim cs := by
  rw [trim, trim, trimStart, trimStart, List.dropWhile_append]
  split
  · next hnil =>
    rw [List.dropWhile_cons_of_pos hc, List.isEmpty_iff.1 hnil]
    rfl
  · exact trimEnd_append_space hc _

/-! ## Blanks around a text -/

@[simp] theorem isBlank_nil : isBlank [] :=
  rfl

@[simp] theorem isBlank_cons {c : Char} {cs : List Char} :
    isBlank (c :: cs) ↔ isSpace c ∧ isBlank cs := by
  rw [isBlank, List.all_cons, Bool.and_eq_true, isBlank]

@[simp] theorem isBlank_append {front back : List Char} :
    isBlank (front ++ back) ↔ isBlank front ∧ isBlank back := by
  rw [isBlank, List.all_append, Bool.and_eq_true, isBlank, isBlank]

theorem isBlank_iff {cs : List Char} : isBlank cs ↔ ∀ c ∈ cs, isSpace c :=
  List.all_eq_true

theorem isBlank_takeWhile (cs : List Char) : isBlank (cs.takeWhile isSpace) :=
  List.all_takeWhile

@[simp] theorem isBlank_reverse {cs : List Char} : isBlank cs.reverse ↔ isBlank cs := by
  rw [isBlank, List.all_reverse, isBlank]

theorem trimEnd_append_blank (cs : List Char) {blanks : List Char} (h : isBlank blanks) :
    trimEnd (cs ++ blanks) = trimEnd cs := by
  have hblank : ∀ c ∈ blanks.reverse, isSpace c := isBlank_iff.1 (isBlank_reverse.2 h)
  rw [trimEnd, List.reverse_append, List.dropWhile_append_of_pos hblank, trimEnd]

theorem trim_surrounded {before behind : List Char} (hbefore : isBlank before)
    (hbehind : isBlank behind) (cs : List Char) : trim (before ++ cs ++ behind) = trim cs := by
  rw [trim, trimStart, List.append_assoc, List.dropWhile_append_of_pos (isBlank_iff.1 hbefore),
    ← trimStart, trim]
  -- Blanks behind are dropped as well where nothing else is left.
  induction cs with
  | nil =>
    have hnil : (behind ++ []).dropWhile isSpace = [] :=
      List.dropWhile_append_of_pos (isBlank_iff.1 hbehind)
    rw [List.append_nil] at hnil
    rw [List.nil_append, trimStart, hnil]
    rfl
  | cons c cs ih =>
    rw [trimStart, trimStart, List.cons_append]
    by_cases hc : isSpace c
    · rw [List.dropWhile_cons_of_pos hc, List.dropWhile_cons_of_pos hc]
      exact ih
    · rw [List.dropWhile_cons_of_neg hc, List.dropWhile_cons_of_neg hc, ← List.cons_append]
      exact trimEnd_append_blank _ hbehind

theorem exists_trimEnd (cs : List Char) : ∃ blanks, isBlank blanks ∧ cs = trimEnd cs ++ blanks := by
  refine ⟨(cs.reverse.takeWhile isSpace).reverse, isBlank_reverse.2 (isBlank_takeWhile _), ?_⟩
  rw [trimEnd, ← List.reverse_append, List.takeWhile_append_dropWhile, List.reverse_reverse]

/-- A text is its trimmed text with blanks around it. -/
theorem exists_trim (cs : List Char) :
    ∃ before behind, isBlank before ∧ isBlank behind ∧ cs = before ++ trim cs ++ behind := by
  obtain ⟨behind, hbehind, heq⟩ := exists_trimEnd (trimStart cs)
  refine ⟨cs.takeWhile isSpace, behind, isBlank_takeWhile cs, hbehind, ?_⟩
  rw [trim, List.append_assoc, ← heq, trimStart, List.takeWhile_append_dropWhile]

theorem trim_eq_nil_iff {cs : List Char} : trim cs = [] ↔ isBlank cs := by
  constructor
  · intro hnil
    obtain ⟨before, behind, hbefore, hbehind, heq⟩ := exists_trim cs
    rw [heq, hnil]
    simp [hbefore, hbehind]
  · intro hblank
    have hsame := trim_surrounded hblank isBlank_nil []
    rwa [List.append_nil, List.append_nil] at hsame

end JavaThrows.Unicode
