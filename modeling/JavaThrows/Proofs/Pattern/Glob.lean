import JavaThrows.Pattern.Glob
import JavaThrows.Pattern.Row
import JavaThrows.Proofs.Text.Bytes

set_option autoImplicit false

/-!
# What globs match

A pattern matches a text that can be split so that each star stands for a run of items and every
other item of the pattern for itself (`Matches`). The loop that looks for such a split is greedy: it
goes back to the last star only. Nothing is lost by that. What can be found behind a later place of
the text before the star can also be found behind the first one, because the star takes in what lies
between (`matches_star_append_iff`). So no step of the loop changes what it is to find out
(`loop_iff_sought`).

Names are compared byte by byte, and that is as good as character by character, because bytes that
begin with a character are found in a text only where a character begins. Main statements:
`isMatch_iff_matches`, and `isMatch_iff_eq_text` for globs without stars.
-/

namespace JavaThrows.Glob

/-! ## Splits of a text -/

section Splits

variable {α : Type} {star : α}

/-- The text can be split so that each star of the pattern stands for a run of items, and each other
    item for itself. -/
inductive Matches (star : α) : List α → List α → Prop
  | nil : Matches star [] []
  | item {x : α} {p t : List α} (hx : x ≠ star) (h : Matches star p t) :
      Matches star (x :: p) (x :: t)
  | run (front : List α) {p t : List α} (h : Matches star p t) :
      Matches star (star :: p) (front ++ t)

@[simp] theorem matches_nil_iff {t : List α} : Matches star [] t ↔ t = [] :=
  ⟨fun h => by cases h; rfl, fun h => by rw [h]; exact .nil⟩

theorem matches_cons_iff {x : α} (hx : x ≠ star) {p t : List α} :
    Matches star (x :: p) t ↔ ∃ rest, t = x :: rest ∧ Matches star p rest := by
  constructor
  · intro h
    cases h with
    | item _ h => exact ⟨_, rfl, h⟩
    | run => exact absurd rfl hx
  · rintro ⟨rest, rfl, h⟩
    exact .item hx h

theorem matches_star_iff {p t : List α} :
    Matches star (star :: p) t ↔ ∃ front rest, t = front ++ rest ∧ Matches star p rest := by
  constructor
  · intro h
    cases h with
    | item hx => exact absurd rfl hx
    | run front h => exact ⟨front, _, rfl, h⟩
  · rintro ⟨front, rest, rfl, h⟩
    exact .run front h

/-- A star takes in whatever stands before its run. -/
theorem Matches.append_left {p t : List α} (h : Matches star (star :: p) t) (front : List α) :
    Matches star (star :: p) (front ++ t) := by
  obtain ⟨first, rest, rfl, hrest⟩ := matches_star_iff.1 h
  rw [← List.append_assoc]
  exact .run _ hrest

/-- What holds no star stands for itself. -/
theorem matches_append_iff {front : List α} (hfront : star ∉ front) {p t : List α} :
    Matches star (front ++ p) t ↔ ∃ rest, t = front ++ rest ∧ Matches star p rest := by
  induction front generalizing t with
  | nil => simp
  | cons x front ih =>
    rw [List.mem_cons, not_or] at hfront
    rw [List.cons_append, matches_cons_iff (Ne.symm hfront.1)]
    constructor
    · rintro ⟨t, rfl, h⟩
      obtain ⟨rest, rfl, hrest⟩ := (ih hfront.2).1 h
      exact ⟨rest, rfl, hrest⟩
    · rintro ⟨rest, rfl, h⟩
      exact ⟨front ++ rest, rfl, (ih hfront.2).2 ⟨rest, rfl, h⟩⟩

/-- Without a star ahead, only the pattern itself matches. -/
theorem matches_iff_eq {p : List α} (h : star ∉ p) {t : List α} : Matches star p t ↔ t = p := by
  simpa using matches_append_iff (p := []) h (t := t)

/-- Only stars match the empty text. -/
theorem matches_nil_right_iff {p : List α} : Matches star p [] ↔ ∀ x ∈ p, x = star := by
  induction p with
  | nil => simp
  | cons x p ih =>
    rw [List.forall_mem_cons, ← ih]
    by_cases hx : x = star
    · subst hx
      refine ⟨fun h => ⟨rfl, ?_⟩, fun h => .run [] h.2⟩
      obtain ⟨front, rest, htext, hrest⟩ := matches_star_iff.1 h
      rwa [(List.append_eq_nil_iff.1 htext.symm).2] at hrest
    · simp [matches_cons_iff hx, hx]

/-- Where the front of the pattern stands at the front of the text and the pattern matches behind
    some run, the rest of the pattern matches an end of the rest of the text. -/
theorem exists_suffix_of_matches {front : List α} (hfront : star ∉ front) {p t : List α}
    (h : Matches star (star :: (front ++ p)) (front ++ t)) :
    ∃ behind, behind <:+ t ∧ Matches star p behind := by
  obtain ⟨first, rest, htext, hrest⟩ := matches_star_iff.1 h
  obtain ⟨behind, rfl, hbehind⟩ := (matches_append_iff hfront).1 hrest
  -- Both `t` and `behind` end the text, and `behind` is the shorter one.
  have hlength := congrArg List.length htext
  simp only [List.length_append] at hlength
  have hsuffix : behind <:+ front ++ t := htext ▸ ⟨first ++ front, by simp⟩
  exact ⟨behind, List.suffix_of_suffix_length_le hsuffix (List.suffix_append front t) (by omega),
    hbehind⟩

/-- **Nothing is lost by never going back behind a star.** If what stands before the next star is
    found at the front of the text, it need not be looked for later. -/
theorem matches_star_append_iff {front : List α} (hfront : star ∉ front) {p t : List α} :
    Matches star (star :: (front ++ star :: p)) (front ++ t) ↔ Matches star (star :: p) t := by
  constructor
  · intro h
    obtain ⟨behind, ⟨between, rfl⟩, hbehind⟩ := exists_suffix_of_matches hfront h
    exact hbehind.append_left between
  · intro h
    exact .run [] ((matches_append_iff hfront).2 ⟨t, rfl, h⟩)

/-- A star takes one item more if what follows it does not match the text. -/
theorem matches_star_cons_iff {p t : List α} {x : α} (h : ¬ Matches star p (x :: t)) :
    Matches star (star :: p) (x :: t) ↔ Matches star (star :: p) t := by
  constructor
  · intro hmatches
    obtain ⟨front, rest, htext, hrest⟩ := matches_star_iff.1 hmatches
    cases front with
    | nil => exact absurd (htext ▸ hrest) h
    | cons y front =>
      obtain ⟨-, rfl⟩ := List.cons.inj htext
      exact .run front hrest
  · exact fun hmatches => hmatches.append_left [x]

end Splits

/-! ## The loop -/

section Loop

variable {α : Type} {star : α}

/-- Since the last star the pattern and the text have moved on by the same items. -/
def InStep (star : α) (p t : List α) (retry : Option (Retry α)) : Prop :=
  ∀ r ∈ retry, ∃ front, star ∉ front ∧ r.pattern = front ++ p ∧ r.text = front ++ t

/-- What the loop is to find out. -/
def Sought (star : α) (p t : List α) : Option (Retry α) → Prop
  | none => Matches star p t
  | some r => Matches star (star :: r.pattern) r.text

variable {p t : List α} {retry : Option (Retry α)}

theorem inStep_retry (p t : List α) : InStep star p t (some ⟨p, t⟩) := by
  rintro _ ⟨⟩
  exact ⟨[], List.not_mem_nil, rfl, rfl⟩

theorem InStep.item {x : α} (h : InStep star (x :: p) (x :: t) retry) (hx : x ≠ star) :
    InStep star p t retry := by
  intro r hr
  obtain ⟨front, hfront, hpattern, htext⟩ := h r hr
  exact ⟨front ++ [x], by simp [hfront, Ne.symm hx], by simp [hpattern], by simp [htext]⟩

theorem sought_star_iff (h : InStep star (star :: p) t retry) :
    Sought star (star :: p) t retry ↔ Sought star p t (some ⟨p, t⟩) := by
  cases retry with
  | none => exact .rfl
  | some r =>
    obtain ⟨front, hfront, hpattern, htext⟩ := h r rfl
    rw [Sought, hpattern, htext]
    exact matches_star_append_iff hfront

theorem sought_item_iff {x : α} (hx : x ≠ star) :
    Sought star (x :: p) (x :: t) retry ↔ Sought star p t retry := by
  cases retry with
  | none => simp [Sought, matches_cons_iff hx]
  | some r => exact .rfl

/-- Where the items differ, what follows the last star does not match the text that the star has
    not taken. -/
theorem InStep.not_matches {r : Retry α} (h : InStep star p t (some r)) (hno : ¬ Matches star p t) :
    ¬ Matches star r.pattern r.text := by
  obtain ⟨front, hfront, hpattern, htext⟩ := h r rfl
  rw [hpattern, htext, matches_append_iff hfront]
  rintro ⟨rest, hrest, hmatches⟩
  rw [List.append_cancel_left hrest] at hno
  exact hno hmatches

/-- As long as text is left, the star can take one item more. -/
theorem InStep.exists_text {r : Retry α} {c : α} (h : InStep star p (c :: t) (some r)) :
    ∃ x u, r.text = x :: u := by
  obtain ⟨front, -, -, htext⟩ := h r rfl
  rw [htext]
  exact List.exists_cons_of_ne_nil (List.append_ne_nil_of_right_ne_nil front (List.cons_ne_nil c t))

/-- At the end of the text all that is left of the pattern has to be stars. -/
theorem sought_end_iff (h : InStep star p [] retry) : Sought star p [] retry ↔ ∀ x ∈ p, x = star := by
  cases retry with
  | none => exact matches_nil_right_iff
  | some r =>
    obtain ⟨front, hfront, hpattern, htext⟩ := h r rfl
    rw [Sought, hpattern, htext, ← matches_nil_right_iff]
    constructor
    · intro hmatches
      obtain ⟨behind, hbehind, hrest⟩ := exists_suffix_of_matches hfront hmatches
      rwa [List.suffix_nil.1 hbehind] at hrest
    · exact fun hrest => .run [] ((matches_append_iff hfront).2 ⟨[], rfl, hrest⟩)

theorem not_matches_of_head? {c : α} (hstar : p.head? ≠ some star) (hitem : p.head? ≠ some c) :
    ¬ Matches star p (c :: t) := by
  cases p with
  | nil => simp
  | cons x p =>
    have hx : x ≠ star := by simpa using hstar
    have hxc : x ≠ c := by simpa using hitem
    simp [matches_cons_iff hx, Ne.symm hxc]

variable [DecidableEq α]

/-- **The loop finds out what is sought**, and no step changes what that is. -/
theorem loop_iff_sought (h : InStep star p t retry) :
    loop star p t retry ↔ Sought star p t retry := by
  fun_induction loop star p t retry with
  | case1 p retry => simpa using (sought_end_iff h).symm
  | case2 p c t retry hstar ih =>
    obtain ⟨p, rfl⟩ := List.head?_eq_some_iff.1 hstar
    rw [sought_star_iff h]
    exact ih (inStep_retry p (c :: t))
  | case3 p c t retry hstar hitem ih =>
    obtain ⟨p, rfl⟩ := List.head?_eq_some_iff.1 hitem
    have hc : c ≠ star := by simpa using hstar
    rw [sought_item_iff hc]
    exact ih (h.item hc)
  | case4 p c t hstar hitem q x u ih =>
    have hno := h.not_matches (not_matches_of_head? hstar hitem)
    rw [ih (inStep_retry q u)]
    exact (matches_star_cons_iff hno).symm
  | case5 p c t retry hstar hitem hstuck =>
    cases retry with
    | none => simpa [Sought] using not_matches_of_head? hstar hitem
    | some r =>
      obtain ⟨x, u, htext⟩ := h.exists_text
      exact (hstuck r.pattern x u (by rw [← htext])).elim

/-- **The loop finds a split if there is one.** -/
theorem matchesList_iff_matches : matchesList star p t ↔ Matches star p t :=
  loop_iff_sought nofun

/-- Trying all runs for each star finds a split if there is one. -/
theorem rowMatch_iff_matches {p t : List α} :
    rowMatch (· == star) (· == ·) p t ↔ Matches star p t := by
  induction p generalizing t with
  | nil => simp [rowMatch]
  | cons x p ih =>
    by_cases hx : x = star
    · subst hx
      have htry : rowMatch (· == x) (· == ·) (x :: p) t =
          anySuffix (rowMatch (· == x) (· == ·) p) t := by cases t <;> simp [rowMatch]
      rw [htry, anySuffix_eq_true_iff, matches_star_iff]
      simp only [ih]
    · rw [matches_cons_iff hx]
      cases t with
      | nil => simp [rowMatch, hx]
      | cons y t => simp [rowMatch, hx, ih, @eq_comm _ y x, and_assoc]

end Loop

/-! ## Bytes and characters -/

theorem bytes_star_cons (cs : List Char) :
    Text.bytes ('*' :: cs) = '*'.toUInt8 :: Text.bytes cs := rfl

theorem star_notMem_utf8EncodeChar {c : Char} (hc : c ≠ '*') :
    '*'.toUInt8 ∉ String.utf8EncodeChar c := by
  intro h
  have hmem : '*'.toUInt8 ∈ Text.bytes [c] := by simpa [Text.bytes] using h
  exact hc (List.mem_singleton.1 (Text.mem_of_toUInt8_mem_bytes (by decide) hmem)).symm

theorem matches_bytes_of_matches {p t : List Char} (h : Matches '*' p t) :
    Matches '*'.toUInt8 (Text.bytes p) (Text.bytes t) := by
  induction h with
  | nil => exact .nil
  | item hc _ ih =>
    rw [Text.bytes_cons, Text.bytes_cons]
    exact (matches_append_iff (star_notMem_utf8EncodeChar hc)).2 ⟨_, rfl, ih⟩
  | run front _ ih =>
    rw [bytes_star_cons, Text.bytes_append]
    exact .run _ ih

/-- A star over bytes need not end inside a character: what follows it begins with a character, or
    is another star that can take in the rest of that character. -/
theorem exists_matches_bytes_of_star {p t : List Char}
    (h : Matches '*'.toUInt8 ('*'.toUInt8 :: Text.bytes p) (Text.bytes t)) :
    ∃ front rest, t = front ++ rest ∧ Matches '*'.toUInt8 (Text.bytes p) (Text.bytes rest) := by
  obtain ⟨front, rest, htext, hrest⟩ := matches_star_iff.1 h
  cases p with
  | nil => exact ⟨t, [], by simp, .nil⟩
  | cons c p =>
    by_cases hc : c = '*'
    · subst hc
      refine ⟨[], t, rfl, ?_⟩
      rw [htext]
      exact Matches.append_left hrest front
    · rw [Text.bytes_cons] at hrest
      obtain ⟨behind, rfl, -⟩ := (matches_append_iff (star_notMem_utf8EncodeChar hc)).1 hrest
      obtain ⟨ds, es, rfl, rfl⟩ := Text.exists_append_of_bytes_eq htext
      exact ⟨ds, c :: es, rfl, hrest⟩

/-- **Matching bytes is matching characters.** -/
theorem matches_bytes_iff {p t : List Char} :
    Matches '*'.toUInt8 (Text.bytes p) (Text.bytes t) ↔ Matches '*' p t := by
  refine ⟨fun h => ?_, matches_bytes_of_matches⟩
  induction p generalizing t with
  | nil => simpa [Text.bytes_eq_nil_iff] using matches_nil_iff.1 h
  | cons c p ih =>
    by_cases hc : c = '*'
    · subst hc
      obtain ⟨front, rest, rfl, hrest⟩ := exists_matches_bytes_of_star h
      exact .run front (ih hrest)
    · rw [Text.bytes_cons] at h
      obtain ⟨rest, htext, hrest⟩ := (matches_append_iff (star_notMem_utf8EncodeChar hc)).1 h
      obtain ⟨ds, rfl, rfl⟩ := Text.exists_cons_of_bytes_eq htext
      exact .item hc (ih hrest)

/-- **A glob matches exactly the names that can be split at its stars:** each star stands for a run
    of characters, and each other character for itself. The answer is the one of trying all runs for
    each star, and that of the same loop over characters in place of bytes. -/
theorem isMatch_iff_matches (g : Glob) (name : String) :
    (g.isMatch name = true ↔ Matches '*' g.text.toList name.toList) ∧
      g.isMatch name = rowMatch (· == '*') (· == ·) g.text.toList name.toList ∧
      g.isMatch name = matchesList '*' g.text.toList name.toList := by
  have hsplit : g.isMatch name = true ↔ Matches '*' g.text.toList name.toList := by
    rw [isMatch, matchesList_iff_matches, matches_bytes_iff]
  refine ⟨hsplit, Bool.eq_iff_iff.2 ?_, Bool.eq_iff_iff.2 ?_⟩
  · rw [hsplit, rowMatch_iff_matches]
  · rw [hsplit, matchesList_iff_matches]

/-- **A glob without a star matches exactly its own text.** -/
theorem isMatch_iff_eq_text {g : Glob} (h : g.hasStar = false) {name : String} :
    g.isMatch name ↔ name = g.text := by
  have hstar : '*' ∉ g.text.toList := by simpa [hasStar] using h
  have hbyte : '*'.toUInt8 ∉ Text.bytes g.text.toList :=
    fun hmem => hstar (Text.mem_of_toUInt8_mem_bytes (by decide) hmem)
  rw [isMatch, matchesList_iff_matches, matches_iff_eq hbyte, Text.bytes_inj, String.toList_inj]

end JavaThrows.Glob
