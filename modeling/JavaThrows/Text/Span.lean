set_option autoImplicit false

/-!
# Byte spans of a text

A text is a list of characters, and places in it are counted in bytes of its UTF-8 form. An offset
that falls inside a character belongs to no place: `splitAt?` refuses it, so every piece that is
cut out of a text is again a list of whole characters. Main statement: `splitAt?_eq_some_iff`,
splitting at an offset is the same as writing the text as two parts of which the first has that
many bytes.
-/

namespace JavaThrows

/-- A half-open range of byte offsets. -/
structure Span where
  start : Nat
  stop : Nat
deriving DecidableEq, Repr, Inhabited

namespace Text

/-- How many bytes the UTF-8 form of the characters takes. -/
def byteLength : List Char → Nat
  | [] => 0
  | c :: cs => c.utf8Size + byteLength cs

/-- The text before a byte offset and the text from it on, if the offset stands between two
    characters or at an end. -/
def splitAt? : List Char → Nat → Option (List Char × List Char)
  | cs, 0 => some ([], cs)
  | [], _ + 1 => none
  | c :: cs, n + 1 =>
    if c.utf8Size ≤ n + 1 then
      (splitAt? cs (n + 1 - c.utf8Size)).map fun parts => (c :: parts.1, parts.2)
    else none

/-- Whether a byte offset stands between two characters or at an end of the text. -/
def isBoundary (cs : List Char) (offset : Nat) : Bool :=
  (splitAt? cs offset).isSome

/-- The part of the text that a span covers; none for a span that is inverted, ends past the text
    or cuts a character. -/
def slice? (cs : List Char) (span : Span) : Option (List Char) :=
  if span.start ≤ span.stop then
    (splitAt? cs span.start).bind fun parts =>
      (splitAt? parts.2 (span.stop - span.start)).map Prod.fst
  else none

/-- The part of the text that a span covers, and nothing where there is no such part. -/
def slice (cs : List Char) (span : Span) : String :=
  String.ofList ((slice? cs span).getD [])

/-! ## Laws -/

theorem byteLength_append (a b : List Char) :
    byteLength (a ++ b) = byteLength a + byteLength b := by
  induction a with
  | nil => simp [byteLength]
  | cons c cs ih => simp [byteLength, ih, Nat.add_assoc]

theorem splitAt?_append (a b : List Char) : splitAt? (a ++ b) (byteLength a) = some (a, b) := by
  induction a with
  | nil => cases b <;> simp [byteLength, splitAt?]
  | cons c cs ih =>
    obtain ⟨n, hn⟩ : ∃ n, c.utf8Size + byteLength cs = n + 1 :=
      ⟨c.utf8Size + byteLength cs - 1, by have := c.utf8Size_pos; omega⟩
    have hle : c.utf8Size ≤ n + 1 := by omega
    have hsub : n + 1 - c.utf8Size = byteLength cs := by omega
    simp [byteLength, hn, splitAt?, hle, hsub, ih]

theorem of_splitAt?_eq_some {cs a b : List Char} {n : Nat} (h : splitAt? cs n = some (a, b)) :
    cs = a ++ b ∧ byteLength a = n := by
  fun_induction splitAt? cs n generalizing a b with
  | case1 cs => simp at h; obtain ⟨rfl, rfl⟩ := h; simp [byteLength]
  | case2 n => simp at h
  | case3 c cs n hle ih =>
    simp only [Option.map_eq_some_iff, Prod.mk.injEq] at h
    obtain ⟨⟨a', b'⟩, hs, rfl, rfl⟩ := h
    obtain ⟨rfl, hlen⟩ := ih hs
    simp [byteLength, hlen]
    omega
  | case4 c cs n hle => simp at h

/-- **Splitting at an offset is writing the text in two parts**, the first of that many bytes. -/
theorem splitAt?_eq_some_iff {cs a b : List Char} {n : Nat} :
    splitAt? cs n = some (a, b) ↔ cs = a ++ b ∧ byteLength a = n :=
  ⟨of_splitAt?_eq_some, fun ⟨h, hn⟩ => by rw [h, ← hn]; exact splitAt?_append a b⟩

end Text
end JavaThrows
