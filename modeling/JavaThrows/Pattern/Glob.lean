import JavaThrows.Text.Bytes

set_option autoImplicit false

/-!
# Globs

A glob is a text in which each star stands for any run of characters. Matching is greedy: a star is
passed at once, and when what follows it does not match, it takes one item more. Only the last star
that was passed is tried again, so nothing before it is looked at twice.
-/

namespace JavaThrows

/-- A name with stars in it. -/
structure Glob where
  text : String
deriving DecidableEq, Repr, Inhabited

namespace Glob

variable {α : Type}

/-- Where matching goes on when it is stuck. -/
structure Retry (α : Type) where
  /-- What follows the last star. -/
  pattern : List α
  /-- The text that the star has not taken. -/
  text : List α

/-! ## Why matching ends

A retry shortens the text that is left for what follows the star, and between two retries the
pattern and the text get shorter. -/

/-- The length of the pattern that is left, now or after a retry. -/
def patternLeft (p : List α) (retry : Option (Retry α)) : Nat :=
  max p.length (retry.elim 0 fun r => r.pattern.length)

/-- The length of the text that is left, now or after a retry. -/
def textLeft (t : List α) (retry : Option (Retry α)) : Nat :=
  max t.length (retry.elim 0 fun r => r.text.length)

def stepsLeft (p t : List α) (retry : Option (Retry α)) : Nat :=
  textLeft t retry * (patternLeft p retry + textLeft t retry + 2) + (p.length + t.length)

section Steps

variable {p t p' t' : List α} {retry retry' : Option (Retry α)}

theorem stepsLeft_lt_of_length_lt (hpattern : patternLeft p' retry' ≤ patternLeft p retry)
    (htext : textLeft t' retry' ≤ textLeft t retry)
    (hlength : p'.length + t'.length < p.length + t.length) :
    stepsLeft p' t' retry' < stepsLeft p t retry :=
  Nat.add_lt_add_of_le_of_lt (Nat.mul_le_mul htext (by omega)) hlength

theorem stepsLeft_lt_of_textLeft_lt (hpattern : patternLeft p' retry' ≤ patternLeft p retry)
    (htext : textLeft t' retry' < textLeft t retry) :
    stepsLeft p' t' retry' < stepsLeft p t retry := by
  have hp : p'.length ≤ patternLeft p' retry' := Nat.le_max_left ..
  have ht : t'.length ≤ textLeft t' retry' := Nat.le_max_left ..
  calc stepsLeft p' t' retry'
      < (textLeft t' retry' + 1) * (patternLeft p' retry' + textLeft t' retry' + 2) := by
        rw [stepsLeft, Nat.add_mul, Nat.one_mul]
        omega
    _ ≤ textLeft t retry * (patternLeft p retry + textLeft t retry + 2) :=
        Nat.mul_le_mul htext (by omega)
    _ ≤ stepsLeft p t retry := Nat.le_add_right ..

end Steps

/-! ## Matching -/

variable [DecidableEq α]

/-- Match item by item what is left of the pattern and of the text. -/
def loop (star : α) (p : List α) : List α → Option (Retry α) → Bool
  | [], _ => p.all (· = star)
  | c :: t, retry =>
    if _hstar : p.head? = some star then
      loop star p.tail (c :: t) (some ⟨p.tail, c :: t⟩)
    else if _hitem : p.head? = some c then loop star p.tail t retry
    else
      match retry with
      | some ⟨q, _ :: u⟩ => loop star q u (some ⟨q, u⟩)
      | _ => false
termination_by t retry => stepsLeft p t retry
decreasing_by
  · obtain ⟨p, rfl⟩ := List.head?_eq_some_iff.1 _hstar
    refine stepsLeft_lt_of_length_lt ?_ ?_ ?_ <;>
      simp only [patternLeft, textLeft, Option.elim_some, List.tail_cons, List.length_cons] <;> omega
  · obtain ⟨p, rfl⟩ := List.head?_eq_some_iff.1 _hitem
    refine stepsLeft_lt_of_length_lt ?_ ?_ ?_ <;>
      simp only [patternLeft, textLeft, List.tail_cons, List.length_cons] <;> omega
  · refine stepsLeft_lt_of_textLeft_lt ?_ ?_ <;>
      simp only [patternLeft, textLeft, Option.elim_some, List.length_cons] <;> omega

/-- Whether the pattern matches all of the text. -/
def matchesList (star : α) (p t : List α) : Bool :=
  loop star p t none

/-- Whether the glob matches a name, compared byte by byte. -/
def isMatch (g : Glob) (name : String) : Bool :=
  matchesList '*'.toUInt8 (Text.bytes g.text.toList) (Text.bytes name.toList)

def hasStar (g : Glob) : Bool :=
  g.text.toList.contains '*'

end Glob
end JavaThrows
