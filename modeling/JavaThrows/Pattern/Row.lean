set_option autoImplicit false

/-!
# Rows with room in them

Matching a row of patterns against a row of items, one pattern for one item, where some patterns
leave room for any number of items. The segments of names and the arguments of methods are such
rows.
-/

namespace JavaThrows

variable {π α : Type}

/-- Whether some rest of the list, from the whole list down to nothing, has the property. -/
def anySuffix (p : List α → Bool) : List α → Bool
  | [] => p []
  | x :: xs => p (x :: xs) || anySuffix p xs

theorem anySuffix_eq_true_iff {p : List α → Bool} {xs : List α} :
    anySuffix p xs = true ↔ ∃ front rest, xs = front ++ rest ∧ p rest = true := by
  induction xs with
  | nil =>
    constructor
    · exact fun h => ⟨[], [], rfl, h⟩
    · rintro ⟨front, rest, hx, h⟩
      obtain ⟨rfl, rfl⟩ := List.append_eq_nil_iff.1 hx.symm
      exact h
  | cons x xs ih =>
    rw [anySuffix, Bool.or_eq_true, ih]
    constructor
    · rintro (h | ⟨front, rest, rfl, h⟩)
      · exact ⟨[], _, rfl, h⟩
      · exact ⟨x :: front, rest, rfl, h⟩
    · rintro ⟨front, rest, hx, h⟩
      cases front with
      | nil => exact .inl (by rw [hx]; exact h)
      | cons y front =>
        simp only [List.cons_append, List.cons.injEq] at hx
        exact .inr ⟨front, rest, hx.2, h⟩

/-- Whether a row of patterns matches a row of items with nothing left over. -/
def rowMatch (isRun : π → Bool) (isMatch : π → α → Bool) : List π → List α → Bool
  | [], xs => xs.isEmpty
  | p :: ps, xs =>
    if isRun p then anySuffix (rowMatch isRun isMatch ps) xs
    else
      match xs with
      | [] => false
      | x :: xs => isMatch p x && rowMatch isRun isMatch ps xs

end JavaThrows
