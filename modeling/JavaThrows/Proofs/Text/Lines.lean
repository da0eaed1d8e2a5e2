import JavaThrows.Proofs.Text.DeletedLines

set_option autoImplicit false

/-!
# Blanks around a piece of a line

The blanks that go with a deleted piece of a text are whole characters, and all of them are white
space. Main statements: `skipBlankLines?_eq_some`, blank lines after a place of the text end at a
place of it, and `lineSpan_padded`, what goes with a piece of a text is the piece with white space
around it.
-/

namespace JavaThrows.Text

open JavaThrows.Unicode

/-! ## White space between places -/

/-- The characters that start between the two offsets are white space. -/
def BlankBetween (text : List Char) (x y : Nat) : Prop :=
  ∀ a c b, text = a ++ c :: b → x ≤ byteLength a → byteLength a < y → isSpace c

/-- A character that is no white space starts at the offset. -/
def SolidAt (text : List Char) (o : Nat) : Prop :=
  ∃ a c b, text = a ++ c :: b ∧ byteLength a = o ∧ isSpace c = false

/-- A character that is no white space ends at the offset. -/
def SolidBefore (text : List Char) (o : Nat) : Prop :=
  ∃ a c b, text = a ++ c :: b ∧ byteLength a + c.utf8Size = o ∧ isSpace c = false

variable {text : List Char}

theorem SolidAt.outside {x y o : Nat} (hsolid : SolidAt text o) (h : BlankBetween text x y) :
    o < x ∨ y ≤ o := by
  obtain ⟨a, c, b, htext, rfl, hc⟩ := hsolid
  rcases Nat.lt_or_ge (byteLength a) x with hlt | hge
  · exact .inl hlt
  · refine .inr (Nat.le_of_not_lt fun hlt => ?_)
    simp [h a c b htext hge hlt] at hc

theorem SolidBefore.outside {x y o : Nat} (hsolid : SolidBefore text o)
    (h : BlankBetween text x y) (hx : isBoundary text x) : o ≤ x ∨ y < o := by
  obtain ⟨a, c, b, htext, rfl, hc⟩ := hsolid
  have hpos := c.utf8Size_pos
  rcases Nat.lt_or_ge (byteLength a) x with hlt | hge
  · -- No place of the text lies inside a character.
    left
    obtain ⟨a', b', htext', rfl⟩ := isBoundary_iff.1 hx
    obtain ⟨t, rfl, ht⟩ := exists_append_of_byteLength_le (htext.symm.trans htext') (by omega)
    cases t with
    | nil => simp at hlt
    | cons d t =>
      obtain ⟨rfl, -⟩ := List.cons.inj ht
      rw [byteLength_append, byteLength]
      omega
  · right
    have hstop : ¬ byteLength a < y := fun hlt => by simp [h a c b htext hge hlt] at hc
    omega

theorem blankBetween_self (text : List Char) (x : Nat) : BlankBetween text x x :=
  fun _ _ _ _ hge hlt => absurd hge (by omega)

theorem BlankBetween.trans {x y z : Nat} (hxy : BlankBetween text x y)
    (hyz : BlankBetween text y z) : BlankBetween text x z := by
  intro a c b htext hge hlt
  rcases Nat.lt_or_ge (byteLength a) y with hy | hy
  · exact hxy a c b htext hge hy
  · exact hyz a c b htext hy hlt

theorem BlankBetween.of_parts {a b c : List Char} {x y : Nat} (hb : ∀ d ∈ b, isSpace d)
    (hx : byteLength a = x) (hy : byteLength a + byteLength b = y) :
    BlankBetween (a ++ (b ++ c)) x y := by
  subst hx hy
  intro a' d c' htext hge hlt
  -- The character stands behind `a`, and `b` has not ended before it.
  obtain ⟨t, rfl, ht⟩ := exists_append_of_byteLength_le htext hge
  rw [byteLength_append] at hlt
  obtain ⟨u, rfl, hu⟩ := exists_append_of_byteLength_le ht.symm (by omega)
  cases u with
  | nil => simp at hlt
  | cons e u =>
    obtain ⟨rfl, -⟩ := List.cons.inj hu
    exact hb d (List.mem_append_right _ List.mem_cons_self)

/-! ## Blank lines -/

/-- Blank lines after a place of the text end at a place of the text. -/
theorem skipBlankLines?_eq_some {source : List Char} {offset : Nat}
    (h : isBoundary source offset) :
    ∃ stop, skipBlankLines? source offset = some stop ∧ offset ≤ stop ∧
      isBoundary source stop ∧ BlankBetween source offset stop := by
  obtain ⟨stop, hskip, front, rows, rest, rfl, rfl, rfl, hrows, -⟩ := skipBlankLines?_rows h
  refine ⟨_, hskip, ?_, isBoundary_iff.2 ⟨front ++ terminated rows, rest, by simp, rfl⟩,
    .of_parts (isSpace_of_mem_terminated hrows) rfl (byteLength_append _ _).symm⟩
  rw [byteLength_append]
  exact Nat.le_add_right _ _

/-! ## Pieces with white space around them -/

/-- The second span is a piece of the text: the first one with white space around it. -/
structure Padded (text : List Char) (s t : Span) : Prop where
  isPieceOf : t.IsPieceOf text
  inside : s.Inside t
  before : BlankBetween text t.start s.start
  after : BlankBetween text s.stop t.stop

/-- **What goes with a piece of a text** is the piece with white space around it. -/
theorem lineSpan_padded {s : Span} (h : s.IsPieceOf text) :
    Padded text s (lineSpan text s) := by
  obtain ⟨p, rfl, rfl, hdeletion, hblanks, -⟩ := lineSpan_surroundings h
  rw [← hdeletion]
  refine ⟨p.deletion_isPieceOf, p.span_inside_deletion, ?_, ?_⟩
  · exact .of_parts (fun c hc => (hblanks.before c hc).1) rfl (byteLength_append _ _).symm
  · have hbreak : ∀ c ∈ p.lineBreak, isSpace c := by
      rcases hblanks.lineBreak with hbreak | ⟨hbreak, -⟩ <;> rw [hbreak]
      · exact List.forall_mem_nil _
      · exact List.forall_mem_singleton.2 rfl
    have hparts : p.text =
        (p.front ++ p.before ++ p.piece) ++ ((p.after ++ p.lineBreak) ++ p.rest) := by
      simp [Surroundings.text]
    rw [hparts]
    refine .of_parts (List.forall_mem_append.2 ⟨fun c hc => (hblanks.after c hc).1, hbreak⟩) rfl ?_
    simp only [Surroundings.deletion, byteLength_append, Nat.add_assoc]

/-- What goes with a piece of a text is a piece of the text. -/
theorem lineSpan_isPieceOf {s : Span} (h : s.IsPieceOf text) :
    (lineSpan text s).IsPieceOf text :=
  (lineSpan_padded h).isPieceOf

end JavaThrows.Text
