import JavaThrows.Text.Span

set_option autoImplicit false

/-!
# Cutting spans out of a text

What is left of a text when some of its spans are deleted, said character by character: a character
goes exactly if a span covers its first byte. Nothing is said about an order in which the spans are
deleted, so only the set of covered bytes counts (`cut_congr`). Main statement: `cut_cons`, the
spans can be cut out one by one as long as none that is left reaches past the start of the one that
is cut.
-/

namespace JavaThrows

namespace Span

/-- Whether the byte at an offset lies in the span. -/
def covers (s : Span) (offset : Nat) : Bool :=
  s.start ≤ offset && offset < s.stop

/-- One of the spans ends before the other one starts. -/
def Disjoint (a b : Span) : Prop :=
  a.stop ≤ b.start ∨ b.stop ≤ a.start

theorem Disjoint.symm {a b : Span} (h : a.Disjoint b) : b.Disjoint a :=
  Or.symm h

/-- The first span lies inside the second one. -/
structure Inside (s t : Span) : Prop where
  start : t.start ≤ s.start
  stop : s.stop ≤ t.stop

theorem Disjoint.mono {s s' t t' : Span} (h : s.Disjoint t) (hs : s'.Inside s)
    (ht : t'.Inside t) : s'.Disjoint t' := by
  obtain ⟨hs₁, hs₂⟩ := hs
  obtain ⟨ht₁, ht₂⟩ := ht
  unfold Disjoint at *
  omega

theorem covers_iff {s : Span} {o : Nat} : s.covers o ↔ s.start ≤ o ∧ o < s.stop := by
  simp [covers]

/-- The span runs forward, from one place of the text to another one. -/
structure IsPieceOf (s : Span) (text : List Char) : Prop where
  ordered : s.start ≤ s.stop
  start_isBoundary : Text.isBoundary text s.start
  stop_isBoundary : Text.isBoundary text s.stop

end Span

/-- Whether one of the spans covers a byte. -/
def CoveredBy (spans : List Span) (o : Nat) : Prop :=
  ∃ s ∈ spans, s.covers o

@[simp] theorem coveredBy_nil (o : Nat) : ¬ CoveredBy [] o := by
  simp [CoveredBy]

@[simp] theorem coveredBy_cons {s : Span} {ss : List Span} {o : Nat} :
    CoveredBy (s :: ss) o ↔ s.covers o ∨ CoveredBy ss o := by
  simp [CoveredBy]

theorem coveredBy_append {ss ts : List Span} {o : Nat} :
    CoveredBy (ss ++ ts) o ↔ CoveredBy ss o ∨ CoveredBy ts o := by
  simp only [CoveredBy, List.mem_append, or_and_right, exists_or]

theorem any_covers_iff {ss : List Span} {o : Nat} : ss.any (·.covers o) ↔ CoveredBy ss o := by
  rw [List.any_eq_true, CoveredBy]

namespace Text

/-! ## Places of a text -/

theorem isBoundary_iff {text : List Char} {n : Nat} :
    isBoundary text n ↔ ∃ a b, text = a ++ b ∧ byteLength a = n := by
  simp only [isBoundary, Option.isSome_iff_exists, Prod.exists, splitAt?_eq_some_iff]

theorem le_byteLength_of_isBoundary {text : List Char} {n : Nat} (h : isBoundary text n) :
    n ≤ byteLength text := by
  obtain ⟨a, b, rfl, rfl⟩ := isBoundary_iff.1 h
  rw [byteLength_append]
  exact Nat.le_add_right _ _

theorem byteLength_eq_zero {text : List Char} (h : byteLength text = 0) : text = [] := by
  cases text with
  | nil => rfl
  | cons c cs =>
    have := c.utf8Size_pos
    simp only [byteLength] at h
    omega

/-- Of two ways to write a text in two parts, the first part of one starts with that of the
    other. -/
theorem exists_append_of_byteLength_le {a b a' b' : List Char} (h : a ++ b = a' ++ b')
    (hle : byteLength a ≤ byteLength a') : ∃ t, a' = a ++ t ∧ b = t ++ b' := by
  rcases List.append_eq_append_iff.1 h with ⟨t, ha, hb⟩ | ⟨t, ha, hb⟩
  · exact ⟨t, ha, hb⟩
  · have ht : t = [] := by
      apply byteLength_eq_zero
      rw [ha, byteLength_append] at hle
      omega
    subst ht
    exact ⟨[], by simpa using ha.symm, by simpa using hb.symm⟩

/-- A place in the first part of a text is a place of that part. -/
theorem isBoundary_append_left {a b : List Char} {n : Nat} (h : n ≤ byteLength a) :
    isBoundary (a ++ b) n ↔ isBoundary a n := by
  rw [isBoundary_iff, isBoundary_iff]
  constructor
  · rintro ⟨x, y, hxy, rfl⟩
    obtain ⟨t, ha, -⟩ := exists_append_of_byteLength_le hxy.symm h
    exact ⟨x, t, ha, rfl⟩
  · rintro ⟨x, y, rfl, rfl⟩
    exact ⟨x, y ++ b, by rw [List.append_assoc], rfl⟩

/-- A piece of a text stands between two other parts of it. -/
theorem exists_parts_of_isPieceOf {s : Span} {text : List Char} (h : s.IsPieceOf text) :
    ∃ a b c, text = a ++ (b ++ c) ∧ byteLength a = s.start ∧
      byteLength a + byteLength b = s.stop := by
  obtain ⟨a, x, hax, ha⟩ := isBoundary_iff.1 h.start_isBoundary
  obtain ⟨y, c, hyc, hy⟩ := isBoundary_iff.1 h.stop_isBoundary
  have hle : byteLength a ≤ byteLength y := by
    have := h.ordered
    omega
  obtain ⟨b, rfl, rfl⟩ := exists_append_of_byteLength_le (hax.symm.trans hyc) hle
  exact ⟨a, b, c, hax, ha, by rw [← byteLength_append, hy]⟩

/-! ## Cutting -/

/-- The characters of a text that starts at `offset` whose first bytes no span covers. -/
def cutFrom (spans : List Span) (offset : Nat) : List Char → List Char
  | [] => []
  | c :: cs =>
    if spans.any (·.covers offset) then cutFrom spans (offset + c.utf8Size) cs
    else c :: cutFrom spans (offset + c.utf8Size) cs

/-- A text without the characters that the spans cover. -/
def cut (spans : List Span) (text : List Char) : List Char :=
  cutFrom spans 0 text

theorem cutFrom_append (spans : List Span) (offset : Nat) (a b : List Char) :
    cutFrom spans offset (a ++ b) =
      cutFrom spans offset a ++ cutFrom spans (offset + byteLength a) b := by
  induction a generalizing offset with
  | nil => simp [cutFrom, byteLength]
  | cons c cs ih =>
    simp only [List.cons_append, cutFrom, byteLength, ih, ← Nat.add_assoc]
    split <;> simp

/-- Only the set of covered bytes counts, and only as far as the text reaches. -/
theorem cutFrom_congr {ss ts : List Span} {offset : Nat} {text : List Char}
    (h : ∀ o, offset ≤ o → o < offset + byteLength text →
      ss.any (·.covers o) = ts.any (·.covers o)) :
    cutFrom ss offset text = cutFrom ts offset text := by
  -- Over the text, with the offset moving along.
  induction text generalizing offset with
  | nil => rfl
  | cons c cs ih =>
    have hc := c.utf8Size_pos
    simp only [byteLength] at h
    have hhere := h offset (Nat.le_refl _) (by omega)
    have hrest : cutFrom ss (offset + c.utf8Size) cs = cutFrom ts (offset + c.utf8Size) cs :=
      ih fun o hle hlt => h o (by omega) (by omega)
    simp only [cutFrom, hhere, hrest]

theorem cutFrom_nil (offset : Nat) (text : List Char) : cutFrom [] offset text = text := by
  induction text generalizing offset with
  | nil => rfl
  | cons c cs ih => simp [cutFrom, ih]

theorem cutFrom_eq_self {spans : List Span} {offset : Nat} {text : List Char}
    (h : ∀ s ∈ spans, s.stop ≤ offset ∨ offset + byteLength text ≤ s.start) :
    cutFrom spans offset text = text := by
  refine (cutFrom_congr fun o hle hlt => ?_).trans (cutFrom_nil offset text)
  simp only [List.any_nil, List.any_eq_false, Span.covers, Bool.and_eq_true, decide_eq_true_eq]
  intro s hs
  have := h s hs
  omega

theorem cutFrom_eq_nil {spans : List Span} {s : Span} {offset : Nat} {text : List Char}
    (hs : s ∈ spans) (hstart : s.start ≤ offset) (hstop : offset + byteLength text ≤ s.stop) :
    cutFrom spans offset text = [] := by
  induction text generalizing offset with
  | nil => rfl
  | cons c cs ih =>
    have hc := c.utf8Size_pos
    simp only [byteLength] at hstop
    have hcover : spans.any (·.covers offset) = true := by
      rw [List.any_eq_true]
      exact ⟨s, hs, by simp only [Span.covers, Bool.and_eq_true, decide_eq_true_eq]; omega⟩
    rw [cutFrom, if_pos hcover]
    exact ih (by omega) (by omega)

/-- Spans that cover the same bytes cut the same out of a text. -/
theorem cut_congr {ss ts : List Span} (h : ∀ o, ss.any (·.covers o) = ts.any (·.covers o))
    (text : List Char) : cut ss text = cut ts text :=
  cutFrom_congr fun o _ _ => h o

/-- The order of the spans does not count. -/
theorem cut_perm {ss ts : List Span} (h : ss.Perm ts) (text : List Char) :
    cut ss text = cut ts text :=
  cut_congr (fun _ => h.any_eq) text

theorem cut_singleton_parts {s : Span} {a b c : List Char} (hstart : byteLength a = s.start)
    (hstop : byteLength a + byteLength b = s.stop) : cut [s] (a ++ (b ++ c)) = a ++ c := by
  unfold cut
  have hfront : cutFrom [s] 0 a = a := cutFrom_eq_self (by simp; omega)
  rw [cutFrom_append, cutFrom_append, hfront,
    cutFrom_eq_nil (s := s) (by simp) (by omega) (by omega),
    cutFrom_eq_self (by simp; omega), List.nil_append]

/-- Cutting an empty span out changes nothing. -/
theorem cut_singleton_of_empty {s : Span} (h : s.stop ≤ s.start) (text : List Char) :
    cut [s] text = text := by
  unfold cut
  refine (cutFrom_congr fun o _ _ => ?_).trans (cutFrom_nil 0 text)
  simp only [List.any_cons, List.any_nil, Bool.or_false, Span.covers, Bool.and_eq_false_iff,
    decide_eq_false_iff_not]
  omega

/-- **Spans can be cut out one by one**, if those that are left end before the one that is cut, or
    if that one is empty. -/
theorem cut_cons {s : Span} {ss : List Span} {text : List Char} (hs : s.IsPieceOf text)
    (hss : ∀ t ∈ ss, t.stop ≤ s.start ∨ s.stop ≤ s.start) :
    cut ss (cut [s] text) = cut (s :: ss) text := by
  by_cases hempty : s.stop ≤ s.start
  · rw [cut_singleton_of_empty hempty]
    refine cut_congr (fun o => ?_) text
    have hcover : s.covers o = false := by
      simp only [Span.covers, Bool.and_eq_false_iff, decide_eq_false_iff_not]
      omega
    simp [hcover]
  · have hbefore : ∀ t ∈ ss, t.stop ≤ s.start := fun t ht => (hss t ht).resolve_right hempty
    obtain ⟨a, b, c, rfl, hstart, hstop⟩ := exists_parts_of_isPieceOf hs
    rw [cut_singleton_parts hstart hstop]
    unfold cut
    -- `s` takes out `b`; the other spans take from `a` alone, whether or not `b` is still there.
    have hfront : cutFrom (s :: ss) 0 a = cutFrom ss 0 a := by
      refine cutFrom_congr fun o _ hlt => ?_
      have hcover : s.covers o = false := by
        simp only [Span.covers, Bool.and_eq_false_iff, decide_eq_false_iff_not]
        omega
      simp [hcover]
    have hback : cutFrom (s :: ss) (0 + byteLength a + byteLength b) c = c := by
      refine cutFrom_eq_self fun t ht => .inl ?_
      rcases List.mem_cons.1 ht with rfl | ht
      · omega
      · have := hbefore t ht
        omega
    have hmiddle : cutFrom (s :: ss) (0 + byteLength a) b = [] :=
      cutFrom_eq_nil (s := s) (by simp) (by omega) (by omega)
    have hkept : cutFrom ss (0 + byteLength a) c = c :=
      cutFrom_eq_self fun t ht => .inl (by
        have := hbefore t ht
        omega)
    rw [cutFrom_append, cutFrom_append, cutFrom_append, hfront, hmiddle, hback, hkept,
      List.nil_append]

/-- A piece of a text in front of one that is cut out stays a piece. -/
theorem isPieceOf_cut {s t : Span} {text : List Char} (hs : s.IsPieceOf text)
    (ht : t.IsPieceOf text) (hbefore : t.stop ≤ s.start ∨ s.stop ≤ s.start) :
    t.IsPieceOf (cut [s] text) := by
  rcases hbefore with hle | hempty
  · obtain ⟨a, b, c, rfl, hstart, hstop⟩ := exists_parts_of_isPieceOf hs
    have hord := ht.ordered
    rw [cut_singleton_parts hstart hstop]
    refine ⟨hord, ?_, ?_⟩
    · have h := ht.start_isBoundary
      rwa [isBoundary_append_left (by omega)] at h ⊢
    · have h := ht.stop_isBoundary
      rwa [isBoundary_append_left (by omega)] at h ⊢
  · rwa [cut_singleton_of_empty hempty]

end Text
end JavaThrows
