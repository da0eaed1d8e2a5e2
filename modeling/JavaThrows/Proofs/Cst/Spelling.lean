import JavaThrows.Proofs.Cst.Nesting
import JavaThrows.Proofs.Cst.Scanned

set_option autoImplicit false

/-!
# What tokens and names are spelled with

The text of a token is what its span cuts out of the source, and a word is spelled with the
characters of words. A name in a tree is the node of one word, so the name of a declared type holds
no point: whatever points a full name has were put there when it was composed. Main statement:
`javaTree_type_name`.
-/

namespace JavaThrows.Cst

open Text Unicode

/-! ## Pieces of a source -/

theorem slice_middle (front middle rest : List Char) :
    slice (front ++ middle ++ rest) ⟨byteLength front, byteLength (front ++ middle)⟩ =
      String.ofList middle := by
  rw [slice, slice?, if_pos (by simp [byteLength_append]), List.append_assoc, splitAt?_append]
  simp only [Option.bind_some, byteLength_append, Nat.add_sub_cancel_left, splitAt?_append,
    Option.map_some, Option.getD_some]

/-- The characters of words, those at the start included. -/
def isWordChar (c : Char) : Bool :=
  isWordStart c || isWordPart c

/-- The text of the token stands in its place, and a word is made of the characters of words. -/
structure Token.Spelled (source : List Char) (t : Token) : Prop where
  text : slice source t.span = t.text
  word : t.kind = .word → ∀ c ∈ t.text.toList, isWordChar c

/-- A string literal or a piece of one is a token, and no word. -/
theorem textPiece_cases {inside block : Bool} {opening : Nat} {holes : List Hole}
    {cs : List Char} {p : Piece} (h : textPiece inside block opening holes cs = some p) :
    ∃ kind length holes', p = .token kind length holes' ∧ kind ≠ .word := by
  unfold textPiece at h
  obtain ⟨⟨n, stop⟩, -, rfl⟩ := Option.map_eq_some_iff.1 h
  cases stop <;> cases inside <;> exact ⟨_, _, _, rfl, by simp⟩

/-- **A piece is a blank, a comment, a word, or a token that does not start like a word.** -/
theorem piece_cases {holes : List Hole} {c : Char} {cs : List Char} {p : Piece}
    (h : piece holes (c :: cs) = some p) :
    (p = .blank ∧ isAsciiSpace c) ∨ (∃ block length, p = .comment block length) ∨
      (p = .token .word (1 + (cs.takeWhile isWordPart).length) holes ∧ isWordStart c) ∨
      ∃ kind length holes', p = .token kind length holes' ∧ kind ≠ .word ∧ ¬ isWordStart c := by
  rw [piece] at h
  split at h
  · next hspace => exact .inl ⟨(Option.some.inj h).symm, hspace⟩
  split at h
  · exact .inr (.inl ⟨_, _, (Option.some.inj h).symm⟩)
  split at h
  · obtain ⟨n, -, rfl⟩ := Option.map_eq_some_iff.1 h
    exact .inr (.inl ⟨_, _, rfl⟩)
  split at h
  · next hword => exact .inr (.inr (.inl ⟨(Option.some.inj h).symm, hword⟩))
  next hword =>
  -- What is left are tokens of several kinds.
  refine .inr (.inr (.inr ?_))
  suffices hkind : ∃ kind length holes', p = .token kind length holes' ∧ kind ≠ .word by
    obtain ⟨kind, length, holes', hp, hkind⟩ := hkind
    exact ⟨kind, length, holes', hp, hkind, hword⟩
  split at h
  · split at h <;> exact textPiece_cases h
  split at h
  · split at h
    · split at h
      · simp at h
      · exact ⟨_, _, _, (Option.some.inj h).symm, by simp⟩
    · simp at h
  split at h
  · exact ⟨_, _, _, (Option.some.inj h).symm, by simp⟩
  split at h
  · simp at h
  split at h
  · exact ⟨_, _, _, (Option.some.inj h).symm, by simp⟩
  · exact textPiece_cases h
  · exact ⟨_, _, _, (Option.some.inj h).symm, by simp⟩
  · exact ⟨_, _, _, (Option.some.inj h).symm, by simp⟩

/-- **A word is a run of characters of words.** -/
theorem isWordChar_of_piece {holes holes' : List Hole} {c : Char} {cs : List Char} {length : Nat}
    (h : piece holes (c :: cs) = some (.token .word length holes')) :
    ∀ d ∈ (c :: cs).take length, isWordChar d := by
  rcases piece_cases h with ⟨hp, -⟩ | ⟨_, _, hp⟩ | ⟨hp, hword⟩ | ⟨kind, _, _, hp, hkind, -⟩
  · cases hp
  · cases hp
  · obtain ⟨-, rfl, -⟩ := Piece.token.inj hp
    rw [Nat.add_comm, List.take_succ_cons, List.forall_mem_cons]
    refine ⟨by simp [isWordChar, hword], fun d hd => ?_⟩
    rw [← List.prefix_iff_eq_take.1 (List.takeWhile_prefix isWordPart)] at hd
    simp [isWordChar, List.mem_takeWhile_imp hd]
  · exact absurd (Piece.token.inj hp).1.symm hkind

/-- The texts of the tokens stand in their places. -/
theorem Scanned.spelled {source front : List Char} {last : Nat} {comments : List Comment}
    {holes : List Hole} {s : Scan} (h : Scanned source front last comments holes s) :
    ∀ t ∈ s.tokens, t.Spelled source := by
  induction h with
  | done => simp
  | blank _ _ _ ih => exact ih
  | comment _ _ _ ih => exact ih
  | @token front cs c kind length _ _ _ _ _ hsource hpiece _ ih =>
    have hcut : source = front ++ (c :: cs).take length ++ (c :: cs).drop length := by
      rw [hsource, List.append_assoc, List.take_append_drop]
    refine List.forall_mem_cons.2 ⟨⟨?_, fun hkind => ?_⟩, ih⟩
    · rw [hcut]
      exact slice_middle _ _ _
    · obtain rfl : kind = .word := hkind
      rw [String.toList_ofList]
      exact isWordChar_of_piece hpiece

theorem scan_spelled {source : List Char} {s : Scan} (h : scan source = .ok s) :
    ∀ t ∈ s.tokens, t.Spelled source := by
  obtain ⟨front, holes, hscanned⟩ := scan_scanned h
  exact hscanned.spelled

/-! ## Names -/

/-- A node of an identifier is spelled with the characters of words. -/
def Node.WordName (source : List Char) (n : Node) : Prop :=
  n.label = some "identifier" → ∀ c ∈ (slice source n.span).toList, isWordChar c

/-- Whether only words are what the terminal asks for. -/
def Terminal.isOfWords : Terminal → Bool
  | .wordExcept _ | .wordAmong _ => true
  | _ => false

/-- Identifiers are words, and neither larger nodes nor the larger nodes of a chain. -/
def nameChecks {σ : Type} : LocalChecks σ where
  leaf t kind := kind != some "identifier" || t.isOfWords
  node kind _ := kind != "identifier"
  chain _ b := b.labels (· != some "identifier") fun _ => false

theorem enforces_wordName {σ : Type} {g : Grammar σ} {source : List Char} (bound : Nat) :
    Enforces nameChecks (Token.Spelled source) (g.read bound) (Node.WordName source) where
  field _ _ hn := hn
  comment c := fun hlabel => by
    obtain ⟨block, span⟩ := c
    cases block <;> simp [Comment.node, Comment.kind, Node.label] at hlabel
  leaf := by
    intro t kind token hcheck hspelled haccepts hlabel
    cases kind with
    | none => simp [Node.label] at hlabel
    | some kind =>
      obtain rfl : kind = "identifier" := by simpa [Node.label] using hlabel
      have hword : token.kind = .word := by
        cases t <;> simp_all [nameChecks, Terminal.isOfWords, Terminal.accepts]
      show ∀ c ∈ (slice source token.span).toList, _
      rw [hspelled.text]
      exact hspelled.word hword
  node := by
    intro kind a hcheck _ _ _ _ _ _ _ hlabel
    exact absurd (by simpa [Node.label] using hlabel) (by simpa [nameChecks] using hcheck)
  chain := by
    intro a b hcheck
    refine chain_of_nodes (Q := fun _ => True) (fun _ _ _ => trivial) (Rule.labels_closed hcheck)
      (fun _ _ => trivial) fun inner outer front span _ houter _ _ => ⟨trivial, fun hlabel => ?_⟩
    have hlabel : outer.label = some "identifier" := hlabel
    rcases houter with h | h
    · have hkind : outer.kind = "identifier" := by
        unfold Node.label at hlabel
        split at hlabel
        · exact Option.some.inj hlabel
        · simp at hlabel
      simp [Node.isComment, hkind] at h
    · exact absurd hlabel (by simpa using h)

section Java

variable {source : List Char} {root : Node} (h : javaTree source = some root)

include h

/-- **Identifiers are spelled with the characters of words.** -/
theorem javaTree_wordName : ∀ c ∈ root.children, c.Everywhere (Node.WordName source) := by
  refine everywhere_of_javaTree enforces_wordName (fun s => ?_) (by decide)
    (fun s hs => scan_spelled hs) h
  cases s <;> decide

/-- **The name of a declared type is an identifier.** -/
theorem javaTree_type_name : ∀ c ∈ root.children,
    c.Everywhere (Node.FilledWith typeKinds "name" (labelIn ["identifier"])) := by
  refine everywhere_of_javaTree (enforces_filledWith (fun _ => false)
    (fun s hs => ?_) (fun s => ?_)) (fun s => ?_) (by decide) (fun _ _ _ _ => trivial) h
  · exact absurd hs (by decide)
  · cases s <;> decide
  · cases s <;> decide

end Java

end JavaThrows.Cst
