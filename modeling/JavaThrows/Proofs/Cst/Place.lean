import JavaThrows.Proofs.Cst.Scanned
import JavaThrows.Proofs.Cst.Yield
import JavaThrows.Proofs.Text.Cut

set_option autoImplicit false

/-!
# Places of nodes

The nodes of a concrete tree lie in the source the way they are written: every span is a piece of
the text and not empty, and the children of a node lie inside it one after the other. This holds of
the tokens that a source is cut into, and every kind of rule keeps it. Main statement:
`javaTree_placed`.
-/

namespace JavaThrows.Cst

/-! ## Placed nodes -/

mutual
/-- The span of the node is a piece of the text and not empty, and its children lie inside it one
    after the other. -/
def Node.Placed (text : List Char) : Node → Prop
  | ⟨_, _, _, span, children⟩ =>
    span.IsPieceOf text ∧ span.start < span.stop ∧
      PlacedBetween text span.start span.stop children

/-- The nodes are placed, one after the other, between two offsets. -/
def PlacedBetween (text : List Char) (lo hi : Nat) : List Node → Prop
  | [] => lo ≤ hi
  | n :: ns => lo ≤ n.span.start ∧ n.Placed text ∧ PlacedBetween text n.span.stop hi ns
end

variable {text : List Char}

namespace Node.Placed

theorem isPieceOf {n : Node} (h : n.Placed text) : n.span.IsPieceOf text := by
  cases n
  exact h.1

theorem children {n : Node} (h : n.Placed text) :
    PlacedBetween text n.span.start n.span.stop n.children := by
  cases n
  exact h.2.2

theorem nonempty {n : Node} (h : n.Placed text) : n.span.start < n.span.stop := by
  cases n
  exact h.2.1

end Node.Placed

namespace PlacedBetween

theorem le {lo hi : Nat} {ns : List Node} (h : PlacedBetween text lo hi ns) : lo ≤ hi := by
  induction ns generalizing lo with
  | nil => exact h
  | cons n ns ih =>
    obtain ⟨hlo, hn, hns⟩ := h
    have := hn.nonempty
    have := ih hns
    omega

theorem append {lo mid hi : Nat} {as bs : List Node} (ha : PlacedBetween text lo mid as)
    (hb : PlacedBetween text mid hi bs) : PlacedBetween text lo hi (as ++ bs) := by
  induction as generalizing lo with
  | nil =>
    cases bs with
    | nil =>
      have hlo : lo ≤ mid := ha
      exact Nat.le_trans hlo hb
    | cons b bs =>
      obtain ⟨hlo, hrest⟩ := hb
      exact ⟨Nat.le_trans ha hlo, hrest⟩
  | cons a as ih => exact ⟨ha.1, ha.2.1, ih ha.2.2⟩

theorem exists_of_append {lo hi : Nat} {as bs : List Node}
    (h : PlacedBetween text lo hi (as ++ bs)) :
    ∃ mid, PlacedBetween text lo mid as ∧ PlacedBetween text mid hi bs := by
  induction as generalizing lo with
  | nil => exact ⟨lo, Nat.le_refl lo, h⟩
  | cons a as ih =>
    obtain ⟨hlo, ha, hrest⟩ := h
    obtain ⟨mid, has, hbs⟩ := ih hrest
    exact ⟨mid, ⟨hlo, ha, has⟩, hbs⟩

theorem mono {lo lo' hi hi' : Nat} {ns : List Node} (h : PlacedBetween text lo hi ns)
    (hlo : lo' ≤ lo) (hhi : hi ≤ hi') : PlacedBetween text lo' hi' ns := by
  induction ns generalizing lo lo' with
  | nil =>
    have hle : lo ≤ hi := h
    show lo' ≤ hi'
    omega
  | cons n ns ih => exact ⟨Nat.le_trans hlo h.1, h.2.1, ih h.2.2 (Nat.le_refl _)⟩

theorem placed_of_mem {lo hi : Nat} {ns : List Node} (h : PlacedBetween text lo hi ns) {n : Node}
    (hn : n ∈ ns) : n.Placed text ∧ lo ≤ n.span.start ∧ n.span.stop ≤ hi := by
  obtain ⟨as, bs, rfl⟩ := List.append_of_mem hn
  obtain ⟨mid, has, hlo, hplaced, hbs⟩ := h.exists_of_append
  have := has.le
  have := hbs.le
  exact ⟨hplaced, by omega, by omega⟩

/-- Each node ends before the next one starts. -/
theorem pairwise {lo hi : Nat} {ns : List Node} (h : PlacedBetween text lo hi ns) :
    ns.Pairwise fun m n => m.span.stop ≤ n.span.start := by
  induction ns generalizing lo with
  | nil => exact List.Pairwise.nil
  | cons n ns ih =>
    exact List.pairwise_cons.2 ⟨fun m hm => (h.2.2.placed_of_mem hm).2.1, ih h.2.2⟩

/-- The nodes end where the last one ends. -/
theorem to_getLastD {lo hi : Nat} {n : Node} {ns : List Node}
    (h : PlacedBetween text lo hi (n :: ns)) :
    PlacedBetween text n.span.start ((n :: ns).getLastD n).span.stop (n :: ns) ∧
      ((n :: ns).getLastD n).span.stop ≤ hi := by
  induction ns generalizing lo n with
  | nil =>
    obtain ⟨-, hn, hle⟩ := h
    exact ⟨⟨Nat.le_refl _, hn, Nat.le_refl _⟩, hle⟩
  | cons m ms ih =>
    obtain ⟨-, hn, hrest⟩ := h
    obtain ⟨hms, hle⟩ := ih hrest
    simp only [List.getLastD_cons] at hms hle ⊢
    exact ⟨⟨Nat.le_refl _, hn, hms.mono hrest.1 (Nat.le_refl _)⟩, hle⟩

end PlacedBetween

/-- A node without children is placed if its span is a piece of the text and not empty. -/
theorem placed_leaf {kind : String} {field : Option String} {named : Bool} {span : Span}
    (h : span.IsPieceOf text) (hne : span.start < span.stop) :
    Node.Placed text ⟨kind, field, named, span, []⟩ :=
  ⟨h, hne, Nat.le_of_lt hne⟩

/-! ## Building nodes -/

/-- Enclosing puts a node around all that follows the comments in front. -/
theorem enclose_placed {lo hi : Nat} {kind : String} {ns : List Node}
    (h : PlacedBetween text lo hi ns) : PlacedBetween text lo hi (enclose kind ns) := by
  rcases enclose_cases kind ns with
    ⟨-, heq⟩ | ⟨comments, first, others, hparts, -, -, heq⟩
  · rwa [heq]
  · rw [heq]
    rw [hparts] at h
    obtain ⟨mid, hcomments, hnodes⟩ := h.exists_of_append
    -- The new node reaches from the first of its nodes to the last one.
    obtain ⟨htight, hle⟩ := hnodes.to_getLastD
    have hmem : (first :: others).getLastD first ∈ first :: others := by
      rw [List.getLastD_cons]
      exact List.getLastD_mem_cons
    obtain ⟨hlast, -⟩ := hnodes.placed_of_mem hmem
    have hfirst := hnodes.2.1.nonempty
    have hrest := htight.2.2.le
    refine hcomments.append ⟨hnodes.1, ⟨⟨htight.le, hnodes.2.1.isPieceOf.start_isBoundary,
      hlast.isPieceOf.stop_isBoundary⟩, ?_, htight⟩, hle⟩
    show first.span.start < ((first :: others).getLastD first).span.stop
    omega

theorem placed_field {n : Node} {field : Option String} :
    Node.Placed text { n with field } ↔ n.Placed text := by
  cases n
  exact Iff.rfl

theorem fill_placed {lo hi : Nat} {name : String} {ns : List Node}
    (h : PlacedBetween text lo hi ns) : PlacedBetween text lo hi (fill name ns) := by
  unfold fill
  induction ns generalizing lo with
  | nil => exact h
  | cons n ns ih =>
    obtain ⟨hlo, hn, hns⟩ := h
    rw [List.map_cons]
    split
    · exact ⟨hlo, hn, ih hns⟩
    · exact ⟨hlo, placed_field.2 hn, ih hns⟩

/-- Extending makes the last node the first child of a larger node. -/
theorem extend_placed {lo mid hi : Nat} {before more : List Node}
    (hbefore : PlacedBetween text lo mid before) (hmore : PlacedBetween text mid hi more) :
    PlacedBetween text lo hi (extend before more) := by
  unfold extend
  split
  · next inner front outer comments hinner houter =>
    rw [List.reverse_eq_cons_iff] at hinner houter
    subst hinner houter
    obtain ⟨mid₁, hfront, hlo₁, hin, hle₁⟩ := hbefore.exists_of_append
    obtain ⟨mid₂, hcomments, hlo₂, hout, hle₂⟩ := hmore.exists_of_append
    -- The comments between the two move inside, so the children are still in order.
    have hinside : PlacedBetween text inner.span.start outer.span.stop
        (inner :: comments.reverse ++ outer.children) := by
      have hrest := (hcomments.mono hle₁ hlo₂).append hout.children
      exact ⟨Nat.le_refl _, hin, hrest⟩
    have hinner := hin.nonempty
    have hrest := hinside.2.2.le
    refine hfront.append ⟨hlo₁, ⟨⟨hinside.le, hin.isPieceOf.start_isBoundary,
      hout.isPieceOf.stop_isBoundary⟩, ?_, hinside⟩, hle₂⟩
    show inner.span.start < outer.span.stop
    omega
  · exact hbefore.append hmore

/-! ## Reading tokens -/

/-- The tokens and the comments between them lie in the text from an offset on, and the trailing
    comments behind them. -/
def TokensPlaced (text : List Char) (trailing : List Comment) (lo : Nat) : List Token → Prop
  | [] => PlacedBetween text lo (Text.byteLength text) (trailing.map Comment.node)
  | t :: ts =>
    PlacedBetween text lo t.span.start (t.comments.map Comment.node) ∧
      t.span.IsPieceOf text ∧ t.span.start < t.span.stop ∧
      TokensPlaced text trailing t.span.stop ts

variable {trailing : List Comment}

/-- Placed tokens are read to placed nodes: each step goes on where the one before it has ended. -/
theorem kept_placedBetween :
    KeptByReading (fun lo ts => TokensPlaced text trailing lo ts)
      fun lo hi ns => PlacedBetween text lo hi ns where
  nil lo := Nat.le_refl lo
  append := .append
  leaf := by
    intro lo token ts kind hts
    obtain ⟨hcomments, hpiece, hne, hrest⟩ := hts
    refine ⟨token.span.stop, hcomments.append ?_, hrest⟩
    exact ⟨Nat.le_refl _, placed_leaf hpiece hne, Nat.le_refl _⟩
  enclose _ := enclose_placed
  fill _ := fill_placed
  extend := extend_placed

/-! ## Tokens of a source -/

/-- How many characters a piece takes. -/
def Piece.length : Piece → Nat
  | .blank => 1
  | .comment _ length => length
  | .token _ length _ => length

theorem length_pos_of_textPiece {inside block : Bool} {opening : Nat} {holes : List Hole}
    {cs : List Char} {p : Piece} (hopening : 0 < opening)
    (h : textPiece inside block opening holes cs = some p) : 0 < p.length := by
  unfold textPiece at h
  obtain ⟨⟨n, stop⟩, -, rfl⟩ := Option.map_eq_some_iff.1 h
  cases stop <;> simp only [Piece.length] <;> omega

/-- Every piece of a source has a character. -/
theorem length_pos_of_piece {holes : List Hole} {cs : List Char} {p : Piece}
    (h : piece holes cs = some p) : 0 < p.length := by
  cases cs with
  | nil => simp [piece] at h
  | cons c cs =>
    rw [piece] at h
    split at h
    · cases h
      exact Nat.one_pos
    split at h
    · cases h
      simp only [Piece.length]
      omega
    split at h
    · obtain ⟨n, -, rfl⟩ := Option.map_eq_some_iff.1 h
      simp only [Piece.length]
      omega
    split at h
    · cases h
      simp only [Piece.length]
      omega
    split at h
    · split at h
      · exact length_pos_of_textPiece (by omega) h
      · exact length_pos_of_textPiece (by omega) h
    split at h
    · split at h
      · split at h
        · simp at h
        · cases h
          simp only [Piece.length]
          omega
      · simp at h
    split at h
    · cases h
      exact Nat.succ_pos _
    split at h
    · simp at h
    next hlength =>
    have hpos := Nat.pos_of_ne_zero hlength
    split at h
    · cases h
      exact hpos
    · exact length_pos_of_textPiece Nat.one_pos h
    · cases h
      exact hpos
    · cases h
      exact hpos

/-- A piece at the front of what is left of a source is a part of it, and not empty. -/
theorem placed_of_piece {source front cs : List Char} {c : Char} {holes : List Hole} {p : Piece}
    (hsource : source = front ++ c :: cs) (hpiece : piece holes (c :: cs) = some p) :
    Span.IsPieceOf
        ⟨Text.byteLength front, Text.byteLength (front ++ (c :: cs).take p.length)⟩ source ∧
      Text.byteLength front < Text.byteLength (front ++ (c :: cs).take p.length) := by
  have hlonger : Text.byteLength front <
      Text.byteLength (front ++ (c :: cs).take p.length) := by
    have hpos := length_pos_of_piece hpiece
    obtain ⟨m, hm⟩ : ∃ m, p.length = m + 1 := ⟨p.length - 1, by omega⟩
    have hc := c.utf8Size_pos
    simp only [hm, List.take_succ_cons, Text.byteLength_append, Text.byteLength]
    omega
  refine ⟨⟨Nat.le_of_lt hlonger, ?_, ?_⟩, hlonger⟩
  · exact Text.isBoundary_iff.2 ⟨front, c :: cs, hsource, rfl⟩
  · refine Text.isBoundary_iff.2 ⟨_, (c :: cs).drop p.length, ?_, rfl⟩
    rw [hsource, List.append_assoc, List.take_append_drop]

/-- The tokens of a source are placed in it. -/
theorem Scanned.placed {source front : List Char} {last : Nat} {comments : List Comment}
    {holes : List Hole} {s : Scan} (h : Scanned source front last comments holes s) {lo : Nat}
    (hcomments : PlacedBetween source lo (Text.byteLength front) (comments.map Comment.node)) :
    TokensPlaced source s.trailing lo s.tokens := by
  induction h generalizing lo with
  | done => exact hcomments
  | blank _ _ _ ih =>
    refine ih (hcomments.mono (Nat.le_refl _) ?_)
    rw [Text.byteLength_append]
    exact Nat.le_add_right _ _
  | comment hsource hpiece _ ih =>
    -- A comment waits for the token behind it.
    obtain ⟨hplace, hlonger⟩ := placed_of_piece hsource hpiece
    refine ih ?_
    rw [List.map_append]
    exact hcomments.append ⟨Nat.le_refl _, placed_leaf hplace hlonger, Nat.le_refl _⟩
  | token hsource hpiece _ ih =>
    -- A token takes the comments that have waited.
    obtain ⟨hplace, hlonger⟩ := placed_of_piece hsource hpiece
    exact ⟨hcomments, hplace, hlonger, ih (Nat.le_refl _)⟩

theorem scan_placed {source : List Char} {s : Scan} (h : scan source = .ok s) :
    TokensPlaced source s.trailing 0 s.tokens := by
  obtain ⟨front, holes, hscanned⟩ := scan_scanned h
  exact hscanned.placed (Nat.zero_le _)

/-! ## The tree of a source -/

/-- **The nodes of the tree of a source are placed in it**, one after the other. -/
theorem javaTree_placed {source : List Char} {root : Node} (h : javaTree source = some root) :
    PlacedBetween source 0 (Text.byteLength source) root.children := by
  obtain ⟨s, nodes, hscan, hchildren, hread⟩ := exists_read_of_javaTree h
  -- All tokens have been read, so only the trailing comments are left.
  obtain ⟨hi, hnodes, htrailing⟩ := Rule.readWith_yieldsFrom kept_placedBetween
    (javaGrammar.read_yieldsFrom kept_placedBetween (referenceBound s.tokens))
    (.many Java.topLevel) (scan_placed hscan) hread
  rw [hchildren]
  exact hnodes.append htrailing

end JavaThrows.Cst
