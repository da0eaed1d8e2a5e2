import JavaThrows.Proofs.Cst.Spelling
import JavaThrows.Proofs.Text.Gaps

set_option autoImplicit false

/-!
# Rows of nodes that differ in layout

Two rows of nodes, each from a source of its own, are `Relaid` if they differ in nothing but the
comments and the white space between their tokens. All that reading does with rows of nodes keeps
the relation, and where neither row has a comment in it, the texts under both are the same once the
white space is taken out. Main statements: `Relaid.append`, `Relaid.enclose`, `Relaid.extend` and
`Relaid.bareText_eq`.
-/

namespace JavaThrows.Cst

open Text Unicode

/-! ## White space in a text -/

/-- A piece of the text that is white space. -/
structure BlankPiece (text : List Char) (lo hi : Nat) : Prop where
  piece : Span.IsPieceOf ⟨lo, hi⟩ text
  blank : BlankBetween text lo hi

/-- The characters between two offsets that are no white space. -/
def bareText (text : List Char) (lo hi : Nat) : List Char :=
  (slice text ⟨lo, hi⟩).toList.filter fun c => !isSpace c

section Text

variable {text : List Char} {x y z : Nat}

namespace BlankPiece

theorem refl (h : isBoundary text x) : BlankPiece text x x :=
  ⟨⟨Nat.le_refl x, h, h⟩, blankBetween_self text x⟩

theorem of_parts {a b c : List Char} (hb : ∀ d ∈ b, isSpace d) :
    BlankPiece (a ++ (b ++ c)) (byteLength a) (byteLength (a ++ b)) := by
  refine ⟨⟨?_, isBoundary_iff.2 ⟨a, b ++ c, rfl, rfl⟩, isBoundary_iff.2 ⟨a ++ b, c, ?_, rfl⟩⟩,
    .of_parts hb rfl (byteLength_append a b).symm⟩
  · rw [byteLength_append]
    exact Nat.le_add_right _ _
  · rw [List.append_assoc]

theorem trans (hxy : BlankPiece text x y) (hyz : BlankPiece text y z) : BlankPiece text x z :=
  ⟨⟨Nat.le_trans hxy.piece.ordered hyz.piece.ordered, hxy.piece.start_isBoundary,
    hyz.piece.stop_isBoundary⟩, hxy.blank.trans hyz.blank⟩

theorem start (h : BlankPiece text x y) : BlankPiece text x x :=
  .refl h.piece.start_isBoundary

theorem stop (h : BlankPiece text x y) : BlankPiece text y y :=
  .refl h.piece.stop_isBoundary

theorem bareText_eq_nil (h : BlankPiece text x y) : bareText text x y = [] := by
  obtain ⟨a, b, c, rfl, rfl, rfl⟩ := exists_parts_of_isPieceOf h.piece
  rw [bareText, ← byteLength_append, ← List.append_assoc, slice_middle, String.toList_ofList,
    List.filter_eq_nil_iff]
  intro d hd
  obtain ⟨u, v, rfl⟩ := List.append_of_mem hd
  simpa using h.blank (a ++ u) d (v ++ c) (by simp)
    (by rw [byteLength_append]; exact Nat.le_add_right _ _)
    (by have := d.utf8Size_pos; simp only [byteLength_append, byteLength]; omega)

end BlankPiece

theorem bareText_append (hxy : Span.IsPieceOf ⟨x, y⟩ text) (hyz : Span.IsPieceOf ⟨y, z⟩ text) :
    bareText text x z = bareText text x y ++ bareText text y z := by
  obtain ⟨a, b, rest, htext, rfl, hy⟩ := exists_parts_of_isPieceOf hxy
  obtain ⟨front, c, d, htext', hfront, hz⟩ := exists_parts_of_isPieceOf hyz
  rw [← byteLength_append] at hy hz
  -- The second piece starts where the first one ends.
  obtain ⟨rfl, rfl⟩ := append_inj_of_byteLength (by rw [List.append_assoc, ← htext, htext'])
    (hy.trans hfront.symm)
  subst htext' hy hz
  have hwhole := slice_middle a (b ++ c) d
  have hfirst := slice_middle a b (c ++ d)
  have hsecond := slice_middle (a ++ b) c d
  simp only [List.append_assoc] at hwhole hfirst hsecond ⊢
  simp only [bareText, hwhole, hfirst, hsecond, String.toList_ofList, List.filter_append]

/-- A piece with white space in front of it, and another piece right behind it. -/
theorem bareText_cons {w : Nat} (hgap : BlankPiece text w x) (hxy : Span.IsPieceOf ⟨x, y⟩ text)
    (hyz : Span.IsPieceOf ⟨y, z⟩ text) :
    bareText text w z = bareText text x y ++ bareText text y z := by
  have hxz : Span.IsPieceOf ⟨x, z⟩ text :=
    ⟨Nat.le_trans hxy.ordered hyz.ordered, hxy.start_isBoundary, hyz.stop_isBoundary⟩
  rw [bareText_append hgap.piece hxz, hgap.bareText_eq_nil, List.nil_append,
    bareText_append hxy hyz]

end Text

/-! ## Rows in two layouts -/

def commentKinds : List String := ["block_comment", "line_comment"]

theorem isComment_iff {n : Node} : n.isComment ↔ n.kind ∈ commentKinds := by
  simp [Node.isComment, commentKinds]

/-- The rows reach from `lo` to `hi` in one source and from `lo'` to `hi'` in the other, and differ
    in layout only. A row does not end with a comment. -/
inductive Relaid (source source' : List Char) :
    Nat → Nat → Nat → Nat → List Node → List Node → Prop
  | nil {lo hi lo' hi' : Nat} : BlankPiece source lo hi → BlankPiece source' lo' hi' →
    Relaid source source' lo hi lo' hi' [] []
  | comment_left {lo hi lo' hi' : Nat} {c : Comment} {ns ns' : List Node} :
    BlankPiece source lo c.span.start → c.span.IsPieceOf source → ns ≠ [] →
    Relaid source source' c.span.stop hi lo' hi' ns ns' →
    Relaid source source' lo hi lo' hi' (c.node :: ns) ns'
  | comment_right {lo hi lo' hi' : Nat} {c : Comment} {ns ns' : List Node} :
    BlankPiece source' lo' c.span.start → c.span.IsPieceOf source' → ns' ≠ [] →
    Relaid source source' lo hi c.span.stop hi' ns ns' →
    Relaid source source' lo hi lo' hi' ns (c.node :: ns')
  | leaf {lo hi lo' hi' : Nat} {kind : String} {field : Option String} {named : Bool}
    {span span' : Span} {ns ns' : List Node} :
    BlankPiece source lo span.start → BlankPiece source' lo' span'.start →
    kind ∉ commentKinds → span.IsPieceOf source → span'.IsPieceOf source' →
    slice source span = slice source' span' →
    Relaid source source' span.stop hi span'.stop hi' ns ns' →
    Relaid source source' lo hi lo' hi' (⟨kind, field, named, span, []⟩ :: ns)
      (⟨kind, field, named, span', []⟩ :: ns')
  | inner {lo hi lo' hi' : Nat} {kind : String} {field : Option String} {named : Bool}
    {span span' : Span} {children children' ns ns' : List Node} :
    BlankPiece source lo span.start → BlankPiece source' lo' span'.start →
    kind ∉ commentKinds → children ≠ [] → children' ≠ [] →
    Relaid source source' span.start span.stop span'.start span'.stop children children' →
    Relaid source source' span.stop hi span'.stop hi' ns ns' →
    Relaid source source' lo hi lo' hi' (⟨kind, field, named, span, children⟩ :: ns)
      (⟨kind, field, named, span', children'⟩ :: ns')

/-- What stands in two nodes is the same up to layout. -/
inductive SameInside (source source' : List Char) (n n' : Node) : Prop
  | leaf : n.children = [] → n'.children = [] → n.span.IsPieceOf source →
    n'.span.IsPieceOf source' → slice source n.span = slice source' n'.span →
    SameInside source source' n n'
  | inner : n.children ≠ [] → n'.children ≠ [] →
    Relaid source source' n.span.start n.span.stop n'.span.start n'.span.stop
      n.children n'.children →
    SameInside source source' n n'

/-- Two nodes that differ in layout only, none of them a comment. -/
structure SameNode (source source' : List Char) (n n' : Node) : Prop where
  kind : n.kind = n'.kind
  field : n.field = n'.field
  named : n.named = n'.named
  solid : n.kind ∉ commentKinds
  inside : SameInside source source' n n'

/-- Where the last node of a row ends that starts at `lo`. -/
def endOf (lo : Nat) : List Node → Nat
  | [] => lo
  | n :: ns => endOf n.span.stop ns

theorem endOf_eq (n : Node) (ns : List Node) :
    ((n :: ns).getLastD n).span.stop = endOf n.span.stop ns := by
  induction ns generalizing n with
  | nil => rfl
  | cons m ms ih =>
    rw [endOf, ← ih m, List.getLastD_cons, List.getLastD_cons, List.getLastD_cons]

theorem enclose_comment (kind : String) (c : Comment) (ns : List Node) :
    enclose kind (c.node :: ns) = c.node :: enclose kind ns := by
  have hc := isComment_node c
  simp only [enclose, List.span_eq_takeWhile_dropWhile, List.takeWhile_cons_of_pos hc,
    List.dropWhile_cons_of_pos hc]
  cases ns.dropWhile Node.isComment <;> rfl

theorem enclose_node (kind : String) {n : Node} {ns : List Node} (hn : n.kind ∉ commentKinds) :
    enclose kind (n :: ns) =
      [⟨kind, none, true, ⟨n.span.start, endOf n.span.stop ns⟩, n :: ns⟩] := by
  have hc : ¬ n.isComment := fun h => hn (isComment_iff.1 h)
  simp only [enclose, List.span_eq_takeWhile_dropWhile, List.takeWhile_cons_of_neg hc,
    List.dropWhile_cons_of_neg hc, endOf_eq]
  rfl

theorem enclose_ne_nil (kind : String) {ns : List Node} (h : ns ≠ []) : enclose kind ns ≠ [] := by
  rcases enclose_cases kind ns with ⟨-, heq⟩ | ⟨comments, first, others, -, -, -, heq⟩
  · rwa [heq]
  · simp [heq]

theorem fill_comment (name : String) (c : Comment) (ns : List Node) :
    fill name (c.node :: ns) = c.node :: fill name ns := by
  simp [fill, isComment_node]

theorem fill_node (name : String) {n : Node} {ns : List Node} (hn : n.kind ∉ commentKinds) :
    fill name (n :: ns) = { n with field := some name } :: fill name ns := by
  have hc : ¬ n.isComment := fun h => hn (isComment_iff.1 h)
  simp [fill, hc]

theorem SameNode.withField {source source' : List Char} {n n' : Node}
    (h : SameNode source source' n n') (name : String) :
    SameNode source source' { n with field := some name } { n' with field := some name } := by
  obtain ⟨hkind, -, hnamed, hsolid, hinside⟩ := h
  refine ⟨hkind, rfl, hnamed, hsolid, ?_⟩
  cases hinside with
  | leaf hnil hnil' hpiece hpiece' htext => exact .leaf hnil hnil' hpiece hpiece' htext
  | inner hne hne' hchildren => exact .inner hne hne' hchildren

/-- The row ends with a node that has something in it. -/
def EndsWide (ns : List Node) : Prop :=
  ∃ n ∈ ns.getLast?, n.children ≠ []

theorem EndsWide.ne_nil {ns : List Node} (h : EndsWide ns) : ns ≠ [] := by
  rintro rfl
  simp [EndsWide] at h

theorem EndsWide.of_cons {n : Node} {ns : List Node} (h : EndsWide (n :: ns)) (hne : ns ≠ []) :
    EndsWide ns := by
  rwa [EndsWide, List.getLast?_cons_of_ne_nil hne] at h

theorem extend_concat (front comments : List Node) (inner outer : Node) :
    extend (front ++ [inner]) (comments ++ [outer]) =
      front ++ [{ outer with
        span := ⟨inner.span.start, outer.span.stop⟩
        children := inner :: comments ++ outer.children }] := by
  simp [extend]

theorem extend_nil_right (before : List Node) : extend before [] = before := by
  simp [extend]

theorem extend_cons {n : Node} {ns more : List Node} (hne : ns ≠ []) :
    extend (n :: ns) more = n :: extend ns more := by
  by_cases hmore : more = []
  · rw [hmore, extend_nil_right, extend_nil_right]
  · rw [← List.dropLast_concat_getLast hne, ← List.dropLast_concat_getLast hmore,
      ← List.cons_append, extend_concat, extend_concat, List.cons_append]

theorem extend_ne_nil {ns more : List Node} (hns : ns ≠ []) (hmore : more ≠ []) :
    extend ns more ≠ [] := by
  rw [← List.dropLast_concat_getLast hns, ← List.dropLast_concat_getLast hmore, extend_concat]
  simp

namespace Relaid

variable {source source' : List Char} {lo mid hi lo' mid' hi' : Nat} {ns ns' : List Node}

theorem node {n n' : Node} (hgap : BlankPiece source lo n.span.start)
    (hgap' : BlankPiece source' lo' n'.span.start) (hn : SameNode source source' n n')
    (hns : Relaid source source' n.span.stop hi n'.span.stop hi' ns ns') :
    Relaid source source' lo hi lo' hi' (n :: ns) (n' :: ns') := by
  obtain ⟨kind, field, named, span, children⟩ := n
  obtain ⟨kind', field', named', span', children'⟩ := n'
  obtain ⟨rfl, rfl, rfl, hsolid, hinside⟩ := hn
  cases hinside with
  | leaf hnil hnil' hpiece hpiece' htext =>
    dsimp only at hnil hnil'
    subst hnil hnil'
    exact .leaf hgap hgap' hsolid hpiece hpiece' htext hns
  | inner hne hne' hchildren => exact .inner hgap hgap' hsolid hne hne' hchildren hns

/-- Along a row it does not matter what stands inside of its nodes. -/
theorem rows
    {motive : ∀ lo hi lo' hi' ns ns', Relaid source source' lo hi lo' hi' ns ns' → Prop}
    (nil : ∀ {lo hi lo' hi' : Nat} (hgap : BlankPiece source lo hi)
      (hgap' : BlankPiece source' lo' hi'), motive lo hi lo' hi' [] [] (.nil hgap hgap'))
    (comment_left : ∀ {lo hi lo' hi' : Nat} {c : Comment} {ns ns' : List Node}
      (hgap : BlankPiece source lo c.span.start) (hpiece : c.span.IsPieceOf source) (hne : ns ≠ [])
      (hns : Relaid source source' c.span.stop hi lo' hi' ns ns'),
      motive c.span.stop hi lo' hi' ns ns' hns →
      motive lo hi lo' hi' (c.node :: ns) ns' (.comment_left hgap hpiece hne hns))
    (comment_right : ∀ {lo hi lo' hi' : Nat} {c : Comment} {ns ns' : List Node}
      (hgap : BlankPiece source' lo' c.span.start) (hpiece : c.span.IsPieceOf source')
      (hne : ns' ≠ [])
      (hns : Relaid source source' lo hi c.span.stop hi' ns ns'),
      motive lo hi c.span.stop hi' ns ns' hns →
      motive lo hi lo' hi' ns (c.node :: ns') (.comment_right hgap hpiece hne hns))
    (node : ∀ {lo hi lo' hi' : Nat} {n n' : Node} {ns ns' : List Node}
      (hgap : BlankPiece source lo n.span.start) (hgap' : BlankPiece source' lo' n'.span.start)
      (hn : SameNode source source' n n')
      (hns : Relaid source source' n.span.stop hi n'.span.stop hi' ns ns'),
      motive n.span.stop hi n'.span.stop hi' ns ns' hns →
      motive lo hi lo' hi' (n :: ns) (n' :: ns') (.node hgap hgap' hn hns))
    (h : Relaid source source' lo hi lo' hi' ns ns') : motive lo hi lo' hi' ns ns' h := by
  induction h with
  | nil hgap hgap' => exact nil hgap hgap'
  | comment_left hgap hpiece hne hns ih => exact comment_left hgap hpiece hne hns ih
  | comment_right hgap hpiece hne hns ih => exact comment_right hgap hpiece hne hns ih
  | @leaf lo hi lo' hi' kind field named span span' ns ns' hgap hgap' hsolid hpiece hpiece' htext
      hns ih =>
    have hn : SameNode source source' ⟨kind, field, named, span, []⟩
        ⟨kind, field, named, span', []⟩ :=
      ⟨rfl, rfl, rfl, hsolid, .leaf rfl rfl hpiece hpiece' htext⟩
    exact node hgap hgap' hn hns ih
  | @inner lo hi lo' hi' kind field named span span' children children' ns ns' hgap hgap' hsolid hne
      hne' hchildren hns _ ih =>
    have hn : SameNode source source' ⟨kind, field, named, span, children⟩
        ⟨kind, field, named, span', children'⟩ :=
      ⟨rfl, rfl, rfl, hsolid, .inner hne hne' hchildren⟩
    exact node hgap hgap' hn hns ih

theorem symm (h : Relaid source source' lo hi lo' hi' ns ns') :
    Relaid source' source lo' hi' lo hi ns' ns := by
  induction h with
  | nil hgap hgap' => exact .nil hgap' hgap
  | comment_left hgap hpiece hne _ ih => exact .comment_right hgap hpiece hne ih
  | comment_right hgap hpiece hne _ ih => exact .comment_left hgap hpiece hne ih
  | leaf hgap hgap' hsolid hpiece hpiece' htext _ ih =>
    exact .leaf hgap' hgap hsolid hpiece' hpiece htext.symm ih
  | inner hgap hgap' hsolid hne hne' _ _ ihchildren ih =>
    exact .inner hgap' hgap hsolid hne' hne ihchildren ih

theorem eq_nil_iff (h : Relaid source source' lo hi lo' hi' ns ns') : ns = [] ↔ ns' = [] := by
  induction h using rows with
  | nil => exact Iff.rfl
  | comment_left _ _ hne _ ih => simp [ih.not.1 hne]
  | comment_right _ _ hne _ ih => simp [ih.not.2 hne]
  | node => simp

/-! ### Putting rows together -/

theorem start (h : Relaid source source' lo hi lo' hi' ns ns') : BlankPiece source lo lo := by
  induction h using rows with
  | nil hgap => exact hgap.start
  | comment_left hgap => exact hgap.start
  | comment_right _ _ _ _ ih => exact ih
  | node hgap => exact hgap.start

/-- White space in front of a row belongs to it. -/
theorem widen_left (hgap : BlankPiece source lo mid)
    (h : Relaid source source' mid hi lo' hi' ns ns') :
    Relaid source source' lo hi lo' hi' ns ns' := by
  induction h using rows with
  | nil hgap₁ hgap₂ => exact .nil (hgap.trans hgap₁) hgap₂
  | comment_left hgap₁ hpiece hne hns => exact .comment_left (hgap.trans hgap₁) hpiece hne hns
  | comment_right hgap₂ hpiece hne _ ih => exact .comment_right hgap₂ hpiece hne (ih hgap)
  | node hgap₁ hgap₂ hn hns => exact .node (hgap.trans hgap₁) hgap₂ hn hns

theorem widen (hgap : BlankPiece source lo mid) (hgap' : BlankPiece source' lo' mid')
    (h : Relaid source source' mid hi mid' hi' ns ns') :
    Relaid source source' lo hi lo' hi' ns ns' :=
  ((h.symm.widen_left hgap').symm).widen_left hgap

theorem append {ms ms' : List Node} (hns : Relaid source source' lo mid lo' mid' ns ns')
    (hms : Relaid source source' mid hi mid' hi' ms ms') :
    Relaid source source' lo hi lo' hi' (ns ++ ms) (ns' ++ ms') := by
  induction hns using rows with
  | nil hgap hgap' => exact hms.widen hgap hgap'
  | comment_left hgap hpiece hne _ ih => exact .comment_left hgap hpiece (by simp [hne]) (ih hms)
  | comment_right hgap hpiece hne _ ih => exact .comment_right hgap hpiece (by simp [hne]) (ih hms)
  | node hgap hgap' hn _ ih => exact .node hgap hgap' hn (ih hms)

/-! ### Enclosing -/

/-- A row ends where its last node ends, the white space behind it apart. -/
theorem tight (h : Relaid source source' lo hi lo' hi' ns ns') :
    BlankPiece source (endOf lo ns) hi ∧ BlankPiece source' (endOf lo' ns') hi' ∧
      Relaid source source' lo (endOf lo ns) lo' (endOf lo' ns') ns ns' := by
  induction h using rows with
  | nil hgap hgap' => exact ⟨hgap, hgap', .nil hgap.start hgap'.start⟩
  | comment_left hgap hpiece hne _ ih => exact ⟨ih.1, ih.2.1, .comment_left hgap hpiece hne ih.2.2⟩
  | comment_right hgap hpiece hne _ ih => exact ⟨ih.1, ih.2.1, .comment_right hgap hpiece hne ih.2.2⟩
  | node hgap hgap' hn _ ih => exact ⟨ih.1, ih.2.1, .node hgap hgap' hn ih.2.2⟩

theorem enclose {kind : String} (hkind : kind ∉ commentKinds)
    (h : Relaid source source' lo hi lo' hi' ns ns') :
    Relaid source source' lo hi lo' hi' (enclose kind ns) (Cst.enclose kind ns') := by
  induction h using rows with
  | nil hgap hgap' => exact .nil hgap hgap'
  | comment_left hgap hpiece hne _ ih =>
    rw [enclose_comment]
    exact .comment_left hgap hpiece (enclose_ne_nil kind hne) ih
  | comment_right hgap hpiece hne _ ih =>
    rw [enclose_comment]
    exact .comment_right hgap hpiece (enclose_ne_nil kind hne) ih
  | @node lo hi lo' hi' n n' ns ns' hgap hgap' hn hns =>
    have hsolid' : n'.kind ∉ commentKinds := hn.kind ▸ hn.solid
    rw [enclose_node kind hn.solid, enclose_node kind hsolid']
    -- The new node reaches from the first of its nodes to the last one.
    obtain ⟨hend, hend', htight⟩ := hns.tight
    refine .inner hgap hgap' hkind (by simp) (by simp) ?_ (.nil hend hend')
    exact .node hgap.stop hgap'.stop hn htight

theorem fill (name : String) (h : Relaid source source' lo hi lo' hi' ns ns') :
    Relaid source source' lo hi lo' hi' (fill name ns) (Cst.fill name ns') := by
  induction h using rows with
  | nil hgap hgap' => exact .nil hgap hgap'
  | @comment_left _ _ _ _ c ns _ hgap hpiece hne _ ih =>
    rw [fill_comment]
    exact .comment_left hgap hpiece (by simpa [Cst.fill] using hne) ih
  | @comment_right _ _ _ _ c _ ns' hgap hpiece hne _ ih =>
    rw [fill_comment]
    exact .comment_right hgap hpiece (by simpa [Cst.fill] using hne) ih
  | @node lo hi lo' hi' n n' ns ns' hgap hgap' hn hns ih =>
    have hsolid' : n'.kind ∉ commentKinds := hn.kind ▸ hn.solid
    rw [fill_node name hn.solid, fill_node name hsolid']
    exact .node hgap hgap' (hn.withField name) ih

/-! ### Extending -/

/-- The last nodes of two rows have something in them, which differs in layout only even where all
    that stands in front of these nodes is put in front of it. -/
structure Opened (source source' : List Char) (lo hi lo' hi' : Nat) (front front' : List Node)
    (outer outer' : Node) : Prop where
  kind : outer.kind = outer'.kind
  field : outer.field = outer'.field
  named : outer.named = outer'.named
  solid : outer.kind ∉ commentKinds
  nonempty : outer.children ≠ []
  nonempty' : outer'.children ≠ []
  inside : Relaid source source' lo outer.span.stop lo' outer'.span.stop
    (front ++ outer.children) (front' ++ outer'.children)
  gap : BlankPiece source outer.span.stop hi
  gap' : BlankPiece source' outer'.span.stop hi'

theorem opened (h : Relaid source source' lo hi lo' hi' ns ns') (hwide : EndsWide ns) :
    ∃ front outer front' outer', ns = front ++ [outer] ∧ ns' = front' ++ [outer'] ∧
      Opened source source' lo hi lo' hi' front front' outer outer' := by
  induction h using rows with
  | nil => simp [EndsWide] at hwide
  | @comment_left _ _ _ _ c _ _ hgap hpiece hne _ ih =>
    obtain ⟨front, outer, front', outer', rfl, rfl, ho⟩ := ih (hwide.of_cons hne)
    refine ⟨c.node :: front, outer, front', outer', rfl, rfl, { ho with inside := ?_ }⟩
    exact .comment_left hgap hpiece (by simp [ho.nonempty]) ho.inside
  | @comment_right _ _ _ _ c _ _ hgap hpiece hne _ ih =>
    obtain ⟨front, outer, front', outer', rfl, rfl, ho⟩ := ih hwide
    refine ⟨front, outer, c.node :: front', outer', rfl, rfl, { ho with inside := ?_ }⟩
    exact .comment_right hgap hpiece (by simp [ho.nonempty']) ho.inside
  | @node lo hi lo' hi' n n' ns ns' hgap hgap' hn hns ih =>
    by_cases hnil : ns = []
    · obtain rfl := hns.eq_nil_iff.1 hnil
      subst hnil
      obtain ⟨m, hm, hchildren⟩ := hwide
      obtain rfl : n = m := by simpa using hm
      cases hn.inside with
      | leaf hleaf => exact absurd hleaf hchildren
      | inner hne hne' hinside =>
        cases hns with
        | nil hend hend' =>
          exact ⟨[], n, [], n', rfl, rfl, hn.kind, hn.field, hn.named, hn.solid, hne, hne',
            hinside.widen hgap hgap', hend, hend'⟩
    · obtain ⟨front, outer, front', outer', rfl, rfl, ho⟩ := ih (hwide.of_cons hnil)
      exact ⟨n :: front, outer, n' :: front', outer', rfl, rfl,
        { ho with inside := .node hgap hgap' hn ho.inside }⟩

/-- The node in front goes into the first of the larger nodes, and so on in both layouts. -/
theorem extend {before before' more more' : List Node}
    (hbefore : Relaid source source' lo mid lo' mid' before before')
    (hmore : Relaid source source' mid hi mid' hi' more more') (hwide : EndsWide more) :
    Relaid source source' lo hi lo' hi' (extend before more) (Cst.extend before' more') := by
  have hne : more ≠ [] := hwide.ne_nil
  have hne' : more' ≠ [] := hmore.eq_nil_iff.not.1 hne
  induction hbefore using rows with
  | nil hgap hgap' => simpa [Cst.extend] using hmore.widen hgap hgap'
  | comment_left hgap hpiece hns _ ih =>
    rw [extend_cons hns]
    exact .comment_left hgap hpiece (extend_ne_nil hns hne) (ih hmore)
  | comment_right hgap hpiece hns _ ih =>
    rw [extend_cons hns]
    exact .comment_right hgap hpiece (extend_ne_nil hns hne') (ih hmore)
  | @node lo mid lo' mid' n n' ns ns' hgap hgap' hn hns ih =>
    by_cases hnil : ns = []
    · obtain rfl := hns.eq_nil_iff.1 hnil
      subst hnil
      obtain ⟨front, outer, front', outer', rfl, rfl, ho⟩ := hmore.opened hwide
      cases hns with
      | nil hend hend' =>
        have hinside : Relaid source source' n.span.start outer.span.stop n'.span.start
            outer'.span.stop (n :: (front ++ outer.children)) (n' :: (front' ++ outer'.children)) :=
          .node hgap.stop hgap'.stop hn (ho.inside.widen hend hend')
        rw [← List.nil_append [n], ← List.nil_append [n'], extend_concat, extend_concat]
        refine .node hgap hgap' ?_ (.nil ho.gap ho.gap')
        exact ⟨ho.kind, ho.field, ho.named, ho.solid, .inner (by simp) (by simp) hinside⟩
    · rw [extend_cons hnil, extend_cons (hns.eq_nil_iff.not.1 hnil)]
      exact .node hgap hgap' hn (ih hmore)

/-! ### Texts -/

theorem isPieceOf (h : Relaid source source' lo hi lo' hi' ns ns') :
    Span.IsPieceOf ⟨lo, hi⟩ source := by
  have hchain {w x y z : Nat} (hgap : BlankPiece source w x) (hxy : Span.IsPieceOf ⟨x, y⟩ source)
      (hyz : Span.IsPieceOf ⟨y, z⟩ source) : Span.IsPieceOf ⟨w, z⟩ source :=
    ⟨Nat.le_trans hgap.piece.ordered (Nat.le_trans hxy.ordered hyz.ordered),
      hgap.piece.start_isBoundary, hyz.stop_isBoundary⟩
  induction h with
  | nil hgap => exact hgap.piece
  | comment_left hgap hpiece _ _ ih => exact hchain hgap hpiece ih
  | comment_right _ _ _ _ ih => exact ih
  | leaf hgap _ _ hpiece _ _ _ ih => exact hchain hgap hpiece ih
  | inner hgap _ _ _ _ _ _ ihchildren ih => exact hchain hgap ihchildren ih

/-- **Without comments, rows in two layouts have the same text** but for the white space. -/
theorem bareText_eq (h : Relaid source source' lo hi lo' hi' ns ns')
    (hns : AllEverywhere (fun n => ¬ n.isComment) ns)
    (hns' : AllEverywhere (fun n => ¬ n.isComment) ns') :
    bareText source lo hi = bareText source' lo' hi' := by
  induction h with
  | nil hgap hgap' => rw [hgap.bareText_eq_nil, hgap'.bareText_eq_nil]
  | comment_left => exact absurd (isComment_node _) hns.1.here
  | comment_right => exact absurd (isComment_node _) hns'.1.here
  | leaf hgap hgap' _ hpiece hpiece' htext hrest ih =>
    rw [bareText_cons hgap hpiece hrest.isPieceOf, bareText_cons hgap' hpiece' hrest.symm.isPieceOf,
      ih hns.2 hns'.2, bareText, htext, ← bareText]
  | inner hgap hgap' _ _ _ hchildren hrest ihchildren ih =>
    rw [bareText_cons hgap hchildren.isPieceOf hrest.isPieceOf,
      bareText_cons hgap' hchildren.symm.isPieceOf hrest.symm.isPieceOf, ih hns.2 hns'.2,
      ihchildren hns.1.2 hns'.1.2]

end Relaid

theorem SameNode.bareText_eq {source source' : List Char} {n n' : Node}
    (h : SameNode source source' n n') (hn : n.Everywhere fun m => ¬ m.isComment)
    (hn' : n'.Everywhere fun m => ¬ m.isComment) :
    bareText source n.span.start n.span.stop = bareText source' n'.span.start n'.span.stop := by
  cases h.inside with
  | leaf _ _ _ _ htext => rw [bareText, htext, ← bareText]
  | inner _ _ hchildren =>
    exact hchildren.bareText_eq (allEverywhere_iff.2 hn.children) (allEverywhere_iff.2 hn'.children)

end JavaThrows.Cst
