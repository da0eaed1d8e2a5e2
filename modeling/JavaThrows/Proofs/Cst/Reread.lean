import JavaThrows.Proofs.Cst.Place
import JavaThrows.Proofs.Cst.Relaid

set_option autoImplicit false

/-!
# Reading in two layouts

The comments and the white space between the tokens of a source have no say in how it is read, with
one exception: a few operators are rows of tokens without a gap, so that a token may count
differently if it stands right behind the one before. Sources with the same tokens in this sense
(`javaTokens`) are read to trees that differ in layout only. For this a rule must ask for a token
without a gap only where it is known to follow one that it forms an operator with, which is a check
of the rule (`Rule.layoutFree`). Main statement: `relaid_of_javaTokens`.
-/

namespace JavaThrows.Cst

open Text Unicode

/-! ## The tokens of a source -/

/-- Whether the tokens with these texts form an operator or a keyword with nothing in between. -/
def joins (before text : String) : Bool :=
  (before == ">" && (text == ">" || text == "=")) || (before == "non" && text == "-")

/-- The kind and the text of each token, and whether it is joined to the token before. -/
def tokenSigns : Option String → List Token → List (TokenKind × String × Bool)
  | _, [] => []
  | before, t :: ts =>
    (t.kind, t.text, before.any (joins · t.text) && t.glued) :: tokenSigns (some t.text) ts

/-- The tokens of a source, if it is made of tokens, whatever blanks and comments there are. -/
def javaTokens (source : List Char) : Option (List (TokenKind × String × Bool)) :=
  (scan source).toOption.map fun s => tokenSigns none s.tokens

/-! ## Tokens in their places -/

/-- Nothing but white space and the comments stands between the two offsets. -/
def CommentsBetween (text : List Char) (lo hi : Nat) : List Comment → Prop
  | [] => BlankPiece text lo hi
  | c :: cs =>
    BlankPiece text lo c.span.start ∧ c.span.IsPieceOf text ∧ CommentsBetween text c.span.stop hi cs

/-- The token follows the offset `lo` with its comments, and its text stands in its place. Only a
    word can be spelled like the kind of a comment. -/
structure Token.Laid (text : List Char) (lo : Nat) (t : Token) : Prop where
  comments : CommentsBetween text lo t.span.start t.comments
  piece : t.span.IsPieceOf text
  spelled : slice text t.span = t.text
  plain : t.kind ≠ .word → t.text ∉ commentKinds

/-- Nothing but comments and white space stands between the tokens. -/
def TokensLaid (text : List Char) : Nat → List Token → Prop
  | lo, [] => isBoundary text lo
  | lo, t :: ts => t.Laid text lo ∧ TokensLaid text t.span.stop ts

namespace CommentsBetween

variable {text : List Char} {lo mid hi : Nat} {cs : List Comment}

theorem start_isBoundary (h : CommentsBetween text lo hi cs) : isBoundary text lo := by
  cases cs with
  | nil => exact h.piece.start_isBoundary
  | cons c cs => exact h.1.piece.start_isBoundary

theorem concat (c : Comment) (h : CommentsBetween text lo c.span.start cs)
    (hpiece : c.span.IsPieceOf text) : CommentsBetween text lo c.span.stop (cs ++ [c]) := by
  induction cs generalizing lo with
  | nil => exact ⟨h, hpiece, .refl hpiece.stop_isBoundary⟩
  | cons d cs ih => exact ⟨h.1, h.2.1, ih h.2.2⟩

theorem widen (h : CommentsBetween text lo mid cs) (hgap : BlankPiece text mid hi) :
    CommentsBetween text lo hi cs := by
  induction cs generalizing lo with
  | nil => exact BlankPiece.trans h hgap
  | cons d cs ih => exact ⟨h.1, h.2.1, ih h.2.2⟩

end CommentsBetween

/-- A token that is no word is not spelled like one. -/
theorem notMem_commentKinds_of_piece {holes holes' : List Hole} {c : Char} {cs : List Char}
    {kind : TokenKind} {length : Nat}
    (h : piece holes (c :: cs) = some (.token kind length holes')) (hkind : kind ≠ .word) :
    String.ofList ((c :: cs).take length) ∉ commentKinds := by
  have hpos : 0 < length := length_pos_of_piece h
  rcases piece_cases h with ⟨hp, -⟩ | ⟨_, _, hp⟩ | ⟨hp, -⟩ | ⟨_, _, _, -, -, hstart⟩
  · cases hp
  · cases hp
  · exact absurd (Piece.token.inj hp).1 hkind
  · obtain ⟨m, rfl⟩ : ∃ m, length = m + 1 := ⟨length - 1, by omega⟩
    rw [List.take_succ_cons]
    intro hmem
    have hhead : ∀ kind ∈ commentKinds, kind.toList.head?.all isWordStart := by decide
    have hc := hhead _ hmem
    rw [String.toList_ofList] at hc
    exact hstart hc

theorem isSpace_of_isAsciiSpace {c : Char} (h : isAsciiSpace c) : isSpace c := by
  simp only [isAsciiSpace, Bool.or_eq_true, beq_iff_eq] at h
  rcases h with rfl | h
  · rfl
  · simp [isSpace, h]

/-- The tokens of a source follow one another. -/
theorem Scanned.laid {source front : List Char} {last : Nat} {comments : List Comment}
    {holes : List Hole} {s : Scan} (h : Scanned source front last comments holes s) {lo : Nat}
    (hcomments : CommentsBetween source lo (byteLength front) comments) :
    TokensLaid source lo s.tokens := by
  induction h generalizing lo with
  | done => exact hcomments.start_isBoundary
  | @blank front cs c _ _ _ _ hsource hpiece _ ih =>
    have hspace : isAsciiSpace c := by
      rcases piece_cases hpiece with ⟨-, hc⟩ | ⟨_, _, hp⟩ | ⟨hp, -⟩ | ⟨_, _, _, hp, -⟩
      · exact hc
      · cases hp
      · cases hp
      · cases hp
    have hgap : BlankPiece source (byteLength front) (byteLength (front ++ [c])) :=
      hsource ▸ .of_parts (List.forall_mem_singleton.2 (isSpace_of_isAsciiSpace hspace))
    exact ih (hcomments.widen hgap)
  | comment hsource hpiece _ ih =>
    exact ih (.concat ⟨_, ⟨_, _⟩⟩ hcomments (placed_of_piece hsource hpiece).1)
  | @token front cs c kind length _ _ _ _ _ hsource hpiece _ ih =>
    obtain ⟨hplace, -⟩ := placed_of_piece hsource hpiece
    refine ⟨⟨hcomments, hplace, ?_, notMem_commentKinds_of_piece hpiece⟩,
      ih (.refl hplace.stop_isBoundary)⟩
    have hcut : source = front ++ (c :: cs).take length ++ (c :: cs).drop length := by
      rw [hsource, List.append_assoc, List.take_append_drop]
    rw [hcut]
    exact slice_middle _ _ _

theorem scan_laid {source : List Char} {s : Scan} (h : scan source = .ok s) :
    ∃ lo, TokensLaid source lo s.tokens := by
  obtain ⟨front, holes, hscanned⟩ := scan_scanned h
  obtain ⟨rest, hsource⟩ := hscanned.exists_append
  exact ⟨byteLength front, hscanned.laid (.refl (isBoundary_iff.2 ⟨front, rest, hsource, rfl⟩))⟩

/-! ## The same tokens in two layouts -/

/-- The tokens have the same kinds and texts, and those that could be joined to the token before,
    which has the text `before`, are so in both rows or in none. -/
inductive SameTokens (source source' : List Char) :
    Option String → Nat → Nat → List Token → List Token → Prop
  | nil {before : Option String} {lo lo' : Nat} : isBoundary source lo → isBoundary source' lo' →
    SameTokens source source' before lo lo' [] []
  | cons {before : Option String} {lo lo' : Nat} {t t' : Token} {ts ts' : List Token} :
    t.kind = t'.kind → t.text = t'.text →
    (∀ b ∈ before, joins b t.text → t.glued = t'.glued) → t.Laid source lo → t'.Laid source' lo' →
    SameTokens source source' (some t.text) t.span.stop t'.span.stop ts ts' →
    SameTokens source source' before lo lo' (t :: ts) (t' :: ts')

theorem sameTokens_of_signs {source source' : List Char} {before : Option String} {lo lo' : Nat}
    {ts ts' : List Token} (h : tokenSigns before ts = tokenSigns before ts')
    (hts : TokensLaid source lo ts) (hts' : TokensLaid source' lo' ts') :
    SameTokens source source' before lo lo' ts ts' := by
  induction ts generalizing before lo lo' ts' with
  | nil =>
    cases ts' with
    | nil => exact .nil hts hts'
    | cons t' ts' => simp [tokenSigns] at h
  | cons t ts ih =>
    cases ts' with
    | nil => simp [tokenSigns] at h
    | cons t' ts' =>
      simp only [tokenSigns, List.cons.injEq, Prod.mk.injEq] at h
      obtain ⟨⟨hkind, htext, hglued⟩, hrest⟩ := h
      rw [htext] at hrest
      refine .cons hkind htext (fun b hb hjoins => ?_) hts.1 hts'.1 (htext ▸ ih hrest hts.2 hts'.2)
      rw [← htext, Option.mem_def.1 hb] at hglued
      simpa [hjoins] using hglued

namespace SameTokens

variable {source source' : List Char} {before : Option String} {lo lo' : Nat} {ts ts' : List Token}

/-- What the token before was may be forgotten. -/
theorem forget (h : SameTokens source source' before lo lo' ts ts') :
    SameTokens source source' none lo lo' ts ts' := by
  cases h with
  | nil hlo hlo' => exact .nil hlo hlo'
  | cons hkind htext _ ht ht' hts => exact .cons hkind htext (by simp) ht ht' hts

theorem length_eq (h : SameTokens source source' before lo lo' ts ts') :
    ts.length = ts'.length := by
  induction h with
  | nil => rfl
  | cons _ _ _ _ _ _ ih => rw [List.length_cons, List.length_cons, ih]

theorem blankPieces (h : SameTokens source source' before lo lo' ts ts') :
    BlankPiece source lo lo ∧ BlankPiece source' lo' lo' := by
  cases h with
  | nil hlo hlo' => exact ⟨.refl hlo, .refl hlo'⟩
  | cons _ _ _ ht ht' =>
    exact ⟨.refl ht.comments.start_isBoundary, .refl ht'.comments.start_isBoundary⟩

end SameTokens

/-! ## Nodes of tokens -/

section Nodes

variable {source source' : List Char} {lo mid hi lo' hi' : Nat}

theorem Relaid.comments_left {cs : List Comment} {ns ns' : List Node}
    (hcs : CommentsBetween source lo mid cs) (hne : ns ≠ [])
    (h : Relaid source source' mid hi lo' hi' ns ns') :
    Relaid source source' lo hi lo' hi' (cs.map Comment.node ++ ns) ns' := by
  induction cs generalizing lo with
  | nil => exact h.widen_left hcs
  | cons c cs ih => exact .comment_left hcs.1 hcs.2.1 (by simp [hne]) (ih hcs.2.2)

/-- A token is the same node in both layouts, with the comments in front of it. -/
theorem Token.Laid.relaid {t t' : Token} (ht : t.Laid source lo) (ht' : t'.Laid source' lo')
    (htext : t.text = t'.text) {kind : Option String} (hkind : kind.getD t.text ∉ commentKinds) :
    Relaid source source' lo t.span.stop lo' t'.span.stop (t.nodes kind) (t'.nodes kind) := by
  have hend : BlankPiece source t.span.stop t.span.stop := .refl ht.piece.stop_isBoundary
  have hend' : BlankPiece source' t'.span.stop t'.span.stop := .refl ht'.piece.stop_isBoundary
  have hstart : BlankPiece source t.span.start t.span.start := .refl ht.piece.start_isBoundary
  have hstart' : BlankPiece source' t'.span.start t'.span.start :=
    .refl ht'.piece.start_isBoundary
  have hslice : slice source t.span = slice source' t'.span := by
    rw [ht.spelled, ht'.spelled, htext]
  have hleaf : Relaid source source' t.span.start t.span.stop t'.span.start t'.span.stop
      [⟨kind.getD t.text, none, kind.isSome, t.span, []⟩]
      [⟨kind.getD t.text, none, kind.isSome, t'.span, []⟩] :=
    .leaf hstart hstart' hkind ht.piece ht'.piece hslice (.nil hend hend')
  rw [Token.nodes, Token.nodes, ← htext]
  have hright := hleaf.symm.comments_left ht'.comments (by simp)
  exact hright.symm.comments_left ht.comments (by simp)

end Nodes

/-! ## Rules that a layout has no say in -/

variable {σ : Type}

/-- The terminal asks for a token without a gap only where that token joins the one before, which
    has the text `before`. -/
def Terminal.layoutFree (before : Option String) : Terminal → Bool
  | .glued text => before.any (joins · text)
  | _ => true

/-- The node of an accepted token is not taken for a comment. -/
def Terminal.plain (kind : Option String) (t : Terminal) : Bool :=
  match kind, t with
  | some kind, _ => !commentKinds.contains kind
  | none, .ofKind kind => kind != .word
  | none, t => t.avoids commentKinds

/-- The text of the last token that the rule reads, where the rule tells it. -/
def Rule.lastText : Rule σ → Option String
  | .leaf (.exact text) _ => some text
  | .leaf (.glued text) _ => some text
  | .both _ b => b.lastText
  | .node _ a => a.lastText
  | .field _ a => a.lastText
  | _ => none

/-- Layout has no say in how the rule reads behind a token with the text `before`, given that it has
    none in the phrases. What goes on with a chain is a node around something. -/
def Rule.layoutFree (phraseSolid : σ → Bool) : Option String → Rule σ → Bool
  | before, .leaf t kind => t.layoutFree before && t.plain kind
  | _, .phrase _ => true
  | _, .empty => true
  | before, .both a b => a.layoutFree phraseSolid before && b.layoutFree phraseSolid a.lastText
  | before, .either a b => a.layoutFree phraseSolid before && b.layoutFree phraseSolid before
  | _, .many a => a.layoutFree phraseSolid none
  | before, .node kind a => !commentKinds.contains kind && a.layoutFree phraseSolid before
  | before, .field _ a => a.layoutFree phraseSolid before
  | before, .chain a b =>
    a.layoutFree phraseSolid before && b.layoutFree phraseSolid none && b.wraps phraseSolid
  | before, .ahead a => a.layoutFree phraseSolid before
  | before, .notAhead a => a.layoutFree phraseSolid before

theorem Terminal.accepts_eq {t : Terminal} {before : Option String} {token token' : Token}
    (h : t.layoutFree before) (hkind : token.kind = token'.kind)
    (htext : token.text = token'.text)
    (hglued : ∀ b ∈ before, joins b token.text → token.glued = token'.glued) :
    t.accepts token = t.accepts token' := by
  cases t with
  | glued text =>
    obtain ⟨b, hb, hjoins⟩ : ∃ b ∈ before, joins b text := by
      simpa [Terminal.layoutFree, Option.any_eq_true] using h
    simp only [Terminal.accepts, hkind, ← htext]
    -- The gap in front counts only for a token with the wanted text.
    by_cases heq : token.text = text
    · rw [hglued b hb (heq ▸ hjoins)]
    · have hne : (token.text == text) = false := by simpa using heq
      rw [hne, Bool.and_false, Bool.and_false]
  | _ => simp only [Terminal.accepts, hkind, htext]

theorem Terminal.lastText_of_accepts {t : Terminal} (kind : Option String) {token : Token}
    (h : t.accepts token) :
    (Rule.leaf t kind : Rule σ).lastText = none ∨
      (Rule.leaf t kind : Rule σ).lastText = some token.text := by
  cases t with
  | exact text | glued text =>
    simp only [Terminal.accepts, Bool.and_eq_true, beq_iff_eq] at h
    exact .inr (congrArg some h.2.symm)
  | _ => exact .inl rfl

theorem Terminal.plain_sound {t : Terminal} {kind : Option String} {token : Token}
    (h : t.plain kind) (haccepts : t.accepts token)
    (hplain : token.kind ≠ .word → token.text ∉ commentKinds) :
    kind.getD token.text ∉ commentKinds := by
  cases kind with
  | some kind => simpa [Terminal.plain] using h
  | none =>
    cases t with
    | ofKind kind =>
      have hkind : token.kind = kind := by simpa [Terminal.accepts] using haccepts
      exact hplain (by simpa [Terminal.plain, ← hkind] using h)
    | exact _ | glued _ | wordExcept _ | wordAmong _ =>
      exact Terminal.avoids_sound (by simpa only [Terminal.plain] using h) haccepts

/-! ## Reading in two layouts -/

/-- What reading comes to in the two layouts, from the offsets `lo` and `lo'` on. -/
inductive SameOutcome (source source' : List Char) (last : Option String) (lo lo' : Nat) :
    Outcome → Outcome → Prop
  | matched {mid mid' : Nat} {xs ys : List Node} {rest rest' : List Token} :
    Relaid source source' lo mid lo' mid' xs ys →
    SameTokens source source' last mid mid' rest rest' →
    SameOutcome source source' last lo lo' (.matched xs rest) (.matched ys rest')
  | mismatch : SameOutcome source source' last lo lo' .mismatch .mismatch
  | exhausted : SameOutcome source source' last lo lo' .exhausted .exhausted

/-- Two readers come to the same behind a token with the text `before`. -/
def SameReading (source source' : List Char) (before last : Option String)
    (read read' : List Token → Outcome) : Prop :=
  ∀ {lo lo' ts ts'}, SameTokens source source' before lo lo' ts ts' →
    SameOutcome source source' last lo lo' (read ts) (read' ts')

section Reading

variable {source source' : List Char} {before last : Option String} {lo lo' : Nat}

theorem SameOutcome.forget {o o' : Outcome} (h : SameOutcome source source' last lo lo' o o') :
    SameOutcome source source' none lo lo' o o' := by
  cases h with
  | matched hnodes hrest => exact .matched hnodes hrest.forget
  | mismatch => exact .mismatch
  | exhausted => exact .exhausted

theorem SameOutcome.mapNodes {o o' : Outcome} {f : List Node → List Node}
    (h : SameOutcome source source' last lo lo' o o')
    (hf : ∀ {hi hi' xs ys}, Relaid source source' lo hi lo' hi' xs ys →
      Relaid source source' lo hi lo' hi' (f xs) (f ys)) :
    SameOutcome source source' last lo lo' (o.mapNodes f) (o'.mapNodes f) := by
  cases h with
  | matched hnodes hrest => exact .matched (hf hnodes) hrest
  | mismatch => exact .mismatch
  | exhausted => exact .exhausted

/-- What was read before stands in front. -/
theorem SameOutcome.prepend {mid mid' : Nat} {o o' : Outcome} {xs ys : List Node}
    (hnodes : Relaid source source' lo mid lo' mid' xs ys)
    (h : SameOutcome source source' last mid mid' o o') :
    SameOutcome source source' last lo lo' (o.mapNodes (xs ++ ·)) (o'.mapNodes (ys ++ ·)) := by
  cases h with
  | matched hmore hrest => exact .matched (hnodes.append hmore) hrest
  | mismatch => exact .mismatch
  | exhausted => exact .exhausted

theorem andThen_matched (xs : List Node) (rest : List Token) (next : List Token → Outcome) :
    (Outcome.matched xs rest).andThen next = (next rest).mapNodes (xs ++ ·) := by
  simp only [Outcome.andThen, Outcome.mapNodes]

theorem SameOutcome.andThen {middle : Option String} {o o' : Outcome}
    {next next' : List Token → Outcome} (h : SameOutcome source source' middle lo lo' o o')
    (hnext : SameReading source source' middle last next next') :
    SameOutcome source source' last lo lo' (o.andThen next) (o'.andThen next') := by
  cases h with
  | matched hnodes hrest =>
    rw [andThen_matched, andThen_matched]
    exact .prepend hnodes (hnext hrest)
  | mismatch => exact .mismatch
  | exhausted => exact .exhausted

theorem SameTokens.matched_nil {ts ts' : List Token}
    (h : SameTokens source source' before lo lo' ts ts') :
    SameOutcome source source' none lo lo' (.matched [] ts) (.matched [] ts') :=
  .matched (.nil h.blankPieces.1 h.blankPieces.2) h.forget

variable {one one' : List Token → Outcome}

theorem SameReading.readMany (hone : SameReading source source' none none one one')
    {rounds rounds' ts ts' : List Token} (hrounds : rounds.length = rounds'.length)
    (hts : SameTokens source source' none lo lo' ts ts') :
    SameOutcome source source' none lo lo' (readMany one rounds ts)
      (Cst.readMany one' rounds' ts') := by
  induction rounds generalizing rounds' lo lo' ts ts' with
  | nil =>
    obtain rfl : rounds' = [] := List.eq_nil_of_length_eq_zero hrounds.symm
    exact hts.matched_nil
  | cons _ rounds ih =>
    obtain _ | ⟨_, rounds'⟩ := rounds'
    · simp at hrounds
    have hrounds : rounds.length = rounds'.length := by simpa using hrounds
    have hread := hone hts
    rw [Cst.readMany, Cst.readMany]
    generalize one ts = o, one' ts' = o' at hread
    cases hread with
    | matched hnodes hrest => exact .prepend hnodes (ih hrounds hrest)
    | mismatch => exact hts.matched_nil
    | exhausted => exact .exhausted

theorem SameReading.readChain (hone : SameReading source source' none none one one')
    (hwide : AlwaysYields EndsWide one) {start start' : Nat} {rounds rounds' ts ts' : List Token}
    {before before' : List Node} (hrounds : rounds.length = rounds'.length)
    (hbefore : Relaid source source' start lo start' lo' before before')
    (hts : SameTokens source source' none lo lo' ts ts') :
    SameOutcome source source' none start start' (readChain one rounds before ts)
      (Cst.readChain one' rounds' before' ts') := by
  induction rounds generalizing rounds' lo lo' before before' ts ts' with
  | nil =>
    obtain rfl : rounds' = [] := List.eq_nil_of_length_eq_zero hrounds.symm
    exact .matched hbefore hts
  | cons _ rounds ih =>
    obtain _ | ⟨_, rounds'⟩ := rounds'
    · simp at hrounds
    have hrounds : rounds.length = rounds'.length := by simpa using hrounds
    have hread := hone hts
    have hends := @hwide ts
    rw [Cst.readChain, Cst.readChain]
    generalize one ts = o, one' ts' = o' at hread hends
    cases hread with
    | matched hnodes hrest => exact ih hrounds (hbefore.extend hnodes (hends rfl)) hrest
    | mismatch => exact .matched hbefore hts
    | exhausted => exact .exhausted

/-- **A rule that layout has no say in reads the same in both layouts.** -/
theorem Rule.sameReading {phraseSolid : σ → Bool} {phrase phrase' : σ → List Token → Outcome}
    (hsolid : ∀ s, phraseSolid s → AlwaysYields HasNode (phrase s))
    (hphrase : ∀ s, SameReading source source' none none (phrase s) (phrase' s)) {r : Rule σ}
    (hr : r.layoutFree phraseSolid before) :
    SameReading source source' before r.lastText (r.readWith phrase) (r.readWith phrase') := by
  induction r generalizing before with
  | leaf t kind =>
    intro lo lo' ts ts' hts
    simp only [Rule.layoutFree, Bool.and_eq_true] at hr
    cases hts with
    | nil => exact .mismatch
    | cons hkind htext hglued ht ht' hts =>
      rw [Rule.readWith, Rule.readWith, ← Terminal.accepts_eq hr.1 hkind htext hglued]
      split
      · next haccepts =>
        have hplain := Terminal.plain_sound hr.2 haccepts ht.plain
        refine .matched (ht.relaid ht' htext hplain) ?_
        rcases Terminal.lastText_of_accepts kind haccepts with hlast | hlast
        · rw [hlast]
          exact hts.forget
        · rw [hlast]
          exact hts
      · exact .mismatch
  | phrase s => exact fun hts => hphrase s hts.forget
  | empty => exact fun hts => hts.matched_nil
  | both a b iha ihb =>
    intro lo lo' ts ts' hts
    simp only [Rule.layoutFree, Bool.and_eq_true] at hr
    exact (iha hr.1 hts).andThen (ihb hr.2)
  | either a b iha ihb =>
    intro lo lo' ts ts' hts
    simp only [Rule.layoutFree, Bool.and_eq_true] at hr
    have ha := iha hr.1 hts
    rw [Rule.readWith, Rule.readWith]
    generalize a.readWith phrase ts = o, a.readWith phrase' ts' = o' at ha
    cases ha with
    | matched hnodes hrest => exact .matched hnodes hrest.forget
    | mismatch => exact (ihb hr.2 hts).forget
    | exhausted => exact .exhausted
  | many a ih =>
    intro lo lo' ts ts' hts
    exact SameReading.readMany (fun hts => (ih hr hts).forget) hts.length_eq hts.forget
  | node kind a ih =>
    intro lo lo' ts ts' hts
    simp only [Rule.layoutFree, Bool.and_eq_true, Bool.not_eq_true', List.contains_eq_mem,
      decide_eq_false_iff_not] at hr
    exact (ih hr.2 hts).mapNodes (.enclose hr.1)
  | field name a ih =>
    intro lo lo' ts ts' hts
    exact (ih hr hts).mapNodes (.fill name)
  | chain a b iha ihb =>
    intro lo lo' ts ts' hts
    simp only [Rule.layoutFree, Bool.and_eq_true] at hr
    have ha := iha hr.1.1 hts
    rw [Rule.readWith, Rule.readWith]
    generalize a.readWith phrase ts = o, a.readWith phrase' ts' = o' at ha
    cases ha with
    | matched hnodes hrest =>
      refine SameReading.readChain (fun hts => (ihb hr.1.2 hts).forget) ?_ hrest.length_eq hnodes
        hrest.forget
      intro ts more rest hread
      obtain ⟨front, last, rfl, -, hchildren⟩ := Rule.wraps_sound hsolid hr.2 hread
      exact ⟨last, by simp, hchildren⟩
    | mismatch => exact .mismatch
    | exhausted => exact .exhausted
  | ahead a ih =>
    intro lo lo' ts ts' hts
    have ha := ih hr hts
    rw [Rule.readWith, Rule.readWith]
    generalize a.readWith phrase ts = o, a.readWith phrase' ts' = o' at ha
    cases ha with
    | matched => exact hts.matched_nil
    | mismatch => exact .mismatch
    | exhausted => exact .exhausted
  | notAhead a ih =>
    intro lo lo' ts ts' hts
    have ha := ih hr hts
    rw [Rule.readWith, Rule.readWith]
    generalize a.readWith phrase ts = o, a.readWith phrase' ts' = o' at ha
    cases ha with
    | matched => exact .mismatch
    | mismatch => exact hts.matched_nil
    | exhausted => exact .exhausted

theorem Grammar.sameReading {g : Grammar σ} (phraseSolid : σ → Bool)
    (hsolid : ∀ s, phraseSolid s → (g s).solid phraseSolid)
    (hg : ∀ s, (g s).layoutFree phraseSolid none) (bound : Nat) (s : σ) :
    SameReading source source' none none (g.read bound s) (g.read bound s) := by
  induction bound generalizing s with
  | zero => exact fun _ => .exhausted
  | succ bound ih =>
    exact fun hts => (Rule.sameReading (Grammar.solid_sound hsolid bound) ih (hg s) hts).forget

/-- Layout has no say in the phrases of Java. -/
theorem javaGrammar_sameReading (bound : Nat) (s : Phrase) :
    SameReading source source' none none (javaGrammar.read bound s) (javaGrammar.read bound s) := by
  refine Grammar.sameReading (fun s => s == .typeArguments || s == .dimensions) (fun s hs => ?_)
    (fun s => ?_) bound s
  · cases s <;> first | decide | exact absurd hs (by decide)
  · cases s <;> decide

end Reading

/-! ## The trees of two sources -/

/-- **Sources with the same tokens are read to trees that differ in layout only**, apart from the
    comments behind the last token. -/
theorem relaid_of_javaTokens {source source' : List Char} {root root' : Node}
    (hroot : javaTree source = some root) (hroot' : javaTree source' = some root')
    (htokens : javaTokens source = javaTokens source') :
    ∃ (nodes nodes' : List Node) (trailing trailing' : List Comment) (lo hi lo' hi' : Nat),
      root.children = nodes ++ trailing.map Comment.node ∧
      root'.children = nodes' ++ trailing'.map Comment.node ∧
      Relaid source source' lo hi lo' hi' nodes nodes' := by
  obtain ⟨s, nodes, hscan, hchildren, hread⟩ := exists_read_of_javaTree hroot
  obtain ⟨s', nodes', hscan', hchildren', hread'⟩ := exists_read_of_javaTree hroot'
  obtain ⟨lo, hlaid⟩ := scan_laid hscan
  obtain ⟨lo', hlaid'⟩ := scan_laid hscan'
  have hsigns : tokenSigns none s.tokens = tokenSigns none s'.tokens := by
    simpa [javaTokens, hscan, hscan', Except.toOption] using htokens
  have hsame := sameTokens_of_signs hsigns hlaid hlaid'
  -- The rows of tokens have one length, so both are read with the same bound.
  rw [referenceBound, ← hsame.length_eq, ← referenceBound] at hread'
  have houtcome := Rule.sameReading
    (fun s hs => Grammar.solid_sound (fun _ h => absurd h (by simp)) _ s hs)
    (javaGrammar_sameReading (referenceBound s.tokens))
    (by decide : (Rule.many Java.topLevel).layoutFree (fun _ => false) none) hsame
  rw [hread, hread'] at houtcome
  cases houtcome with
  | matched hnodes => exact ⟨_, _, _, _, _, _, _, _, hchildren, hchildren', hnodes⟩

end JavaThrows.Cst
