import JavaThrows.Proofs.Pattern.MethodPattern

set_option autoImplicit false

/-!
# The grammar of method patterns

A method pattern is read by cutting its text at parentheses, commas, blanks and points. The texts
that can be read are told here as a grammar, with the type patterns as a parameter of it. Reading
takes looser type patterns than are documented: any run of points and dollar signs joins segments,
and a pattern may start with one. Main statement: `exists_compile_iff`.
-/

namespace JavaThrows

open JavaThrows.Unicode

/-! ## The grammar -/

def isSeparator (c : Char) : Bool :=
  c == '.' || c == '$'

/-- Segments with joints between them. -/
inductive SegmentRow (joint : List Char → Prop) : List Char → Prop
  | last {piece : List Char} : TypePattern.IsPiece piece → SegmentRow joint piece
  | cons {piece sep rest : List Char} : TypePattern.IsPiece piece → joint sep →
    SegmentRow joint rest → SegmentRow joint (piece ++ sep ++ rest)

/-- The documented type patterns: one point, two points or a dollar sign join two segments. -/
def StrictType : List Char → Prop :=
  SegmentRow (· ∈ [['.'], ['.', '.'], ['$']])

/-- Separators, at least one. -/
def IsRun (sep : List Char) : Prop :=
  sep ≠ [] ∧ ∀ c ∈ sep, isSeparator c

/-- The type patterns that are read: separators in any number join two segments, and they may also
    stand in front. -/
inductive LooseType : List Char → Prop
  | mk {front row : List Char} : (∀ c ∈ front, isSeparator c) → SegmentRow IsRun row →
    LooseType (front ++ row)

/-- Pairs of brackets, with blanks before each. -/
inductive BracketRow : List Char → Prop
  | nil : BracketRow []
  | concat {dims blanks : List Char} : BracketRow dims → isBlank blanks →
    BracketRow (dims ++ blanks ++ ['[', ']'])

/-- The pattern of an argument. -/
inductive ArgText (isType : List Char → Prop) : List Char → Prop
  | anyRun : ArgText isType "..".toList
  | anyOne : ArgText isType ['*']
  | type {type dims : List Char} : isType type → BracketRow dims → ArgText isType (type ++ dims)
  | variadic {type dims blanks : List Char} : isType type → BracketRow dims → isBlank blanks →
    ArgText isType (type ++ dims ++ blanks ++ "...".toList)

/-- What stands between the parentheses. -/
inductive ArgsText (isType : List Char → Prop) : List Char → Prop
  | none {blanks : List Char} : isBlank blanks → ArgsText isType blanks
  | list {pieces : List (List Char)} : pieces ≠ [] →
    (∀ piece ∈ pieces, ∃ before arg behind, isBlank before ∧ ArgText isType arg ∧
      isBlank behind ∧ piece = before ++ arg ++ behind) →
    ArgsText isType (List.intercalate [','] pieces)

/-- What stands between the type and the name. -/
inductive GapText : List Char → Prop
  | blanks {gap : List Char} : gap ≠ [] → isBlank gap → GapText gap
  | sign {before behind : List Char} : isBlank before → isBlank behind →
    GapText (before ++ '#' :: behind)

def NameText (name : List Char) : Prop :=
  isSegment name ∨ name = MethodPattern.constructorMark.toList

/-- A method pattern, given what type patterns are. -/
inductive PatternText (isType : List Char → Prop) : List Char → Prop
  | mk {type gap name blanks args : List Char} : isType type → GapText gap → NameText name →
    isBlank blanks → ArgsText isType args →
    PatternText isType (type ++ gap ++ name ++ blanks ++ '(' :: (args ++ [')']))

theorem isPrinted_of_isSeparator {c : Char} (h : isSeparator c) : isPrinted c := by
  simp only [isSeparator, Bool.or_eq_true, beq_iff_eq] at h
  rcases h with rfl | rfl <;> decide

/-! ### Stricter type patterns -/

theorem SegmentRow.mono {joint joint' : List Char → Prop} (h : ∀ sep, joint sep → joint' sep)
    {text : List Char} (ht : SegmentRow joint text) : SegmentRow joint' text := by
  induction ht with
  | last hpiece => exact .last hpiece
  | cons hpiece hsep _ ih => exact .cons hpiece (h _ hsep) ih

theorem StrictType.loose {text : List Char} (h : StrictType text) : LooseType text := by
  have hjoint : ∀ sep ∈ [['.'], ['.', '.'], ['$']], IsRun sep := by
    simp [IsRun, isSeparator]
  exact @LooseType.mk [] _ (List.forall_mem_nil _) (SegmentRow.mono hjoint h)

theorem ArgText.mono {isType isType' : List Char → Prop} (h : ∀ text, isType text → isType' text)
    {text : List Char} (ht : ArgText isType text) : ArgText isType' text := by
  cases ht with
  | anyRun => exact .anyRun
  | anyOne => exact .anyOne
  | type htype hdims => exact .type (h _ htype) hdims
  | variadic htype hdims hblanks => exact .variadic (h _ htype) hdims hblanks

/-- Stricter type patterns make stricter method patterns. -/
theorem PatternText.mono {isType isType' : List Char → Prop}
    (h : ∀ text, isType text → isType' text) {text : List Char} (ht : PatternText isType text) :
    PatternText isType' text := by
  obtain ⟨htype, hgap, hname, hblanks, hargs⟩ := ht
  refine .mk (h _ htype) hgap hname hblanks ?_
  cases hargs with
  | none hblanks => exact .none hblanks
  | list hne hpieces =>
    refine .list hne fun piece hpiece => ?_
    obtain ⟨before, arg, behind, hbefore, harg, hbehind, rfl⟩ := hpieces piece hpiece
    exact ⟨before, arg, behind, hbefore, harg.mono h, hbehind, rfl⟩

/-! ## Type patterns -/

namespace TypePattern

theorem isSome_segmentsOf (afterRun : Bool) (pieces : List (List Char)) :
    (segmentsOf afterRun pieces).isSome = (segmentsOf false pieces).isSome := by
  match pieces with
  | [] => rfl
  | [] :: [] => rfl
  | [] :: second :: pieces =>
    rw [segmentsOf_gap (List.cons_ne_nil _ _), segmentsOf_gap (List.cons_ne_nil _ _)]
    cases afterRun <;> simp
  | (c :: cs) :: pieces =>
    rw [segmentsOf_cons (List.cons_ne_nil c cs), segmentsOf_cons (List.cons_ne_nil c cs)]

/-- Whether the text can be read as a row of segments. -/
def isReadable (text : List Char) : Bool :=
  (segmentsOf false (Text.splitOn '.' (dollarsToPoints text))).isSome

theorem isReadable_separator {c : Char} (hc : isSeparator c) (text : List Char) :
    isReadable (c :: text) = isReadable text := by
  have hpoint : dollarsToPoints (c :: text) = '.' :: dollarsToPoints text := by
    simp only [isSeparator, Bool.or_eq_true, beq_iff_eq] at hc
    rcases hc with rfl | rfl <;> rfl
  rw [isReadable, hpoint, Text.splitOn_cons_self, segmentsOf_gap (Text.splitOn_ne_nil _ _),
    if_neg Bool.false_ne_true, Option.isSome_map, isSome_segmentsOf, isReadable]

theorem dollarsToPoints_append (front back : List Char) :
    dollarsToPoints (front ++ back) = dollarsToPoints front ++ dollarsToPoints back :=
  List.map_append

/-- The text up to a separator is a segment, or the text cannot be read. -/
theorem isReadable_append_separator {piece : List Char} (hne : piece ≠ [])
    (hpiece : ∀ d ∈ piece, isSeparator d = false) {c : Char} (hc : isSeparator c)
    (rest : List Char) :
    isReadable (piece ++ c :: rest) = (isSegment piece && isReadable rest) := by
  have hnot {d : Char} (hd : isSeparator d) : d ∉ piece := fun hmem => by
    simp [hpiece d hmem] at hd
  have hpoint : dollarsToPoints (c :: rest) = '.' :: dollarsToPoints rest := by
    simp only [isSeparator, Bool.or_eq_true, beq_iff_eq] at hc
    rcases hc with rfl | rfl <;> rfl
  rw [isReadable, dollarsToPoints_append, dollarsToPoints_eq_self (hnot (by decide)), hpoint,
    Text.splitOn_append_cons (hnot (by decide)), segmentsOf_cons hne, isReadable]
  split
  · next hsegment => rw [Option.isSome_map, hsegment, Bool.true_and]
  · next hsegment => simp [hsegment]

theorem isReadable_of_no_separator {piece : List Char} (hne : piece ≠ [])
    (hpiece : ∀ d ∈ piece, isSeparator d = false) : isReadable piece = isSegment piece := by
  have hnot {d : Char} (hd : isSeparator d) : d ∉ piece := fun hmem => by
    simp [hpiece d hmem] at hd
  rw [isReadable, dollarsToPoints_eq_self (hnot (by decide)),
    Text.splitOn_of_notMem (hnot (by decide)), segmentsOf_cons hne]
  cases hsegment : isSegment piece <;> simp [segmentsOf]

theorem isSeparator_of_mem_piece {piece : List Char} (h : IsPiece piece) :
    ∀ c ∈ piece, isSeparator c = false := by
  intro c hc
  cases hsep : isSeparator c with
  | false => rfl
  | true =>
    simp only [isSeparator, Bool.or_eq_true, beq_iff_eq] at hsep
    rcases hsep with rfl | rfl
    · exact absurd hc (point_notMem_of_isSegment h.1)
    · exact absurd hc h.2

theorem isReadable_front {front : List Char} (hfront : ∀ c ∈ front, isSeparator c)
    (text : List Char) : isReadable (front ++ text) = isReadable text := by
  induction front with
  | nil => rfl
  | cons c front ih =>
    rw [List.forall_mem_cons] at hfront
    rw [List.cons_append, isReadable_separator hfront.1, ih hfront.2]

theorem isReadable_of_segmentRow {row : List Char} (h : SegmentRow IsRun row) :
    isReadable row := by
  induction h with
  | last hpiece =>
    rw [isReadable_of_no_separator (ne_nil_of_isSegment hpiece.1) (isSeparator_of_mem_piece hpiece)]
    exact hpiece.1
  | @cons piece sep rest hpiece hsep _ ih =>
    obtain ⟨c, sep, rfl⟩ := List.exists_cons_of_ne_nil hsep.1
    have hseps := List.forall_mem_cons.1 hsep.2
    rw [List.append_assoc, List.cons_append,
      isReadable_append_separator (ne_nil_of_isSegment hpiece.1) (isSeparator_of_mem_piece hpiece)
        hseps.1, hpiece.1, Bool.true_and, isReadable_front hseps.2]
    exact ih

/-- What can be read ends before its first separator or has segments on both sides of it. -/
theorem looseType_of_isReadable {text : List Char} (h : isReadable text) : LooseType text := by
  generalize hlength : text.length = n
  induction n using Nat.strongRecOn generalizing text with
  | _ n ih =>
    subst hlength
    -- The text up to the first separator.
    have hpiece : ∀ d ∈ text.takeWhile (fun c => !isSeparator c), isSeparator d = false :=
      fun d hd => by simpa using List.all_eq_true.1 List.all_takeWhile d hd
    have hparts := List.takeWhile_append_dropWhile (p := fun c => !isSeparator c) (l := text)
    have hstop := List.head?_dropWhile_not (fun c => !isSeparator c) text
    generalize text.takeWhile (fun c => !isSeparator c) = piece at hpiece hparts
    generalize text.dropWhile (fun c => !isSeparator c) = back at hparts hstop
    subst hparts
    have hsegment (hrow : isSegment piece) : IsPiece piece :=
      ⟨hrow, fun hmem => by simpa [isSeparator] using hpiece '$' hmem⟩
    cases back with
    | nil =>
      rw [List.append_nil] at h ⊢
      by_cases hne : piece = []
      · subst hne
        exact absurd h (by decide)
      · rw [isReadable_of_no_separator hne hpiece] at h
        exact @LooseType.mk [] _ (List.forall_mem_nil _) (.last (hsegment h))
    | cons c rest =>
      have hc : isSeparator c := by simpa using hstop
      by_cases hne : piece = []
      · subst hne
        rw [List.nil_append, isReadable_separator hc] at h
        obtain ⟨hfront, hrow⟩ := ih _ (by simp) h rfl
        rw [List.nil_append, ← List.cons_append]
        exact .mk (List.forall_mem_cons.2 ⟨hc, hfront⟩) hrow
      · rw [isReadable_append_separator hne hpiece hc, Bool.and_eq_true] at h
        obtain ⟨hfront, hrow⟩ := ih _ (by simp; omega) h.2 rfl
        rw [← List.cons_append, ← List.append_assoc]
        exact @LooseType.mk [] _ (List.forall_mem_nil _)
          (.cons (hsegment h.1)
            ⟨List.cons_ne_nil _ _, List.forall_mem_cons.2 ⟨hc, hfront⟩⟩ hrow)

theorem isReadable_iff_looseType {text : List Char} : isReadable text ↔ LooseType text := by
  refine ⟨looseType_of_isReadable, ?_⟩
  rintro ⟨hfront, hrow⟩
  rw [isReadable_front hfront]
  exact isReadable_of_segmentRow hrow

/-! ### Dimensions -/

/-- Three points, with blanks before them, or nothing. -/
def IsTail (tail : List Char) : Prop :=
  tail = [] ∨ ∃ blanks, isBlank blanks ∧ tail = blanks ++ "...".toList

theorem bracketRow_of_peelBrackets (cs : List Char) :
    ∃ dims, BracketRow dims ∧ cs.reverse = (peelBrackets cs).1.reverse ++ dims := by
  fun_induction peelBrackets cs with
  | case1 cs r ih =>
    obtain ⟨dims, hdims, heq⟩ := ih
    refine ⟨_, hdims.concat (isBlank_reverse.2 (isBlank_takeWhile cs)), ?_⟩
    have hparts : cs.reverse = (cs.dropWhile isSpace).reverse ++ (cs.takeWhile isSpace).reverse := by
      rw [← List.reverse_append, List.takeWhile_append_dropWhile]
    rw [List.reverse_cons, List.reverse_cons, hparts, heq]
    simp [r]
  | case2 cs => exact ⟨[], .nil, (List.append_nil _).symm⟩

/-- What the dimensions are taken off from, with the dimensions. -/
theorem exists_peelDimensions (text : List Char) :
    ∃ dims tail, BracketRow dims ∧ IsTail tail ∧
      text = (peelDimensions text).1 ++ dims ++ tail := by
  rw [peelDimensions]
  cases hdots : Text.beforeEnd? "...".toList text with
  | none =>
    obtain ⟨dims, hdims, heq⟩ := bracketRow_of_peelBrackets text.reverse
    refine ⟨dims, [], hdims, .inl rfl, ?_⟩
    rw [List.reverse_reverse] at heq
    rw [List.append_nil]
    exact heq
  | some rest =>
    obtain ⟨dims, hdims, heq⟩ := bracketRow_of_peelBrackets (trimEnd rest).reverse
    obtain ⟨blanks, hblanks, hrest⟩ := exists_trimEnd rest
    refine ⟨dims, _, hdims, .inr ⟨blanks, hblanks, rfl⟩, ?_⟩
    rw [List.reverse_reverse] at heq
    rw [Text.eq_append_of_beforeEnd? hdots, ← List.append_assoc]
    exact congrArg (· ++ _) (hrest.trans (congrArg (· ++ blanks) heq))

/-- A name with brackets behind it ends in a bracket or in a character of a name. -/
theorem exists_last_of_bracketRow {base dims : List Char} (hbase : EndsInName base)
    (hdims : BracketRow dims) :
    ∃ front c, base ++ dims = front ++ [c] ∧ c ≠ '.' ∧ isSpace c = false := by
  cases hdims with
  | nil =>
    obtain ⟨front, c, rfl, hc⟩ := hbase
    refine ⟨front, c, List.append_nil _, ?_, isSpace_of_isPrinted (isPrinted_of_isSegmentPart hc)⟩
    rintro rfl
    exact absurd hc (by decide)
  | @concat dims blanks _ _ =>
    exact ⟨base ++ (dims ++ blanks ++ ['[']), ']', by simp, by decide, by decide⟩

theorem trimEnd_append_bracketRow {base dims blanks : List Char} (hbase : EndsInName base)
    (hdims : BracketRow dims) (hblanks : isBlank blanks) :
    trimEnd (base ++ dims ++ blanks) = base ++ dims := by
  obtain ⟨front, c, heq, -, hc⟩ := exists_last_of_bracketRow hbase hdims
  rw [trimEnd_append_blank _ hblanks]
  refine trimEnd_eq_self fun d hd => ?_
  rw [heq, List.getLast?_concat] at hd
  exact Option.some.inj hd ▸ hc

theorem peelBrackets_of_bracketRow {base dims : List Char} (hbase : EndsInName base)
    (hdims : BracketRow dims) : (peelBrackets (base ++ dims).reverse).1 = base.reverse := by
  induction hdims with
  | nil =>
    obtain ⟨front, c, rfl, hc⟩ := hbase
    rw [List.append_nil, List.reverse_concat, peelBrackets]
    rintro rest heq
    obtain rfl : c = ']' := (List.cons.inj heq).1
    exact absurd hc (by decide)
  | @concat dims blanks hdims hblanks ih =>
    have hstart : (base ++ (dims ++ blanks ++ ['[', ']'])).reverse =
        ']' :: '[' :: (base ++ dims ++ blanks).reverse := by simp
    have htrim := trimEnd_append_bracketRow hbase hdims hblanks
    rw [trimEnd, List.reverse_eq_iff] at htrim
    rw [hstart, peelBrackets, htrim]
    exact ih

/-- Dimensions behind a name are taken off. -/
theorem peelDimensions_append {base dims tail : List Char} (hbase : EndsInName base)
    (hdims : BracketRow dims) (htail : IsTail tail) :
    (peelDimensions (base ++ dims ++ tail)).1 = base := by
  rcases htail with rfl | ⟨blanks, hblanks, rfl⟩
  · obtain ⟨front, c, heq, hc, -⟩ := exists_last_of_bracketRow hbase hdims
    have hdots : Text.beforeEnd? "...".toList (base ++ dims) = none :=
      heq ▸ Text.beforeEnd?_concat_of_ne hc.symm ['.', '.'] front
    simp only [peelDimensions, List.append_nil, hdots]
    rw [peelBrackets_of_bracketRow hbase hdims, List.reverse_reverse]
  · rw [← List.append_assoc]
    simp only [peelDimensions, Text.beforeEnd?_append]
    rw [trimEnd_append_bracketRow hbase hdims hblanks, peelBrackets_of_bracketRow hbase hdims,
      List.reverse_reverse]

/-! ### Reading type patterns -/

theorem isSome_ofList? (text : List Char) :
    (ofList? text).isSome = isReadable (peelDimensions (trim text)).1 := by
  rw [ofList?]
  generalize peelDimensions (trim text) = peeled
  obtain ⟨base, dims⟩ := peeled
  simp only
  split
  · next hempty =>
    rw [List.isEmpty_iff.1 hempty]
    decide
  split
  · next hstar =>
    rw [hstar, Option.isSome_some, eq_comm]
    decide +kernel
  · rw [Option.isSome_map, isReadable]

theorem dims_of_ofList? {text : List Char} {p : TypePattern} (h : ofList? text = some p) :
    p.dims = (peelDimensions (trim text)).2 := by
  rw [ofList?] at h
  generalize peelDimensions (trim text) = peeled at h ⊢
  obtain ⟨base, dims⟩ := peeled
  simp only at h
  split at h
  · cases h
  split at h
  · rw [← Option.some.inj h]
  · obtain ⟨ss, -, rfl⟩ := Option.map_eq_some_iff.1 h
    rfl

theorem endsInName_of_segmentRow {joint : List Char → Prop} {row : List Char}
    (h : SegmentRow joint row) : EndsInName row := by
  induction h with
  | last hpiece => exact endsInName_of_isSegment hpiece.1
  | cons _ _ _ ih => exact ih.append _

theorem endsInName_of_looseType {text : List Char} (h : LooseType text) : EndsInName text := by
  obtain ⟨-, hrow⟩ := h
  exact (endsInName_of_segmentRow hrow).append _

/-- **The type patterns with dimensions that are read.** -/
theorem isSome_ofList?_iff {text : List Char} :
    (ofList? text).isSome ↔
      ∃ type dims tail, LooseType type ∧ BracketRow dims ∧ IsTail tail ∧
        trim text = type ++ dims ++ tail := by
  rw [isSome_ofList?, isReadable_iff_looseType]
  constructor
  · intro htype
    obtain ⟨dims, tail, hdims, htail, heq⟩ := exists_peelDimensions (trim text)
    exact ⟨_, dims, tail, htype, hdims, htail, heq⟩
  · rintro ⟨type, dims, tail, htype, hdims, htail, heq⟩
    rwa [heq, peelDimensions_append (endsInName_of_looseType htype) hdims htail]

/-- **The type patterns without dimensions that are read.** -/
theorem exists_ofList?_noDims_iff {text : List Char} :
    (∃ p, ofList? text = some p ∧ p.dims = 0) ↔ LooseType (trim text) := by
  constructor
  · rintro ⟨p, hp, hdims⟩
    rw [dims_of_ofList? hp] at hdims
    have hwhole : (peelDimensions (trim text)).1 = trim text :=
      eq_of_peelDimensions (Prod.ext rfl hdims)
    have hbase := isSome_ofList? text
    rw [hp, Option.isSome_some, hwhole] at hbase
    exact isReadable_iff_looseType.1 hbase.symm
  · intro htype
    have hpeel := peelDimensions_append_brackets (endsInName_of_looseType htype) 0
    rw [Text.brackets, List.append_nil] at hpeel
    have hsome := isSome_ofList? text
    rw [hpeel, isReadable_iff_looseType.2 htype] at hsome
    obtain ⟨p, hp⟩ := Option.isSome_iff_exists.1 hsome
    exact ⟨p, hp, (dims_of_ofList? hp).trans (by rw [hpeel])⟩

end TypePattern

/-! ## Arguments -/

namespace MethodPattern

open TypePattern

theorem isPrinted_of_segmentRow {row : List Char} (h : SegmentRow IsRun row) :
    ∀ c ∈ row, isPrinted c := by
  have hpiece {piece : List Char} (h : IsPiece piece) : ∀ c ∈ piece, isPrinted c :=
    fun c hc => isPrinted_of_isSegmentPart (isSegmentPart_of_isSegment h.1 c hc)
  induction h with
  | last h => exact hpiece h
  | cons h hsep _ ih =>
    rw [List.forall_mem_append, List.forall_mem_append]
    exact ⟨⟨hpiece h, fun c hc => isPrinted_of_isSeparator (hsep.2 c hc)⟩, ih⟩

theorem isPrinted_of_looseType {text : List Char} (h : LooseType text) : ∀ c ∈ text, isPrinted c := by
  obtain ⟨hfront, hrow⟩ := h
  rw [List.forall_mem_append]
  exact ⟨fun c hc => isPrinted_of_isSeparator (hfront c hc), isPrinted_of_segmentRow hrow⟩

theorem looseType_ne_nil {text : List Char} (h : LooseType text) : text ≠ [] := by
  obtain ⟨front, c, rfl, -⟩ := endsInName_of_looseType h
  simp

theorem isPrinted_or_isSpace_of_bracketRow {dims : List Char} (h : BracketRow dims) :
    ∀ c ∈ dims, isPrinted c ∨ isSpace c := by
  induction h with
  | nil => exact List.forall_mem_nil _
  | concat _ hblanks ih =>
    rw [List.forall_mem_append, List.forall_mem_append]
    refine ⟨⟨ih, fun c hc => .inr (isBlank_iff.1 hblanks c hc)⟩, ?_⟩
    simp [show isPrinted '[' from by decide, show isPrinted ']' from by decide]

theorem isPrinted_or_isSpace_of_argText {arg : List Char} (h : ArgText LooseType arg) :
    ∀ c ∈ arg, isPrinted c ∨ isSpace c := by
  have hpoint : isPrinted '.' := by decide
  have hstar : isPrinted '*' := by decide
  cases h with
  | anyRun => simp [hpoint]
  | anyOne => simp [hstar]
  | type htype hdims =>
    rw [List.forall_mem_append]
    exact ⟨fun c hc => .inl (isPrinted_of_looseType htype c hc),
      isPrinted_or_isSpace_of_bracketRow hdims⟩
  | variadic htype hdims hblanks =>
    simp only [List.forall_mem_append]
    exact ⟨⟨⟨fun c hc => .inl (isPrinted_of_looseType htype c hc),
      isPrinted_or_isSpace_of_bracketRow hdims⟩, fun c hc => .inr (isBlank_iff.1 hblanks c hc)⟩,
      by simp [hpoint]⟩

theorem notMem_of_argText {arg : List Char} (h : ArgText LooseType arg) {c : Char}
    (hprinted : isPrinted c = false) (hspace : isSpace c = false) : c ∉ arg := by
  intro hmem
  rcases isPrinted_or_isSpace_of_argText h c hmem with hc | hc
  · simp [hprinted] at hc
  · simp [hspace] at hc

theorem trim_eq_self_of_type {type : List Char} (htype : LooseType type) {front : List Char}
    {c : Char} (hc : isSpace c = false) {rest : List Char} (heq : type ++ rest = front ++ [c]) :
    trim (type ++ rest) = type ++ rest := by
  obtain ⟨d, ds, rfl⟩ := List.exists_cons_of_ne_nil (looseType_ne_nil htype)
  refine trim_eq_self (fun e he => ?_) fun e he => ?_
  · obtain rfl := Option.some.inj he
    exact isSpace_of_isPrinted (isPrinted_of_looseType htype d List.mem_cons_self)
  · rw [heq, List.getLast?_concat] at he
    exact Option.some.inj he ▸ hc

theorem trim_argText {arg : List Char} (h : ArgText LooseType arg) : trim arg = arg := by
  cases h with
  | anyRun => decide
  | anyOne => decide
  | type htype hdims =>
    obtain ⟨front, c, heq, -, hc⟩ := exists_last_of_bracketRow (endsInName_of_looseType htype) hdims
    exact trim_eq_self_of_type htype hc heq
  | @variadic type dims blanks htype hdims hblanks =>
    have hparts : type ++ dims ++ blanks ++ "...".toList =
        type ++ (dims ++ blanks ++ "...".toList) := by simp
    rw [hparts]
    have hlast : type ++ (dims ++ blanks ++ "...".toList) =
        (type ++ dims ++ blanks ++ "..".toList) ++ ['.'] := by simp
    exact trim_eq_self_of_type htype (by decide) hlast

/-- **The patterns of arguments that are read.** -/
theorem isSome_argOf?_iff {piece : List Char} :
    (argOf? (trim piece)).isSome ↔ ArgText LooseType (trim piece) := by
  have hread : (argOf? (trim piece)).isSome ↔ trim piece = "..".toList ∨ trim piece = ['*'] ∨
      (ofList? (trim piece)).isSome := by
    rw [argOf?]
    split
    · next hdots => simp [hdots]
    split
    · next hstar => simp [hstar]
    · next hdots hstar => rw [Option.isSome_map, or_iff_right hdots, or_iff_right hstar]
  rw [hread, isSome_ofList?_iff, trim_trim]
  generalize trim piece = arg
  constructor
  · rintro (rfl | rfl | ⟨type, dims, tail, htype, hdims, rfl | ⟨blanks, hblanks, rfl⟩, rfl⟩)
    · exact .anyRun
    · exact .anyOne
    · rw [List.append_nil]
      exact .type htype hdims
    · rw [← List.append_assoc]
      exact .variadic htype hdims hblanks
  · intro h
    cases h with
    | anyRun => exact .inl rfl
    | anyOne => exact .inr (.inl rfl)
    | @type type dims htype hdims =>
      exact .inr (.inr ⟨type, dims, [], htype, hdims, .inl rfl, (List.append_nil _).symm⟩)
    | @variadic type dims blanks htype hdims hblanks =>
      exact .inr (.inr ⟨type, dims, _, htype, hdims, .inr ⟨blanks, hblanks, rfl⟩,
        List.append_assoc ..⟩)

theorem exists_argsOf_iff {position : Nat} {pieces : List (List Char)} :
    (∃ as, argsOf position pieces = .ok as) ↔
      ∀ piece ∈ pieces, ArgText LooseType (trim piece) := by
  simp only [argsOf_eq_ok_iff, ← isSome_argOf?_iff, Option.isSome_iff_exists]
  induction pieces with
  | nil => simp
  | cons piece pieces ih =>
    rw [List.forall_mem_cons, ← ih]
    simp only [List.forall₂_cons_left_iff]
    constructor
    · rintro ⟨_, a, as, ha, has, rfl⟩
      exact ⟨⟨a, ha⟩, as, has⟩
    · rintro ⟨⟨a, ha⟩, as, has⟩
      exact ⟨_, a, as, ha, has, rfl⟩

theorem map_trim_splitOn_blank {sep : Char} (hsep : isSpace sep = false) {before : List Char}
    (hbefore : isBlank before) (cs : List Char) :
    (Text.splitOn sep (before ++ cs)).map trim = (Text.splitOn sep cs).map trim := by
  induction before with
  | nil => rfl
  | cons c before ih =>
    rw [isBlank_cons] at hbefore
    have hne : c ≠ sep := by
      rintro rfl
      simp [hsep] at hbefore
    rw [← ih hbefore.2, List.cons_append, Text.splitOn, if_neg hne]
    split
    · next hnil => exact absurd hnil (Text.splitOn_ne_nil _ _)
    · next hsplit =>
      rw [hsplit, List.map_cons, List.map_cons, trim_cons_space hbefore.1]

theorem map_trim_splitOn_append_blank {sep : Char} (hsep : isSpace sep = false)
    {behind : List Char} (hbehind : isBlank behind) (cs : List Char) :
    (Text.splitOn sep (cs ++ behind)).map trim = (Text.splitOn sep cs).map trim := by
  induction behind generalizing cs with
  | nil => rw [List.append_nil]
  | cons c behind ih =>
    rw [isBlank_cons] at hbehind
    have hne : c ≠ sep := by
      rintro rfl
      simp [hsep] at hbehind
    obtain ⟨front, last, hsplit, hlonger⟩ := Text.exists_splitOn_concat hne cs
    rw [List.append_cons, ih hbehind.2, hsplit, hlonger]
    simp [trim_append_space hbehind.1]

/-- Blanks around a text stay around its pieces. -/
theorem map_trim_splitOn_trim {sep : Char} (hsep : isSpace sep = false) (cs : List Char) :
    (Text.splitOn sep (trim cs)).map trim = (Text.splitOn sep cs).map trim := by
  obtain ⟨before, behind, hbefore, hbehind, heq⟩ := exists_trim cs
  conv_rhs => rw [heq]
  rw [map_trim_splitOn_append_blank hsep hbehind, map_trim_splitOn_blank hsep hbefore]

/-- **The lists of arguments that are read.** -/
theorem exists_readArgs_iff {args : List Char} :
    (∃ as, readArgs (trim args) = .ok as) ↔ ArgsText LooseType args := by
  by_cases hnil : trim args = []
  · rw [hnil]
    exact ⟨fun _ => .none (trim_eq_nil_iff.1 hnil), fun _ => ⟨[], rfl⟩⟩
  have hread : readArgs (trim args) = argsOf 1 (Text.splitOn ',' (trim args)) :=
    if_neg (by simpa using hnil)
  have hpieces : (∀ piece ∈ Text.splitOn ',' (trim args), ArgText LooseType (trim piece)) ↔
      ∀ piece ∈ Text.splitOn ',' args, ArgText LooseType (trim piece) := by
    simp only [← List.forall_mem_map (f := trim) (P := ArgText LooseType)]
    rw [map_trim_splitOn_trim (by decide)]
  rw [hread, exists_argsOf_iff, hpieces]
  constructor
  · intro h
    rw [← Text.intercalate_splitOn ',' args]
    refine .list (Text.splitOn_ne_nil _ _) fun piece hpiece => ?_
    obtain ⟨before, behind, hbefore, hbehind, heq⟩ := exists_trim piece
    exact ⟨before, _, behind, hbefore, h piece hpiece, hbehind, heq⟩
  · intro h
    cases h with
    | none hblanks => exact absurd (trim_eq_nil_iff.2 hblanks) hnil
    | @list pieces hne hargs =>
      have hcomma : ∀ piece ∈ pieces, ',' ∉ piece := fun piece hpiece => by
        obtain ⟨before, arg, behind, hbefore, harg, hbehind, rfl⟩ := hargs piece hpiece
        have hblank {blanks : List Char} (h : isBlank blanks) : ',' ∉ blanks := fun hmem =>
          absurd (isBlank_iff.1 h ',' hmem) (by decide)
        have harg := notMem_of_argText harg (by decide : isPrinted ',' = false) (by decide)
        simp [hblank hbefore, hblank hbehind, harg]
      rw [Text.splitOn_intercalate hne hcomma]
      intro piece hpiece
      obtain ⟨before, arg, behind, hbefore, harg, hbehind, rfl⟩ := hargs piece hpiece
      rwa [trim_surrounded hbefore hbehind, trim_argText harg]

/-! ## The type and the name -/

theorem exists_nameOf_iff {text : List Char} : (∃ name, nameOf text = .ok name) ↔ NameText text := by
  have hname : String.ofList text = constructorMark ↔ text = constructorMark.toList := by
    rw [← String.toList_inj, String.toList_ofList]
  rw [NameText, nameOf, ← hname]
  split
  · next hmark => simp [hmark]
  split
  · next hsegment => simp [hsegment]
  · next hmark hsegment => simp [hmark, hsegment]

/-- A text with a blank in it has its last blank before its last word. -/
theorem exists_lastBlank {head : List Char} (h : head.any isSpace) :
    ∃ front c, isSpace c ∧
      head = front ++ [c] ++ (head.reverse.takeWhile fun c => !isSpace c).reverse := by
  have hparts := List.takeWhile_append_dropWhile (p := fun c => !isSpace c) (l := head.reverse)
  have hstop := List.head?_dropWhile_not (fun c => !isSpace c) head.reverse
  cases hrest : head.reverse.dropWhile (fun c => !isSpace c) with
  | nil =>
    have hword := List.all_takeWhile (p := fun c => !isSpace c) (l := head.reverse)
    rw [hrest, List.append_nil] at hparts
    rw [hparts, List.all_reverse, List.all_eq_true] at hword
    obtain ⟨c, hc, hspace⟩ := List.any_eq_true.1 h
    exact absurd (hword c hc) (by simp [hspace])
  | cons c rest =>
    rw [hrest] at hparts hstop
    refine ⟨rest.reverse, c, by simpa using hstop, ?_⟩
    rw [← List.reverse_inj, List.reverse_append, List.reverse_reverse, List.reverse_concat,
      List.reverse_reverse]
    exact hparts.symm

/-- What comes apart stands between blanks, with a gap between the two parts. -/
theorem exists_gap_of_splitHead {head type name : List Char}
    (h : splitHead head = .ok (type, name)) :
    trim type = type ∧ ∃ before gap behind, isBlank before ∧ GapText gap ∧ isBlank behind ∧
      head = before ++ type ++ gap ++ name ++ behind := by
  unfold splitHead at h
  split at h
  · next front back hcut =>
    simp only [Except.ok.injEq, Prod.mk.injEq] at h
    obtain ⟨rfl, rfl⟩ := h
    obtain ⟨before, behind, hbefore, hbehind, hfront⟩ := exists_trim front
    obtain ⟨before', behind', hbefore', hbehind', hback⟩ := exists_trim back
    refine ⟨trim_trim _, before, _, behind', hbefore, .sign hbehind hbefore', hbehind', ?_⟩
    conv_lhs => rw [Text.eq_append_of_cutLast hcut, hfront, hback]
    simp
  split at h
  · next hblank =>
    obtain ⟨front, c, hc, hhead⟩ := exists_lastBlank hblank
    generalize head.reverse.takeWhile (fun c => !isSpace c) = word at h hhead
    subst hhead
    have hlength : (front ++ [c] ++ word.reverse).length - word.length = (front ++ [c]).length := by
      simp only [List.length_append, List.length_reverse]
      omega
    simp only [hlength, List.take_left, Except.ok.injEq, Prod.mk.injEq] at h
    obtain ⟨rfl, rfl⟩ := h
    -- The blank before the last word belongs to the gap.
    rw [trim_append_space hc]
    obtain ⟨before, behind, hbefore, hbehind, hfront⟩ := exists_trim front
    refine ⟨trim_trim _, before, behind ++ [c], [], hbefore,
      .blanks (by simp) (by simp [hbehind, hc]), isBlank_nil, ?_⟩
    conv_lhs => rw [hfront]
    simp
  split at h <;> cases h

theorem isPrinted_of_nameText {name : List Char} (h : NameText name) : ∀ c ∈ name, isPrinted c := by
  rcases h with hsegment | rfl
  · exact fun c hc => isPrinted_of_isSegmentPart (isSegmentPart_of_isSegment hsegment c hc)
  · have hmark : constructorMark.toList.all isPrinted := by decide
    exact List.all_eq_true.1 hmark

theorem splitHead_gap {type gap name : List Char} (htype : ∀ c ∈ type, isPrinted c)
    (hgap : GapText gap) (hname : ∀ c ∈ name, isPrinted c) :
    splitHead (type ++ (gap ++ name)) = .ok (type, name) := by
  cases hgap with
  | blanks hne hblanks => exact splitHead_words htype hblanks hne hname
  | @sign before behind hbefore hbehind =>
    have hparts : type ++ (before ++ '#' :: behind ++ name) =
        type ++ before ++ '#' :: (behind ++ name) := by simp
    have hsign : '#' ∉ behind ++ name := by
      have hbehindSign : '#' ∉ behind := fun hmem =>
        absurd (isBlank_iff.1 hbehind '#' hmem) (by decide)
      have hnameSign := notMem_of_isPrinted hname (d := '#') (by decide)
      simp [hbehindSign, hnameSign]
    have htrimType : trim ([] ++ type ++ before) = type := by
      rw [trim_surrounded isBlank_nil hbefore,
        trim_of_forall fun c hc => isSpace_of_isPrinted (htype c hc)]
    have htrimName : trim (behind ++ name ++ []) = name := by
      rw [trim_surrounded hbehind isBlank_nil,
        trim_of_forall fun c hc => isSpace_of_isPrinted (hname c hc)]
    rw [List.nil_append] at htrimType
    rw [List.append_nil] at htrimName
    rw [hparts, splitHead, Text.cutLast_append_cons hsign]
    simp only [htrimType, htrimName]

/-! ## Whole patterns -/

theorem eq_append_of_splitParentheses {text head args rest : List Char}
    (h : splitParentheses text = .ok (head, args, rest)) :
    text = head ++ '(' :: (args ++ ')' :: rest) := by
  unfold splitParentheses at h
  split at h
  · cases h
  next front tail hopen =>
  split at h
  · cases h
  split at h
  · cases h
  next inside behind hclose =>
  split at h
  · cases h
  simp only [Except.ok.injEq, Prod.mk.injEq] at h
  obtain ⟨rfl, rfl, rfl⟩ := h
  rw [Text.eq_append_of_cutFirst hopen, Text.eq_append_of_cutFirst hclose]

theorem notMem_of_gapText {gap : List Char} (h : GapText gap) {c : Char} (hc : isSpace c = false)
    (hsign : c ≠ '#') : c ∉ gap := by
  have hblank {blanks : List Char} (h : isBlank blanks) : c ∉ blanks := fun hmem => by
    simpa [hc] using isBlank_iff.1 h c hmem
  cases h with
  | blanks _ hblanks => exact hblank hblanks
  | sign hbefore hbehind => simp [hblank hbefore, hblank hbehind, hsign]

theorem notMem_of_argsText {args : List Char} (h : ArgsText LooseType args) {c : Char}
    (hprinted : isPrinted c = false) (hspace : isSpace c = false) (hcomma : c ≠ ',') :
    c ∉ args := by
  have hblank {blanks : List Char} (h : isBlank blanks) : c ∉ blanks := fun hmem => by
    simpa [hspace] using isBlank_iff.1 h c hmem
  cases h with
  | none hblanks => exact hblank hblanks
  | list _ hpieces =>
    intro hmem
    rcases Text.mem_intercalate hmem with hjoint | ⟨piece, hpiece, hinside⟩
    · exact hcomma (List.mem_singleton.1 hjoint)
    · obtain ⟨before, arg, behind, hbefore, harg, hbehind, rfl⟩ := hpieces piece hpiece
      simp [hblank hbefore, hblank hbehind, notMem_of_argText harg hprinted hspace] at hinside

/-- A method pattern starts in its type and ends in its last parenthesis. -/
theorem trim_patternText {text : List Char} (h : PatternText LooseType text) :
    trim text = text := by
  obtain @⟨type, gap, name, blanks, args, htype, -, -, -, -⟩ := h
  have hparts : type ++ gap ++ name ++ blanks ++ '(' :: (args ++ [')']) =
      type ++ (gap ++ name ++ blanks ++ '(' :: (args ++ [')'])) := by simp
  have hlast : type ++ (gap ++ name ++ blanks ++ '(' :: (args ++ [')'])) =
      (type ++ gap ++ name ++ blanks ++ '(' :: args) ++ [')'] := by simp
  rw [hparts]
  exact trim_eq_self_of_type htype (by decide) hlast

theorem patternText_of_compile {pattern : String} {matchOverrides : Bool} {p : MethodPattern}
    (h : compile pattern matchOverrides = .ok p) :
    PatternText LooseType (trim pattern.toList) := by
  obtain ⟨head, args, rest, type, name, hparens, hrest, hhead, htarget, hdims, hname, hargs, -⟩ :=
    compile_eq_ok_iff.1 h
  obtain ⟨htrim, before, gap, behind, hbefore, hgap, hbehind, hwords⟩ :=
    exists_gap_of_splitHead hhead
  have htype : LooseType type := htrim ▸ exists_ofList?_noDims_iff.1 ⟨_, htarget, hdims⟩
  obtain ⟨blanks, hblanks, hend⟩ := exists_trimEnd head
  have hcore : PatternText LooseType
      (type ++ gap ++ name ++ (behind ++ blanks) ++ '(' :: (args ++ [')'])) :=
    .mk htype hgap (exists_nameOf_iff.1 ⟨_, hname⟩) (isBlank_append.2 ⟨hbehind, hblanks⟩)
      (exists_readArgs_iff.1 ⟨_, hargs⟩)
  have htext : trim pattern.toList =
      before ++ (type ++ gap ++ name ++ (behind ++ blanks) ++ '(' :: (args ++ [')'])) ++ rest := by
    rw [eq_append_of_splitParentheses hparens, hend, hwords]
    simp
  -- Nothing stands around the pattern once the text is trimmed.
  rw [← trim_trim, htext, trim_surrounded hbefore (trim_eq_nil_iff.1 hrest), trim_patternText hcore]
  exact hcore

theorem exists_compile_of_patternText {pattern : String} (matchOverrides : Bool)
    (h : PatternText LooseType (trim pattern.toList)) :
    ∃ p, compile pattern matchOverrides = .ok p := by
  generalize htext : trim pattern.toList = text at h
  obtain @⟨type, gap, name, blanks, args, htype, hgap, hname, hblanks, hargs⟩ := h
  have hprintedType := isPrinted_of_looseType htype
  have hprintedName := isPrinted_of_nameText hname
  have hparens : splitParentheses (type ++ gap ++ name ++ blanks ++ '(' :: (args ++ [')'])) =
      .ok (type ++ gap ++ name ++ blanks, args, []) := by
    have hhead {c : Char} (hc : isPrinted c = false) (hspace : isSpace c = false) (hsign : c ≠ '#') :
        c ∉ type ++ gap ++ name ++ blanks := by
      have hblank : c ∉ blanks := fun hmem => by
        simpa [hspace] using isBlank_iff.1 hblanks c hmem
      simp [notMem_of_isPrinted hprintedType hc, notMem_of_isPrinted hprintedName hc, hblank,
        notMem_of_gapText hgap hspace hsign]
    exact splitParentheses_call
      ⟨hhead (by decide) (by decide) (by decide), hhead (by decide) (by decide) (by decide)⟩
      ⟨notMem_of_argsText hargs (by decide) (by decide) (by decide),
        notMem_of_argsText hargs (by decide) (by decide) (by decide)⟩
  have hhead : splitHead (trimEnd (type ++ gap ++ name ++ blanks)) = .ok (type, name) := by
    rw [trimEnd_append_blank _ hblanks, trimEnd_eq_self, List.append_assoc]
    · exact splitHead_gap hprintedType hgap hprintedName
    · intro c hc
      have hne : name ≠ [] := by
        rintro rfl
        rcases hname with hsegment | hmark
        · cases hsegment
        · cases hmark
      rw [List.getLast?_append, List.getLast?_eq_some_getLast hne, Option.some_or] at hc
      obtain rfl := Option.some.inj hc
      exact isSpace_of_isPrinted (hprintedName _ (List.getLast_mem hne))
  have htrim : trim type = type :=
    trim_of_forall fun c hc => isSpace_of_isPrinted (hprintedType c hc)
  obtain ⟨target, htarget, hdims⟩ := exists_ofList?_noDims_iff.2 (htrim.symm ▸ htype)
  obtain ⟨pattern', hread⟩ := exists_nameOf_iff.2 hname
  obtain ⟨as, has⟩ := exists_readArgs_iff.2 hargs
  exact ⟨⟨target, pattern', as, matchOverrides⟩, compile_eq_ok_iff.2
    ⟨_, _, _, _, _, htext ▸ hparens, rfl, hhead, htarget, hdims, hread, has, rfl⟩⟩

/-- **The method patterns that are read**: what the grammar allows once the text is trimmed, where
    a type pattern may have separators in front and any number of them between its segments. Where
    type patterns are written as documented they are read as well, with or without overrides. -/
theorem exists_compile_iff (pattern : String) (matchOverrides : Bool) :
    ((∃ p, compile pattern matchOverrides = .ok p) ↔
        PatternText LooseType (trim pattern.toList)) ∧
      (PatternText StrictType (trim pattern.toList) →
        ∃ p, compile pattern matchOverrides = .ok p) := by
  refine ⟨⟨fun ⟨p, hp⟩ => patternText_of_compile hp, exists_compile_of_patternText matchOverrides⟩,
    fun hstrict => exists_compile_of_patternText matchOverrides ?_⟩
  exact hstrict.mono fun _ htype => htype.loose

/-- Blanks may stand wherever two parts meet. -/
theorem exists_compile_iff_blanks :
    PatternText StrictType (trim " a..B$C # m ( int [] ... , .. ) ".toList) ∧
      ∃ p, compile " a..B$C # m ( int [] ... , .. ) " true = .ok p := by
  have hstrict : PatternText StrictType (trim " a..B$C # m ( int [] ... , .. ) ".toList) := by
    have hpiece {piece : List Char} (h : isSegment piece ∧ '$' ∉ piece) : IsPiece piece := h
    have htype : StrictType (['a'] ++ ['.', '.'] ++ (['B'] ++ ['$'] ++ ['C'])) :=
      .cons (hpiece (by decide +kernel)) (by simp)
        (.cons (hpiece (by decide +kernel)) (by simp) (.last (hpiece (by decide +kernel))))
    have hint : ArgText StrictType ("int".toList ++ ([] ++ [' '] ++ ['[', ']']) ++ [' '] ++
        "...".toList) :=
      .variadic (.last (hpiece (by decide +kernel))) (BracketRow.nil.concat (by decide)) (by decide)
    have hargs : ArgsText StrictType
        (List.intercalate [','] [" int [] ... ".toList, " .. ".toList]) := by
      refine .list (by simp) (List.forall_mem_cons.2 ⟨?_, List.forall_mem_singleton.2 ?_⟩)
      · exact ⟨[' '], _, [' '], by decide, hint, by decide, rfl⟩
      · exact ⟨[' '], _, [' '], by decide, .anyRun, by decide, rfl⟩
    have htext : trim " a..B$C # m ( int [] ... , .. ) ".toList =
        (['a'] ++ ['.', '.'] ++ (['B'] ++ ['$'] ++ ['C'])) ++ ([' '] ++ '#' :: [' ']) ++ ['m'] ++
          [' '] ++ '(' :: (List.intercalate [','] [" int [] ... ".toList, " .. ".toList] ++
            [')']) := by
      decide +kernel
    rw [htext]
    exact .mk htype (.sign (by decide) (by decide)) (.inl (by decide +kernel)) (by decide) hargs
  exact ⟨hstrict, (exists_compile_iff _ true).2 hstrict⟩

theorem isSegmentStart_of_segmentRow {joint : List Char → Prop} {row : List Char}
    (h : SegmentRow joint row) : ∀ c ∈ row.head?, isSegmentStart c := by
  have hstart {piece : List Char} (h : IsPiece piece) (back : List Char) :
      ∀ c ∈ (piece ++ back).head?, isSegmentStart c := by
    intro c hc
    obtain ⟨hsegment, -⟩ := h
    cases piece with
    | nil => cases hsegment
    | cons d ds =>
      obtain rfl := Option.some.inj hc
      rw [isSegment, Bool.and_eq_true] at hsegment
      exact hsegment.1
  cases h with
  | last hpiece => simpa using hstart hpiece []
  | cons hpiece _ _ =>
    rw [List.append_assoc]
    exact hstart hpiece _

/-- A point in front of a type is no documented pattern, and is read as room for any packages. -/
theorem leading_point_is_read :
    (∃ p, compile ".A f()" true = .ok p ∧ p.render = "..A f()") ∧
      ¬ PatternText StrictType (trim ".A f()".toList) := by
  have hread : compile ".A f()" true =
      .ok ⟨⟨.segments [.anyRun, .name ⟨"A"⟩], 0⟩, .method ⟨"f"⟩, [], true⟩ := by
    decide +kernel
  refine ⟨⟨_, hread, by decide +kernel⟩, fun hstrict => ?_⟩
  have htrim : trim ".A f()".toList = ".A f()".toList := by decide
  rw [htrim] at hstrict
  generalize htext : ".A f()".toList = text at hstrict
  obtain @⟨type, gap, name, blanks, args, htype, -, -, -, -⟩ := hstrict
  obtain ⟨front, c, hc⟩ := endsInName_of_segmentRow htype
  have hpoint : '.' ∈ type.head? := by
    cases type with
    | nil => simp at hc
    | cons d ds => exact congrArg some (List.cons.inj htext).1.symm
  exact absurd (isSegmentStart_of_segmentRow htype '.' hpoint) (by decide)

end MethodPattern

end JavaThrows
