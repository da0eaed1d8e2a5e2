import JavaThrows.Pattern.TypePattern
import JavaThrows.Proofs.Text.Split
import JavaThrows.Proofs.Unicode.Space

set_option autoImplicit false

/-!
# Printed type patterns are read back

Many texts are read as the same type pattern, and printing picks one of them. What reading gives is
told here by itself (`TypePattern.IsNormal`): runs stand apart and never last, names hold no dollar
sign, and neither a lone star nor a bare well-known name is left. Such a pattern is what its own
text is read as. Main statements: `isNormal_of_ofList?` and `ofList?_render`.
-/

namespace JavaThrows

open JavaThrows.Unicode

/-! ## Characters -/

/-- The characters that printed types and names are made of. -/
def isPrinted (c : Char) : Bool :=
  isSegmentPart c || ['.', '[', ']', '<', '>'].contains c

theorem isPrinted_of_isSegmentPart {c : Char} (h : isSegmentPart c) : isPrinted c := by
  simp [isPrinted, h]

theorem isSpace_of_isPrinted {c : Char} (h : isPrinted c) : isSpace c = false :=
  isSpace_eq_false (by decide +kernel) h

theorem notMem_of_isPrinted {cs : List Char} (h : ∀ c ∈ cs, isPrinted c) {d : Char}
    (hd : isPrinted d = false) : d ∉ cs :=
  fun hmem => absurd (h d hmem) (by simp [hd])

theorem ne_nil_of_isSegment {piece : List Char} (h : isSegment piece) : piece ≠ [] := by
  rintro rfl
  cases h

theorem isSegmentPart_of_isSegment {piece : List Char} (h : isSegment piece) :
    ∀ c ∈ piece, isSegmentPart c := by
  cases piece with
  | nil => cases h
  | cons c cs =>
    rw [isSegment, Bool.and_eq_true, List.all_eq_true] at h
    rw [List.forall_mem_cons]
    exact ⟨by simp [isSegmentPart, h.1], h.2⟩

theorem point_notMem_of_isSegment {piece : List Char} (h : isSegment piece) : '.' ∉ piece :=
  fun hmem => absurd (isSegmentPart_of_isSegment h '.' hmem) (by decide)

/-- The text ends in a character of a name. -/
def EndsInName (cs : List Char) : Prop :=
  ∃ front c, cs = front ++ [c] ∧ isSegmentPart c

theorem EndsInName.append (front : List Char) {cs : List Char} (h : EndsInName cs) :
    EndsInName (front ++ cs) := by
  obtain ⟨rest, c, rfl, hc⟩ := h
  exact ⟨front ++ rest, c, (List.append_assoc ..).symm, hc⟩

theorem endsInName_of_isSegment {piece : List Char} (h : isSegment piece) : EndsInName piece := by
  have hne := ne_nil_of_isSegment h
  refine ⟨piece.dropLast, piece.getLast hne, (List.dropLast_concat_getLast hne).symm, ?_⟩
  exact isSegmentPart_of_isSegment h _ (List.getLast_mem hne)

namespace TypePattern

/-! ## What reading gives -/

/-- A piece of a type pattern that stands for a name. -/
def IsPiece (piece : List Char) : Prop :=
  isSegment piece ∧ '$' ∉ piece

/-- Each run of the row, which stands behind a run or not, has a name right behind it. -/
def Spaced (afterRun : Bool) : List Segment → Prop
  | [] => afterRun = false
  | .anyRun :: ss => afterRun = false ∧ Spaced true ss
  | .name glob :: ss => IsPiece glob.text.toList ∧ Spaced false ss

/-- The type patterns that texts are read as. -/
inductive IsNormal : TypePattern → Prop where
  | any (dims : Nat) : IsNormal ⟨.any, dims⟩
  | segments {ss : List Segment} (dims : Nat) (spaced : Spaced false ss) (nonempty : ss ≠ [])
    (notStar : ss ≠ [.name ⟨"*"⟩]) (expanded : expandJavaLang ss = ss) :
    IsNormal ⟨.segments ss, dims⟩

theorem segmentsOf_gap {pieces : List (List Char)} (h : pieces ≠ []) (afterRun : Bool) :
    segmentsOf afterRun ([] :: pieces) =
      if afterRun then segmentsOf true pieces
      else (segmentsOf true pieces).map (.anyRun :: ·) := by
  cases pieces with
  | nil => exact absurd rfl h
  | cons piece pieces => simp [segmentsOf]

theorem segmentsOf_cons {piece : List Char} (h : piece ≠ []) (afterRun : Bool)
    (pieces : List (List Char)) :
    segmentsOf afterRun (piece :: pieces) =
      if isSegment piece then
        (segmentsOf false pieces).map (.name ⟨String.ofList piece⟩ :: ·)
      else none := by
  cases piece with
  | nil => exact absurd rfl h
  | cons c cs => simp [segmentsOf]

theorem segmentsOf_piece {piece : List Char} (h : isSegment piece) (afterRun : Bool)
    (pieces : List (List Char)) :
    segmentsOf afterRun (piece :: pieces) =
      (segmentsOf false pieces).map (.name ⟨String.ofList piece⟩ :: ·) := by
  rw [segmentsOf_cons (ne_nil_of_isSegment h), if_pos h]

theorem ne_nil_of_segmentsOf {afterRun : Bool} {pieces : List (List Char)} {ss : List Segment}
    (h : segmentsOf afterRun pieces = some ss) (hne : pieces ≠ []) : ss ≠ [] := by
  fun_induction segmentsOf afterRun pieces generalizing ss with
  | case1 => exact absurd rfl hne
  | case2 => cases h
  | case3 pieces hpieces ih => exact ih h hpieces
  | case4 afterRun pieces hpieces hrun ih =>
    obtain ⟨rest, -, rfl⟩ := Option.map_eq_some_iff.1 h
    exact List.cons_ne_nil _ _
  | case5 afterRun piece pieces _ _ hsegment ih =>
    obtain ⟨rest, -, rfl⟩ := Option.map_eq_some_iff.1 h
    exact List.cons_ne_nil _ _
  | case6 => cases h

/-- The pieces that stand for a single name. -/
theorem eq_of_segmentsOf_singleton {pieces : List (List Char)} {glob : Glob}
    (h : segmentsOf false pieces = some [.name glob]) : pieces = [glob.text.toList] := by
  match pieces with
  | [] => cases h
  | [] :: [] => cases h
  | [] :: second :: pieces =>
    rw [segmentsOf_gap (List.cons_ne_nil _ _), if_neg Bool.false_ne_true] at h
    obtain ⟨ss, -, hss⟩ := Option.map_eq_some_iff.1 h
    cases hss
  | (c :: cs) :: pieces =>
    rw [segmentsOf_cons (List.cons_ne_nil c cs)] at h
    split at h
    · obtain ⟨ss, hss, hglob⟩ := Option.map_eq_some_iff.1 h
      simp only [List.cons.injEq, Segment.name.injEq] at hglob
      obtain ⟨rfl, rfl⟩ := hglob
      have hpieces : pieces = [] :=
        Classical.byContradiction fun hne => ne_nil_of_segmentsOf hss hne rfl
      rw [hpieces, String.toList_ofList]
    · cases h

theorem spaced_of_segmentsOf {afterRun : Bool} {pieces : List (List Char)} {ss : List Segment}
    (h : segmentsOf afterRun pieces = some ss) (hdollar : ∀ piece ∈ pieces, '$' ∉ piece)
    (hne : afterRun → pieces ≠ []) : Spaced afterRun ss := by
  fun_induction segmentsOf afterRun pieces generalizing ss with
  | case1 afterRun =>
    obtain rfl := Option.some.inj h
    cases afterRun with
    | false => rfl
    | true => exact absurd rfl (hne rfl)
  | case2 => cases h
  | case3 pieces hpieces ih =>
    exact ih h (List.forall_mem_cons.1 hdollar).2 fun _ => hpieces
  | case4 afterRun pieces hpieces hrun ih =>
    obtain ⟨rest, hrest, rfl⟩ := Option.map_eq_some_iff.1 h
    exact ⟨by simpa using hrun, ih hrest (List.forall_mem_cons.1 hdollar).2 fun _ => hpieces⟩
  | case5 afterRun piece pieces _ _ hsegment ih =>
    obtain ⟨rest, hrest, rfl⟩ := Option.map_eq_some_iff.1 h
    rw [List.forall_mem_cons] at hdollar
    refine ⟨?_, ih hrest hdollar.2 fun hrun => absurd hrun Bool.false_ne_true⟩
    rw [String.toList_ofList]
    exact ⟨hsegment, hdollar.1⟩
  | case6 => cases h

/-- Only the bare name of a well-known type changes, and then it is long enough to stay. -/
theorem expandJavaLang_cases (ss : List Segment) :
    expandJavaLang ss = ss ∨
      ∃ glob, ss = [.name glob] ∧
        expandJavaLang ss = [.name ⟨"java"⟩, .name ⟨"lang"⟩, .name glob] := by
  unfold expandJavaLang
  split
  · next glob =>
    split
    · exact .inr ⟨glob, rfl, rfl⟩
    · exact .inl rfl
  · exact .inl rfl

theorem spaced_expandJavaLang {ss : List Segment} (h : Spaced false ss) :
    Spaced false (expandJavaLang ss) := by
  rcases expandJavaLang_cases ss with hsame | ⟨glob, rfl, hlong⟩
  · rwa [hsame]
  · rw [hlong]
    exact ⟨⟨by decide, by decide⟩, ⟨by decide, by decide⟩, h⟩

theorem dollar_notMem_dollarsToPoints (cs : List Char) : '$' ∉ dollarsToPoints cs := by
  simp only [dollarsToPoints, List.mem_map, not_exists, not_and]
  intro c _ hc
  split at hc
  · cases hc
  · next hne => exact hne hc

theorem dollarsToPoints_eq_self {cs : List Char} (h : '$' ∉ cs) : dollarsToPoints cs = cs := by
  refine (List.map_congr_left fun c hc => if_neg ?_).trans (List.map_id cs)
  rintro rfl
  exact h hc

/-- A star is no dollar sign and no point, so only a lone star is split into a lone star. -/
theorem eq_star_of_splitOn {text : List Char}
    (h : Text.splitOn '.' (dollarsToPoints text) = [['*']]) : text = ['*'] := by
  have hjoined := Text.intercalate_splitOn '.' (dollarsToPoints text)
  rw [h, List.intercalate_singleton] at hjoined
  obtain ⟨c, rfl, hc⟩ := List.map_eq_singleton_iff.1 hjoined.symm
  split at hc
  · cases hc
  · rw [hc]

/-- **What a text is read as is normal.** -/
theorem isNormal_of_ofList? {text : List Char} {p : TypePattern} (h : ofList? text = some p) :
    p.IsNormal := by
  unfold ofList? at h
  generalize peelDimensions (trim text) = peeled at h
  obtain ⟨text, dims⟩ := peeled
  simp only at h
  split at h
  · cases h
  split at h
  · obtain rfl := Option.some.inj h
    exact .any dims
  next hempty hstar =>
  obtain ⟨ss, hss, rfl⟩ := Option.map_eq_some_iff.1 h
  have hne : ss ≠ [] := ne_nil_of_segmentsOf hss (Text.splitOn_ne_nil _ _)
  have hspaced : Spaced false ss :=
    spaced_of_segmentsOf hss
      (fun piece hpiece hmem => dollar_notMem_dollarsToPoints text
        (Text.mem_of_mem_splitOn hpiece hmem).1)
      fun hrun => absurd hrun Bool.false_ne_true
  have hlone : ss ≠ [.name ⟨"*"⟩] := by
    rintro rfl
    exact hstar (eq_star_of_splitOn (eq_of_segmentsOf_singleton hss))
  rcases expandJavaLang_cases ss with hsame | ⟨glob, rfl, hlong⟩
  · rw [hsame]
    exact .segments dims hspaced hne hlone hsame
  · refine .segments dims (spaced_expandJavaLang hspaced) ?_ ?_ ?_
    all_goals rw [hlong]
    · exact List.cons_ne_nil _ _
    · simp
    · rfl

theorem eq_of_peelBrackets {cs : List Char} (h : (peelBrackets cs).2 = 0) :
    (peelBrackets cs).1 = cs := by
  unfold peelBrackets at h ⊢
  split
  · cases h
  · rfl

theorem eq_of_peelDimensions {text base : List Char}
    (h : peelDimensions text = (base, 0)) : base = text := by
  unfold peelDimensions at h
  cases hdots : Text.beforeEnd? "...".toList text with
  | some rest =>
    simp only [hdots, Prod.mk.injEq] at h
    omega
  | none =>
    simp only [hdots, Nat.zero_add, Prod.mk.injEq] at h
    rw [← h.1, eq_of_peelBrackets h.2, List.reverse_reverse]

/-- Only a lone star is read as any type without dimensions. -/
theorem eq_star_of_ofList? {text : List Char} (h : ofList? text = some ⟨.any, 0⟩) :
    trim text = ['*'] := by
  unfold ofList? at h
  cases hpeel : peelDimensions (trim text) with
  | mk base dims =>
    simp only [hpeel] at h
    split at h
    · cases h
    split at h
    · next hstar =>
      simp only [Option.some.injEq, TypePattern.mk.injEq, true_and] at h
      subst hstar h
      exact (eq_of_peelDimensions hpeel).symm
    · simp at h

/-! ## Printing and reading again -/

@[simp] theorem toList_renderSegments_name (glob : Glob) (ss : List Segment) (afterRun : Bool) :
    (renderSegments afterRun (.name glob :: ss)).toList =
      (if afterRun then [] else ['.']) ++
        (glob.text.toList ++ (renderSegments false ss).toList) := by
  cases afterRun <;> simp [renderSegments]

@[simp] theorem toList_renderSegments_anyRun (ss : List Segment) (afterRun : Bool) :
    (renderSegments afterRun (.anyRun :: ss)).toList =
      '.' :: '.' :: (renderSegments true ss).toList := by
  simp [renderSegments]

/-- A row that starts with a name is read back from its text, wherever it stands. -/
theorem segmentsOf_splitOn_name {glob : Glob} (hglob : IsPiece glob.text.toList) (afterRun : Bool) :
    ∀ {ss : List Segment}, Spaced false ss →
      segmentsOf afterRun
          (Text.splitOn '.' (glob.text.toList ++ (renderSegments false ss).toList)) =
        some (.name glob :: ss)
  | [], _ => by
    have hnil : (renderSegments false []).toList = [] := rfl
    rw [hnil, List.append_nil, Text.splitOn_of_notMem (point_notMem_of_isSegment hglob.1),
      segmentsOf_piece hglob.1, String.ofList_toList]
    rfl
  | .name next :: ss, hss => by
    have ih := segmentsOf_splitOn_name hss.1 false hss.2
    rw [toList_renderSegments_name, if_neg Bool.false_ne_true, List.singleton_append,
      Text.splitOn_append_cons (point_notMem_of_isSegment hglob.1), segmentsOf_piece hglob.1, ih,
      String.ofList_toList]
    rfl
  | .anyRun :: .name next :: ss, hss => by
    -- Two points around nothing: the empty piece between them is the run.
    have ih := segmentsOf_splitOn_name hss.2.1 true hss.2.2
    rw [toList_renderSegments_anyRun, toList_renderSegments_name, if_pos rfl, List.nil_append,
      Text.splitOn_append_cons (point_notMem_of_isSegment hglob.1), segmentsOf_piece hglob.1,
      Text.splitOn_cons_self, segmentsOf_gap (Text.splitOn_ne_nil _ _),
      if_neg Bool.false_ne_true, ih, String.ofList_toList]
    rfl
  | .anyRun :: .anyRun :: ss, hss => absurd hss.2.1 Bool.noConfusion
  | [.anyRun], hss => absurd hss.2 Bool.noConfusion

theorem segmentsOf_splitOn {ss : List Segment} (hss : Spaced false ss) (hne : ss ≠ []) :
    segmentsOf false (Text.splitOn '.' (renderSegments true ss).toList) = some ss := by
  match ss, hss with
  | [], _ => exact absurd rfl hne
  | .name glob :: ss, hss =>
    rw [toList_renderSegments_name, if_pos rfl, List.nil_append]
    exact segmentsOf_splitOn_name hss.1 false hss.2
  | .anyRun :: .name glob :: ss, hss =>
    rw [toList_renderSegments_anyRun, toList_renderSegments_name, if_pos rfl, List.nil_append,
      Text.splitOn_cons_self,
      Text.splitOn_cons_self, segmentsOf_gap (List.cons_ne_nil _ _), if_neg Bool.false_ne_true,
      segmentsOf_gap (Text.splitOn_ne_nil _ _), if_pos rfl,
      segmentsOf_splitOn_name hss.2.1 true hss.2.2]
    rfl
  | .anyRun :: .anyRun :: ss, hss => exact absurd hss.2.1 Bool.noConfusion
  | [.anyRun], hss => exact absurd hss.2 Bool.noConfusion

/-- Printed segments have characters of names and points, and no dollar signs. -/
theorem isPrinted_renderSegments {ss : List Segment} {spaced : Bool} (hss : Spaced spaced ss)
    (afterRun : Bool) :
    ∀ c ∈ (renderSegments afterRun ss).toList, isPrinted c ∧ c ≠ '$' := by
  induction ss generalizing spaced afterRun with
  | nil => exact List.forall_mem_nil _
  | cons s ss ih =>
    cases s with
    | anyRun =>
      rw [toList_renderSegments_anyRun, List.forall_mem_cons, List.forall_mem_cons]
      exact ⟨by decide, by decide, ih hss.2 true⟩
    | name glob =>
      rw [toList_renderSegments_name, List.forall_mem_append, List.forall_mem_append]
      refine ⟨?_, fun c hc => ⟨?_, ?_⟩, ih hss.2 false⟩
      · cases afterRun with
        | false => exact List.forall_mem_singleton.2 ⟨by decide, by decide⟩
        | true => exact List.forall_mem_nil _
      · exact isPrinted_of_isSegmentPart (isSegmentPart_of_isSegment hss.1.1 c hc)
      · rintro rfl
        exact hss.1.2 hc

theorem endsInName_renderSegments {ss : List Segment} {spaced : Bool} (hss : Spaced spaced ss)
    (hne : ss ≠ []) (afterRun : Bool) : EndsInName (renderSegments afterRun ss).toList := by
  induction ss generalizing spaced afterRun with
  | nil => exact absurd rfl hne
  | cons s ss ih =>
    cases s with
    | anyRun =>
      have hrest : ss ≠ [] := by
        rintro rfl
        exact absurd hss.2 Bool.noConfusion
      rw [toList_renderSegments_anyRun]
      exact (ih hss.2 hrest true).append ['.', '.']
    | name glob =>
      rw [toList_renderSegments_name]
      refine EndsInName.append _ ?_
      by_cases hrest : ss = []
      · subst hrest
        have hnil : (renderSegments false []).toList = [] := rfl
        rw [hnil, List.append_nil]
        exact endsInName_of_isSegment hss.1.1
      · exact (ih hss.2 hrest false).append _

/-! ### Dimensions -/

theorem peelBrackets_reverse_brackets (rest : List Char)
    (hspace : ∀ c ∈ rest.head?, isSpace c = false) (n : Nat) :
    peelBrackets ((Text.brackets n).reverse ++ rest) =
      ((peelBrackets rest).1, (peelBrackets rest).2 + n) := by
  induction n with
  | zero => rfl
  | succ n ih =>
    have hsolid : ∀ c ∈ ((Text.brackets n).reverse ++ rest).head?, isSpace c = false := by
      intro c hc
      rw [List.head?_append] at hc
      cases n with
      | zero => exact hspace c hc
      | succ n =>
        rw [Text.brackets_succ, List.reverse_append] at hc
        obtain rfl := Option.some.inj hc
        decide
    have hstart := trimStart_eq_self hsolid
    rw [trimStart] at hstart
    rw [Text.brackets_succ, List.reverse_append]
    show peelBrackets (']' :: '[' :: ((Text.brackets n).reverse ++ rest)) = _
    rw [peelBrackets, hstart, ih]
    rfl

/-- All brackets behind a name are peeled off, and nothing else. -/
theorem peelBrackets_append_brackets {text : List Char} (h : EndsInName text) (n : Nat) :
    peelBrackets (text ++ Text.brackets n).reverse = (text.reverse, n) := by
  obtain ⟨front, c, rfl, hc⟩ := h
  have hsolid : ∀ d ∈ (c :: front.reverse).head?, isSpace d = false := by
    rintro d hd
    obtain rfl := Option.some.inj hd
    exact isSpace_of_isPrinted (isPrinted_of_isSegmentPart hc)
  have hstop : peelBrackets (c :: front.reverse) = (c :: front.reverse, 0) := by
    rw [peelBrackets]
    rintro rest heq
    obtain rfl : c = ']' := (List.cons.inj heq).1
    exact absurd hc (by decide)
  have hpeel := peelBrackets_reverse_brackets _ hsolid n
  rwa [hstop, Nat.zero_add, ← List.reverse_concat, ← List.reverse_append] at hpeel

/-- A name with brackets behind it ends in a bracket or in a character of a name. -/
theorem exists_last_append_brackets {text : List Char} (h : EndsInName text) (n : Nat) :
    ∃ front c, text ++ Text.brackets n = front ++ [c] ∧ c ≠ '.' ∧ isSpace c = false := by
  cases n with
  | zero =>
    obtain ⟨front, c, rfl, hc⟩ := h
    refine ⟨front, c, List.append_nil _, ?_, isSpace_of_isPrinted (isPrinted_of_isSegmentPart hc)⟩
    rintro rfl
    exact absurd hc (by decide)
  | succ n =>
    refine ⟨text ++ Text.brackets n ++ ['['], ']', ?_, by decide, by decide⟩
    rw [Text.brackets_succ]
    simp

/-- The dimensions behind a name are taken off, and nothing else. -/
theorem peelDimensions_append_brackets {text : List Char} (h : EndsInName text) (n : Nat) :
    peelDimensions (text ++ Text.brackets n) = (text, n) := by
  obtain ⟨front, c, hlast, hc, -⟩ := exists_last_append_brackets h n
  have hdots : Text.beforeEnd? "...".toList (text ++ Text.brackets n) = none :=
    hlast ▸ Text.beforeEnd?_concat_of_ne hc.symm ['.', '.'] front
  simp only [peelDimensions, hdots, peelBrackets_append_brackets h, List.reverse_reverse,
    Nat.zero_add]

/-- Three points behind the dimensions are one dimension more. -/
theorem peelDimensions_append_points {text : List Char} (h : EndsInName text) (n : Nat) :
    peelDimensions (text ++ Text.brackets n ++ "...".toList) = (text, n + 1) := by
  obtain ⟨front, c, hlast, -, hc⟩ := exists_last_append_brackets h n
  have htrim : trimEnd (text ++ Text.brackets n) = text ++ Text.brackets n := by
    refine trimEnd_eq_self fun d hd => ?_
    rw [hlast, List.getLast?_concat] at hd
    exact Option.some.inj hd ▸ hc
  simp only [peelDimensions, Text.beforeEnd?_append, htrim, peelBrackets_append_brackets h,
    List.reverse_reverse, Nat.add_comm]

/-! ### Whole patterns -/

/-- The text of a pattern: a name at its end, and then the dimensions. -/
theorem toList_render (p : TypePattern) :
    p.render.toList =
      (match p.base with
        | .any => ['*']
        | .segments ss => (renderSegments true ss).toList) ++ Text.brackets p.dims := by
  cases hbase : p.base <;> simp [render, hbase]

theorem IsNormal.isPrinted_render {p : TypePattern} (h : p.IsNormal) :
    ∀ c ∈ p.render.toList, isPrinted c := by
  rw [toList_render, List.forall_mem_append]
  constructor
  · cases h with
    | any dims => simpa using (by decide : isPrinted '*')
    | segments dims hspaced _ _ _ =>
      exact fun c hc => (isPrinted_renderSegments hspaced true c hc).1
  · intro c hc
    rcases Text.mem_brackets hc with rfl | rfl <;> decide

/-- A text is read as a row of segments if that is its text without the dimensions. -/
theorem ofList?_eq_segments {text : List Char} {ss : List Segment} {dims : Nat}
    (h : IsNormal ⟨.segments ss, dims⟩)
    (hpeel : peelDimensions (trim text) = ((renderSegments true ss).toList, dims)) :
    ofList? text = some ⟨.segments ss, dims⟩ := by
  cases h with
  | segments _ hspaced hne hstar hexpanded =>
    have hread := segmentsOf_splitOn hspaced hne
    have hdollar : '$' ∉ (renderSegments true ss).toList :=
      fun hmem => (isPrinted_renderSegments hspaced true _ hmem).2 rfl
    have hnotStar : (renderSegments true ss).toList ≠ ['*'] := by
      intro heq
      rw [heq] at hread
      exact hstar (Option.some.inj hread).symm
    have hnotEmpty : (renderSegments true ss).toList ≠ [] := by
      obtain ⟨front, c, heq, -⟩ := endsInName_renderSegments hspaced hne true
      simp [heq]
    simp only [ofList?, hpeel, dollarsToPoints_eq_self hdollar, hread, hexpanded, Option.map_some]
    rw [if_neg (by simpa using hnotEmpty), if_neg hnotStar]

/-- **A normal pattern is what its text is read as.** -/
theorem ofList?_render {p : TypePattern} (h : p.IsNormal) : ofList? p.render.toList = some p := by
  have htrim : trim p.render.toList = p.render.toList :=
    trim_of_forall fun c hc => isSpace_of_isPrinted (h.isPrinted_render c hc)
  cases h with
  | any dims =>
    have hpeel : peelDimensions (['*'] ++ Text.brackets dims) = (['*'], dims) :=
      peelDimensions_append_brackets ⟨[], '*', rfl, by decide⟩ dims
    rw [ofList?, htrim, toList_render]
    simp only [hpeel]
    rfl
  | @segments ss dims hspaced hne hstar hexpanded =>
    refine ofList?_eq_segments (.segments dims hspaced hne hstar hexpanded) ?_
    rw [htrim, toList_render]
    exact peelDimensions_append_brackets (endsInName_renderSegments hspaced hne true) dims

end TypePattern
end JavaThrows
