import JavaThrows.Proofs.Pattern.Grammar
import JavaThrows.Proofs.Pattern.Literal

set_option autoImplicit false

/-!
# What a type pattern says

A type pattern is written as a row of segments, each joined to the one in front of it by a point or
by two, with array dimensions behind. The names it stands for are told here from that text alone:
the parts of a name are laid beside the segments in order, one part beside each, and only in front
of a segment behind two points other parts may stand (`Aligned`). Reading a row and matching with
what was read comes to just that. Main statement: `TypeRow.isMatch_iff`.
-/

namespace JavaThrows

open JavaThrows.Unicode

/-! ## Element types -/

/-- A type has the given number of dimensions exactly if it ends in as many pairs of brackets. -/
theorem Text.elementType_iff {type : String} {dims : Nat} {P : List Char → Prop} :
    ((elementType type).2 = dims ∧ P (elementType type).1.toList) ↔
      ∃ element, type.toList = element ++ brackets dims ∧ ¬ ['[', ']'] <:+ element ∧ P element := by
  constructor
  · rintro ⟨rfl, h⟩
    exact ⟨_, toList_eq_elementType type, not_suffix_elementType type, h⟩
  · rintro ⟨element, htype, hend, h⟩
    have hparts := elementType_append_brackets hend dims
    rw [← htype, String.ofList_toList] at hparts
    rw [hparts, String.toList_ofList]
    exact ⟨rfl, h⟩

/-- Names are split at points and dollar signs alike. -/
theorem TypePattern.splitOn_dollarsToPoints (cs : List Char) :
    Text.splitOn '.' (dollarsToPoints cs) = cs.splitOnP isSeparator := by
  rw [Text.splitOn_eq_listSplitOn, List.splitOn]
  induction cs with
  | nil => rfl
  | cons c cs ih =>
    rw [dollarsToPoints, List.map_cons, ← dollarsToPoints, List.splitOnP_cons_eq_if_modifyHead,
      List.splitOnP_cons_eq_if_modifyHead, ih]
    by_cases hdollar : c = '$'
    · subst hdollar
      rfl
    · have hsame : isSeparator c = (c == '.') := by simp [isSeparator, hdollar]
      rw [if_neg hdollar, hsame]

/-! ## Rows -/

/-- What joins a segment to the one in front of it. -/
inductive Joint
  | point
  /-- Two points, which leave room for other segments. -/
  | run
deriving DecidableEq, Repr

def Joint.text : Joint → List Char
  | .point => ['.']
  | .run => ['.', '.']

/-- A type pattern by its parts. -/
structure TypeRow where
  first : List Char
  rest : List (Joint × List Char)
  dims : Nat
  /-- Whether three points stand behind the dimensions. -/
  variadic : Bool

namespace TypeRow

def namesText (r : TypeRow) : List Char :=
  r.first ++ r.rest.flatMap fun s => s.1.text ++ s.2

def text (r : TypeRow) : List Char :=
  r.namesText ++ Text.brackets r.dims ++ if r.variadic then "...".toList else []

/-- All dimensions that the pattern asks for. -/
def allDims (r : TypeRow) : Nat :=
  r.dims + if r.variadic then 1 else 0

/-- The segments are segments, and the row is neither a lone star nor the bare name of a well-known
    type. -/
structure IsRow (r : TypeRow) : Prop where
  first : TypePattern.IsPiece r.first
  rest : ∀ s ∈ r.rest, TypePattern.IsPiece s.2
  notStar : r.rest = [] → r.first ≠ ['*']
  notJavaLang : r.rest = [] → '*' ∉ r.first → String.ofList r.first ∉ JavaLang.types

/-- Names laid beside a row: each segment is matched by one name, and in front of a segment behind
    two points any other names may stand. -/
inductive Aligned : List (Joint × List Char) → List (List Char) → Prop
  | nil : Aligned [] []
  | point {segment name : List Char} {row names} : Glob.Matches '*' segment name →
    Aligned row names → Aligned ((.point, segment) :: row) (name :: names)
  | run {segment name : List Char} {row names} (between : List (List Char)) :
    Glob.Matches '*' segment name → Aligned row names →
    Aligned ((.run, segment) :: row) (between ++ name :: names)

/-- The segments that a row is read as. -/
def segmentsOf : List (Joint × List Char) → List Segment
  | [] => []
  | (.point, segment) :: row => .name ⟨String.ofList segment⟩ :: segmentsOf row
  | (.run, segment) :: row => .anyRun :: .name ⟨String.ofList segment⟩ :: segmentsOf row

/-! ### Reading -/

theorem segmentsOf_eq_nil_iff {row : List (Joint × List Char)} : segmentsOf row = [] ↔ row = [] := by
  fun_cases segmentsOf row <;> simp

theorem spaced_segmentsOf {row : List (Joint × List Char)}
    (h : ∀ s ∈ row, TypePattern.IsPiece s.2) : TypePattern.Spaced false (segmentsOf row) := by
  fun_induction segmentsOf row with
  | case1 => rfl
  | case2 segment row ih =>
    rw [List.forall_mem_cons] at h
    exact ⟨by simpa using h.1, ih h.2⟩
  | case3 segment row ih =>
    rw [List.forall_mem_cons] at h
    exact ⟨rfl, by simpa using h.1, ih h.2⟩

theorem toList_renderSegments_segmentsOf (row : List (Joint × List Char)) :
    (TypePattern.renderSegments false (segmentsOf row)).toList =
      row.flatMap fun s => s.1.text ++ s.2 := by
  fun_induction segmentsOf row with
  | case1 => rfl
  | case2 segment row ih => simp [ih, Joint.text]
  | case3 segment row ih => simp [ih, Joint.text]

variable {r : TypeRow}

/-- What the row is read as. -/
def pattern (r : TypeRow) : TypePattern :=
  ⟨.segments (segmentsOf ((.point, r.first) :: r.rest)), r.allDims⟩

theorem toList_renderSegments_pattern (r : TypeRow) :
    (TypePattern.renderSegments true (segmentsOf ((.point, r.first) :: r.rest))).toList =
      r.namesText := by
  rw [segmentsOf, TypePattern.toList_renderSegments_name, toList_renderSegments_segmentsOf,
    String.toList_ofList]
  rfl

namespace IsRow

theorem spaced (h : r.IsRow) :
    TypePattern.Spaced false (segmentsOf ((.point, r.first) :: r.rest)) :=
  spaced_segmentsOf (List.forall_mem_cons.2 ⟨h.first, h.rest⟩)

theorem isNormal_pattern (h : r.IsRow) : r.pattern.IsNormal := by
  refine .segments _ h.spaced (List.cons_ne_nil _ _) ?_ ?_
  · intro hstar
    rw [segmentsOf, List.cons.injEq, segmentsOf_eq_nil_iff] at hstar
    obtain ⟨hglob, hrest⟩ := hstar
    refine h.notStar hrest ?_
    rw [← String.ofList_inj]
    simpa using hglob
  · rw [segmentsOf]
    match hrest : r.rest with
    | [] =>
      have hplain : ¬ ('*' ∉ r.first ∧ String.ofList r.first ∈ JavaLang.types) :=
        fun hbare => h.notJavaLang hrest hbare.1 hbare.2
      rw [segmentsOf, TypePattern.expandJavaLang, if_neg]
      simpa [Glob.hasStar] using hplain
    | (.point, _) :: _ => rfl
    | (.run, _) :: _ => rfl

theorem isPrinted_text (h : r.IsRow) : ∀ c ∈ r.text, isPrinted c := by
  rw [text, List.forall_mem_append, List.forall_mem_append]
  refine ⟨⟨fun c hc => ?_, fun c hc => ?_⟩, fun c hc => ?_⟩
  · rw [← toList_renderSegments_pattern] at hc
    exact (TypePattern.isPrinted_renderSegments h.spaced true c hc).1
  · rcases Text.mem_brackets hc with rfl | rfl <;> decide
  · split at hc
    · obtain rfl : c = '.' := by simpa using hc
      decide
    · cases hc

theorem ofList?_text (h : r.IsRow) : TypePattern.ofList? r.text = some r.pattern := by
  have htrim : trim r.text = r.text :=
    trim_of_forall fun c hc => isSpace_of_isPrinted (h.isPrinted_text c hc)
  have hends : EndsInName r.namesText := by
    rw [← toList_renderSegments_pattern]
    exact TypePattern.endsInName_renderSegments h.spaced (List.cons_ne_nil _ _) true
  refine TypePattern.ofList?_eq_segments h.isNormal_pattern ?_
  rw [htrim, toList_renderSegments_pattern, text, allDims]
  cases r.variadic with
  | false =>
    rw [if_neg Bool.false_ne_true, if_neg Bool.false_ne_true, List.append_nil]
    exact TypePattern.peelDimensions_append_brackets hends r.dims
  | true =>
    rw [if_pos rfl, if_pos rfl]
    exact TypePattern.peelDimensions_append_points hends r.dims

end IsRow

/-! ### Matching -/

theorem isMatch_glob_iff (segment : List Char) (name : List Char) :
    Glob.isMatch ⟨String.ofList segment⟩ (String.ofList name) ↔ Glob.Matches '*' segment name := by
  rw [Glob.isMatch, Glob.matchesList_iff_matches, Glob.matches_bytes_iff, String.toList_ofList,
    String.toList_ofList]

theorem segmentsMatch_name_iff {segment : List Char} {ss : List Segment} {names : List (List Char)} :
    TypePattern.segmentsMatch (.name ⟨String.ofList segment⟩ :: ss) (names.map String.ofList) ↔
      ∃ name rest, names = name :: rest ∧ Glob.Matches '*' segment name ∧
        TypePattern.segmentsMatch ss (rest.map String.ofList) := by
  have hrun : ((Segment.name ⟨String.ofList segment⟩ : Segment) == .anyRun) = false := rfl
  rw [TypePattern.segmentsMatch]
  cases names with
  | nil => simp [rowMatch, hrun]
  | cons name names =>
    rw [List.map_cons, rowMatch, hrun, if_neg Bool.false_ne_true, Bool.and_eq_true,
      TypePattern.Segment.isMatch, isMatch_glob_iff]
    simp

theorem segmentsMatch_anyRun_iff {ss : List Segment} {names : List (List Char)} :
    TypePattern.segmentsMatch (.anyRun :: ss) (names.map String.ofList) ↔
      ∃ between rest, names = between ++ rest ∧
        TypePattern.segmentsMatch ss (rest.map String.ofList) := by
  rw [TypePattern.segmentsMatch, rowMatch.eq_def]
  simp only [beq_self_eq_true, if_true]
  rw [anySuffix_eq_true_iff]
  constructor
  · rintro ⟨front, back, heq, hback⟩
    obtain ⟨between, rest, rfl, rfl, rfl⟩ := List.map_eq_append_iff.1 heq
    exact ⟨between, rest, rfl, hback⟩
  · rintro ⟨between, rest, rfl, hrest⟩
    exact ⟨_, _, List.map_append, hrest⟩

/-- Matching tries all runs that may stand behind two points, and finds how the names can be laid
    beside the segments if they can. -/
theorem segmentsMatch_iff_aligned (row : List (Joint × List Char)) (names : List (List Char)) :
    TypePattern.segmentsMatch (segmentsOf row) (names.map String.ofList) ↔ Aligned row names := by
  induction row generalizing names with
  | nil =>
    constructor
    · intro h
      cases names with
      | nil => exact .nil
      | cons name names => cases h
    · rintro ⟨⟩
      rfl
  | cons s row ih =>
    obtain ⟨joint, segment⟩ := s
    cases joint with
    | point =>
      simp only [segmentsOf, segmentsMatch_name_iff, ih]
      constructor
      · rintro ⟨name, rest, rfl, hmatch, hrest⟩
        exact .point hmatch hrest
      · rintro (_ | ⟨hmatch, hrest⟩)
        exact ⟨_, _, rfl, hmatch, hrest⟩
    | run =>
      simp only [segmentsOf, segmentsMatch_anyRun_iff, segmentsMatch_name_iff, ih]
      constructor
      · rintro ⟨between, _, rfl, name, rest, rfl, hmatch, hrest⟩
        exact .run between hmatch hrest
      · rintro (_ | _ | ⟨between, hmatch, hrest⟩)
        exact ⟨between, _, rfl, _, _, rfl, hmatch, hrest⟩

/-- **A type pattern stands for what its text says**: it can be read, and what is read matches a
    name exactly if the name ends in as many pairs of brackets as the pattern asks for and its parts
    can be laid beside the segments. -/
theorem isMatch_iff (h : r.IsRow) :
    ∃ p, TypePattern.ofList? r.text = some p ∧
      ∀ name : String, p.isMatch name ↔
        ∃ element, name.toList = element ++ Text.brackets r.allDims ∧ ¬ ['[', ']'] <:+ element ∧
          Aligned ((.point, r.first) :: r.rest) (element.splitOnP isSeparator) := by
  refine ⟨r.pattern, h.ofList?_text, fun name => ?_⟩
  rw [← Text.elementType_iff, ← TypePattern.splitOn_dollarsToPoints, ← segmentsMatch_iff_aligned]
  simp [TypePattern.isMatch, pattern]

/-- A pattern with both kinds of joints, for arrays of arrays of a nested class in some package. -/
theorem isMatch_iff_nested :
    let r : TypeRow :=
      ⟨"com".toList, [(.run, "*Service".toList), (.point, "I*r".toList)], 1, true⟩
    r.IsRow ∧ r.text = "com..*Service.I*r[]...".toList ∧
      ∃ p, TypePattern.ofList? r.text = some p ∧ p.isMatch "com.a.b.UserService$Inner[][]" ∧
        ¬ p.isMatch "com.a.b.UserService$Inner[]" := by
  intro r
  have hrow : r.IsRow := by
    refine ⟨⟨by decide +kernel, by decide⟩, fun s hs => ?_, nofun, nofun⟩
    have hpieces : ∀ s ∈ r.rest, isSegment s.2 ∧ '$' ∉ s.2 := by decide +kernel
    exact hpieces s hs
  obtain ⟨p, hp, hmatch⟩ := isMatch_iff hrow
  refine ⟨hrow, rfl, p, hp, ?_, ?_⟩
  · have hservice : Glob.Matches '*' "*Service".toList "UserService".toList :=
      Glob.matchesList_iff_matches.1 (by decide +kernel)
    have hinner : Glob.Matches '*' "I*r".toList "Inner".toList :=
      Glob.matchesList_iff_matches.1 (by decide +kernel)
    have hcom : Glob.Matches '*' "com".toList "com".toList :=
      Glob.matchesList_iff_matches.1 (by decide +kernel)
    refine (hmatch _).2 ⟨"com.a.b.UserService$Inner".toList, rfl, by decide, ?_⟩
    exact .point hcom (.run ["a".toList, "b".toList] hservice (.point hinner .nil))
  · rw [hmatch]
    rintro ⟨element, hname, -, -⟩
    have hsuffix : Text.brackets 2 <:+ "com.a.b.UserService$Inner[]".toList := ⟨element, hname.symm⟩
    exact absurd hsuffix (by decide)

end TypeRow

end JavaThrows
