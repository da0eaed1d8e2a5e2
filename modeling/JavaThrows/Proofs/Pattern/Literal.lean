import Mathlib.Data.List.Forall2
import JavaThrows.Pattern.Match
import JavaThrows.Proofs.Pattern.Glob
import JavaThrows.Proofs.Pattern.MethodPattern

set_option autoImplicit false

/-!
# Patterns that name one method

A pattern without stars and runs writes out the full name of a type, the name of a method and the
erased types of its parameters. It selects the methods that are declared just so, with dollar signs
read as points, and no others. Main statement: `isMatch_literal_iff`.
-/

namespace JavaThrows

open JavaThrows.Unicode

/-! ## Array dimensions at the end of a type -/

namespace Text

theorem dropBrackets_reverse_brackets (rest : List Char) (n : Nat) :
    dropBrackets ((brackets n).reverse ++ rest) =
      ((dropBrackets rest).1, (dropBrackets rest).2 + n) := by
  induction n with
  | zero => rfl
  | succ n ih =>
    rw [brackets_succ, List.reverse_append]
    show dropBrackets (']' :: '[' :: ((brackets n).reverse ++ rest)) = _
    rw [dropBrackets, ih]
    rfl

theorem eq_append_dropBrackets (cs : List Char) :
    cs = (brackets (dropBrackets cs).2).reverse ++ (dropBrackets cs).1 := by
  fun_induction dropBrackets cs with
  | case1 cs r ih =>
    rw [brackets_succ, List.reverse_append]
    exact congrArg (fun rest => ']' :: '[' :: rest) ih
  | case2 => rfl

/-- The element type and the number of dimensions are all there is to a type. -/
theorem toList_eq_elementType (type : String) :
    type.toList = (elementType type).1.toList ++ brackets (elementType type).2 := by
  rw [elementType, String.toList_ofList, ← List.reverse_inj, List.reverse_append,
    List.reverse_reverse]
  exact eq_append_dropBrackets type.toList.reverse

/-- No dimensions are left on the element type. -/
theorem not_suffix_elementType (type : String) :
    ¬ ['[', ']'] <:+ (elementType type).1.toList := by
  have hstop (cs rest : List Char) : (dropBrackets cs).1 ≠ ']' :: '[' :: rest := by
    fun_induction dropBrackets cs with
    | case1 cs r ih => exact ih
    | case2 cs hcs => exact fun heq => hcs rest heq
  rw [elementType, String.toList_ofList, ← List.reverse_prefix, List.reverse_reverse]
  rintro ⟨rest, heq⟩
  exact hstop _ rest heq.symm

theorem elementType_append_brackets {element : List Char} (h : ¬ ['[', ']'] <:+ element) (n : Nat) :
    elementType (String.ofList (element ++ brackets n)) = (String.ofList element, n) := by
  have hstop : dropBrackets element.reverse = (element.reverse, 0) := by
    unfold dropBrackets
    split
    · next cs heq =>
      refine absurd ⟨cs.reverse, ?_⟩ h
      rw [← List.reverse_inj, heq]
      simp
    · rfl
  rw [elementType, String.toList_ofList, List.reverse_append, dropBrackets_reverse_brackets, hstop,
    List.reverse_reverse, Nat.zero_add]

end Text

/-! ## Dollar signs read as points -/

/-- A name in which every dollar sign is a point. -/
def withPoints (name : String) : String :=
  String.ofList (TypePattern.dollarsToPoints name.toList)

theorem dropBrackets_dollarsToPoints (cs : List Char) :
    Text.dropBrackets (TypePattern.dollarsToPoints cs) =
      (TypePattern.dollarsToPoints (Text.dropBrackets cs).1, (Text.dropBrackets cs).2) := by
  have hsame {c d : Char} (hd : d ≠ '.') (h : (if c = '$' then '.' else c) = d) : c = d := by
    split at h
    · exact absurd h.symm hd
    · exact h
  fun_induction Text.dropBrackets cs with
  | case1 cs r ih =>
    show Text.dropBrackets (']' :: '[' :: TypePattern.dollarsToPoints cs) = _
    rw [Text.dropBrackets, ih]
  | case2 cs hcs =>
    unfold Text.dropBrackets
    split
    · next rest heq =>
      -- Brackets come from brackets only.
      match cs, hcs, heq with
      | a :: b :: cs, hcs, heq =>
        simp only [TypePattern.dollarsToPoints, List.map_cons, List.cons.injEq] at heq
        obtain rfl := hsame (by decide) heq.1
        obtain rfl := hsame (by decide) heq.2.1
        exact absurd rfl (hcs cs)
      | [a], _, heq => simp [TypePattern.dollarsToPoints] at heq
    · rfl

theorem elementType_withPoints (name : String) :
    Text.elementType (withPoints name) =
      (withPoints (Text.elementType name).1, (Text.elementType name).2) := by
  have hreverse (cs : List Char) :
      (TypePattern.dollarsToPoints cs).reverse = TypePattern.dollarsToPoints cs.reverse :=
    List.map_reverse.symm
  rw [Text.elementType, withPoints, String.toList_ofList, hreverse, dropBrackets_dollarsToPoints,
    hreverse, withPoints, Text.elementType, String.toList_ofList]

/-! ## Written types -/

/-- A name that stands for itself in a pattern. -/
structure IsPlainSegment (name : String) : Prop where
  segment : isSegment name.toList
  noStar : '*' ∉ name.toList
  noDollar : '$' ∉ name.toList

/-- An erased type by its parts. -/
structure WrittenType where
  names : List String
  dims : Nat
deriving DecidableEq, Repr

namespace WrittenType

/-- The names with points between them, and the dimensions. -/
def text (t : WrittenType) : String :=
  String.intercalate "." t.names ++ String.ofList (Text.brackets t.dims)

/-- The type is not mistaken for one of `java.lang`. -/
structure IsLiteral (t : WrittenType) : Prop where
  names : ∀ name ∈ t.names, IsPlainSegment name
  nonempty : t.names ≠ []
  notJavaLang : ∀ name, t.names = [name] → name ∉ JavaLang.types

def segments (t : WrittenType) : List Segment :=
  t.names.map fun name => .name ⟨name⟩

/-- The pattern that the type is read as. -/
def pattern (t : WrittenType) : TypePattern :=
  ⟨.segments t.segments, t.dims⟩

variable {t : WrittenType}

theorem toList_text (t : WrittenType) :
    t.text.toList =
      List.intercalate ['.'] (t.names.map String.toList) ++ Text.brackets t.dims := by
  simp [text, String.toList_intercalate]

theorem toList_renderSegments (name : String) (names : List String) :
    (TypePattern.renderSegments true ((name :: names).map fun name => .name ⟨name⟩)).toList =
      List.intercalate ['.'] ((name :: names).map String.toList) := by
  have hrest (names : List String) (first : List Char) :
      first ++ (TypePattern.renderSegments false (names.map fun name => .name ⟨name⟩)).toList =
        List.intercalate ['.'] (first :: names.map String.toList) := by
    induction names generalizing first with
    | nil => simp [TypePattern.renderSegments]
    | cons name names ih =>
      rw [List.map_cons, TypePattern.toList_renderSegments_name, ih, List.map_cons]
      simp [List.intercalate_cons_cons]
  rw [List.map_cons, TypePattern.toList_renderSegments_name, hrest]
  rfl

theorem spaced_segments (h : ∀ name ∈ t.names, IsPlainSegment name) :
    TypePattern.Spaced false t.segments := by
  rw [segments]
  generalize t.names = names at h
  induction names with
  | nil => rfl
  | cons name names ih =>
    rw [List.forall_mem_cons] at h
    exact ⟨⟨h.1.segment, h.1.noDollar⟩, ih h.2⟩

namespace IsLiteral

theorem isNormal_pattern (h : t.IsLiteral) : t.pattern.IsNormal := by
  refine .segments t.dims (spaced_segments h.names) ?_ ?_ ?_
  · simpa [segments] using h.nonempty
  · intro hstar
    obtain ⟨name, hname, heq⟩ := List.map_eq_singleton_iff.1 hstar
    obtain rfl : name = "*" := by simpa using heq
    exact absurd (h.names "*" (by simp [hname])).noStar (by decide)
  · rw [segments]
    match hnames : t.names with
    | [] => exact absurd hnames h.nonempty
    | [name] =>
      have hplain := h.notJavaLang name hnames
      simp [TypePattern.expandJavaLang, hplain]
    | _ :: _ :: _ => rfl

theorem render_pattern (h : t.IsLiteral) : t.pattern.render = t.text := by
  obtain ⟨name, names, hnames⟩ := List.exists_cons_of_ne_nil h.nonempty
  rw [← String.toList_inj, TypePattern.toList_render, toList_text, pattern, segments, hnames]
  exact congrArg (· ++ _) (toList_renderSegments name names)

/-- A type ends in a name, and the dimensions stand behind it. -/
theorem elementType_text (h : t.IsLiteral) :
    Text.elementType t.text =
      (String.ofList (List.intercalate ['.'] (t.names.map String.toList)), t.dims) := by
  have hne : ∀ piece ∈ t.names.map String.toList, piece ≠ [] := by
    rw [List.forall_mem_map]
    exact fun name hname => ne_nil_of_isSegment (h.names name hname).segment
  rw [← String.ofList_toList (s := t.text), toList_text]
  refine Text.elementType_append_brackets ?_ t.dims
  rintro ⟨front, heq⟩
  have hlast : ']' ∈ (List.intercalate ['.'] (t.names.map String.toList)).getLast? := by
    simp [← heq]
  obtain ⟨piece, hpiece, hmem⟩ := Text.mem_getLast?_intercalate hne hlast
  obtain ⟨name, hname, rfl⟩ := List.mem_map.1 hpiece
  exact absurd (isSegmentPart_of_isSegment (h.names name hname).segment ']' hmem) (by decide)

end IsLiteral

end WrittenType

/-! ## Matching -/

/-- Segments without stars match the names that they are. -/
theorem segmentsMatch_plain {names : List String} (h : ∀ name ∈ names, IsPlainSegment name)
    (others : List String) :
    TypePattern.segmentsMatch (names.map fun name => .name ⟨name⟩) others ↔ others = names := by
  induction names generalizing others with
  | nil => simp [TypePattern.segmentsMatch, rowMatch]
  | cons name names ih =>
    rw [List.forall_mem_cons] at h
    have hglob (other : String) : Glob.isMatch ⟨name⟩ other ↔ other = name :=
      Glob.isMatch_iff_eq_text (by simpa [Glob.hasStar] using h.1.noStar)
    have ih := ih h.2
    rw [TypePattern.segmentsMatch] at ih ⊢
    cases others with
    | nil => simp [rowMatch]
    | cons other others =>
      have hrun : ((Segment.name ⟨name⟩ : Segment) == .anyRun) = false := rfl
      rw [List.map_cons, rowMatch, hrun, if_neg Bool.false_ne_true, Bool.and_eq_true,
        TypePattern.Segment.isMatch, hglob, ih, List.cons.injEq]

theorem map_splitOn_eq_iff {names : List String} (h : ∀ name ∈ names, '.' ∉ name.toList)
    (hne : names ≠ []) (cs : List Char) :
    (Text.splitOn '.' cs).map String.ofList = names ↔
      cs = List.intercalate ['.'] (names.map String.toList) := by
  constructor
  · rintro rfl
    have hback : String.toList ∘ String.ofList = id := funext fun _ => String.toList_ofList
    rw [List.map_map, hback, List.map_id, Text.intercalate_splitOn]
  · rintro rfl
    obtain ⟨name, rest, rfl⟩ := List.exists_cons_of_ne_nil hne
    have hpoints : ∀ piece ∈ (name :: rest).map String.toList, '.' ∉ piece := by
      rwa [List.forall_mem_map]
    have hsplit := Text.splitOn_intercalate_cons (List.not_mem_nil : '.' ∉ []) hpoints
    have hback : (String.ofList ∘ fun cs => [] ++ cs) ∘ String.toList = id :=
      funext fun _ => String.ofList_toList
    rw [List.map_cons, hsplit, List.map_cons, String.ofList_toList, List.map_map, List.map_map,
      hback, List.map_id]

/-- **A written type matches itself and nothing else.** -/
theorem WrittenType.IsLiteral.isMatch_pattern_iff {t : WrittenType} (h : t.IsLiteral)
    (fqn : String) : t.pattern.isMatch fqn ↔ withPoints fqn = t.text := by
  have hpoints : ∀ name ∈ t.names, '.' ∉ name.toList :=
    fun name hname => point_notMem_of_isSegment (h.names name hname).segment
  have hparts := elementType_withPoints fqn
  have hfqn := Text.toList_eq_elementType (withPoints fqn)
  simp only [TypePattern.isMatch, pattern, segments, Bool.and_eq_true, beq_iff_eq,
    segmentsMatch_plain h.names, map_splitOn_eq_iff hpoints h.nonempty]
  constructor
  · rintro ⟨hdims, helement⟩
    rw [← String.toList_inj, hfqn, hparts, withPoints, helement, hdims, toList_text,
      String.toList_ofList]
  · intro heq
    rw [heq, h.elementType_text, Prod.mk.injEq, withPoints, String.ofList_inj] at hparts
    exact ⟨hparts.2.symm, hparts.1.symm⟩

namespace MethodPattern

theorem argsMatch_written_iff {types : List WrittenType} (h : ∀ t ∈ types, t.IsLiteral)
    (params : List String) :
    argsMatch (types.map fun t => .type t.pattern) params ↔
      params.map withPoints = types.map WrittenType.text := by
  induction types generalizing params with
  | nil => simp [argsMatch, rowMatch]
  | cons t types ih =>
    rw [List.forall_mem_cons] at h
    have ih := ih h.2
    rw [argsMatch] at ih ⊢
    cases params with
    | nil => simp [rowMatch]
    | cons param params =>
      have hrun : ((ArgPattern.type t.pattern : ArgPattern) == .anyRun) = false := rfl
      rw [List.map_cons, rowMatch, hrun, if_neg Bool.false_ne_true, Bool.and_eq_true,
        ArgPattern.isMatch, h.1.isMatch_pattern_iff, ih, List.map_cons, List.map_cons,
        List.cons.injEq]

/-- A pattern written out: the type, a blank, the name, and the types of the parameters. -/
def literalText (target : WrittenType) (name : String) (types : List WrittenType) : String :=
  target.text ++ " " ++ name ++ "(" ++ String.intercalate ", " (types.map WrittenType.text) ++ ")"

/-- What such a pattern is read as. -/
def literal (target : WrittenType) (name : String) (types : List WrittenType)
    (matchOverrides : Bool) : MethodPattern where
  target := target.pattern
  name := .method ⟨name⟩
  args := types.map fun t => .type t.pattern
  matchOverrides

variable {target : WrittenType} {name : String} {types : List WrittenType} {matchOverrides : Bool}

theorem render_literal (htarget : target.IsLiteral) (htypes : ∀ t ∈ types, t.IsLiteral) :
    (literal target name types matchOverrides).render = literalText target name types := by
  have hargs : (types.map fun t => ArgPattern.type t.pattern).map renderArg =
      types.map WrittenType.text := by
    rw [List.map_map]
    exact List.map_congr_left fun t ht => (htypes t ht).render_pattern
  simp only [render, literal, literalText, htarget.render_pattern, hargs, renderName]

theorem isNormal_literal (htarget : target.IsLiteral) (hdims : target.dims = 0)
    (hname : IsPlainSegment name) (htypes : ∀ t ∈ types, t.IsLiteral) :
    (literal target name types matchOverrides).IsNormal where
  target := htarget.isNormal_pattern
  noDims := hdims
  name := hname.segment
  args := by
    rw [literal, List.forall_mem_map]
    exact fun t ht => ⟨(htypes t ht).isNormal_pattern, fun h => by cases h⟩

/-- **A pattern that is written out selects what it names and nothing else**: it can be read, and
    without overriding methods it matches a method if and only if this is no constructor, has the
    name, is declared in the type, and has parameters of the types. -/
theorem isMatch_literal_iff {fqn : List String} (hfqn : ∀ part ∈ fqn, IsPlainSegment part)
    (hlength : 2 ≤ fqn.length) (hname : IsPlainSegment name)
    (htypes : ∀ t ∈ types, t.IsLiteral) (matchOverrides : Bool) :
    ∃ p, compile (literalText ⟨fqn, 0⟩ name types) matchOverrides = .ok p ∧
      (matchOverrides = false → ∀ (index : TypeIndex) (unit : CompilationUnit)
        (enclosing : TypeHead) (m : Method),
        p.isMatch index unit enclosing m ↔
          m.isConstructor = false ∧ m.name = name ∧
            withPoints enclosing.fqn = String.intercalate "." fqn ∧
            (erasedParams index unit m).map withPoints = types.map WrittenType.text) := by
  have htarget : (⟨fqn, 0⟩ : WrittenType).IsLiteral := by
    refine ⟨hfqn, ?_, ?_⟩
    · rintro (rfl : fqn = [])
      simp at hlength
    · rintro part (rfl : fqn = [part])
      simp at hlength
  have hnormal : (literal ⟨fqn, 0⟩ name types matchOverrides).IsNormal :=
    isNormal_literal htarget rfl hname htypes
  refine ⟨literal ⟨fqn, 0⟩ name types matchOverrides, ?_, fun hflag index unit enclosing m => ?_⟩
  · rw [← render_literal htarget htypes]
    exact hnormal.compile_eq_ok
  · have hglob : Glob.isMatch ⟨name⟩ m.name ↔ m.name = name :=
      Glob.isMatch_iff_eq_text (by simpa [Glob.hasStar] using hname.noStar)
    have htext : (⟨fqn, 0⟩ : WrittenType).text = String.intercalate "." fqn := by
      rw [← String.toList_inj, WrittenType.toList_text]
      simp [Text.brackets, String.toList_intercalate]
    have hargs := argsMatch_written_iff htypes (erasedParams index unit m)
    have hdeclared := htarget.isMatch_pattern_iff enclosing.fqn
    rw [htext] at hdeclared
    simp only [isMatch, literal, nameMatches, hflag, Bool.false_and, Bool.or_false,
      Bool.and_eq_true, Bool.not_eq_true', hglob, hargs, hdeclared]
    tauto

/-- A method of a nested class that takes a text and a matrix: the dollar sign in the full name of
    the class is read as a point, and overloads with other parameters are left alone. -/
theorem isMatch_literal_iff_nested :
    let types : List WrittenType := [⟨["java", "lang", "String"], 0⟩, ⟨["int"], 2⟩]
    let param (erased : String) : Param := ⟨⟨erased, erased, default, some erased, true, false⟩, ""⟩
    let run (params : List Param) : Method := { (default : Method) with name := "run", params }
    let inner : TypeHead := { (default : TypeHead) with fqn := "p.Outer$Inner" }
    (∀ part ∈ ["p", "Outer", "Inner"], IsPlainSegment part) ∧ IsPlainSegment "run" ∧
      (∀ t ∈ types, t.IsLiteral) ∧
      ∃ p, compile "p.Outer.Inner run(java.lang.String, int[][])" false = .ok p ∧
        p.isMatch default default inner (run [param "java.lang.String", param "int[][]"]) ∧
        ¬ p.isMatch default default inner (run [param "java.lang.String", param "int[]"]) := by
  intro types param run inner
  have hsegment {part : String} (h : isSegment part.toList ∧ '*' ∉ part.toList ∧ '$' ∉ part.toList) :
      IsPlainSegment part := ⟨h.1, h.2.1, h.2.2⟩
  have hfqn : ∀ part ∈ ["p", "Outer", "Inner"], IsPlainSegment part :=
    fun part hpart => hsegment (by revert part; decide +kernel)
  have hname : IsPlainSegment "run" := hsegment (by decide +kernel)
  have htypes : ∀ t ∈ types, t.IsLiteral := by
    have hnames : ∀ t ∈ types, ∀ name ∈ t.names,
        isSegment name.toList ∧ '*' ∉ name.toList ∧ '$' ∉ name.toList := by
      decide +kernel
    refine fun t ht => ⟨fun name hname => hsegment (hnames t ht name hname), ?_, ?_⟩
    · revert t
      decide +kernel
    · rintro name heq
      obtain rfl | rfl : t = ⟨["java", "lang", "String"], 0⟩ ∨ t = ⟨["int"], 2⟩ := by
        simpa [types] using ht
      · cases heq
      · obtain rfl := List.singleton_inj.1 heq
        decide +kernel
  obtain ⟨p, hp, hmatch⟩ := isMatch_literal_iff hfqn (by decide) hname htypes false
  refine ⟨hfqn, hname, htypes, p, hp, ?_, ?_⟩
  · rw [hmatch rfl]
    decide +kernel
  · rw [hmatch rfl]
    decide +kernel

end MethodPattern
end JavaThrows
