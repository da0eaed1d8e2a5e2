import JavaThrows.Decl.JavaLang
import JavaThrows.Pattern.Glob
import JavaThrows.Pattern.Row
import JavaThrows.Text.Split
import JavaThrows.Unicode.CharClass

set_option autoImplicit false

/-!
# Type patterns

A type pattern is a row of name segments with array dimensions behind it. Points join neighbouring
segments, two points leave room for any segments in between, and a dollar sign counts as a point. A
single star stands for any type, and the bare name of a well-known type for that type of
`java.lang`.
-/

namespace JavaThrows

open JavaThrows.Unicode

inductive Segment where
  /-- One segment, matched by a glob. -/
  | name (glob : Glob)
  /-- Any number of segments. -/
  | anyRun
deriving DecidableEq, Repr, Inhabited

inductive TypeBase where
  | any
  | segments (list : List Segment)
deriving DecidableEq, Repr, Inhabited

structure TypePattern where
  base : TypeBase
  /-- The number of array dimensions. -/
  dims : Nat
deriving DecidableEq, Repr, Inhabited

/-- The characters that a segment of a name pattern may start with. -/
def isSegmentStart (c : Char) : Bool :=
  c == '_' || c == '$' || c == '*' || isLetter c

def isSegmentPart (c : Char) : Bool :=
  isSegmentStart c || isNumber c

/-- Whether a text can stand as a segment of a name pattern. -/
def isSegment : List Char → Bool
  | [] => false
  | c :: cs => isSegmentStart c && cs.all isSegmentPart

namespace TypePattern

/-! ## Reading -/

/-- Drop pairs of brackets from the front of a reversed text, with the blanks behind each, and
    count them. -/
def peelBrackets : List Char → List Char × Nat
  | ']' :: '[' :: cs =>
    let r := peelBrackets (cs.dropWhile isSpace)
    (r.1, r.2 + 1)
  | cs => (cs, 0)
termination_by cs => cs.length
decreasing_by
  have := (List.dropWhile_sublist isSpace (l := cs)).length_le
  simp; omega

/-- The text of a pattern without its dimensions, and their number; three points at the end are one
    dimension. -/
def peelDimensions (text : List Char) : List Char × Nat :=
  let (text, dots) := match Text.beforeEnd? "...".toList text with
    | some rest => (trimEnd rest, 1)
    | none => (text, 0)
  let (reversed, brackets) := peelBrackets text.reverse
  (reversed.reverse, dots + brackets)

/-- The segments that a row of pieces between points stands for: an empty piece leaves room for any
    segments, and none may be last. -/
def segmentsOf (afterRun : Bool) : List (List Char) → Option (List Segment)
  | [] => some []
  | [] :: [] => none
  | [] :: pieces =>
    if afterRun then segmentsOf true pieces
    else (segmentsOf true pieces).map (.anyRun :: ·)
  | piece :: pieces =>
    if isSegment piece then
      (segmentsOf false pieces).map (.name ⟨String.ofList piece⟩ :: ·)
    else none

/-- The bare name of a well-known type stands for its full name. -/
def expandJavaLang : List Segment → List Segment
  | [.name glob] =>
    if !glob.hasStar && JavaLang.types.contains glob.text then
      [.name ⟨"java"⟩, .name ⟨"lang"⟩, .name glob]
    else [.name glob]
  | ss => ss

/-- A dollar sign counts as a point. -/
def dollarsToPoints (cs : List Char) : List Char :=
  cs.map fun c => if c = '$' then '.' else c

/-- Read a type pattern. -/
def ofList? (text : List Char) : Option TypePattern :=
  let (text, dims) := peelDimensions (trim text)
  if text.isEmpty then none
  else if text = ['*'] then some ⟨.any, dims⟩
  else
    (segmentsOf false (Text.splitOn '.' (dollarsToPoints text))).map fun ss =>
      ⟨.segments (expandJavaLang ss), dims⟩

/-! ## Matching -/

/-- Whether a segment matches a single name. -/
def Segment.isMatch : Segment → String → Bool
  | .name glob, name => glob.isMatch name
  | .anyRun, _ => true

/-- Whether a row of segments matches a row of names, in order and with nothing left over. -/
def segmentsMatch : List Segment → List String → Bool :=
  rowMatch (· == .anyRun) Segment.isMatch

/-- Whether the pattern matches the full name of an erased type. -/
def isMatch (p : TypePattern) (fqn : String) : Bool :=
  let (element, dims) := Text.elementType fqn
  dims == p.dims &&
    match p.base with
    | .any => true
    | .segments ss =>
      segmentsMatch ss
        ((Text.splitOn '.' (dollarsToPoints element.toList)).map String.ofList)

/-! ## Printing -/

/-- The text of a row of segments; a point goes between two segments that are neighbours. -/
def renderSegments (afterRun : Bool) : List Segment → String
  | [] => ""
  | .anyRun :: ss => ".." ++ renderSegments true ss
  | .name glob :: ss =>
    (if afterRun then "" else ".") ++ glob.text ++ renderSegments false ss

def render (p : TypePattern) : String :=
  let base := match p.base with
    | .any => "*"
    | .segments ss => renderSegments true ss
  base ++ String.ofList (Text.brackets p.dims)

end TypePattern
end JavaThrows
