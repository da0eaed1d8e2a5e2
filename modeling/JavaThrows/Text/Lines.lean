import JavaThrows.Text.Span
import JavaThrows.Unicode.CharClass

set_option autoImplicit false

/-!
# Lines of a text

Line and column numbers of byte offsets, and the blanks around a piece of a line that go when the
piece is deleted.
-/

namespace JavaThrows.Text

open JavaThrows.Unicode

/-! ## Line numbers -/

/-- Where the lines of a text start, in rising order. -/
structure LineIndex where
  starts : List Nat
deriving Repr, Inhabited

/-- The offsets right after the line breaks of a text that starts at `offset`. -/
def startsAfterBreaks (offset : Nat) : List Char → List Nat
  | [] => []
  | c :: cs =>
    let next := offset + c.utf8Size
    if c = '\n' then next :: startsAfterBreaks next cs else startsAfterBreaks next cs

def LineIndex.ofText (text : List Char) : LineIndex :=
  ⟨0 :: startsAfterBreaks 0 text⟩

/-- Where a search in a rising table ends: at the number, or where it would have to be put in. -/
inductive Found where
  | hit (index : Nat)
  | missing (index : Nat)
deriving DecidableEq, Repr

/-- The last of `size` entries from `base` on that is no more than the offset, and `base` without
    one: the half that it cannot stand in is left out until one entry remains. -/
def halve (starts : List Nat) (offset base size : Nat) : Nat :=
  if 1 < size then
    let middle := base + size / 2
    let base := if offset < starts.getD middle 0 then base else middle
    halve starts offset base (size - size / 2)
  else base
termination_by size

/-- Binary search for an offset. -/
def search (starts : List Nat) (offset : Nat) : Found :=
  let base := halve starts offset 0 starts.length
  match starts[base]? with
  | none => .missing 0
  | some start =>
    if start = offset then .hit base
    else if start < offset then .missing (base + 1)
    else .missing base

/-- The number of the line that an offset stands on, counted from one. An offset past the end
    stands on the last line. -/
def LineIndex.line (index : LineIndex) (offset : Nat) : Nat :=
  match search index.starts offset with
  | .hit i => i + 1
  | .missing i => i

/-- A place in a text. Lines and columns are counted from one, and columns in bytes. -/
structure Position where
  line : Nat
  column : Nat
deriving DecidableEq, Repr, Inhabited

def LineIndex.position (index : LineIndex) (offset : Nat) : Position :=
  ⟨index.line offset, offset - (index.starts.takeWhile (· ≤ offset)).getLastD 0 + 1⟩

def Position.describe (p : Position) : String :=
  "line " ++ toString p.line ++ ", column " ++ toString p.column

/-! ## Blanks around a piece of a line -/

/-- The blanks that separate two pieces on one line. -/
def isGap (c : Char) : Bool :=
  c == ' ' || c == '\t'

/-- The characters after the last line break. -/
def lastLine (cs : List Char) : List Char :=
  (cs.reverse.takeWhile (· != '\n')).reverse

/-- What goes when a piece of the text goes: its whole line where it stands alone on it, with the
    line break; else the piece with the gap after it where it starts the line, and with the gap
    before it where something else does. -/
def lineSpan (text : List Char) (span : Span) : Span :=
  match splitAt? text span.start with
  | none => span
  | some (front, tail) =>
    match splitAt? tail (span.stop - span.start) with
    | none => span
    | some (_, rest) =>
      let before := lastLine front
      let after := rest.takeWhile (· != '\n')
      if isBlank before && isBlank after then
        let lineEnd := span.stop + byteLength after
        ⟨span.start - byteLength before,
          if after.length < rest.length then lineEnd + 1 else lineEnd⟩
      else if isBlank before then
        ⟨span.start, span.stop + (after.takeWhile isGap).length⟩
      else
        ⟨span.start - (before.reverse.takeWhile isGap).length, span.stop⟩

/-- The end of the blank lines that a text starts with, when the text starts at a line start. The
    text from `offset` on is left to look at, on a line that started at `lineStart` and is blank so
    far; a last line without a line break is not passed over. -/
def skipBlankFrom (lineStart offset : Nat) : List Char → Nat
  | [] => lineStart
  | c :: cs =>
    let next := offset + c.utf8Size
    if c = '\n' then skipBlankFrom next next cs
    else if isSpace c then skipBlankFrom lineStart next cs
    else lineStart

/-- The end of the blank lines from an offset on, and the offset itself past the end of the text;
    none for an offset inside a character. -/
def skipBlankLines? (text : List Char) (offset : Nat) : Option Nat :=
  if byteLength text ≤ offset then some offset
  else (splitAt? text offset).map fun parts => skipBlankFrom offset offset parts.2

end JavaThrows.Text
