import JavaThrows.Text.Lines

set_option autoImplicit false

/-!
# Edits of a text

An edit replaces a byte range of a text. Edits are written against the text as it was, and applied
from the last one to the first, so that no edit moves a range that is still to be replaced.
-/

namespace JavaThrows

structure Edit where
  span : Span
  replacement : String
deriving DecidableEq, Repr, Inhabited

/-- Why edits do not lead to a new text. Edits are counted from zero in the order in which they were
    made. -/
inductive RewriteError where
  | overlapping (first second : Nat)
  | outOfBounds (edit stop length : Nat)
  /-- A range starts or ends inside a character. -/
  | notCharBoundary (edit : Nat)
  /-- The new text is not well-formed Java. -/
  | invalidSyntax (place : Text.Position)
  /-- A range that is to be cut out is no piece of the text: it is inverted, or an edit with the
      same start has changed the text under it. -/
  | brokenRange
deriving DecidableEq, Repr

def RewriteError.message : RewriteError → String
  | .overlapping first second =>
    "Overlapping edits at indices " ++ toString first ++ " and " ++ toString second
  | .outOfBounds edit stop length =>
    "Edit " ++ toString edit ++ " out of bounds: end_byte " ++ toString stop ++
      " > source length " ++ toString length
  | .notCharBoundary edit =>
    "Edit " ++ toString edit ++ " does not start and end on a character boundary"
  | .invalidSyntax place => "Rewritten source has a syntax error at " ++ place.describe
  | .brokenRange => "edited range is no piece of the text"

namespace Edit

def delete (span : Span) : Edit := ⟨span, ""⟩

/-- Whether two edits replace a common byte. -/
def overlaps (a b : Edit) : Bool :=
  a.span.start < b.span.stop && b.span.start < a.span.stop

/-! ## Checking -/

/-- What is wrong with one edit by itself. -/
def fault? (source : List Char) (index : Nat) (e : Edit) : Option RewriteError :=
  if e.span.stop > Text.byteLength source then
    some (.outOfBounds index e.span.stop (Text.byteLength source))
  else if !(Text.isBoundary source e.span.start && Text.isBoundary source e.span.stop) then
    some (.notCharBoundary index)
  else none

/-- The first fault of a single edit; the first of the edits has the given index. -/
def firstFault (source : List Char) (index : Nat) : List Edit → Option RewriteError
  | [] => none
  | e :: es => (e.fault? source index).or (firstFault source (index + 1) es)

/-- The first of the edits that overlaps with the edit. -/
def overlapWith (e : Edit) (index : Nat) : List Edit → Option Nat
  | [] => none
  | f :: es => if e.overlaps f then some index else overlapWith e (index + 1) es

/-- The first two edits that overlap, by the first edit and then by the second. -/
def firstOverlap (index : Nat) : List Edit → Option RewriteError
  | [] => none
  | e :: es =>
    match e.overlapWith (index + 1) es with
    | some other => some (.overlapping index other)
    | none => firstOverlap (index + 1) es

/-- Check that edits can be applied to a text: each lies in the text and cuts no character, and no
    two replace a common byte. -/
def validate (source : List Char) (edits : List Edit) : Except RewriteError Unit :=
  match (firstFault source 0 edits).or (firstOverlap 0 edits) with
  | some e => .error e
  | none => .ok ()

/-! ## Applying -/

/-- Replace one range of a text. -/
def replace? (text : List Char) (e : Edit) : Option (List Char) :=
  if e.span.start ≤ e.span.stop then
    (Text.splitAt? text e.span.start).bind fun front =>
      (Text.splitAt? front.2 (e.span.stop - e.span.start)).map fun back =>
        front.1 ++ e.replacement.toList ++ back.2
  else none

/-- Replace ranges one after the other. -/
def replaceAll? (text : List Char) : List Edit → Option (List Char)
  | [] => some text
  | e :: es => (replace? text e).bind fun text => replaceAll? text es

/-- The edits in the order in which they are applied: those with a later start first, and those with
    the same start in the order in which they were made. -/
def backToFront (edits : List Edit) : List Edit :=
  edits.mergeSort fun a b => b.span.start ≤ a.span.start

/-- Apply edits to the text that they were made for. -/
def apply (source : List Char) (edits : List Edit) : Except RewriteError (List Char) := do
  validate source edits
  match replaceAll? source (backToFront edits) with
  | some text => return text
  | none => throw .brokenRange

end Edit
end JavaThrows
