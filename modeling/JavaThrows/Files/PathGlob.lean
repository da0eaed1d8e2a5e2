import JavaThrows.Pattern.Row
import JavaThrows.Text.Bytes

set_option autoImplicit false

/-!
# Globs over paths

A glob over paths matches relative paths byte by byte. A star stands for any run of bytes inside
one piece of the path, a question mark for a single byte, brackets for one byte of a set, braces for
one of several globs, and two stars in a piece of their own for any number of pieces.
-/

namespace JavaThrows

/-- A part of a glob over paths. -/
inductive PathGlobPart where
  | byte (b : UInt8)
  /-- Any byte but a slash. -/
  | anyByte
  /-- Any run of bytes without a slash. -/
  | anyRun
  /-- Any directories before the rest. -/
  | anyFront
  /-- Any directories between two pieces. -/
  | anyBetween
  /-- Anything below what stands before. -/
  | anyBelow
  | anything
  /-- A byte in one of the closed ranges, or in none of them. -/
  | among (negated : Bool) (ranges : List (UInt8 × UInt8))
  | choice (options : List (List PathGlobPart))
deriving Repr

abbrev PathGlob := List PathGlobPart

namespace PathGlob

def slash : UInt8 := '/'.toUInt8

/-! ## Matching

What follows a part of a glob is given as a test on the rest of the path. -/

/-- Whether the test holds after some run of bytes without a slash. -/
def afterRun (rest : List UInt8 → Bool) : List UInt8 → Bool
  | [] => rest []
  | b :: bs => rest (b :: bs) || (b != slash && afterRun rest bs)

/-- Whether the test holds right behind some slash. -/
def afterSlash (rest : List UInt8 → Bool) : List UInt8 → Bool
  | [] => false
  | b :: bs => (b == slash && rest bs) || afterSlash rest bs

/-- Whether the text starts with a byte that passes the first test and goes on with what passes the
    second one. -/
def afterByte (isByte : UInt8 → Bool) (rest : List UInt8 → Bool) : List UInt8 → Bool
  | [] => false
  | b :: bs => isByte b && rest bs

mutual
def partMatches (rest : List UInt8 → Bool) : PathGlobPart → List UInt8 → Bool
  | .byte b, text => afterByte (· == b) rest text
  | .anyByte, text => afterByte (· != slash) rest text
  | .anyRun, text => afterRun rest text
  | .anyFront, text => rest text || afterSlash rest text
  | .anyBetween, text =>
    afterByte (· == slash) (fun text => rest text || afterSlash rest text) text
  | .anyBelow, text => afterByte (· == slash) (anySuffix rest) text
  | .anything, text => anySuffix rest text
  | .among negated ranges, text =>
    afterByte (fun b => (ranges.any fun r => r.1 ≤ b && b ≤ r.2) != negated) rest text
  | .choice options, text => someMatches rest options text

def rowMatches (rest : List UInt8 → Bool) : List PathGlobPart → List UInt8 → Bool
  | [], text => rest text
  | p :: ps, text => partMatches (rowMatches rest ps) p text

def someMatches (rest : List UInt8 → Bool) : List (List PathGlobPart) → List UInt8 → Bool
  | [], _ => false
  | row :: rows, text => rowMatches rest row text || someMatches rest rows text
end

/-- Whether the glob matches all of a relative path. -/
def isMatch (g : PathGlob) (path : String) : Bool :=
  rowMatches List.isEmpty g (Text.bytes path.toList)

/-! ## Reading -/

def literal (c : Char) : PathGlob :=
  (Text.bytes [c]).map .byte

/-- The byte ranges for a range of characters: what is written between brackets counts byte by
    byte. -/
def byteRanges (first last : Char) : List (UInt8 × UInt8) :=
  if first = last then (Text.bytes [first]).map fun b => (b, b)
  else
    let a := Text.bytes [first]
    let b := Text.bytes [last]
    a.dropLast.map (fun x => (x, x)) ++ [(a.getLastD 0, b.headD 0)] ++ b.tail.map fun x => (x, x)

/-- Read the inside of brackets up to the closing one: the ranges of characters, the last one first,
    and what follows; none where nothing closes the brackets or a range is inverted. `isOpen` is set
    between a range's hyphen and its end. -/
def rangesOf (isFirst isOpen : Bool) (ranges : List (Char × Char)) :
    List Char → Option (List (Char × Char) × List Char)
  | [] => none
  | c :: cs =>
    if c = ']' && !isFirst then
      some (if isOpen then ('-', '-') :: ranges else ranges, cs)
    else if c = '-' && !isFirst && !isOpen then rangesOf false true ranges cs
    else
      match isOpen, ranges with
      | true, (start, _) :: others =>
        if c < start then none else rangesOf false false ((start, c) :: others) cs
      | _, _ => rangesOf false false ((c, c) :: ranges) cs

/-- A set in brackets, after the opening one. -/
def setOf (cs : List Char) : Option (PathGlobPart × List Char) :=
  let (negated, inside) := match cs with
    | '!' :: rest => (true, rest)
    | '^' :: rest => (true, rest)
    | _ => (false, cs)
  (rangesOf true false [] inside).map fun r =>
    (.among negated (r.1.reverse.flatMap fun range => byteRanges range.1 range.2), r.2)

/-- The parts in reverse for two stars, given the parts before them in reverse, the character
    before them and the text after them; and what is left of that text. -/
def doubleStar (parts : List PathGlobPart) (before : Option Char) (inBraces : Bool)
    (after : List Char) : List PathGlobPart × List Char :=
  let plain := (.anyRun :: .anyRun :: parts, after)
  match parts with
  | [] =>
    match after with
    | [] => ([.anyFront], [])
    | '/' :: rest => ([.anyFront], rest)
    | _ => plain
  | last :: others =>
    if before ≠ some '/' then plain
    else
      let widen (ends : Bool) : List PathGlobPart :=
        match last with
        | .anyFront => .anyFront :: others
        | .anyBelow => .anyBelow :: others
        | _ => if ends then .anyBelow :: others else .anyBetween :: others
      match after with
      | [] => (widen true, [])
      | '/' :: rest => (widen false, rest)
      | c :: _ => if inBraces && (c = ',' || c = '}') then (widen true, after) else plain

/-- Braces that are open: the parts before them, and the options that are complete, both in
    reverse. -/
structure OpenBraces where
  before : List PathGlobPart
  options : List (List PathGlobPart)

/-- Read a glob, given the parts read so far in reverse; the fuel bounds the number of steps. -/
def read (before : Option Char) (braces : List OpenBraces) (parts : List PathGlobPart) :
    Nat → List Char → Option PathGlob
  | 0, _ => none
  | _ + 1, [] => if braces.isEmpty then some parts.reverse else none
  | fuel + 1, c :: cs =>
    let go (parts : List PathGlobPart) := read (some c) braces parts fuel cs
    match c with
    | '?' => go (.anyByte :: parts)
    | '*' =>
      match cs with
      | '*' :: after =>
        let r := doubleStar parts before (!braces.isEmpty) after
        let last := if r.2.length < after.length then '/' else '*'
        read (some last) braces r.1 fuel r.2
      | _ => go (.anyRun :: parts)
    | '[' =>
      match setOf cs with
      | some (set, rest) => read (some ']') braces (set :: parts) fuel rest
      | none => go ((literal c).reverse ++ parts)
    | '\x7b' => read (some c) (⟨parts, []⟩ :: braces) [] fuel cs
    | '\x7d' =>
      match braces with
      | [] => none
      | b :: outer =>
        read (some c) outer (.choice ((parts.reverse :: b.options).reverse) :: b.before) fuel cs
    | ',' =>
      match braces with
      | [] => go ((literal c).reverse ++ parts)
      | b :: outer =>
        read (some c) (⟨b.before, parts.reverse :: b.options⟩ :: outer) [] fuel cs
    | '\\' =>
      match cs with
      | [] => none
      | d :: rest => read (some d) braces ((literal d).reverse ++ parts) fuel rest
    | c => go ((literal c).reverse ++ parts)

/-- Read a glob; none for one that is not well formed. -/
def ofList? (cs : List Char) : Option PathGlob :=
  (read none [] [] (cs.length + 1) cs).map fun g =>
    match g with
    | [.anyFront] => [.anything]
    | g => g

end PathGlob
end JavaThrows
