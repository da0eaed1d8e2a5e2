import JavaThrows.Text.Span
import JavaThrows.Unicode.CharClass

set_option autoImplicit false

/-!
# Tokens of a Java source

A source is a row of tokens with blanks and comments between them. The longest token that the next
characters can form is taken, with two exceptions that keep the row independent of where a token
stands: a closing angle bracket is always a token by itself (an operator such as a shift is a row of
such tokens without a gap), and a string that holds embedded expressions is cut into the pieces
around them.
-/

namespace JavaThrows.Cst

open JavaThrows.Unicode

/-- What a token is, as far as its characters tell. -/
inductive TokenKind where
  | word
  | number
  | character
  | symbol
  /-- A whole string literal. -/
  | text
  /-- The part of a string literal before its first embedded expression. -/
  | textOpen
  /-- The part between two embedded expressions. -/
  | textMiddle
  /-- The part after the last embedded expression. -/
  | textClose
deriving DecidableEq, Repr, Inhabited

/-- A comment: either up to the end of its line or between its own brackets. -/
structure Comment where
  block : Bool
  span : Span
deriving DecidableEq, Repr, Inhabited

/-- A token, together with the comments between it and the token before it. It is glued to that
    token if nothing at all stands between them. -/
structure Token where
  kind : TokenKind
  text : String
  span : Span
  comments : List Comment
  glued : Bool
deriving DecidableEq, Repr, Inhabited

/-! ## Lengths of tokens -/

/-- The characters of identifiers beside those of the Unicode property. -/
def isWordStart (c : Char) : Bool :=
  c == '_' || c == '$' || isIdentifierStart c

def isWordPart (c : Char) : Bool :=
  c == '$' || c == '¢' || isIdentifierPart c

/-- The length of a run of digits, in which low lines may stand between digits. -/
def digitsLength (isDigit : Char → Bool) : List Char → Nat
  | [] => 0
  | c :: cs =>
    if isDigit c then 1 + digitsLength isDigit cs
    else if c == '_' then
      match digitsLength isDigit cs with
      | 0 => 0
      | n => 1 + n
    else 0

/-- A run of digits that starts with a digit. -/
def runLength (isDigit : Char → Bool) (cs : List Char) : Nat :=
  match cs with
  | c :: _ => if isDigit c then digitsLength isDigit cs else 0
  | [] => 0

def isHexDigit (c : Char) : Bool :=
  isAsciiDigit c || ('a' ≤ c && c ≤ 'f') || ('A' ≤ c && c ≤ 'F')

def isOctalDigit (c : Char) : Bool :=
  '0' ≤ c && c ≤ '7'

/-- One if the first character is one of the given ones. -/
def leading (choices : List Char) : List Char → Nat
  | c :: _ => if choices.contains c then 1 else 0
  | [] => 0

/-- The length of an exponent whose mark is one of the given letters; nothing without digits. -/
def exponentLength (marks : List Char) : List Char → Nat
  | c :: cs =>
    if marks.contains c then
      let sign := leading ['+', '-'] cs
      match runLength isAsciiDigit (cs.drop sign) with
      | 0 => 0
      | n => 1 + sign + n
    else 0
  | [] => 0

/-- A decimal integer: zero, or digits of which the first is not zero. -/
def decimalLength (cs : List Char) : Nat :=
  match cs with
  | '0' :: _ => 1
  | _ => runLength isAsciiDigit cs

/-- The length after an integer part in some base, with its suffix. -/
def withSuffix (suffixes : List Char) (cs : List Char) (n : Nat) : Nat :=
  if n == 0 then 0 else n + leading suffixes (cs.drop n)

/-- An integer literal in a base that has a mark of its own. -/
def markedLength (marks : List Char) (isDigit : Char → Bool) : List Char → Nat
  | '0' :: c :: cs =>
    if marks.contains c then
      match runLength isDigit cs with
      | 0 => 0
      | n => withSuffix ['l', 'L'] ('0' :: c :: cs) (2 + n)
    else 0
  | _ => 0

/-- An octal literal without a mark: a zero and octal digits. -/
def octalLength : List Char → Nat
  | '0' :: cs =>
    match runLength isOctalDigit cs with
    | 0 => 0
    | n => withSuffix ['l', 'L'] ('0' :: cs) (1 + n)
  | _ => 0

/-- A decimal number with a point, an exponent or a suffix. -/
def floatLength (cs : List Char) : Nat :=
  let whole := runLength isAsciiDigit cs
  match cs.drop whole with
  | '.' :: rest =>
    let fraction := runLength isAsciiDigit rest
    if whole + fraction == 0 then 0
    else
      let exponent := exponentLength ['e', 'E'] (rest.drop fraction)
      let n := whole + 1 + fraction + exponent
      n + leading ['f', 'F', 'd', 'D'] (cs.drop n)
  | _ =>
    let digits := decimalLength cs
    if digits == 0 then 0
    else
      let n := digits + exponentLength ['e', 'E'] (cs.drop digits)
      let m := n + leading ['f', 'F', 'd', 'D'] (cs.drop n)
      if m == digits then 0 else m

/-- A hexadecimal number with a point or a binary exponent. -/
def hexFloatLength : List Char → Nat
  | '0' :: x :: cs =>
    if x == 'x' || x == 'X' then
      let whole := runLength isHexDigit cs
      let point := leading ['.'] (cs.drop whole)
      let fraction := if point == 1 then runLength isHexDigit (cs.drop (whole + 1)) else 0
      if whole + fraction == 0 then 0
      else
        let n := whole + point + fraction
        let exponent := exponentLength ['p', 'P'] (cs.drop n)
        let m := n + exponent
        2 + m + (if exponent == 0 then 0 else leading ['f', 'F', 'd', 'D'] (cs.drop m))
    else 0
  | _ => 0

/-- The length of the longest number that the characters start with. -/
def numberLength (cs : List Char) : Nat :=
  [withSuffix ['l', 'L'] cs (decimalLength cs), markedLength ['x', 'X'] isHexDigit cs,
    markedLength ['b', 'B'] (fun c => c == '0' || c == '1') cs,
    markedLength ['o', 'O'] isOctalDigit cs, octalLength cs, floatLength cs,
    hexFloatLength cs].foldl max 0

/-- The length of a character literal after its opening quote. -/
def characterLength : List Char → Option Nat
  | [] => none
  | '\'' :: _ => some 1
  | '\n' :: _ => none
  | '\\' :: _ :: cs => (characterLength cs).map (2 + ·)
  | _ :: cs => (characterLength cs).map (1 + ·)

/-- The length of a bracketed comment after its opening. -/
def commentLength : List Char → Option Nat
  | [] => none
  | '*' :: '/' :: _ => some 2
  | _ :: cs => (commentLength cs).map (1 + ·)

/-- Whether a backslash and these characters are an escape of a one-line string. -/
def isEscape : List Char → Bool
  | 'x' :: a :: b :: _ => isHexDigit a && isHexDigit b
  | 'u' :: '{' :: cs =>
    let digits := cs.takeWhile isHexDigit
    !digits.isEmpty && (cs.drop digits.length).head? == some '}'
  | 'u' :: a :: b :: c :: d :: _ => isHexDigit a && isHexDigit b && isHexDigit c && isHexDigit d
  | c :: _ => c != 'x' && c != 'u'
  | [] => false

/-- How a piece of a string literal ends. -/
inductive TextEnd where
  /-- The literal is over. -/
  | quote
  /-- An embedded expression follows. -/
  | hole
deriving DecidableEq, Repr

/-- The length of the rest of a one-line string, its end included. -/
def lineTextLength : List Char → Option (Nat × TextEnd)
  | [] => none
  | '"' :: _ => some (1, .quote)
  | '\\' :: '{' :: _ => some (2, .hole)
  | '\\' :: c :: cs =>
    if isEscape (c :: cs) then (lineTextLength cs).map fun r => (2 + r.1, r.2) else none
  | _ :: cs => (lineTextLength cs).map fun r => (1 + r.1, r.2)

/-- The length of the rest of a text block, its end included. -/
def blockTextLength : List Char → Option (Nat × TextEnd)
  | [] => none
  | '"' :: '"' :: '"' :: _ => some (3, .quote)
  | '\\' :: '{' :: _ => some (2, .hole)
  | '\\' :: _ :: cs => (blockTextLength cs).map fun r => (2 + r.1, r.2)
  | _ :: cs => (blockTextLength cs).map fun r => (1 + r.1, r.2)

def textLength (block : Bool) (cs : List Char) : Option (Nat × TextEnd) :=
  if block then blockTextLength cs else lineTextLength cs

/-- The symbols of more than one character, longer ones first. -/
def longSymbols : List String :=
  ["...", "<<=", "->", "::", "++", "--", "&&", "||", "==", "!=", "<=", "<<", "+=", "-=", "*=",
    "/=", "&=", "|=", "^=", "%="]

def shortSymbols : List Char :=
  ['(', ')', '\x7b', '\x7d', '[', ']', ';', ',', '.', '@', '=', '<', '>', '!', '~', '?', ':', '+',
    '-', '*', '/', '&', '|', '^', '%']

/-- The length of the symbol that the characters start with. -/
def symbolLength (cs : List Char) : Nat :=
  let declaring := "@interface".toList
  if declaring.isPrefixOf cs && !((cs.drop declaring.length).head?.any isWordPart) then
    declaring.length
  else
    match longSymbols.find? fun s => s.toList.isPrefixOf cs with
    | some s => s.length
    | none => leading shortSymbols cs

/-! ## The row of tokens -/

/-- An embedded expression that is still open: whether it stands in a text block, and how many
    braces are open inside it. -/
structure Hole where
  block : Bool
  braces : Nat
deriving DecidableEq, Repr

/-- A piece of a source: how many characters it has, what it is, and the embedded expressions that
    are open after it. -/
inductive Piece where
  | blank
  | comment (block : Bool) (length : Nat)
  | token (kind : TokenKind) (length : Nat) (holes : List Hole)
deriving DecidableEq, Repr

/-- A piece of a string literal that continues for `length` characters after `opening` ones. -/
def textPiece (inside block : Bool) (opening : Nat) (holes : List Hole) (cs : List Char) :
    Option Piece :=
  (textLength block (cs.drop opening)).map fun r =>
    let length := opening + r.1
    match r.2 with
    | .quote => .token (if inside then .textClose else .text) length holes
    | .hole => .token (if inside then .textMiddle else .textOpen) length (⟨block, 0⟩ :: holes)

/-- The piece that the characters start with; none where they start with no piece at all. -/
def piece (holes : List Hole) : List Char → Option Piece
  | [] => none
  | c :: cs =>
    if isAsciiSpace c then some .blank
    else if c == '/' && cs.head? == some '/' then
      some (.comment false (1 + (cs.takeWhile (· != '\n')).length))
    else if c == '/' && cs.head? == some '*' then
      (commentLength (cs.drop 1)).map fun n => .comment true (2 + n)
    else if isWordStart c then
      some (.token .word (1 + (cs.takeWhile isWordPart).length) holes)
    else if c == '"' then
      if ['"', '"'].isPrefixOf cs then textPiece false true 3 holes (c :: cs)
      else textPiece false false 1 holes (c :: cs)
    else if c == '\'' then
      match characterLength cs with
      | some n => if n == 1 then none else some (.token .character (1 + n) holes)
      | none => none
    else
      match numberLength (c :: cs) with
      | n + 1 => some (.token .number (n + 1) holes)
      | 0 =>
        match symbolLength (c :: cs) with
        | 0 => none
        | n =>
          match c, holes with
          | '\x7b', h :: hs => some (.token .symbol n (⟨h.block, h.braces + 1⟩ :: hs))
          | '\x7d', ⟨block, 0⟩ :: hs => textPiece true block 1 hs (c :: cs)
          | '\x7d', ⟨block, k + 1⟩ :: hs => some (.token .symbol n (⟨block, k⟩ :: hs))
          | _, _ => some (.token .symbol n holes)

/-- The tokens of a source and the comments after the last one. -/
structure Scan where
  tokens : List Token
  trailing : List Comment
deriving Repr

/-- Tokens of `cs`, which starts at byte `offset`; `last` is the end of the token before, and
    `comments` stand between that token and `cs`. Each step takes at least one character, so a fuel
    of the text's length is enough. -/
def scanFrom : Nat → Nat → Nat → List Comment → List Hole → List Char → Except Nat Scan
  | _, offset, _, comments, holes, [] =>
    if holes.isEmpty then .ok ⟨[], comments⟩ else .error offset
  | 0, offset, _, _, _, _ :: _ => .error offset
  | fuel + 1, offset, last, comments, holes, c :: cs =>
    match piece holes (c :: cs) with
    | none => .error offset
    | some .blank => scanFrom fuel (offset + c.utf8Size) last comments holes cs
    | some (.comment block length) =>
      let stop := offset + Text.byteLength ((c :: cs).take length)
      scanFrom fuel stop last (comments ++ [⟨block, ⟨offset, stop⟩⟩]) holes
        ((c :: cs).drop length)
    | some (.token kind length holes') =>
      let text := (c :: cs).take length
      let stop := offset + Text.byteLength text
      (scanFrom fuel stop stop [] holes' ((c :: cs).drop length)).map fun rest =>
        let token : Token := {
          kind, text := String.ofList text, span := ⟨offset, stop⟩, comments,
          glued := offset == last }
        { rest with tokens := token :: rest.tokens }

/-- The tokens of a source, if all of it is made of tokens, blanks and comments; if not, the offset
    of what is none of them. A byte order mark in front is passed over. -/
def scan (source : List Char) : Except Nat Scan :=
  match source with
  | '\ufeff' :: rest => scanFrom rest.length 3 3 [] [] rest
  | _ => scanFrom source.length 0 0 [] [] source

end JavaThrows.Cst
