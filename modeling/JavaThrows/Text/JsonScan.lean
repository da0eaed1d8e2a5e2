import JavaThrows.Text.Hex
import JavaThrows.Text.Span
import JavaThrows.Text.Split

set_option autoImplicit false

/-!
# Reading JSON from the front

Readers for a JSON text whose shape is known: each takes the characters that are left and returns
what it has read with the characters after it. The first fault met from the front counts, so a value
of a wrong kind comes before a missing brace at the end.
-/

namespace JavaThrows

/-- What is wrong with a JSON text. -/
inductive JsonFault where
  /-- The text is JSON so far, but does not say what it should. -/
  | wrongData
  /-- The text ends too early. -/
  | cutOff
  | malformed
deriving DecidableEq, Repr

namespace JsonScan

/-- What has been read, and the characters after it. -/
abbrev Scanned (α : Type) := α × List Char

def skipSpace (cs : List Char) : List Char :=
  cs.dropWhile fun c => c == ' ' || c == '\n' || c == '\t' || c == '\r'

/-- The rest of a word. -/
def word : List Char → List Char → Except JsonFault (List Char)
  | [], cs => .ok cs
  | _ :: _, [] => .error .cutOff
  | w :: ws, c :: cs => if w = c then word ws cs else .error .malformed

/-- A symbol after space. -/
def symbol (c : Char) (cs : List Char) : Except JsonFault (List Char) :=
  word [c] (skipSpace cs)

/-! ## Texts -/

/-- Four hexadecimal digits. -/
def hexUnit (cs : List Char) : Except JsonFault (Scanned Nat) :=
  if Text.byteLength cs < 4 then .error .cutOff
  else
    match Text.hexNumber? (cs.take 4) with
    | some n => .ok (n, cs.drop 4)
    | none => .error .malformed

def isHighHalf (n : Nat) : Bool := 0xd800 ≤ n && n ≤ 0xdbff

def isLowHalf (n : Nat) : Bool := 0xdc00 ≤ n && n ≤ 0xdfff

/-- The character after a backslash and the letter `u`; two halves of a character are put
    together. -/
def unicodeEscape (cs : List Char) : Except JsonFault (Scanned Char) := do
  let (unit, cs) ← hexUnit cs
  if isLowHalf unit then throw .malformed
  if !isHighHalf unit then return (Char.ofNat unit, cs)
  let cs ← word ['\\', 'u'] cs
  let (low, cs) ← hexUnit cs
  if !isLowHalf low then throw .malformed
  return (Char.ofNat (0x10000 + (unit - 0xd800) * 0x400 + (low - 0xdc00)), cs)

/-- What follows a backslash. In a text that is passed over, halves of characters may stand
    alone. -/
def escape (isStrict : Bool) : List Char → Except JsonFault (Scanned Char)
  | [] => .error .cutOff
  | 'u' :: cs =>
    if isStrict then unicodeEscape cs else (hexUnit cs).map fun r => (Char.ofNat r.1, r.2)
  | '"' :: cs => .ok ('"', cs)
  | '\\' :: cs => .ok ('\\', cs)
  | '/' :: cs => .ok ('/', cs)
  | 'b' :: cs => .ok ('\x08', cs)
  | 'f' :: cs => .ok ('\x0c', cs)
  | 'n' :: cs => .ok ('\n', cs)
  | 'r' :: cs => .ok ('\r', cs)
  | 't' :: cs => .ok ('\t', cs)
  | _ :: _ => .error .malformed

/-- The inside of a text up to the closing quote; the fuel bounds the number of characters. -/
def insideText (isStrict : Bool) : Nat → List Char → Except JsonFault (Scanned (List Char))
  | 0, _ => .error .cutOff
  | _ + 1, [] => .error .cutOff
  | fuel + 1, c :: cs =>
    if c = '"' then .ok ([], cs)
    else if c = '\\' then do
      let (d, cs) ← escape isStrict cs
      let (rest, cs) ← insideText isStrict fuel cs
      return (d :: rest, cs)
    else if c.toNat < 32 then .error .malformed
    else do
      let (rest, cs) ← insideText isStrict fuel cs
      return (c :: rest, cs)

/-- A text after its opening quote. -/
def textBody (isStrict : Bool) (cs : List Char) : Except JsonFault (Scanned String) :=
  (insideText isStrict (cs.length + 1) cs).map fun r => (String.ofList r.1, r.2)

/-! ## Numbers -/

/-- The spelling of a number without its sign. -/
structure Spelling where
  whole : List Char
  fraction : List Char
  isSmall : Bool
  exponent : List Char

/-- At least one digit; `atEnd` is the fault where the text ends instead. -/
def someDigits (atEnd : JsonFault) (cs : List Char) : Except JsonFault (Scanned (List Char)) :=
  match cs.takeWhile Char.isDigit, cs with
  | [], [] => .error atEnd
  | [], _ => .error .malformed
  | ds, cs => .ok (ds, cs.drop ds.length)

/-- A number; `atEnd` is the fault where the text ends inside of it. -/
def number (atEnd : JsonFault) (cs : List Char) : Except JsonFault (Scanned Spelling) := do
  let cs := if cs.head? = some '-' then cs.tail else cs
  let (whole, cs) ← someDigits atEnd cs
  if whole.head? = some '0' && 1 < whole.length then throw .malformed
  let (fraction, cs) ← match cs with
    | '.' :: cs => someDigits atEnd cs
    | cs => pure ([], cs)
  let isExponent := cs.head? = some 'e' || cs.head? = some 'E'
  if !isExponent then return (⟨whole, fraction, false, []⟩, cs)
  let (isSmall, cs) := match cs.tail with
    | '-' :: cs => (true, cs)
    | '+' :: cs => (false, cs)
    | cs => (false, cs)
  let (exponent, cs) ← someDigits atEnd cs
  return (⟨whole, fraction, isSmall, exponent⟩, cs)

def valueOf (ds : List Char) : Nat :=
  ds.foldl (fun n c => 10 * n + (c.toNat - '0'.toNat)) 0

/-- Whether a number is too large for a binary floating point number of 64 bits: it is at least
    halfway from the largest one to what would be the next one. -/
def Spelling.isHuge (n : Spelling) : Bool :=
  let digits := (n.whole ++ n.fraction).dropWhile (· == '0')
  let scale := (if n.isSmall then -Int.ofNat (valueOf n.exponent)
    else Int.ofNat (valueOf n.exponent)) - Int.ofNat n.fraction.length
  let magnitude := Int.ofNat digits.length + scale
  if digits.isEmpty || magnitude < 309 then false
  else if 309 < magnitude then true
  else
    let bound := Nat.pow 2 1024 - Nat.pow 2 970
    if 0 ≤ scale then bound ≤ valueOf digits * Nat.pow 10 scale.toNat
    else bound * Nat.pow 10 (-scale).toNat ≤ valueOf digits

/-! ## Values of a wrong kind -/

/-- The fault where a value of another kind was wanted. -/
def mismatch (cs : List Char) : JsonFault :=
  let after {α : Type} (r : Except JsonFault α) : JsonFault :=
    match r with
    | .error fault => fault
    | .ok _ => .wrongData
  match cs with
  | [] => .cutOff
  | 'n' :: cs => after (word "ull".toList cs)
  | 't' :: cs => after (word "rue".toList cs)
  | 'f' :: cs => after (word "alse".toList cs)
  | '"' :: cs => after (textBody true cs)
  | '[' :: _ => .wrongData
  | '\x7b' :: _ => .wrongData
  | c :: _ =>
    if c = '-' || c.isDigit then
      match number .cutOff cs with
      | .error fault => fault
      | .ok (n, _) => if n.isHuge then .malformed else .wrongData
    else .malformed

/-- A text after space. -/
def text (cs : List Char) : Except JsonFault (Scanned String) :=
  match skipSpace cs with
  | '"' :: cs => textBody true cs
  | cs => .error (mismatch cs)

/-- A truth value after space, or nothing, written as null. -/
def boolean? (cs : List Char) : Except JsonFault (Scanned (Option Bool)) :=
  match skipSpace cs with
  | 'n' :: cs => (word "ull".toList cs).map (none, ·)
  | 't' :: cs => (word "rue".toList cs).map (some true, ·)
  | 'f' :: cs => (word "alse".toList cs).map (some false, ·)
  | cs => .error (mismatch cs)

/-! ## Passing over values -/

mutual
/-- Pass over a value; the fuel bounds the number of steps. -/
def skipValue : Nat → List Char → Except JsonFault (List Char)
  | 0, _ => .error .cutOff
  | fuel + 1, cs =>
    match skipSpace cs with
    | [] => .error .cutOff
    | 'n' :: cs => word "ull".toList cs
    | 't' :: cs => word "rue".toList cs
    | 'f' :: cs => word "alse".toList cs
    | '"' :: cs => (textBody false cs).map Prod.snd
    | '[' :: cs => skipItems fuel true cs
    | '\x7b' :: cs => skipMembers fuel true cs
    | c :: cs =>
      if c = '-' || c.isDigit then (number .malformed (c :: cs)).map Prod.snd
      else .error .malformed

def skipItems : Nat → Bool → List Char → Except JsonFault (List Char)
  | 0, _, _ => .error .cutOff
  | fuel + 1, isFirst, cs =>
    match skipSpace cs with
    | [] => .error .cutOff
    | ']' :: cs => .ok cs
    | cs => do
      let cs ← if isFirst then pure cs else word [','] cs
      let cs ← skipValue fuel cs
      skipItems fuel false cs

def skipMembers : Nat → Bool → List Char → Except JsonFault (List Char)
  | 0, _, _ => .error .cutOff
  | fuel + 1, isFirst, cs =>
    match skipSpace cs with
    | [] => .error .cutOff
    | '\x7d' :: cs => .ok cs
    | cs => do
      let cs ← if isFirst then pure cs else word [','] cs
      let cs ← symbol '"' cs
      let (_, cs) ← textBody false cs
      let cs ← symbol ':' cs
      let cs ← skipValue fuel cs
      skipMembers fuel false cs
end

/-- Pass over a value of any kind. -/
def skip (cs : List Char) : Except JsonFault (List Char) :=
  skipValue (2 * cs.length + 2) cs

end JsonScan
end JavaThrows
