import JavaThrows.Unicode.Letter
import JavaThrows.Unicode.Number
import JavaThrows.Unicode.Mark

set_option autoImplicit false

/-!
# Character classes

The classes of characters that the program tells apart: white space, letters, numbers, and the
characters of identifiers. ASCII is decided by comparison, the rest by the tables of ranges.
-/

namespace JavaThrows.Unicode

/-- Whether a code point lies in one of the closed ranges. -/
def inRanges (ranges : List (Nat × Nat)) (code : Nat) : Bool :=
  ranges.any fun r => r.1 ≤ code && code ≤ r.2

/-- White space in the sense of the Unicode property. -/
def isSpace (c : Char) : Bool :=
  let n := c.toNat
  (0x09 ≤ n && n ≤ 0x0d) || n == 0x20 || n == 0x85 || n == 0xa0 || n == 0x1680 ||
    (0x2000 ≤ n && n ≤ 0x200a) || n == 0x2028 || n == 0x2029 || n == 0x202f || n == 0x205f ||
    n == 0x3000

/-- White space among the ASCII characters, vertical tab and form feed included. -/
def isAsciiSpace (c : Char) : Bool :=
  c == ' ' || (0x09 ≤ c.toNat && c.toNat ≤ 0x0d)

def isAsciiLetter (c : Char) : Bool :=
  ('a' ≤ c && c ≤ 'z') || ('A' ≤ c && c ≤ 'Z')

def isAsciiDigit (c : Char) : Bool :=
  '0' ≤ c && c ≤ '9'

/-- Letters of any script. -/
def isLetter (c : Char) : Bool :=
  if c.toNat < 0x80 then isAsciiLetter c else inRanges letterRanges c.toNat

/-- Numbers of any script: digits, letter-like numbers and the remaining ones. -/
def isNumber (c : Char) : Bool :=
  if c.toNat < 0x80 then isAsciiDigit c
  else inRanges decimalRanges c.toNat || inRanges letterNumberRanges c.toNat ||
    inRanges otherNumberRanges c.toNat

/-- Alphabetic characters and numbers. -/
def isAlphanumeric (c : Char) : Bool :=
  isLetter c || isNumber c || inRanges otherAlphabeticRanges c.toNat

/-- Letters that an identifier may not start with although they are letters, since their
    compatibility decomposition starts with a mark or a blank. -/
def notStart (code : Nat) : Bool :=
  code == 0x37a || code == 0xe33 || code == 0xeb3 || code == 0x2e2f ||
    (0xfc5e ≤ code && code ≤ 0xfc63) || code == 0xfdfa || code == 0xfdfb ||
    (0xfe70 ≤ code && code ≤ 0xfe7e && code % 2 == 0) || code == 0xff9e || code == 0xff9f

/-- Characters that may start an identifier by the Unicode property `XID_Start`. -/
def isIdentifierStart (c : Char) : Bool :=
  isLetter c && !notStart c.toNat ||
    (let n := c.toNat
     inRanges letterNumberRanges n || n == 0x1885 || n == 0x1886 || n == 0x2118 || n == 0x212e)

/-- Letters that no identifier may hold, not even after its first character. -/
def notContinue (code : Nat) : Bool :=
  notStart code && code != 0xe33 && code != 0xeb3 && code != 0xff9e && code != 0xff9f

/-- Punctuation that joins the words of an identifier, beside the low line of ASCII. -/
def isConnector (code : Nat) : Bool :=
  code == 0x5f || code == 0x203f || code == 0x2040 || code == 0x2054 || code == 0xfe33 ||
    code == 0xfe34 || (0xfe4d ≤ code && code ≤ 0xfe4f) || code == 0xff3f

/-- Characters that may stand inside an identifier by the Unicode property `XID_Continue`. -/
def isIdentifierPart (c : Char) : Bool :=
  let n := c.toNat
  isIdentifierStart c || isAsciiDigit c || isConnector n ||
    (n ≥ 0x80 && !notContinue n &&
      (isLetter c || inRanges decimalRanges n || inRanges markRanges n || n == 0xb7 ||
        n == 0x387 || (0x1369 ≤ n && n ≤ 0x1371) || n == 0x19da))

/-! ## Trimming -/

/-- The characters from the first one on that is no white space. -/
def trimStart (cs : List Char) : List Char :=
  cs.dropWhile isSpace

/-- The characters up to the last one that is no white space. -/
def trimEnd (cs : List Char) : List Char :=
  (cs.reverse.dropWhile isSpace).reverse

/-- The characters without the white space at both ends. -/
def trim (cs : List Char) : List Char :=
  trimEnd (trimStart cs)

/-- Whether there is nothing but white space. -/
def isBlank (cs : List Char) : Bool :=
  cs.all isSpace

end JavaThrows.Unicode
