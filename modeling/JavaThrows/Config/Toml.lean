import JavaThrows.Text.Hex
import JavaThrows.Text.Split

set_option autoImplicit false

/-!
# TOML documents

A TOML document is a table of values. A table can be written in several ways, by a header, by keys
with points in them or in braces, and how it came about decides on what may be added to it later:
`TableOrigin` tells these ways apart. What is said twice makes the document malformed, as does
everything else that the format does not allow.
-/

namespace JavaThrows

/-- How a table came about. -/
inductive TableOrigin where
  /-- It has a header of its own. -/
  | header
  /-- It stands in the header of a table inside it. -/
  | implied
  /-- It stands before a point in a key. -/
  | dotted
  /-- It is written in braces and complete. -/
  | braces
deriving DecidableEq, Repr

inductive Toml where
  | text (value : String)
  | boolean (value : Bool)
  | integer (value : Int)
  /-- A number with a fraction or an exponent, by its text. -/
  | decimal (spelling : String)
  /-- A date, a time or both, by its text. -/
  | moment (spelling : String)
  | array (items : List Toml)
  | table (origin : TableOrigin) (entries : List (String × Toml))
  /-- Tables with doubled headers, the last one first. -/
  | tables (items : List (List (String × Toml)))

namespace Toml

abbrev Entries := List (String × Toml)

/-! ## Building tables -/

namespace Entries

def get? (es : Entries) (key : String) : Option Toml :=
  (es.find? fun e => e.1 == key).map Prod.snd

def set (es : Entries) (key : String) (value : Toml) : Entries :=
  match es with
  | [] => [(key, value)]
  | (k, v) :: rest => if k = key then (k, value) :: rest else (k, v) :: set rest key value

/-- Change the value at a path of keys. Tables on the way that are missing are made with origin
    `fresh`, and only those are entered that `mayEnter` allows. -/
def update (fresh : TableOrigin) (mayEnter : TableOrigin → Bool)
    (change : Option Toml → Option Toml) : List String → Entries → Option Entries
  | [], _ => none
  | [key], es => (change (get? es key)).map (set es key)
  | key :: keys, es =>
    match get? es key with
    | none => (update fresh mayEnter change keys []).map fun sub => set es key (.table fresh sub)
    | some (.table origin sub) =>
      if mayEnter origin then
        (update fresh mayEnter change keys sub).map fun sub => set es key (.table origin sub)
      else none
    | some (.tables (last :: others)) =>
      (update fresh mayEnter change keys last).map fun last =>
        set es key (.tables (last :: others))
    | _ => none

/-- Give a value to a key that may have points; nothing may have been there before. -/
def define (keys : List String) (value : Toml) (es : Entries) : Option Entries :=
  update .dotted (fun origin => origin = .implied || origin = .dotted)
    (fun old => if old.isNone then some value else none) keys es

def atHeader (change : Option Toml → Option Toml) (keys : List String) (es : Entries) :
    Option Entries :=
  update .implied (fun origin => origin != .braces) change keys es

/-- Start the table of a header. -/
def openTable : List String → Entries → Option Entries :=
  atHeader fun
    | none => some (.table .header [])
    | some (.table .implied es) => some (.table .header es)
    | _ => none

/-- Start the next table of a doubled header. -/
def openNext : List String → Entries → Option Entries :=
  atHeader fun
    | none => some (.tables [[]])
    | some (.tables items) => some (.tables ([] :: items))
    | _ => none

/-- Give a value to a key in the table whose header was last. -/
def defineUnder (header keys : List String) (value : Toml) (es : Entries) : Option Entries :=
  if header.isEmpty then define keys value es
  else
    atHeader (fun
      | some (.table origin sub) => (define keys value sub).map (.table origin)
      | some (.tables (last :: others)) =>
        (define keys value last).map fun last => .tables (last :: others)
      | _ => none) header es

end Entries

/-! ## Blanks, line ends and remarks -/

def isBlankChar (c : Char) : Bool :=
  c == ' ' || c == '\t'

/-- The characters that texts on one line and remarks may hold as they are. -/
def isPlain (c : Char) : Bool :=
  c == '\t' || (' ' ≤ c && c != '\x7f')

def skipBlanks (cs : List Char) : List Char :=
  cs.dropWhile isBlankChar

/-- Skip blanks, line ends and remarks. -/
def skipLines (inRemark : Bool) : List Char → Option (List Char)
  | [] => some []
  | '\r' :: '\n' :: cs => skipLines false cs
  | c :: cs =>
    if c = '\n' then skipLines false cs
    else if inRemark then if isPlain c then skipLines true cs else none
    else if isBlankChar c then skipLines false cs
    else if c = '#' then skipLines true cs
    else some (c :: cs)

/-- Skip to the next line, where nothing but blanks and a remark may stand in between. -/
def endLine (inRemark : Bool) : List Char → Option (List Char)
  | [] => some []
  | '\r' :: '\n' :: cs => some cs
  | c :: cs =>
    if c = '\n' then some cs
    else if inRemark then if isPlain c then endLine true cs else none
    else if isBlankChar c then endLine false cs
    else if c = '#' then endLine true cs
    else none

/-! ## Texts -/

/-- The character that hexadecimal digits stand for. -/
def charOfHex? (digits : List Char) : Option Char :=
  (Text.hexNumber? digits).bind fun code =>
    if code.isValidChar then some (Char.ofNat code) else none

/-- What follows a backslash, as one character, and the rest. -/
def escaped? : List Char → Option (Char × List Char)
  | 'b' :: cs => some ('\x08', cs)
  | 't' :: cs => some ('\t', cs)
  | 'n' :: cs => some ('\n', cs)
  | 'f' :: cs => some ('\x0c', cs)
  | 'r' :: cs => some ('\r', cs)
  | '"' :: cs => some ('"', cs)
  | '\\' :: cs => some ('\\', cs)
  | 'u' :: cs => if 4 ≤ cs.length then (charOfHex? (cs.take 4)).map (·, cs.drop 4) else none
  | 'U' :: cs => if 8 ≤ cs.length then (charOfHex? (cs.take 8)).map (·, cs.drop 8) else none
  | _ => none

/-- The inside of a text on one line up to the closing quote. -/
def lineText (quote : Char) : Nat → List Char → Option (List Char × List Char)
  | 0, _ => none
  | _ + 1, [] => none
  | fuel + 1, c :: cs =>
    if c = quote then some ([], cs)
    else if c = '\\' && quote = '"' then
      (escaped? cs).bind fun e => (lineText quote fuel e.2).map fun r => (e.1 :: r.1, r.2)
    else if isPlain c then (lineText quote fuel cs).map fun r => (c :: r.1, r.2)
    else none

/-- The inside of a text of several lines up to the three closing quotes; up to two quotes before
    these belong to the text. -/
def linesText (quote : Char) : Nat → List Char → Option (List Char × List Char)
  | 0, _ => none
  | _ + 1, [] => none
  | fuel + 1, c :: cs =>
    let go (rest : List Char) := linesText quote fuel rest
    if [quote, quote, quote].isPrefixOf (c :: cs) then
      let after := cs.drop 2
      let inside := (after.take 2).takeWhile (· == quote)
      some (inside, after.drop inside.length)
    else if c = '\\' && quote = '"' then
      match skipBlanks cs with
      | '\n' :: rest => go (rest.dropWhile fun c => isBlankChar c || c == '\n' || c == '\r')
      | '\r' :: '\n' :: rest => go (rest.dropWhile fun c => isBlankChar c || c == '\n' || c == '\r')
      | _ => (escaped? cs).bind fun e => (go e.2).map fun r => (e.1 :: r.1, r.2)
    else if c = '\r' && cs.head? = some '\n' then (go cs.tail).map fun r => ('\n' :: r.1, r.2)
    else if isPlain c || c = '\n' then (go cs).map fun r => (c :: r.1, r.2)
    else none

/-- A text on one line, if the input starts with a quote. -/
def quoted? : List Char → Option (List Char × List Char)
  | '"' :: cs => lineText '"' (cs.length + 1) cs
  | '\'' :: cs => lineText '\'' (cs.length + 1) cs
  | _ => none

/-- A line end right after the opening quotes is not part of the text. -/
def dropLineEnd : List Char → List Char
  | '\n' :: cs => cs
  | '\r' :: '\n' :: cs => cs
  | cs => cs

/-- A text, if the input starts with a quote. -/
def text? : List Char → Option (List Char × List Char)
  | '"' :: '"' :: '"' :: cs => linesText '"' (cs.length + 1) (dropLineEnd cs)
  | '\'' :: '\'' :: '\'' :: cs => linesText '\'' (cs.length + 1) (dropLineEnd cs)
  | cs => quoted? cs

/-! ## Keys -/

def isKeyChar (c : Char) : Bool :=
  c.isAlphanum || c == '_' || c == '-'

def simpleKey? (cs : List Char) : Option (String × List Char) :=
  match quoted? cs with
  | some (key, rest) => some (String.ofList key, rest)
  | none =>
    match cs.takeWhile isKeyChar with
    | [] => none
    | key => some (String.ofList key, cs.drop key.length)

/-- Keys with points between, and the blanks after them. -/
def keyPath : Nat → List Char → Option (List String × List Char)
  | 0, _ => none
  | fuel + 1, cs =>
    (simpleKey? cs).bind fun first =>
      match skipBlanks first.2 with
      | '.' :: rest =>
        (keyPath fuel (skipBlanks rest)).map fun r => (first.1 :: r.1, r.2)
      | rest => some ([first.1], rest)

/-! ## Numbers, dates and times -/

/-- Digits, with single underscores between digits, as their values. -/
def digits? (isDigit : Char → Bool) : List Char → Option (List Char)
  | [] => none
  | [c] => if isDigit c then some [c] else none
  | c :: '_' :: cs => if isDigit c then (digits? isDigit cs).map (c :: ·) else none
  | c :: cs => if isDigit c then (digits? isDigit cs).map (c :: ·) else none

def valueOf (base : Nat) (digits : List Char) : Nat :=
  digits.foldl (fun n c => base * n + (Text.hexValue? c).getD 0) 0

def unsign : List Char → Bool × List Char
  | '-' :: cs => (true, cs)
  | '+' :: cs => (false, cs)
  | cs => (false, cs)

/-- A number without leading zeros. -/
def natural? (cs : List Char) : Option Nat :=
  match digits? Char.isDigit cs with
  | some ['0'] => some 0
  | some ('0' :: _) => none
  | some ds => some (valueOf 10 ds)
  | none => none

def integer? (cs : List Char) : Option Int :=
  let based (base : Nat) (isDigit : Char → Bool) (cs : List Char) : Option Int :=
    (digits? isDigit cs).map fun ds => Int.ofNat (valueOf base ds)
  match cs with
  | '0' :: 'x' :: cs => based 16 (fun c => (Text.hexValue? c).isSome) cs
  | '0' :: 'o' :: cs => based 8 (fun c => '0' ≤ c && c ≤ '7') cs
  | '0' :: 'b' :: cs => based 2 (fun c => c == '0' || c == '1') cs
  | _ =>
    let (negative, cs) := unsign cs
    (natural? cs).map fun n => if negative then -Int.ofNat n else Int.ofNat n

/-- Whether a text is a number with a fraction, an exponent or both, or one of the two special
    ones. -/
def isDecimal (cs : List Char) : Bool :=
  let (_, cs) := unsign cs
  if cs = "inf".toList || cs = "nan".toList then true
  else
    let mantissa := cs.takeWhile fun c => c != 'e' && c != 'E'
    let scale := cs.drop mantissa.length
    let scaleIsGood := match scale with
      | [] => true
      | _ :: ds => (digits? Char.isDigit (unsign ds).2).isSome
    match Text.cutFirst '.' mantissa with
    | some (whole, fraction) =>
      (natural? whole).isSome && (digits? Char.isDigit fraction).isSome && scaleIsGood
    | none => (natural? mantissa).isSome && !scale.isEmpty && scaleIsGood

/-- A number of exactly so many digits between two bounds, and what follows. -/
def field? (width least most : Nat) (cs : List Char) : Option (Nat × List Char) :=
  let ds := cs.take width
  let n := valueOf 10 ds
  if ds.length = width && ds.all Char.isDigit && least ≤ n && n ≤ most then
    some (n, cs.drop width)
  else none

def expect? (c : Char) : List Char → Option (List Char)
  | d :: cs => if c = d then some cs else none
  | [] => none

def daysIn (year month : Nat) : Nat :=
  if month = 2 then
    if year % 4 = 0 && (year % 100 != 0 || year % 400 = 0) then 29 else 28
  else if month = 4 || month = 6 || month = 9 || month = 11 then 30
  else 31

def date? (cs : List Char) : Option (List Char) := do
  let (year, cs) ← field? 4 0 9999 cs
  let cs ← expect? '-' cs
  let (month, cs) ← field? 2 1 12 cs
  let cs ← expect? '-' cs
  let (_, cs) ← field? 2 1 (daysIn year month) cs
  return cs

def time? (cs : List Char) : Option (List Char) := do
  let (_, cs) ← field? 2 0 23 cs
  let cs ← expect? ':' cs
  let (_, cs) ← field? 2 0 59 cs
  let cs ← expect? ':' cs
  let (_, cs) ← field? 2 0 60 cs
  match cs with
  | '.' :: ds =>
    let fraction := ds.takeWhile Char.isDigit
    if fraction.isEmpty then none else some (ds.drop fraction.length)
  | cs => some cs

def isOffset (cs : List Char) : Bool :=
  match cs with
  | [] => true
  | ['Z'] => true
  | ['z'] => true
  | sign :: cs =>
    (sign == '+' || sign == '-') &&
      ((do
        let (_, cs) ← field? 2 0 23 cs
        let cs ← expect? ':' cs
        let (_, cs) ← field? 2 0 59 cs
        if cs.isEmpty then some () else none : Option Unit)).isSome

/-- Whether a text is a date, a time or both. -/
def isMoment (cs : List Char) : Bool :=
  match date? cs with
  | some [] => true
  | some (c :: rest) =>
    (c == 'T' || c == 't' || c == ' ') && (match time? rest with
      | some offset => isOffset offset
      | none => false)
  | none => time? cs == some []

def isScalarChar (c : Char) : Bool :=
  c.isAlphanum || c == '+' || c == '-' || c == '_' || c == '.' || c == ':'

/-- The text of a value without quotes; one blank can stand between a date and a time. -/
def scalarText (cs : List Char) : List Char :=
  let first := cs.takeWhile isScalarChar
  match date? first, cs.drop first.length with
  | some [], ' ' :: d :: rest =>
    if d.isDigit then first ++ ' ' :: (d :: rest).takeWhile isScalarChar else first
  | _, _ => first

def scalar? (cs : List Char) : Option Toml :=
  if cs = "true".toList then some (.boolean true)
  else if cs = "false".toList then some (.boolean false)
  else
    match integer? cs with
    | some n => some (.integer n)
    | none =>
      if isDecimal cs then some (.decimal (String.ofList cs))
      else if isMoment cs then some (.moment (String.ofList cs))
      else none

/-! ## Values and documents -/

mutual
def value? : Nat → List Char → Option (Toml × List Char)
  | 0, _ => none
  | fuel + 1, cs =>
    match cs with
    | '[' :: rest => (items? fuel rest).map fun r => (.array r.1, r.2)
    | '\x7b' :: rest =>
      match skipBlanks rest with
      | '\x7d' :: rest => some (.table .braces [], rest)
      | rest => (pairs? fuel [] rest).map fun r => (.table .braces r.1, r.2)
    | '"' :: _ => (text? cs).map fun r => (.text (String.ofList r.1), r.2)
    | '\'' :: _ => (text? cs).map fun r => (.text (String.ofList r.1), r.2)
    | _ =>
      let spelling := scalarText cs
      (scalar? spelling).map (·, cs.drop spelling.length)

/-- The items of an array up to the closing bracket. -/
def items? : Nat → List Char → Option (List Toml × List Char)
  | 0, _ => none
  | fuel + 1, cs =>
    match skipLines false cs with
    | some (']' :: rest) => some ([], rest)
    | some cs =>
      (value? fuel cs).bind fun first =>
        match skipLines false first.2 with
        | some (',' :: rest) => (items? fuel rest).map fun r => (first.1 :: r.1, r.2)
        | some (']' :: rest) => some ([first.1], rest)
        | _ => none
    | none => none

/-- The pairs of a table in braces up to the closing brace. -/
def pairs? : Nat → Entries → List Char → Option (Entries × List Char)
  | 0, _, _ => none
  | fuel + 1, es, cs => do
    let (keys, cs) ← keyPath fuel (skipBlanks cs)
    let cs ← expect? '=' cs
    let (value, cs) ← value? fuel (skipBlanks cs)
    let es ← es.define keys value
    match skipBlanks cs with
    | ',' :: rest => pairs? fuel es rest
    | '\x7d' :: rest => some (es, rest)
    | _ => none
end

/-- A header between brackets, and the rest of the input after its line. -/
def header? (cs : List Char) : Option (List String × List Char) := do
  let (keys, cs) ← keyPath (cs.length + 1) (skipBlanks cs)
  let cs ← expect? ']' cs
  return (keys, cs)

/-- Read lines into the table read so far; the last header says where pairs go. -/
def lines? : Nat → List String → Entries → List Char → Option Entries
  | 0, _, _, _ => none
  | fuel + 1, header, es, cs =>
    match skipLines false cs with
    | none => none
    | some [] => some es
    | some ('[' :: '[' :: cs) => do
      let (keys, cs) ← header? cs
      let cs ← expect? ']' cs
      let cs ← endLine false cs
      let es ← es.openNext keys
      lines? fuel keys es cs
    | some ('[' :: cs) => do
      let (keys, cs) ← header? cs
      let cs ← endLine false cs
      let es ← es.openTable keys
      lines? fuel keys es cs
    | some cs => do
      let (keys, cs) ← keyPath fuel cs
      let cs ← expect? '=' cs
      let (value, cs) ← value? fuel (skipBlanks cs)
      let cs ← endLine false cs
      let es ← es.defineUnder header keys value
      lines? fuel header es cs

/-- Read a document; none for a malformed one. -/
def ofText? (text : String) : Option Entries :=
  let cs := (Text.afterStart? ['\ufeff'] text.toList).getD text.toList
  lines? (cs.length + 2) [] [] cs

end Toml
end JavaThrows
