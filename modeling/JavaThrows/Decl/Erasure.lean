import JavaThrows.Unicode.CharClass

set_option autoImplicit false

/-!
# Erasure of a type's text

The erased text of a type is its text without annotations, type arguments and blanks. It is read
off the characters one by one, by a machine that knows how deep it is in type arguments or which
part of an annotation it is in.
-/

namespace JavaThrows.Erasure

open JavaThrows.Unicode

/-- Where in a type's text a character stands. -/
inductive Mode where
  /-- Inside that many type arguments. -/
  | text (depth : Nat)
  /-- In the name of an annotation. -/
  | name
  /-- In the blanks after the name of an annotation. -/
  | gap
  /-- In the arguments of an annotation, with that many open parentheses. -/
  | args (depth : Nat)
deriving DecidableEq, Repr

/-- The characters of an annotation's name. -/
def isNamePart (c : Char) : Bool :=
  isAlphanumeric c || c == '_' || c == '$' || c == '.'

/-- A character outside of annotations: where the next one stands, and what is kept. -/
def textStep (depth : Nat) (c : Char) : Mode × List Char :=
  if c = '<' then (.text (depth + 1), [])
  else if c = '>' then (.text (depth - 1), [])
  else if c = '@' ∧ depth = 0 then (.name, [])
  else if depth > 0 ∨ isSpace c then (.text depth, [])
  else (.text depth, [c])

/-- Where the character after this one stands, and what is kept of this one. -/
def step : Mode → Char → Mode × List Char
  | .text depth, c => textStep depth c
  | .name, c =>
    if isNamePart c then (.name, [])
    else if isSpace c then (.gap, [])
    else if c = '(' then (.args 1, [])
    else textStep 0 c
  | .gap, c =>
    if isSpace c then (.gap, [])
    else if c = '(' then (.args 1, [])
    else textStep 0 c
  | .args depth, c =>
    if c = '(' then (.args (depth + 1), [])
    else if c = ')' then (if depth ≤ 1 then (.text 0, []) else (.args (depth - 1), []))
    else (.args depth, [])

/-- What is kept of the characters from some place on. -/
def eraseFrom : Mode → List Char → List Char
  | _, [] => []
  | mode, c :: cs => (step mode c).2 ++ eraseFrom (step mode c).1 cs

/-- A variable number of arguments is an array. -/
def dotsToBrackets : List Char → List Char
  | '.' :: '.' :: '.' :: cs => '[' :: ']' :: dotsToBrackets cs
  | c :: cs => c :: dotsToBrackets cs
  | [] => []

/-- The erased text of a type. -/
def erase (text : String) : String :=
  String.ofList (dotsToBrackets (eraseFrom (.text 0) text.toList))

end JavaThrows.Erasure
