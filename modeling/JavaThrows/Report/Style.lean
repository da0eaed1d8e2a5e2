import JavaThrows.Text.Split

set_option autoImplicit false

/-!
# Styled text

Text in colours and weights for a terminal: the codes of a style stand before the text, and one code
behind it ends them all.
-/

namespace JavaThrows

inductive Color where
  | red
  | green
  | yellow
  | cyan
deriving DecidableEq, Repr

structure Style where
  bold : Bool
  dimmed : Bool
  underlined : Bool
  color : Option Color
deriving DecidableEq, Repr

namespace Style

def plain : Style := ⟨false, false, false, none⟩

def colored (color : Color) : Style := ⟨false, false, false, some color⟩

def strong : Style := ⟨true, false, false, none⟩

def faint : Style := ⟨false, true, false, none⟩

/-- A heading over a part of the output. -/
def heading : Style := ⟨true, false, true, none⟩

def Color.code : Color → String
  | .red => "31"
  | .green => "32"
  | .yellow => "33"
  | .cyan => "36"

def codes (s : Style) : List String :=
  (if s.bold then ["1"] else []) ++ (if s.dimmed then ["2"] else []) ++
    (if s.underlined then ["4"] else []) ++ (s.color.map Color.code).toList

/-- The code that ends all styles. -/
def finish : String := "\x1b[0m"

/-- Put a text after every copy of a piece. -/
def insertAfter (piece extra : List Char) : Nat → List Char → List Char
  | 0, cs => cs
  | _ + 1, [] => []
  | fuel + 1, c :: cs =>
    match Text.afterStart? piece (c :: cs) with
    | some rest => piece ++ extra ++ insertAfter piece extra fuel rest
    | none => c :: insertAfter piece extra fuel cs

/-- A text in a style, where styles are wanted. The style starts again where the text itself ends
    all styles. -/
def paint (isStyled : Bool) (s : Style) (text : String) : String :=
  if isStyled && !s.codes.isEmpty then
    let start := "\x1b[" ++ String.intercalate ";" s.codes ++ "m"
    start ++ String.ofList (insertAfter finish.toList start.toList text.length text.toList) ++
      finish
  else text

end Style
end JavaThrows
