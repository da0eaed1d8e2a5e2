set_option autoImplicit false

/-!
# Cutting text apart

Splitting at a separator, and the array dimensions that a type's text may end with. All of it works
on lists of characters; the versions on strings only convert.
-/

namespace JavaThrows.Text

/-- The pieces between the separators: one more than there are separators. -/
def splitOn (sep : Char) : List Char → List (List Char)
  | [] => [[]]
  | c :: cs =>
    if c = sep then [] :: splitOn sep cs
    else
      match splitOn sep cs with
      | [] => [[c]]
      | piece :: pieces => (c :: piece) :: pieces

theorem splitOn_ne_nil (sep : Char) (cs : List Char) : splitOn sep cs ≠ [] := by
  cases cs with
  | nil => simp [splitOn]
  | cons c cs =>
    rw [splitOn]
    split
    · simp
    · split <;> simp

/-- The pieces joined by the separator are the text. -/
theorem intercalate_splitOn (sep : Char) (cs : List Char) :
    List.intercalate [sep] (splitOn sep cs) = cs := by
  induction cs with
  | nil => simp [splitOn, List.intercalate]
  | cons c cs ih =>
    rw [splitOn]
    split
    · next h =>
      subst h
      cases hs : splitOn c cs with
      | nil => exact absurd hs (splitOn_ne_nil c cs)
      | cons p ps =>
        rw [hs] at ih
        simpa [List.intercalate, List.intersperse] using ih
    · cases hs : splitOn sep cs with
      | nil => exact absurd hs (splitOn_ne_nil sep cs)
      | cons p ps =>
        rw [hs] at ih
        cases ps with
        | nil => simpa [List.intercalate, List.intersperse] using ih
        | cons q qs => simpa [List.intercalate, List.intersperse] using ih

/-- The text before the first separator and the text after it. -/
def cutFirst (sep : Char) : List Char → Option (List Char × List Char)
  | [] => none
  | c :: cs =>
    if c = sep then some ([], cs)
    else (cutFirst sep cs).map fun parts => (c :: parts.1, parts.2)

/-- The text before the last separator and the text after it. -/
def cutLast (sep : Char) (cs : List Char) : Option (List Char × List Char) :=
  (cutFirst sep cs.reverse).map fun parts => (parts.2.reverse, parts.1.reverse)

/-- Whether the text holds the given piece. -/
def contains (piece : List Char) : List Char → Bool
  | [] => piece.isEmpty
  | c :: cs => piece.isPrefixOf (c :: cs) || contains piece cs

/-- The rest of the text after a piece that it starts with. -/
def afterStart? : List Char → List Char → Option (List Char)
  | [], cs => some cs
  | _ :: _, [] => none
  | p :: ps, c :: cs => if p = c then afterStart? ps cs else none

/-- The rest of the text before a piece that it ends with. -/
def beforeEnd? (piece cs : List Char) : Option (List Char) :=
  (afterStart? piece.reverse cs.reverse).map List.reverse

/-! ## Names with points -/

/-- The segments of a name, which are separated by points. -/
def segments (name : String) : List String :=
  (splitOn '.' name.toList).map String.ofList

/-- The last segment of a name. -/
def lastSegment (name : String) : String :=
  ((splitOn '.' name.toList).getLast?.map String.ofList).getD name

/-- The first segment of a name. -/
def firstSegment (name : String) : String :=
  ((splitOn '.' name.toList).head?.map String.ofList).getD name

/-- Whether a name has no qualifier. -/
def isSimple (name : String) : Bool :=
  !name.toList.contains '.'

/-! ## Array dimensions -/

/-- The given number of pairs of brackets. -/
def brackets : Nat → List Char
  | 0 => []
  | n + 1 => '[' :: ']' :: brackets n

/-- Drop pairs of brackets from the front of a reversed text, and count them. -/
def dropBrackets : List Char → List Char × Nat
  | ']' :: '[' :: cs => let r := dropBrackets cs; (r.1, r.2 + 1)
  | cs => (cs, 0)

/-- A type without the pairs of brackets that it ends with, and their number. -/
def elementType (type : String) : String × Nat :=
  let r := dropBrackets type.toList.reverse
  (String.ofList r.1.reverse, r.2)

/-- A type cut before its first opening bracket. -/
def cutDimensions (type : String) : String × String :=
  (String.ofList (type.toList.takeWhile (· != '[')),
    String.ofList (type.toList.dropWhile (· != '[')))

end JavaThrows.Text
