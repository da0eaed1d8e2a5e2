import JavaThrows.Text.Hex

set_option autoImplicit false

/-!
# JSON output

JSON values and their two written forms: all on one line without blanks, and one item a line with
two blanks for each level. Characters above ASCII stand for themselves.
-/

namespace JavaThrows

inductive Json where
  | null
  | boolean (value : Bool)
  | natural (value : Nat)
  | text (value : String)
  | array (items : List Json)
  /-- The members in the order in which they are written. -/
  | object (members : List (String × Json))

namespace Json

/-! ## Texts -/

/-- A character inside a text: quotes, backslashes and control characters are escaped. -/
def escape (c : Char) : List Char :=
  match c with
  | '"' => ['\\', '"']
  | '\\' => ['\\', '\\']
  | '\x08' => ['\\', 'b']
  | '\t' => ['\\', 't']
  | '\n' => ['\\', 'n']
  | '\x0c' => ['\\', 'f']
  | '\r' => ['\\', 'r']
  | c =>
    if c.toNat < 32 then
      ['\\', 'u', '0', '0', Text.hexDigit (c.toNat / 16), Text.hexDigit (c.toNat % 16)]
    else [c]

def quote (s : String) : String :=
  String.ofList ('"' :: s.toList.flatMap escape ++ ['"'])

/-! ## On one line -/

mutual
def compact : Json → String
  | .null => "null"
  | .boolean value => if value then "true" else "false"
  | .natural value => toString value
  | .text value => quote value
  | .array items => "[" ++ compactItems true items ++ "]"
  | .object members => "\x7b" ++ compactMembers true members ++ "\x7d"

def compactItems (isFirst : Bool) : List Json → String
  | [] => ""
  | item :: items => (if isFirst then "" else ",") ++ item.compact ++ compactItems false items

def compactMembers (isFirst : Bool) : List (String × Json) → String
  | [] => ""
  | (key, value) :: members =>
    (if isFirst then "" else ",") ++ quote key ++ ":" ++ value.compact ++
      compactMembers false members
end

/-! ## On several lines -/

/-- The start of a line at a level. -/
def lineStart (level : Nat) : String :=
  String.ofList ('\n' :: List.replicate (2 * level) ' ')

mutual
/-- A value that stands on a line at the given level. -/
def prettyAt (level : Nat) : Json → String
  | .null => "null"
  | .boolean value => if value then "true" else "false"
  | .natural value => toString value
  | .text value => quote value
  | .array [] => "[]"
  | .array (item :: items) =>
    "[" ++ lineStart (level + 1) ++ item.prettyAt (level + 1) ++ prettyItems (level + 1) items ++
      lineStart level ++ "]"
  | .object [] => "\x7b\x7d"
  | .object ((key, value) :: members) =>
    "\x7b" ++ lineStart (level + 1) ++ quote key ++ ": " ++ value.prettyAt (level + 1) ++
      prettyMembers (level + 1) members ++ lineStart level ++ "\x7d"

/-- The items after the first one. -/
def prettyItems (level : Nat) : List Json → String
  | [] => ""
  | item :: items => "," ++ lineStart level ++ item.prettyAt level ++ prettyItems level items

/-- The members after the first one. -/
def prettyMembers (level : Nat) : List (String × Json) → String
  | [] => ""
  | (key, value) :: members =>
    "," ++ lineStart level ++ quote key ++ ": " ++ value.prettyAt level ++
      prettyMembers level members
end

def pretty (j : Json) : String :=
  j.prettyAt 0

end Json
end JavaThrows
