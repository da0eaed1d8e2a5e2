import JavaThrows.Removal.Recipe
import JavaThrows.Text.Json
import JavaThrows.Text.JsonScan

set_option autoImplicit false

/-!
# Recipes as JSON

A recipe is written as an object. It is read from an object, in which the members may stand in any
order and others may stand between them, or from an array of its values in order.
-/

namespace JavaThrows.Recipe

/-! ## Writing -/

def toJson (r : Recipe) : Json :=
  .object ([("method_pattern", .text r.methodPattern), ("exception_type", .text r.exceptionType)] ++
    match r.matchOverrides with
    | some value => [("match_overrides", .boolean value)]
    | none => [])

/-! ## Reading -/

open JsonScan

/-- What has been read of a recipe. -/
structure Draft where
  methodPattern : Option String
  exceptionType : Option String
  matchOverrides : Option (Option Bool)

def Draft.finish (d : Draft) : Except JsonFault Recipe :=
  match d.methodPattern, d.exceptionType with
  | some pattern, some exception => .ok ⟨pattern, exception, d.matchOverrides.getD none⟩
  | _, _ => .error .wrongData

/-- The value of a member that has not been there before. -/
def fresh {α : Type} (old : Option α) (read : List Char → Except JsonFault (Scanned α))
    (cs : List Char) : Except JsonFault (Scanned α) := do
  if old.isSome then throw .wrongData
  let cs ← symbol ':' cs
  read cs

/-- The value of a member. -/
def Draft.member (d : Draft) (key : String) (cs : List Char) : Except JsonFault (Scanned Draft) :=
  match key with
  | "method_pattern" =>
    (fresh d.methodPattern text cs).map fun r => ({ d with methodPattern := some r.1 }, r.2)
  | "exception_type" =>
    (fresh d.exceptionType text cs).map fun r => ({ d with exceptionType := some r.1 }, r.2)
  | "match_overrides" =>
    (fresh d.matchOverrides boolean? cs).map fun r =>
      ({ d with matchOverrides := some r.1 }, r.2)
  | _ => do
    let cs ← symbol ':' cs
    let cs ← skip cs
    return (d, cs)

/-- The members of an object up to the closing brace. -/
def members : Nat → Bool → Draft → List Char → Except JsonFault (Scanned Recipe)
  | 0, _, _, _ => .error .cutOff
  | fuel + 1, isFirst, d, cs =>
    match skipSpace cs with
    | [] => .error .cutOff
    | '\x7d' :: cs => d.finish.map (·, cs)
    | cs => do
      let cs ← if isFirst then pure cs else word [','] cs
      let cs ← symbol '"' cs
      let (key, cs) ← textBody true cs
      let (d, cs) ← d.member key cs
      members fuel false d cs

/-- Go on to the next item of an array, if there is one. -/
def nextItem (isFirst : Bool) (cs : List Char) : Except JsonFault (Scanned Bool) :=
  match skipSpace cs with
  | [] => .error .cutOff
  | ']' :: cs => .ok (false, ']' :: cs)
  | cs =>
    if isFirst then .ok (true, cs)
    else
      match cs with
      | ',' :: cs =>
        match skipSpace cs with
        | [] => .error .cutOff
        | ']' :: _ => .error .malformed
        | cs => .ok (true, cs)
      | _ => .error .malformed

/-- An item of an array that has to be there. -/
def item (isFirst : Bool) (cs : List Char) : Except JsonFault (Scanned String) := do
  let (isThere, cs) ← nextItem isFirst cs
  if isThere then text cs else throw .wrongData

/-- The items of an array up to the closing bracket. -/
def items (cs : List Char) : Except JsonFault (Scanned Recipe) := do
  let (pattern, cs) ← item true cs
  let (exception, cs) ← item false cs
  let (isThere, cs) ← nextItem false cs
  let (overrides, cs) ← if isThere then boolean? cs else pure (none, cs)
  let cs ← symbol ']' cs
  return (⟨pattern, exception, overrides⟩, cs)

/-- Read a recipe; nothing but space may follow it. -/
def ofJson (source : String) : Except JsonFault Recipe := do
  let cs := skipSpace source.toList
  let (recipe, rest) ← match cs with
    | '[' :: inside => items inside
    | '\x7b' :: inside => members (inside.length + 1) true ⟨none, none, none⟩ inside
    | cs => throw (mismatch cs)
  if (skipSpace rest).isEmpty then return recipe else throw .malformed

end JavaThrows.Recipe
