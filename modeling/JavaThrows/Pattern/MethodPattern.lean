import JavaThrows.Pattern.TypePattern

set_option autoImplicit false

/-!
# Method patterns

A method pattern is the pattern of a type, the pattern of a name, and the patterns of the arguments
in parentheses. The type and the name stand apart by blanks or by a number sign.
-/

namespace JavaThrows

open JavaThrows.Unicode

/-- What is wrong with a method pattern. -/
inductive PatternError where
  | empty
  | missingParameters
  | unbalancedParentheses
  | missingTargetType
  | missingMethodName
  | invalidTypePattern (text : String)
  | invalidMethodName (text : String)
  /-- The arguments are counted from one. -/
  | invalidArgument (position : Nat) (arg : String)
  | trailingInput (text : String)
deriving DecidableEq, Repr

def PatternError.message : PatternError → String
  | .empty => "method pattern is empty"
  | .missingParameters => "method pattern has no parameter list"
  | .unbalancedParentheses => "method pattern has unbalanced parentheses"
  | .missingTargetType => "method pattern has no declaring type"
  | .missingMethodName => "method pattern has no method name"
  | .invalidTypePattern text => "invalid type pattern `" ++ text ++ "`"
  | .invalidMethodName text => "invalid method name pattern `" ++ text ++ "`"
  | .invalidArgument position arg =>
    "invalid argument pattern `" ++ arg ++ "` at position " ++ toString position
  | .trailingInput text => "unexpected input after parameter list: `" ++ text ++ "`"

inductive ArgPattern where
  /-- Any number of arguments. -/
  | anyRun
  | anyOne
  | type (pattern : TypePattern)
deriving DecidableEq, Repr, Inhabited

inductive NamePattern where
  /-- Constructors, whatever their name. -/
  | constructor
  | method (glob : Glob)
deriving DecidableEq, Repr, Inhabited

structure MethodPattern where
  target : TypePattern
  name : NamePattern
  args : List ArgPattern
  /-- Methods that override a matching one count too. -/
  matchOverrides : Bool
deriving DecidableEq, Repr, Inhabited

namespace MethodPattern

/-- How a name pattern is written that selects constructors. -/
def constructorMark : String := "<constructor>"

/-! ## Reading -/

/-- The texts of the type and of the name in what stands before the parentheses. -/
def splitHead (head : List Char) : Except PatternError (List Char × List Char) :=
  match Text.cutLast '#' head with
  | some (type, name) => .ok (trim type, trim name)
  | none =>
    if head.any isSpace then
      let name := head.reverse.takeWhile fun c => !isSpace c
      .ok (trim (head.take (head.length - name.length)), name.reverse)
    else if head.isEmpty then .error .missingMethodName
    else .error .missingTargetType

def nameOf (text : List Char) : Except PatternError NamePattern :=
  if String.ofList text = constructorMark then .ok .constructor
  else if isSegment text then .ok (.method ⟨String.ofList text⟩)
  else .error (.invalidMethodName (String.ofList text))

def argOf? (text : List Char) : Option ArgPattern :=
  if text = "..".toList then some .anyRun
  else if text = ['*'] then some .anyOne
  else (TypePattern.ofList? text).map .type

/-- Read arguments, the first of which is at the given position. -/
def argsOf (position : Nat) : List (List Char) → Except PatternError (List ArgPattern)
  | [] => .ok []
  | arg :: args =>
    let arg := trim arg
    match argOf? arg with
    | none => .error (.invalidArgument position (String.ofList arg))
    | some a => (argsOf (position + 1) args).map (a :: ·)

/-- Cut a pattern at its parentheses: what stands before, between and behind them. -/
def splitParentheses (text : List Char) :
    Except PatternError (List Char × List Char × List Char) :=
  match Text.cutFirst '(' text with
  | none =>
    .error (if text.contains ')' then .unbalancedParentheses else .missingParameters)
  | some (head, tail) =>
    if head.contains ')' || tail.contains '(' then .error .unbalancedParentheses
    else
      match Text.cutFirst ')' tail with
      | none => .error .unbalancedParentheses
      | some (args, rest) =>
        if rest.contains ')' then .error .unbalancedParentheses else .ok (head, args, rest)

/-- Read a method pattern. -/
def compile (pattern : String) (matchOverrides : Bool) : Except PatternError MethodPattern := do
  let text := trim pattern.toList
  if text.isEmpty then throw .empty
  let (head, args, rest) ← splitParentheses text
  let trailing := trim rest
  if !trailing.isEmpty then throw (.trailingInput (String.ofList trailing))
  let (type, name) ← splitHead (trimEnd head)
  if type.isEmpty then throw .missingTargetType
  if name.isEmpty then throw .missingMethodName
  let target ← match TypePattern.ofList? type with
    | some p =>
      if p.dims = 0 then pure p else throw (.invalidTypePattern (String.ofList type))
    | none => throw (.invalidTypePattern (String.ofList type))
  let name ← nameOf name
  let args := trim args
  let args ← if args.isEmpty then pure [] else argsOf 1 (Text.splitOn ',' args)
  return { target, name, args, matchOverrides }

/-! ## Printing -/

def renderName : NamePattern → String
  | .constructor => constructorMark
  | .method glob => glob.text

def renderArg : ArgPattern → String
  | .anyRun => ".."
  | .anyOne => "*"
  | .type p => p.render

def render (p : MethodPattern) : String :=
  p.target.render ++ " " ++ renderName p.name ++ "(" ++
    String.intercalate ", " (p.args.map renderArg) ++ ")"

/-- The method name, where the pattern names exactly one. -/
def literalName? (p : MethodPattern) : Option String :=
  match p.name with
  | .method glob => if glob.hasStar then none else some glob.text
  | .constructor => none

end MethodPattern
end JavaThrows
