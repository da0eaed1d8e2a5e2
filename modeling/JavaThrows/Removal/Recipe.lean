import JavaThrows.Removal.Edits
import JavaThrows.Unicode.CharClass

set_option autoImplicit false

/-!
# Recipes

A recipe is what a user asks for: a method pattern and an exception, both as text. Compiling it
checks them once, and what comes out of that runs on any number of files.
-/

namespace JavaThrows

structure Recipe where
  methodPattern : String
  exceptionType : String
  /-- Whether methods that override a matching one count too; they do if nothing is said. -/
  matchOverrides : Option Bool
deriving DecidableEq, Repr, Inhabited

inductive ValidationError where
  | invalidMethodPattern (pattern : String) (cause : PatternError)
  | missingExceptionType
deriving DecidableEq, Repr

def ValidationError.message : ValidationError → String
  | .invalidMethodPattern pattern cause =>
    "invalid method pattern `" ++ pattern ++ "`: " ++ cause.message
  | .missingExceptionType => "exception type must be a non-blank fully-qualified name"

/-- Why a file could not be rewritten. -/
inductive FileError where
  | parse (cause : ParseError)
  | rewrite (cause : RewriteError)
deriving DecidableEq, Repr

def ParseError.message : ParseError → String
  | .malformed place => "syntax error at " ++ place.describe

def FileError.message : FileError → String
  | .parse cause => cause.message
  | .rewrite cause => cause.message

namespace Recipe

def overrides (r : Recipe) : Bool :=
  r.matchOverrides.getD true

/-- Check a recipe; a bad pattern is told before a missing exception. -/
def compile (r : Recipe) : Except ValidationError Removal :=
  match MethodPattern.compile r.methodPattern r.overrides with
  | .error cause => .error (.invalidMethodPattern r.methodPattern cause)
  | .ok pattern =>
    let exception := Unicode.trim r.exceptionType.toList
    if exception.isEmpty then .error .missingExceptionType
    else .ok { pattern, exception := String.ofList exception }

end Recipe

/-! ## Running -/

/-- The text of a file after a removal, and what was removed. -/
structure Rewritten where
  text : List Char
  log : VisitLog
deriving Repr

/-- Whether any method has changed. -/
def Rewritten.isChanged (r : Rewritten) : Bool :=
  !r.log.removals.isEmpty

namespace Removal

/-- Remove the exception from the text of a file that has been read before. -/
def rewrite (r : Removal) (index : TypeIndex) (source : List Char) (unit : CompilationUnit) :
    Except RewriteError Rewritten :=
  let visited := r.visitSource index source unit
  (printRewrite source unit visited.changed).map fun text => ⟨text, visited.log⟩

/-- Remove the exception from a text by itself, where nothing else is known but the types that it
    declares. -/
def runSource (r : Removal) (source : List Char) : Except FileError Rewritten :=
  match CompilationUnit.parse source with
  | .error e => .error (.parse e)
  | .ok unit =>
    match r.rewrite (.build [unit]) source unit with
    | .error e => .error (.rewrite e)
    | .ok out => .ok out

end Removal
end JavaThrows
