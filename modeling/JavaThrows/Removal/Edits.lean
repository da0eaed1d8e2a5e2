import JavaThrows.Decl.OfNode
import JavaThrows.Edit
import JavaThrows.Removal.Visit
import JavaThrows.Text.Lines

set_option autoImplicit false

/-!
# The edits that turn a file into its rewritten form

A file and its rewritten form are compared declaration by declaration, and every difference becomes
a deletion in the text: a throws clause that is gone, the entries that a clause has lost, and the
lines of the imports that are gone. All other text stays as it is.
-/

namespace JavaThrows

/-- Deletions of the runs of removed entries, each with one separator: the one after the run, or at
    the end of the list the one before it. `previous` is the last kept entry, and `run` the start
    and the end of the run of removed entries that is open. -/
def entryEdits (isKept : TypeRef → Bool) (previous : Option TypeRef) (run : Option Span) :
    List TypeRef → List Edit
  | [] =>
    match run, previous with
    | some removed, some p => [.delete ⟨p.span.stop, removed.stop⟩]
    | _, _ => []
  | e :: es =>
    if isKept e then
      match run with
      | some removed => .delete ⟨removed.start, e.span.start⟩ :: entryEdits isKept (some e) none es
      | none => entryEdits isKept (some e) none es
    else
      entryEdits isKept previous (some ⟨(run.map Span.start).getD e.span.start, e.span.stop⟩) es

/-- The deletions in the throws clause of a method. Entries are told apart by their places. -/
def methodEdits (before after : Method) : List Edit :=
  if before.throws = after.throws then []
  else
    match before.throwsSpan with
    | none => []
    | some clause =>
      match after.throws with
      | none => [.delete ⟨before.headerEnd, clause.stop⟩]
      | some kept =>
        entryEdits (fun e => kept.any fun k => k.span = e.span) none none before.throwsEntries

mutual
def typeEdits : TypeDecl → TypeDecl → List Edit
  | .mk _ before, .mk _ after => memberEdits before after

def memberEdits : List Member → List Member → List Edit
  | .method before locals :: bs, .method after localsAfter :: as =>
    typesEdits locals localsAfter ++ methodEdits before after ++ memberEdits bs as
  | .type before :: bs, .type after :: as => typeEdits before after ++ memberEdits bs as
  | _ :: bs, _ :: as => memberEdits bs as
  | _, _ => []

def typesEdits : List TypeDecl → List TypeDecl → List Edit
  | before :: bs, after :: as => typeEdits before after ++ typesEdits bs as
  | _, _ => []
end

/-- The deletion of an import. The last one that goes takes the blank lines after it along if none
    is left and it does not end in the middle of a line. -/
def importEdit? (source : List Char) (takesBlanks : Bool) (i : Import) : Option Edit :=
  if takesBlanks && i.lineSpan.stop > i.span.stop then
    (Text.skipBlankLines? source i.lineSpan.stop).map fun stop =>
      .delete ⟨i.lineSpan.start, stop⟩
  else some (.delete i.lineSpan)

def importEditsOf? (source : List Char) (emptied : Bool) : List Import → Option (List Edit)
  | [] => some []
  | i :: is =>
    (importEdit? source (emptied && is.isEmpty) i).bind fun e =>
      (importEditsOf? source emptied is).map (e :: ·)

/-- The deletions of the imports that the rewritten file has lost; none where the line of
    one ends inside a character. -/
def importEdits? (source : List Char) (before after : CompilationUnit) : Option (List Edit) :=
  importEditsOf? source after.imports.isEmpty
    (before.imports.filter fun i => !after.imports.contains i)

/-- All deletions that lead from a file to its rewritten form. -/
def rewriteEdits? (source : List Char) (before after : CompilationUnit) : Option (List Edit) :=
  (importEdits? source before after).map (typesEdits before.types after.types ++ ·)

/-- Apply edits to a Java source; the result has to be well formed. -/
def Edit.applyVerified (source : List Char) (edits : List Edit) :
    Except RewriteError (List Char) := do
  let text ← Edit.apply source edits
  match CompilationUnit.parse text with
  | .ok _ => return text
  | .error (.malformed place) => throw (.invalidSyntax place)

/-- The text of the rewritten file; an untouched file keeps its text. -/
def printRewrite (source : List Char) (unit : CompilationUnit)
    (changed : Option CompilationUnit) : Except RewriteError (List Char) :=
  match changed with
  | none => .ok source
  | some after =>
    match rewriteEdits? source unit after with
    | none => .error .brokenRange
    | some edits => Edit.applyVerified source edits

end JavaThrows
