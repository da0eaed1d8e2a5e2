import JavaThrows.Batch
import JavaThrows.Proofs.Text.Json

set_option autoImplicit false

/-!
# What a run writes as JSON

Notes come up for files that cannot be read, parsed, rewritten or written, and for files that
change; each place asks the options by itself whether to tell its note. If JSON is wanted, none of
them does, so the report is all that is written. Main statement: `output_json`.
-/

namespace JavaThrows

variable {o : BatchOptions}

/-! ## Notes on one file -/

section Json

variable (hjson : o.json)
include hjson

theorem LoadError.notes_eq_nil (file : String) (e : LoadError) : e.notes o file = [] := by
  cases e with
  | unreadable => rw [notes, if_pos hjson]
  | unparsable => rw [notes, if_pos hjson]

theorem FixedFile.notes_eq_nil (exception : String) (f : FixedFile) :
    f.notes exception o = [] := by
  rw [notes, hjson]
  cases o.dryRun <;> simp

theorem FileResult.notes_eq_nil (exception file : String) (r : FileResult) :
    r.notes exception o file = [] := by
  cases r with
  | unchanged => rfl
  | failed => rw [notes, if_pos hjson]
  | changed entry => exact entry.notes_eq_nil hjson exception

/-! ## Notes of a run -/

/-- **A run that is to give JSON tells nothing on its way,** whatever becomes of its files. -/
theorem notes_runRemoval (recipe : Recipe) (removal : Removal) (t : FileTree) (paths : List String)
    (refusal : Location → Option FileFault) :
    (runRemoval recipe removal o t paths refusal).notes = [] := by
  have hunread (errors : List (String × LoadError)) :
      errors.flatMap (fun f => f.2.notes o f.1) = [] :=
    List.flatMap_eq_nil_iff.2 fun f _ => f.2.notes_eq_nil hjson f.1
  have hresults (results : List (String × FileResult)) :
      results.flatMap (fun r => r.2.notes removal.exception o r.1) = [] :=
    List.flatMap_eq_nil_iff.2 fun r _ => r.2.notes_eq_nil hjson removal.exception r.1
  simp only [runRemoval, hunread, hresults, hjson, Bool.not_true, Bool.and_false,
    Bool.false_eq_true, if_false, List.append_nil]

end Json

/-! ## The report -/

/-- What becomes of files does not depend on how much is told of them. -/
theorem processAll_talk (removal : Removal) (index : TypeIndex) (o : BatchOptions)
    (refusal : Location → Option FileFault) (isVerbose isQuiet : Bool) (t : FileTree)
    (files : List LoadedFile) :
    processAll removal index { o with verbose := isVerbose, quiet := isQuiet } refusal t files =
      processAll removal index o refusal t files := by
  induction files generalizing t with
  | nil => rfl
  | cons file files ih =>
    rw [processAll, processAll, ih]
    rfl

theorem report_runRemoval_talk (recipe : Recipe) (removal : Removal) (o : BatchOptions)
    (t : FileTree) (paths : List String) (refusal : Location → Option FileFault)
    (isVerbose isQuiet : Bool) :
    (runRemoval recipe removal { o with verbose := isVerbose, quiet := isQuiet } t paths
      refusal).report = (runRemoval recipe removal o t paths refusal).report := by
  simp only [runRemoval, processAll_talk]

theorem output_runRemoval (hjson : o.json) (recipe : Recipe) (removal : Removal) (t : FileTree)
    (paths : List String) (refusal : Location → Option FileFault) :
    (runRemoval recipe removal o t paths refusal).output o =
      (runRemoval recipe removal o t paths refusal).report.toJson.pretty ++ "\n" := by
  rw [BatchRun.output, notes_runRemoval hjson, if_pos hjson]
  exact String.empty_append

namespace MissingFile

/-- A directory where nothing is. -/
def tree : FileTree := ⟨.dir [], []⟩

def recipe : Recipe := ⟨"A f()", "a.E", none⟩

def options (isJson : Bool) : BatchOptions :=
  { (default : BatchOptions) with verbose := true, json := isJson }

theorem exists_compile : ∃ removal, recipe.compile = .ok removal := by
  have hsome : recipe.compile.toOption.isSome := by decide +kernel
  cases h : recipe.compile with
  | error e =>
    rw [h] at hsome
    cases hsome
  | ok removal => exact ⟨removal, rfl⟩

end MissingFile
end JavaThrows
