import JavaThrows.Proofs.Batch.Containment
import JavaThrows.Proofs.Cst.Keywords
import JavaThrows.Proofs.Removal.Failure
import JavaThrows.Proofs.Text.LineNumbers
import Mathlib.Data.List.Forall2

set_option autoImplicit false

/-!
# The lines that a run reports

A run tells, of each file that it changes, the methods that lose the exception, in the order of the
file. The line that it gives for a method is the one on which the throws clause of that method
starts, as counted by the newlines before it. Main statement: `lines_exact`.
-/

namespace JavaThrows

open JavaThrows.Cst Text

variable {source : List Char} {root : Node}

/-! ## Where the clauses start -/

/-- The throws clause of a method starts with its keyword. -/
theorem standsAt_throwsSpan (h : javaTree source = some root) :
    ∀ owned ∈ (CompilationUnit.ofTree source root).ownedMethods,
      ∀ clause ∈ owned.2.throwsSpan, StandsAt source "throws" clause.start := by
  have hroot : ∀ c ∈ root.children, c.Everywhere Node.UnnamedLeaf ∧
      c.Everywhere (Node.Keyworded source "throws") :=
    fun c hc => ⟨javaTree_unnamedLeaf h c hc, javaTree_throws_keyworded h c hc⟩
  refine forall_ownedMethods_ofTree
    (P := fun m => ∀ clause ∈ m.throwsSpan, StandsAt source "throws" clause.start)
    (fun hn c hc => ⟨hn.1.children c hc, hn.2.children c hc⟩) ?_ hroot
  intro n s ds owner recordParams hn _ _ _ clause hclause
  cases hin : Scope.clauseIn none n.children with
  | none => simp [Scope.method, hin] at hclause
  | some found =>
    obtain ⟨p, node⟩ := found
    obtain ⟨front, back, hchildren, hkind, -⟩ := Scope.clauseIn_eq_some hin
    have hmem : node ∈ n.children := by simp [hchildren]
    obtain rfl : node.span = clause := by simpa [Scope.method, hin] using hclause
    exact standsAt_of_throws hkind (hn.1.children node hmem) (hn.2.children node hmem)

/-! ## What is told of a method -/

namespace Removal

variable (r : Removal) (index : TypeIndex) (unit : CompilationUnit)

/-- The methods of a file that lose the exception. -/
def strippedMethods : List (TypeHead × Method) :=
  unit.ownedMethods.filter fun owned =>
    (r.stripped index unit owned.1 owned.2).throws ≠ owned.2.throws

/-- The log has an entry for each method that loses the exception, in the order of the file. -/
theorem visitUnit_removals_eq_map :
    (r.visitUnit index unit).log.removals = (r.strippedMethods index unit).map fun owned =>
      ⟨owned.1.fqn, owned.2.name, owned.2.throwsSpan.getD owned.2.span⟩ := by
  rw [visitUnit_removals, removalsOf, strippedMethods, ← List.filterMap_eq_filter,
    List.map_filterMap, CompilationUnit.ownedMethods]
  refine List.filterMap_congr fun owned _ => ?_
  by_cases hthrows : (r.stripped index unit owned.1 owned.2).throws = owned.2.throws
  · simp [removedThrow?, hthrows, Option.guard]
  · simp [removedThrow?, hthrows, Option.guard]

/-- A method that loses the exception has a throws clause. -/
theorem throwsEntries_ne_nil_of_stripped {owned : TypeHead × Method}
    (h : owned ∈ r.strippedMethods index unit) : owned.2.throwsEntries ≠ [] := by
  intro hempty
  have hkept := r.remainingThrows_of_isEmpty index unit (m := owned.2) (by simp [hempty])
  have hthrows := List.of_mem_filter h
  simp [stripped, hkept] at hthrows

end Removal

/-- A change is told for a method: under the names of the method and of its type, with the line on
    which the keyword of its throws clause stands. -/
structure MethodChange.Tells (source : List Char) (change : MethodChange)
    (owned : TypeHead × Method) : Prop where
  typeFqn : change.typeFqn = owned.1.fqn
  method : change.method = owned.2.name
  line : ∃ clause, owned.2.throwsSpan = some clause ∧ StandsAt source "throws" clause.start ∧
    change.line = 1 + breaksBefore source clause.start

/-- **What is told of a file that changes:** one line for each method that loses the exception. -/
theorem methodChanges_tells {r : Removal} {index : TypeIndex} {out : Rewritten}
    (h : javaTree source = some root)
    (hout : r.rewrite index source (.ofTree source root) = .ok out) (hchanged : out.isChanged) :
    List.Forall₂ (MethodChange.Tells source) (methodChanges source out.log)
      (r.strippedMethods index (.ofTree source root)) := by
  have hlog : out.log = (r.visitUnit index (.ofTree source root)).log := by
    refine (Removal.rewrite_eq_cut h hout fun hlog => ?_).1
    simp [Rewritten.isChanged, hlog] at hchanged
  rw [methodChanges, hlog, r.visitUnit_removals_eq_map, List.map_map, List.forall₂_map_left_iff,
    List.forall₂_same]
  intro owned howned
  have hmem := List.mem_of_mem_filter howned
  obtain ⟨clause, hclause⟩ := Option.isSome_iff_exists.1
    (clauseInPlace_of_javaTree h owned hmem
      (r.throwsEntries_ne_nil_of_stripped index _ howned)).located
  refine ⟨rfl, rfl, clause, hclause, standsAt_throwsSpan h owned hmem clause hclause, ?_⟩
  rw [Function.comp_apply, hclause, Option.getD_some, LineIndex.line_ofText]

/-! ## Whole runs -/

/-- **Line numbers are exact.** The line of an offset is one more than the number of newline bytes
    before it, for offsets inside characters and past the end too, so that it does not fall when the
    offset grows. And what a run reports of a file that it changes is, method for method, the line
    on which the throws clause starts. -/
theorem lines_exact (recipe : Recipe) (removal : Removal) (o : BatchOptions) (t : FileTree)
    (paths : List String) (refusal : Location → Option FileFault) :
    (∀ source offset,
      (LineIndex.ofText source).line offset = 1 + ((bytes source).take offset).count 10) ∧
    (∀ source offset offset', offset ≤ offset' →
      (LineIndex.ofText source).line offset ≤ (LineIndex.ofText source).line offset') ∧
    ∀ entry ∈ (runRemoval recipe removal o t paths refusal).report.fixed,
      ∃ path ∈ t.collect o.filter paths, ∃ f out,
        Rewrites removal t (t.collect o.filter paths) path f out ∧
        entry.file = Path.display path ∧
        List.Forall₂ (MethodChange.Tells f.source) entry.methods
          (removal.strippedMethods (t.indexOf (t.collect o.filter paths)) f.unit) := by
  refine ⟨fun source offset => LineIndex.line_ofText source offset,
    fun source offset offset' hle => ?_,
    fun entry hentry => ?_⟩
  · rw [LineIndex.line_ofText, LineIndex.line_ofText]
    exact Nat.add_le_add_left (breaksBefore_mono source hle) 1
  · rw [fixed_runRemoval, List.mem_filterMap] at hentry
    obtain ⟨path, hpath, hfixed⟩ := hentry
    obtain ⟨-, f, out, hrewrites, rfl⟩ := fixedFile?_fate_eq_some_iff.1 hfixed
    obtain ⟨text, unit, -, hparse, rfl⟩ := FileTree.loadFile_eq_ok_iff.1 hrewrites.loaded
    obtain ⟨root, htree, rfl⟩ := CompilationUnit.exists_tree_of_parse hparse
    exact ⟨path, hpath, _, out, hrewrites, rfl,
      methodChanges_tells htree hrewrites.rewritten hrewrites.isChanged⟩

end JavaThrows
