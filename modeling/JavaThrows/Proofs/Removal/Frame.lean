import Mathlib.Data.List.Pairwise
import JavaThrows.Proofs.Edit.Ranges
import JavaThrows.Proofs.Removal.Entries
import JavaThrows.Proofs.Removal.Visit
import JavaThrows.Proofs.Text.Lines
import JavaThrows.Removal.Recipe

set_option autoImplicit false

/-!
# What the edits of a file delete

The edits come from a comparison of two trees. Here the same deletions are told from the methods and
the imports of the file alone (`Removal.cuts`): the clauses that are gone, the entries that a clause
has lost, and the lines of the imports that are gone. Edits of methods at any depth stay inside
their own clauses, so a file whose clauses and import lines do not meet can always be edited. Main
statement: `apply_rewriteEdits`.
-/

namespace JavaThrows

/-! ## Places that a deletion may touch -/

/-- The throws clause of a method, from the end of the header on. -/
def Method.clauseSpan (m : Method) : Span :=
  ⟨m.headerEnd, (m.throwsSpan.map Span.stop).getD m.headerEnd⟩

/-- The clause of a method, if it has entries. -/
def Method.clauseRanges (m : Method) : List Span :=
  if m.throwsEntries.isEmpty then [] else [m.clauseSpan]

/-- The line of an import with the blank lines after it. -/
def Import.lineAndBlanks (source : List Char) (i : Import) : Span :=
  ⟨i.lineSpan.start, (Text.skipBlankLines? source i.lineSpan.stop).getD i.lineSpan.stop⟩

/-- The clause of a method lies in the text, and its entries lie in the clause one after the
    other. -/
structure Method.ClauseInPlace (source : List Char) (m : Method) : Prop where
  located : m.throwsSpan.isSome
  clause : m.clauseSpan.IsPieceOf source
  inOrder : InOrder m.throwsEntries
  entries : ∀ e ∈ m.throwsEntries, e.span.IsPieceOf source
  inside : ∀ e ∈ m.throwsEntries, e.span.Inside m.clauseSpan

/-- All methods of a file, at every depth. -/
def CompilationUnit.ownedMethods (unit : CompilationUnit) : List (TypeHead × Method) :=
  ownedMethodsOfTypes unit.types

/-- The throws clauses and the import lines of a file lie in the text and do not meet. -/
structure CompilationUnit.InPlace (source : List Char) (unit : CompilationUnit) : Prop where
  clauses : ∀ owned ∈ unit.ownedMethods, owned.2.throwsEntries ≠ [] → owned.2.ClauseInPlace source
  imports : ∀ i ∈ unit.imports, i.lineSpan.IsPieceOf source
  disjoint : (unit.ownedMethods.flatMap (fun owned => owned.2.clauseRanges) ++
    unit.imports.map (Import.lineAndBlanks source)).Pairwise Span.Disjoint

instance (source : List Char) (s : Span) : Decidable (s.IsPieceOf source) :=
  decidable_of_iff
    (s.start ≤ s.stop ∧ Text.isBoundary source s.start ∧ Text.isBoundary source s.stop)
    ⟨fun ⟨h₁, h₂, h₃⟩ => ⟨h₁, h₂, h₃⟩, fun ⟨h₁, h₂, h₃⟩ => ⟨h₁, h₂, h₃⟩⟩

instance : DecidableRel Span.Disjoint :=
  fun s t => inferInstanceAs (Decidable (s.stop ≤ t.start ∨ t.stop ≤ s.start))

instance : DecidableRel Span.Inside :=
  fun s t => decidable_of_iff (t.start ≤ s.start ∧ s.stop ≤ t.stop)
    ⟨fun ⟨h₁, h₂⟩ => ⟨h₁, h₂⟩, fun ⟨h₁, h₂⟩ => ⟨h₁, h₂⟩⟩

instance (es : List TypeRef) : Decidable (InOrder es) :=
  decidable_of_iff ((∀ e ∈ es, e.span.start < e.span.stop) ∧
      es.Pairwise fun a b => a.span.stop ≤ b.span.start)
    ⟨fun ⟨h₁, h₂⟩ => ⟨h₁, h₂⟩, fun ⟨h₁, h₂⟩ => ⟨h₁, h₂⟩⟩

instance (source : List Char) (m : Method) : Decidable (m.ClauseInPlace source) :=
  decidable_of_iff (m.throwsSpan.isSome ∧ m.clauseSpan.IsPieceOf source ∧
      InOrder m.throwsEntries ∧ (∀ e ∈ m.throwsEntries, e.span.IsPieceOf source) ∧
      ∀ e ∈ m.throwsEntries, e.span.Inside m.clauseSpan)
    ⟨fun ⟨h₁, h₂, h₃, h₄, h₅⟩ => ⟨h₁, h₂, h₃, h₄, h₅⟩,
      fun ⟨h₁, h₂, h₃, h₄, h₅⟩ => ⟨h₁, h₂, h₃, h₄, h₅⟩⟩

instance (source : List Char) (unit : CompilationUnit) : Decidable (unit.InPlace source) :=
  decidable_of_iff ((∀ owned ∈ unit.ownedMethods, owned.2.throwsEntries ≠ [] →
        owned.2.ClauseInPlace source) ∧
      (∀ i ∈ unit.imports, i.lineSpan.IsPieceOf source) ∧
      (unit.ownedMethods.flatMap (fun owned => owned.2.clauseRanges) ++
        unit.imports.map (Import.lineAndBlanks source)).Pairwise Span.Disjoint)
    ⟨fun ⟨h₁, h₂, h₃⟩ => ⟨h₁, h₂, h₃⟩, fun ⟨h₁, h₂, h₃⟩ => ⟨h₁, h₂, h₃⟩⟩

/-! ## What goes -/

/-- What goes from the clause of a method: nothing, the whole clause, or the entries that it has
    lost. -/
def throwsCuts (before after : Method) : List Span :=
  match after.throws with
  | none => if before.throws.isNone then [] else [before.clauseSpan]
  | some kept => entryCuts (fun e => kept.contains e) none before.throwsEntries

/-- What goes with an import: its line, and the blank lines after it where it takes them along and
    takes the end of its line. -/
def importCut (source : List Char) (takesBlanks : Bool) (i : Import) : Span :=
  if takesBlanks && i.span.stop < i.lineSpan.stop then i.lineAndBlanks source else i.lineSpan

/-- What goes with each of the imports that go. The last one takes the blank lines after it along,
    and only where no import stays. -/
def importCuts (source : List Char) (noneStays : Bool) : List Import → List Span
  | [] => []
  | i :: is => importCut source (noneStays && is.isEmpty) i :: importCuts source noneStays is

namespace Removal

variable (r : Removal) (index : TypeIndex) (unit : CompilationUnit)

/-- The imports that a visit drops. -/
def goneImports : List Import :=
  if (r.visitUnit index unit).log.importRemoved then
    unit.imports.filter (·.importsType r.exception)
  else []

/-- What a removal takes out of the text of a file. -/
def cuts (source : List Char) : List Span :=
  (unit.ownedMethods.flatMap fun owned =>
      throwsCuts owned.2 (r.stripped index unit owned.1 owned.2)) ++
    importCuts source (unit.imports.all (·.importsType r.exception)) (r.goneImports index unit)

/-- The entries of all throws clauses that a removal leaves in the file. -/
def keptEntries : List TypeRef :=
  unit.ownedMethods.flatMap fun owned => (r.stripped index unit owned.1 owned.2).throwsEntries

end Removal

/-! ## Edits of a clause -/

theorem methodEdits_of_throws_eq {before after : Method} (h : before.throws = after.throws) :
    methodEdits before after = [] := by
  rw [methodEdits, if_pos h]

theorem throwsCuts_of_throws_eq {before after : Method} (h : before.throws = after.throws) :
    throwsCuts before after = [] := by
  unfold throwsCuts
  split
  · next hnone => simp [h, hnone]
  · next kept hkept =>
    refine entryCuts_eq_nil fun e he => ?_
    rw [Method.throwsEntries, h, hkept] at he
    simpa using he

theorem methodEdits_of_throws_none {before after : Method} (hlocated : before.throwsSpan.isSome)
    (hbefore : before.throws ≠ none) (hafter : after.throws = none) :
    methodEdits before after = [.delete before.clauseSpan] := by
  obtain ⟨clause, hclause⟩ := Option.isSome_iff_exists.1 hlocated
  have hne : before.throws ≠ after.throws := hafter ▸ hbefore
  rw [methodEdits, if_neg hne, hclause, hafter]
  simp [Method.clauseSpan, hclause]

/-- Entries are told apart by their places as well as by themselves. -/
theorem methodEdits_of_throws_some {before after : Method} {kept : List TypeRef}
    (hlocated : before.throwsSpan.isSome) (horder : InOrder before.throwsEntries)
    (hne : before.throws ≠ after.throws) (hafter : after.throws = some kept)
    (hkept : ∀ k ∈ kept, k ∈ before.throwsEntries) :
    methodEdits before after =
      entryEdits (fun e => kept.contains e) none none before.throwsEntries := by
  obtain ⟨clause, hclause⟩ := Option.isSome_iff_exists.1 hlocated
  rw [methodEdits, if_neg hne, hclause, hafter]
  refine entryEdits_congr (fun e he => ?_) none none
  rw [Bool.eq_iff_iff, List.any_eq_true, List.contains_iff_mem]
  constructor
  · rintro ⟨k, hk, hspan⟩
    rwa [← horder.eq_of_span_eq (hkept k hk) he (by simpa using hspan)]
  · exact fun he => ⟨e, he, by simp⟩

/-- A place of the text inside a span. -/
structure Span.HasPlace (source : List Char) (range : Span) (o : Nat) : Prop where
  isBoundary : Text.isBoundary source o
  start_le : range.start ≤ o
  le_stop : o ≤ range.stop

theorem Method.ClauseInPlace.entry_hasPlace {source : List Char} {m : Method}
    (h : m.ClauseInPlace source) : ∀ e ∈ m.throwsEntries,
      m.clauseSpan.HasPlace source e.span.start ∧ m.clauseSpan.HasPlace source e.span.stop := by
  intro e he
  obtain ⟨hordered, hstart, hstop⟩ := h.entries e he
  obtain ⟨hinside, hinside'⟩ := h.inside e he
  exact ⟨⟨hstart, hinside, by omega⟩, ⟨hstop, by omega, hinside'⟩⟩

theorem clauseRanges_of_ne_nil {m : Method} (h : m.throwsEntries ≠ []) :
    m.clauseRanges = [m.clauseSpan] := by
  rw [Method.clauseRanges, if_neg (by simpa using h)]

section Clause

variable {source : List Char} {before after : Method}

/-- A clause that keeps all its entries. -/
theorem methodEdits_deletes_of_throws_eq
    (hplace : before.throwsEntries ≠ [] → before.ClauseInPlace source)
    (h : before.throws = after.throws) :
    Deletes source before.clauseRanges (methodEdits before after) (throwsCuts before after)
      after.throwsEntries := by
  have hkept : after.throwsEntries = before.throwsEntries := by
    rw [Method.throwsEntries, Method.throwsEntries, h]
  rw [methodEdits_of_throws_eq h, throwsCuts_of_throws_eq h, hkept]
  refine ⟨.nil, by simp, by simp, by simp, by simp, fun k hk => ?_⟩
  have hne : before.throwsEntries ≠ [] := List.ne_nil_of_mem hk
  rw [clauseRanges_of_ne_nil hne]
  exact ⟨_, List.mem_singleton_self _, (hplace hne).inside k hk⟩

/-- A clause that goes as a whole. -/
theorem methodEdits_deletes_of_throws_none (hne : before.throwsEntries ≠ [])
    (hplace : before.ClauseInPlace source) (h : after.throws = none) :
    Deletes source before.clauseRanges (methodEdits before after) (throwsCuts before after)
      after.throwsEntries := by
  have hbefore : before.throws ≠ none := fun hnone => hne (by simp [Method.throwsEntries, hnone])
  have hcuts : throwsCuts before after = [before.clauseSpan] := by
    simp [throwsCuts, h, hbefore]
  have hkept : after.throwsEntries = [] := by simp [Method.throwsEntries, h]
  rw [methodEdits_of_throws_none hplace.located hbefore h, hcuts, hkept,
    clauseRanges_of_ne_nil hne]
  exact .single hplace.clause ⟨Nat.le_refl _, Nat.le_refl _⟩

/-- A clause that loses some of its entries. -/
theorem methodEdits_deletes_of_throws_some {kept : List TypeRef}
    (hplace : before.ClauseInPlace source) (hne : before.throws ≠ after.throws)
    (h : after.throws = some kept) (hkept : ∀ k ∈ kept, k ∈ before.throwsEntries)
    (hsome : kept ≠ []) :
    Deletes source before.clauseRanges (methodEdits before after) (throwsCuts before after)
      after.throwsEntries := by
  have horder := hplace.inOrder
  have hwalk : Walking none none before.throwsEntries := .start horder
  -- An entry stays, so every run has a separator to take along.
  obtain ⟨k, hk⟩ := List.exists_mem_of_ne_nil kept hsome
  have hstays : before.throwsEntries.any fun e => kept.contains e :=
    List.any_eq_true.2 ⟨k, hkept k hk, by simpa using hk⟩
  have hentries : before.throwsEntries ≠ [] := List.ne_nil_of_mem (hkept k hk)
  have hcuts : throwsCuts before after =
      entryCuts (fun e => kept.contains e) none before.throwsEntries := by
    rw [throwsCuts, h]
  have hafter : after.throwsEntries = kept := by simp [Method.throwsEntries, h]
  have hedits := methodEdits_of_throws_some hplace.located horder hne h hkept
  rw [hcuts, hafter, hedits, clauseRanges_of_ne_nil hentries]
  -- The ends of runs and of cuts are ends of entries.
  have hplaces := hplace.entry_hasPlace
  obtain ⟨hforward, hpairs⟩ :=
    entryRuns_increasing (fun e => kept.contains e) hwalk
  have hrun : ∀ e ∈ entryEdits (fun e => kept.contains e) none none before.throwsEntries,
      before.clauseSpan.HasPlace source e.span.start ∧
        before.clauseSpan.HasPlace source e.span.stop ∧ e.span.start ≤ e.span.stop := by
    intro e he
    have hspan := List.mem_map_of_mem (f := Edit.span) he
    have hends := endpoints_of_mem_entryRuns (by simp) (by simp) hplaces hspan
    exact ⟨hends.1, hends.2, hforward _ hspan⟩
  refine ⟨⟨map_delete_entryRuns _ _ _ _, fun e he => ?_, fun o => ?_⟩, ?_, fun s hs e he => ?_,
    fun e he => ?_, fun s hs => ?_, fun e he => ?_⟩
  · obtain ⟨hstart, hstop, hordered⟩ := hrun e he
    exact ⟨hordered, hstart.isBoundary, hstop.isBoundary⟩
  · have hcovered := coveredBy_entryRuns_iff none o hwalk (.inr hstays)
      (fun _ => rfl) (by simp)
    simpa [entryRuns] using hcovered
  · exact List.pairwise_map.1 (hpairs.imp fun hle => Or.inl hle)
  · exact disjoint_of_mem_entryCuts horder hs (hkept e he) (by simpa using he)
  · obtain ⟨hstart, hstop, -⟩ := hrun e he
    exact ⟨_, List.mem_singleton_self _, hstart.start_le, hstop.le_stop⟩
  · obtain ⟨hstart, hstop⟩ := endpoints_of_mem_entryCuts (by simp) hplaces hs
    exact ⟨_, List.mem_singleton_self _, hstart.start_le, hstop.le_stop⟩
  · exact ⟨_, List.mem_singleton_self _, hplace.inside e (hkept e he)⟩

end Clause

/-! ## Edits of all methods -/

namespace Removal

variable (r : Removal) (index : TypeIndex) (unit : CompilationUnit)

theorem mem_of_mem_remainingThrows {throws : Option (List TypeRef)} {k : TypeRef}
    (h : k ∈ (r.remainingThrows index unit throws).getD []) : k ∈ throws.getD [] := by
  match throws with
  | none => exact h
  | some [] => exact h
  | some (e :: es) =>
    simp only [remainingThrows] at h
    split at h
    · simp at h
    · exact (List.mem_filter.1 h).1

theorem remainingThrows_ne_some_nil {e : TypeRef} {es : List TypeRef} :
    r.remainingThrows index unit (some (e :: es)) ≠ some [] := by
  simp only [remainingThrows]
  split
  · simp
  · next h => simpa using h

theorem mem_of_mem_throwsEntries_stripped (enclosing : TypeHead) {m : Method} {k : TypeRef}
    (h : k ∈ (r.stripped index unit enclosing m).throwsEntries) : k ∈ m.throwsEntries := by
  unfold stripped at h
  split at h
  · exact r.mem_of_mem_remainingThrows index unit h
  · exact h

theorem stripped_throws_of_isEmpty {enclosing : TypeHead} {m : Method}
    (h : m.throwsEntries = []) : m.throws = (r.stripped index unit enclosing m).throws := by
  unfold stripped
  split
  · exact (r.remainingThrows_of_isEmpty index unit (by simp [h])).symm
  · rfl

theorem stripped_throws_ne_some_nil {enclosing : TypeHead} {m : Method}
    (h : m.throwsEntries ≠ []) : (r.stripped index unit enclosing m).throws ≠ some [] := by
  unfold Method.throwsEntries at h
  unfold stripped
  match hm : m.throws with
  | none => simp [hm] at h
  | some [] => simp [hm] at h
  | some (e :: es) =>
    split
    · exact r.remainingThrows_ne_some_nil index unit
    · simp [hm]

/-- **The edits of a method** stay inside its clause and take out what the clause has lost. -/
theorem methodEdits_deletes {source : List Char} (enclosing : TypeHead) (m : Method)
    (hplace : m.throwsEntries ≠ [] → m.ClauseInPlace source) :
    Deletes source m.clauseRanges (methodEdits m (r.stripped index unit enclosing m))
      (throwsCuts m (r.stripped index unit enclosing m))
      (r.stripped index unit enclosing m).throwsEntries := by
  by_cases hsame : m.throws = (r.stripped index unit enclosing m).throws
  · exact methodEdits_deletes_of_throws_eq hplace hsame
  · have hne : m.throwsEntries ≠ [] :=
      fun hnil => hsame (r.stripped_throws_of_isEmpty index unit hnil)
    cases hafter : (r.stripped index unit enclosing m).throws with
    | none => exact methodEdits_deletes_of_throws_none hne (hplace hne) hafter
    | some kept =>
      have hkept : ∀ k ∈ kept, k ∈ m.throwsEntries := by
        intro k hk
        refine r.mem_of_mem_throwsEntries_stripped index unit enclosing ?_
        rwa [Method.throwsEntries, hafter]
      have hsome : kept ≠ [] := by
        rintro rfl
        exact r.stripped_throws_ne_some_nil index unit hne hafter
      exact methodEdits_deletes_of_throws_some (hplace hne) hsame hafter hkept hsome

end Removal

-- The comparison meets a method and what has become of it, at every depth.
mutual
theorem typeEdits_mapMethods (f : TypeHead → Method → Method) (d : TypeDecl) :
    typeEdits d (d.mapMethods f) =
      d.ownedMethods.flatMap fun owned => methodEdits owned.2 (f owned.1 owned.2) := by
  cases d with
  | mk head members =>
    rw [TypeDecl.mapMethods, typeEdits, TypeDecl.ownedMethods]
    exact memberEdits_mapMethods f head members

theorem memberEdits_mapMethods (f : TypeHead → Method → Method) (enclosing : TypeHead)
    (ms : List Member) :
    memberEdits ms (mapMethodsOfMembers f enclosing ms) =
      (ownedMethodsOfMembers enclosing ms).flatMap fun owned =>
        methodEdits owned.2 (f owned.1 owned.2) := by
  match ms with
  | [] => simp [memberEdits, ownedMethodsOfMembers]
  | .method m locals :: ms =>
    rw [mapMethodsOfMembers, memberEdits, ownedMethodsOfMembers, List.flatMap_append,
      List.flatMap_cons, typesEdits_mapMethods f locals, memberEdits_mapMethods f enclosing ms,
      List.append_assoc]
  | .type d :: ms =>
    rw [mapMethodsOfMembers, memberEdits, ownedMethodsOfMembers, List.flatMap_append,
      typeEdits_mapMethods f d, memberEdits_mapMethods f enclosing ms]

theorem typesEdits_mapMethods (f : TypeHead → Method → Method) (ds : List TypeDecl) :
    typesEdits ds (mapMethodsOfTypes f ds) =
      (ownedMethodsOfTypes ds).flatMap fun owned => methodEdits owned.2 (f owned.1 owned.2) := by
  match ds with
  | [] => simp [typesEdits, ownedMethodsOfTypes]
  | d :: ds =>
    rw [mapMethodsOfTypes, typesEdits, ownedMethodsOfTypes, List.flatMap_append,
      typeEdits_mapMethods f d, typesEdits_mapMethods f ds]
end

/-! ## Edits of the imports -/

theorem Import.lineAndBlanks_isPieceOf {source : List Char} {i : Import}
    (h : i.lineSpan.IsPieceOf source) :
    (i.lineAndBlanks source).IsPieceOf source ∧ i.lineSpan.Inside (i.lineAndBlanks source) := by
  obtain ⟨stop, hstop, hle, hboundary, -⟩ := Text.skipBlankLines?_eq_some h.stop_isBoundary
  have heq : i.lineAndBlanks source = ⟨i.lineSpan.start, stop⟩ := by
    rw [Import.lineAndBlanks, hstop, Option.getD_some]
  rw [heq]
  exact ⟨⟨Nat.le_trans h.ordered hle, h.start_isBoundary, hboundary⟩, Nat.le_refl _, hle⟩

theorem importEdit?_eq_some {source : List Char} {takesBlanks : Bool} {i : Import}
    (h : i.lineSpan.IsPieceOf source) :
    importEdit? source takesBlanks i = some (.delete (importCut source takesBlanks i)) := by
  obtain ⟨stop, hstop, -, -⟩ := Text.skipBlankLines?_eq_some h.stop_isBoundary
  unfold importEdit? importCut
  split
  · rw [hstop, Option.map_some, Import.lineAndBlanks, hstop, Option.getD_some]
  · rfl

theorem importEditsOf?_eq_some {source : List Char} {noneStays : Bool} {is : List Import}
    (h : ∀ i ∈ is, i.lineSpan.IsPieceOf source) :
    importEditsOf? source noneStays is = some ((importCuts source noneStays is).map .delete) := by
  induction is with
  | nil => rfl
  | cons i is ih =>
    have hi := h i List.mem_cons_self
    have his := fun j hj => h j (List.mem_cons_of_mem _ hj)
    rw [importEditsOf?, importEdit?_eq_some hi, ih his, Option.bind_some, Option.map_some,
      importCuts, List.map_cons]

theorem importCut_deletes {source : List Char} {takesBlanks : Bool} {i : Import}
    (h : i.lineSpan.IsPieceOf source) :
    Deletes source [i.lineAndBlanks source] [.delete (importCut source takesBlanks i)]
      [importCut source takesBlanks i] [] := by
  obtain ⟨hpiece, hinside⟩ := Import.lineAndBlanks_isPieceOf h
  unfold importCut
  split
  · exact .single hpiece ⟨Nat.le_refl _, Nat.le_refl _⟩
  · exact .single h hinside

theorem importCuts_takesOut {source : List Char} (noneStays : Bool) {is : List Import}
    (h : ∀ i ∈ is, i.lineSpan.IsPieceOf source) :
    TakesOut source ((importCuts source noneStays is).map .delete)
      (importCuts source noneStays is) := by
  induction is with
  | nil => exact .nil
  | cons i is ih =>
    have hrest := ih fun j hj => h j (List.mem_cons_of_mem _ hj)
    exact (importCut_deletes (h i List.mem_cons_self)).toTakesOut.append hrest

/-- **The edits of imports** stay inside their lines and the blank lines after them. -/
theorem importCuts_deletes {source : List Char} (noneStays : Bool) {is : List Import}
    (h : ∀ i ∈ is, i.lineSpan.IsPieceOf source)
    (hdisjoint : (is.map (Import.lineAndBlanks source)).Pairwise Span.Disjoint) :
    Deletes source (is.map (Import.lineAndBlanks source))
      ((importCuts source noneStays is).map .delete) (importCuts source noneStays is) [] := by
  induction is with
  | nil => exact .nil
  | cons i is ih =>
    rw [List.map_cons, List.pairwise_cons] at hdisjoint
    rw [importCuts]
    have hrest := ih (fun j hj => h j (List.mem_cons_of_mem _ hj)) hdisjoint.2
    refine (importCut_deletes (h i List.mem_cons_self)).append hrest fun s hs t ht => ?_
    rw [List.mem_singleton.1 hs]
    exact hdisjoint.1 t ht

/-! ## Edits of a file -/

namespace Removal

variable (r : Removal) (index : TypeIndex) (unit : CompilationUnit)

theorem filter_not_contains_filter {p : Import → Bool} (is : List Import) :
    (is.filter fun i => !(is.filter p).contains i) = is.filter fun i => !p i := by
  refine List.filter_congr fun i hi => ?_
  have hmem : (is.filter p).contains i = p i := by
    rw [Bool.eq_iff_iff, List.contains_iff_mem, List.mem_filter]
    exact ⟨And.right, fun hp => ⟨hi, hp⟩⟩
  rw [hmem]

theorem goneImports_eq :
    (unit.imports.filter fun i =>
        !((r.visitUnit index unit).changed.getD unit).imports.contains i) =
      r.goneImports index unit := by
  rw [visitUnit_imports, goneImports]
  split
  · rw [filter_not_contains_filter]
    simp
  · simp

theorem goneImports_sublist : (r.goneImports index unit).Sublist unit.imports := by
  unfold goneImports
  split
  · exact List.filter_sublist
  · exact List.nil_sublist _

/-- Whether an import stays only matters where one goes. -/
theorem importCuts_goneImports (source : List Char) :
    importCuts source ((r.visitUnit index unit).changed.getD unit).imports.isEmpty
        (r.goneImports index unit) =
      importCuts source (unit.imports.all (·.importsType r.exception))
        (r.goneImports index unit) := by
  rw [visitUnit_imports, goneImports]
  split
  · congr 1
    rw [Bool.eq_iff_iff]
    simp
  · rfl

/-- The edits of a file, method by method and import by import. -/
theorem rewriteEdits?_eq_some {source : List Char}
    (h : ∀ i ∈ unit.imports, i.lineSpan.IsPieceOf source) :
    rewriteEdits? source unit ((r.visitUnit index unit).changed.getD unit) =
      some ((unit.ownedMethods.flatMap fun owned =>
          methodEdits owned.2 (r.stripped index unit owned.1 owned.2)) ++
        (importCuts source (unit.imports.all (·.importsType r.exception))
          (r.goneImports index unit)).map .delete) := by
  have hpieces : ∀ i ∈ r.goneImports index unit, i.lineSpan.IsPieceOf source :=
    fun i hi => h i ((r.goneImports_sublist index unit).subset hi)
  rw [rewriteEdits?, importEdits?, goneImports_eq, importEditsOf?_eq_some hpieces,
    importCuts_goneImports, Option.map_some, visitUnit_types, typesEdits_mapMethods]
  rfl

/-- **The edits of a file** stay inside its clauses and the lines of its imports, and take out
    what a visit takes out. -/
theorem rewriteEdits?_deletes {source : List Char} (h : unit.InPlace source) :
    ∃ edits,
      rewriteEdits? source unit ((r.visitUnit index unit).changed.getD unit) = some edits ∧
      Deletes source
        (unit.ownedMethods.flatMap (fun owned => owned.2.clauseRanges) ++
          (r.goneImports index unit).map (Import.lineAndBlanks source))
        edits (r.cuts index unit source) (r.keptEntries index unit ++ []) := by
  have hgone := r.goneImports_sublist index unit
  obtain ⟨hclauses, himports, hmeet⟩ := List.pairwise_append.1 h.disjoint
  have hmethods := Deletes.flatMap
    (fun owned howned => r.methodEdits_deletes index unit owned.1 owned.2
      (h.clauses owned howned)) hclauses
  have hlines := importCuts_deletes (unit.imports.all (·.importsType r.exception))
    (fun i hi => h.imports i (hgone.subset hi)) (himports.sublist (hgone.map _))
  exact ⟨_, r.rewriteEdits?_eq_some index unit h.imports,
    hmethods.append hlines fun s hs t ht => hmeet s hs t ((hgone.map _).subset ht)⟩

/-- The edits of a file take out what a visit takes out, whether or not they meet. -/
theorem rewriteEdits?_takesOut {source : List Char}
    (hclauses : ∀ owned ∈ unit.ownedMethods, owned.2.throwsEntries ≠ [] →
      owned.2.ClauseInPlace source)
    (himports : ∀ i ∈ unit.imports, i.lineSpan.IsPieceOf source) :
    ∃ edits,
      rewriteEdits? source unit ((r.visitUnit index unit).changed.getD unit) = some edits ∧
      TakesOut source edits (r.cuts index unit source) := by
  have hmethods := TakesOut.flatMap fun owned howned =>
    (r.methodEdits_deletes index unit owned.1 owned.2 (hclauses owned howned)).toTakesOut
  have hlines := importCuts_takesOut (unit.imports.all (·.importsType r.exception))
    fun i hi => himports i ((r.goneImports_sublist index unit).subset hi)
  exact ⟨_, r.rewriteEdits?_eq_some index unit himports, hmethods.append hlines⟩

/-- A visit that changes nothing takes nothing out. -/
theorem cuts_of_changed_eq_none (source : List Char)
    (h : (r.visitUnit index unit).changed = none) : r.cuts index unit source = [] := by
  have hremovals := (r.visitUnit_changed_eq_none_iff index unit).1 h
  have hgone : r.goneImports index unit = [] := by
    rw [goneImports, if_neg fun himport => r.visitUnit_importRemoved index unit himport hremovals]
  rw [visitUnit_removals, removalsOf, List.filterMap_eq_nil_iff] at hremovals
  rw [cuts, hgone, importCuts, List.append_nil, List.flatMap_eq_nil_iff]
  intro owned howned
  refine throwsCuts_of_throws_eq ?_
  by_contra hne
  have hsome := hremovals owned howned
  rw [removedThrow?, if_neg (Ne.symm hne)] at hsome
  exact absurd hsome (by simp)

/-- The text after the edits is printed exactly if it is well formed. -/
theorem printRewrite_of_apply {source text : List Char} {after : CompilationUnit}
    {edits : List Edit} (hedits : rewriteEdits? source unit after = some edits)
    (happly : Edit.apply source edits = .ok text) :
    printRewrite source unit (some after) =
      match CompilationUnit.parse text with
      | .ok _ => .ok text
      | .error (.malformed place) => .error (.invalidSyntax place) := by
  simp only [printRewrite, hedits, Edit.applyVerified, happly, bind, Except.bind]
  rfl

/-- What is printed for a file that is in place, disjoint or not: the text without the cuts. -/
theorem printRewrite_eq_cut {source text : List Char}
    (hclauses : ∀ owned ∈ unit.ownedMethods, owned.2.throwsEntries ≠ [] →
      owned.2.ClauseInPlace source)
    (himports : ∀ i ∈ unit.imports, i.lineSpan.IsPieceOf source)
    (h : printRewrite source unit (r.visitUnit index unit).changed = .ok text) :
    text = Text.cut (r.cuts index unit source) source := by
  cases hv : (r.visitUnit index unit).changed with
  | none =>
    rw [hv] at h
    rw [r.cuts_of_changed_eq_none index unit source hv, Text.cut, Text.cutFrom_nil]
    exact (Except.ok.inj h).symm
  | some after =>
    -- Edits that meet are refused, so those that have been applied do not.
    obtain ⟨edits, hedits, htakes⟩ := r.rewriteEdits?_takesOut index unit hclauses himports
    rw [hv, Option.getD_some] at hedits
    rw [hv] at h
    cases happly : Edit.apply source edits with
    | error e =>
      simp [printRewrite, hedits, Edit.applyVerified, happly, bind, Except.bind] at h
    | ok applied =>
      rw [printRewrite_of_apply unit hedits happly] at h
      rw [← htakes.eq_cut happly]
      split at h
      · exact (Except.ok.inj h).symm
      · cases h

/-- What is printed for a file whose clauses and imports do not meet. -/
theorem printRewrite_of_inPlace {source : List Char} (h : unit.InPlace source) :
    let text := Text.cut (r.cuts index unit source) source
    printRewrite source unit (r.visitUnit index unit).changed = .ok text ∨
      ∃ place, CompilationUnit.parse text = .error (.malformed place) ∧
        printRewrite source unit (r.visitUnit index unit).changed =
          .error (.invalidSyntax place) := by
  intro text
  cases hv : (r.visitUnit index unit).changed with
  | none =>
    left
    simp only [text, r.cuts_of_changed_eq_none index unit source hv, Text.cut, Text.cutFrom_nil,
      printRewrite]
  | some after =>
    obtain ⟨edits, hedits, hdeletes⟩ := r.rewriteEdits?_deletes index unit h
    rw [hv, Option.getD_some] at hedits
    rw [printRewrite_of_apply unit hedits hdeletes.apply.2]
    cases hparse : CompilationUnit.parse text with
    | ok => exact .inl rfl
    | error e =>
      obtain ⟨place⟩ := e
      exact .inr ⟨place, rfl, rfl⟩

theorem rewrite_eq_ok_iff {source : List Char} {out : Rewritten} :
    r.rewrite index source unit = .ok out ↔
      printRewrite source unit (r.visitSource index source unit).changed = .ok out.text ∧
        out.log = (r.visitSource index source unit).log := by
  have hmap : r.rewrite index source unit =
      (printRewrite source unit (r.visitSource index source unit).changed).map
        fun text => ⟨text, (r.visitSource index source unit).log⟩ := rfl
  rw [hmap]
  cases printRewrite source unit (r.visitSource index source unit).changed with
  | error e => simp [Except.map]
  | ok text =>
    simp only [Except.map, Except.ok.injEq]
    constructor
    · rintro rfl
      exact ⟨rfl, rfl⟩
    · rintro ⟨rfl, hlog⟩
      rw [← hlog]

/-- A rewrite of a file whose clauses and imports do not meet succeeds if what it leaves is well
    formed. -/
theorem rewrite_of_inPlace {source text : List Char} (h : unit.InPlace source)
    (hgate : ¬ (quickReject r.pattern source || !declaresMatch r.pattern unit))
    (htext : Text.cut (r.cuts index unit source) source = text)
    (hparse : (CompilationUnit.parse text).toOption.isSome) :
    ∃ out, r.rewrite index source unit = .ok out ∧ out.text = text ∧
      out.log = (r.visitUnit index unit).log := by
  have hvisit : r.visitSource index source unit = r.visitUnit index unit := if_neg hgate
  have hprint : printRewrite source unit (r.visitUnit index unit).changed = .ok text := by
    rcases r.printRewrite_of_inPlace index unit h with hprint | ⟨place, hbad, -⟩
    · rwa [htext] at hprint
    · rw [htext] at hbad
      simp [hbad, Except.toOption] at hparse
  exact ⟨⟨text, _⟩, (r.rewrite_eq_ok_iff index unit).2 ⟨hvisit ▸ hprint, by rw [hvisit]⟩, rfl, rfl⟩

/-- **The edits of a visited file are exact.** If the clauses and the import lines of a file lie in
    its text and do not meet, the edits for the visited file pass the check, and applying them
    leaves the text without what the removal takes out: clauses that have lost all entries, lost
    entries with one separator each, and lines of lost imports. No byte of an entry that stays is
    touched, and this text is printed unless it is not well formed. -/
theorem apply_rewriteEdits {source : List Char} (h : unit.InPlace source) :
    let visited := (r.visitUnit index unit).changed
    let text := Text.cut (r.cuts index unit source) source
    (∃ edits, rewriteEdits? source unit (visited.getD unit) = some edits ∧
      Edit.validate source edits = .ok () ∧ Edit.apply source edits = .ok text) ∧
    (∀ cut ∈ r.cuts index unit source, ∀ k ∈ r.keptEntries index unit, cut.Disjoint k.span) ∧
    (printRewrite source unit visited = .ok text ∨
      ∃ place, printRewrite source unit visited = .error (.invalidSyntax place)) := by
  intro visited text
  obtain ⟨edits, hedits, hdeletes⟩ := r.rewriteEdits?_deletes index unit h
  obtain ⟨hvalid, happly⟩ := hdeletes.apply
  refine ⟨⟨edits, hedits, hvalid, happly⟩, by simpa using hdeletes.keeps, ?_⟩
  rcases r.printRewrite_of_inPlace index unit h with hprint | ⟨place, -, hprint⟩
  · exact .inl hprint
  · exact .inr ⟨place, hprint⟩

set_option maxRecDepth 20000 in
theorem apply_rewriteEdits_two_methods :
    let source := "import a.E;\n\nclass A{void f()throws E,F{}void g()throws E{}}".toList
    let unit := (CompilationUnit.parse source).toOption.getD default
    let r := (Recipe.compile ⟨"* *(..)", "a.E", none⟩).toOption.getD default
    let visited := (r.visitUnit (.build [unit]) unit).changed
    unit.InPlace source ∧
      ∃ edits, rewriteEdits? source unit (visited.getD unit) = some edits ∧
        Edit.apply source edits = .ok "class A{void f()throws F{}void g(){}}".toList := by
  intro source unit r visited
  have hplace : unit.InPlace source := by decide +kernel
  have htext : Text.cut (r.cuts (.build [unit]) unit source) source =
      "class A{void f()throws F{}void g(){}}".toList := by decide +kernel
  obtain ⟨⟨edits, hedits, -, happly⟩, -, -⟩ :=
    apply_rewriteEdits r (.build [unit]) unit hplace
  exact ⟨hplace, edits, hedits, htext ▸ happly⟩

end Removal

end JavaThrows
