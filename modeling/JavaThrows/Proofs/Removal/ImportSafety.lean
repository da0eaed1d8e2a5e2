import JavaThrows.Proofs.Removal.Names

set_option autoImplicit false

/-!
# When the import of the exception may go

An import goes when its simple name is none of the recorded names of the visited file. A name that a
rewrite leaves in the text of a file is recorded with the visited file, or it stands in a place
where names are not recorded. So dropping the import is safe up to these places, and it is unsafe
exactly if one of them holds the name of the exception. Main statement: `import_safe_iff`.
-/

namespace JavaThrows

open JavaThrows.Cst

/-! ## Recorded names of a visited file -/

-- Names are recorded apart from the throws clauses, which are all that a visit changes.
mutual
theorem mem_referencedNames_mapMethods {f : TypeHead → Method → Method}
    (hf : ∀ enclosing m, (f enclosing m).references = m.references) (d : TypeDecl) {x : NameRef}
    (hx : x ∈ d.nameRefs) : x.name ∈ (d.mapMethods f).referencedNames := by
  match d with
  | .mk head members =>
    rw [TypeDecl.nameRefs, List.mem_append] at hx
    rw [TypeDecl.mapMethods, TypeDecl.referencedNames, List.mem_append]
    exact hx.imp (List.mem_map_of_mem (f := NameRef.name))
      (mem_namesOfMembers_mapMethods hf head members)

theorem mem_namesOfMembers_mapMethods {f : TypeHead → Method → Method}
    (hf : ∀ enclosing m, (f enclosing m).references = m.references) (enclosing : TypeHead)
    (ms : List Member) {x : NameRef} (hx : x ∈ nameRefsOfMembers ms) :
    x.name ∈ namesOfMembers (mapMethodsOfMembers f enclosing ms) := by
  match ms with
  | [] => simp [nameRefsOfMembers] at hx
  | .method m locals :: ms =>
    rw [nameRefsOfMembers, List.mem_append, List.mem_append] at hx
    rw [mapMethodsOfMembers, namesOfMembers, List.mem_append, List.mem_append]
    refine hx.imp (Or.imp (fun hx => ?_) (mem_namesOfTypes_mapMethods hf locals))
      (mem_namesOfMembers_mapMethods hf enclosing ms)
    rw [Method.referencedNames, hf]
    exact List.mem_append_left _ (List.mem_map_of_mem hx)
  | .type d :: ms =>
    rw [nameRefsOfMembers, List.mem_append] at hx
    rw [mapMethodsOfMembers, namesOfMembers, List.mem_append]
    exact hx.imp (mem_referencedNames_mapMethods hf d)
      (mem_namesOfMembers_mapMethods hf enclosing ms)

theorem mem_namesOfTypes_mapMethods {f : TypeHead → Method → Method}
    (hf : ∀ enclosing m, (f enclosing m).references = m.references) (ds : List TypeDecl)
    {x : NameRef} (hx : x ∈ nameRefsOfTypes ds) :
    x.name ∈ namesOfTypes (mapMethodsOfTypes f ds) := by
  match ds with
  | [] => simp [nameRefsOfTypes] at hx
  | d :: ds =>
    rw [nameRefsOfTypes, List.mem_append] at hx
    rw [mapMethodsOfTypes, namesOfTypes, List.mem_append]
    exact hx.imp (mem_referencedNames_mapMethods hf d) (mem_namesOfTypes_mapMethods hf ds)
end

mutual
theorem leadingName_mem_referencedNames {f : TypeHead → Method → Method} (d : TypeDecl)
    {owned : TypeHead × Method} (howned : owned ∈ d.ownedMethods) {e : TypeRef}
    (he : e ∈ (f owned.1 owned.2).throwsEntries) :
    e.leadingName ∈ (d.mapMethods f).referencedNames := by
  match d with
  | .mk head members =>
    rw [TypeDecl.mapMethods, TypeDecl.referencedNames]
    exact List.mem_append_right _ (leadingName_mem_namesOfMembers head members howned he)

theorem leadingName_mem_namesOfMembers {f : TypeHead → Method → Method} (enclosing : TypeHead)
    (ms : List Member) {owned : TypeHead × Method}
    (howned : owned ∈ ownedMethodsOfMembers enclosing ms) {e : TypeRef}
    (he : e ∈ (f owned.1 owned.2).throwsEntries) :
    e.leadingName ∈ namesOfMembers (mapMethodsOfMembers f enclosing ms) := by
  match ms with
  | [] => simp [ownedMethodsOfMembers] at howned
  | .method m locals :: ms =>
    rw [ownedMethodsOfMembers, List.mem_append, List.mem_cons] at howned
    rw [mapMethodsOfMembers, namesOfMembers, List.mem_append, List.mem_append]
    rcases howned with howned | rfl | howned
    · exact .inl (.inr (leadingName_mem_namesOfTypes locals howned he))
    · exact .inl (.inl (List.mem_append_right _ (List.mem_map_of_mem he)))
    · exact .inr (leadingName_mem_namesOfMembers enclosing ms howned he)
  | .type d :: ms =>
    rw [ownedMethodsOfMembers, List.mem_append] at howned
    rw [mapMethodsOfMembers, namesOfMembers, List.mem_append]
    exact howned.imp (leadingName_mem_referencedNames d · he)
      (leadingName_mem_namesOfMembers enclosing ms · he)

theorem leadingName_mem_namesOfTypes {f : TypeHead → Method → Method} (ds : List TypeDecl)
    {owned : TypeHead × Method} (howned : owned ∈ ownedMethodsOfTypes ds) {e : TypeRef}
    (he : e ∈ (f owned.1 owned.2).throwsEntries) :
    e.leadingName ∈ namesOfTypes (mapMethodsOfTypes f ds) := by
  match ds with
  | [] => simp [ownedMethodsOfTypes] at howned
  | d :: ds =>
    rw [ownedMethodsOfTypes, List.mem_append] at howned
    rw [mapMethodsOfTypes, namesOfTypes, List.mem_append]
    exact howned.imp (leadingName_mem_referencedNames d · he)
      (leadingName_mem_namesOfTypes ds · he)
end

/-! ## What a rewrite leaves -/

namespace Removal

variable (r : Removal) (index : TypeIndex) (unit : CompilationUnit)

theorem references_stripped (enclosing : TypeHead) (m : Method) :
    (r.stripped index unit enclosing m).references = m.references := by
  unfold stripped
  split <;> rfl

/-- The simple name of an import that goes is no recorded name of the visited file. -/
theorem lastSegment_not_mem_namesOfTypes (h : (r.visitUnit index unit).log.importRemoved) :
    Text.lastSegment r.exception ∉
      namesOfTypes (mapMethodsOfTypes (r.stripped index unit) unit.types) := by
  have htypes := r.visitUnit_types index unit
  cases hc : (r.visitTypes index unit unit.types).changed with
  | none => simp [r.visitUnit_of_changed_eq_none index unit hc] at h
  | some types =>
    rw [r.visitUnit_of_changed_eq_some index unit hc] at h htypes
    rw [Option.getD_some, dropUnusedImport_types] at htypes
    simp only [CompilationUnit.hasUnusedImport, CompilationUnit.referencedNames] at h
    split at h
    · next i hi =>
      -- The import that is found is that of the exception, so both have one simple name.
      have hpath := List.find?_some hi
      simp only [Import.importsType, Bool.and_eq_true, beq_iff_eq] at hpath
      rw [← htypes, ← hpath.2]
      simpa [Import.simpleName] using h
    · cases h

/-- An entry that a clause loses lies inside one of the cuts. -/
theorem exists_mem_cuts {source : List Char} {owned : TypeHead × Method}
    (howned : owned ∈ unit.ownedMethods) (hplace : owned.2.ClauseInPlace source) {e : TypeRef}
    (he : e ∈ owned.2.throwsEntries)
    (hgone : e ∉ (r.stripped index unit owned.1 owned.2).throwsEntries) :
    ∃ s ∈ r.cuts index unit source, e.span.Inside s := by
  suffices h : ∃ s ∈ throwsCuts owned.2 (r.stripped index unit owned.1 owned.2),
      e.span.Inside s by
    obtain ⟨s, hs, hinside⟩ := h
    exact ⟨s, List.mem_append_left _ (List.mem_flatMap.2 ⟨owned, howned, hs⟩), hinside⟩
  unfold throwsCuts
  unfold Method.throwsEntries at hgone
  split
  · have hsome : ¬ owned.2.throws.isNone := by
      intro hnone
      rw [Option.isNone_iff_eq_none] at hnone
      simp [Method.throwsEntries, hnone] at he
    rw [if_neg hsome]
    exact ⟨_, List.mem_singleton_self _, hplace.inside e he⟩
  · next kept hkept =>
    refine exists_mem_entryCuts hplace.inOrder (by simp) he ?_
    simpa [hkept] using hgone

/-- **A name that is recorded stays recorded**, or its entry is taken out. -/
theorem mem_names_or_taken {source : List Char}
    (hclauses : ∀ owned ∈ unit.ownedMethods, owned.2.throwsEntries ≠ [] →
      owned.2.ClauseInPlace source) {x : NameRef} (hx : TypesRecord unit.types x) :
    x.name ∈ namesOfTypes (mapMethodsOfTypes (r.stripped index unit) unit.types) ∨
      ∃ s ∈ r.cuts index unit source, x.span.Inside s := by
  rcases hx with hx | ⟨owned, howned, e, he, hname, hinside⟩
  · exact .inl (mem_namesOfTypes_mapMethods (r.references_stripped index unit) unit.types hx)
  · -- The name leads an entry, which stays or goes as a whole.
    by_cases hkept : e ∈ (r.stripped index unit owned.1 owned.2).throwsEntries
    · left
      rw [hname]
      exact leadingName_mem_namesOfTypes unit.types howned hkept
    · right
      have hplace := hclauses owned howned (List.ne_nil_of_mem he)
      obtain ⟨s, hs, hes⟩ := r.exists_mem_cuts index unit howned hplace he hkept
      exact ⟨s, hs, Nat.le_trans hes.start hinside.start, Nat.le_trans hinside.stop hes.stop⟩

end Removal

/-! ## Names that an import provides -/

mutual
/-- Where the names behind the points of a type stand. -/
def segmentsOf : Node → List Span
  | ⟨kind, _, _, _, children⟩ =>
    if kind == "scoped_type_identifier" then
      ((children.drop 1).filter isName).map Node.span ++ segmentsIn children
    else if kind == "generic_type" || kind == "array_type" || kind == "annotated_type" then
      segmentsIn children
    else []

def segmentsIn : List Node → List Span
  | [] => []
  | n :: ns => segmentsOf n ++ segmentsIn ns
end

/-- The names of a file outside its package and its imports, without those behind the points of the
    entries of throws clauses. -/
def importableNames (source : List Char) (root : Node) : List NameRef :=
  let segments := (Node.listOfKind "throws" root.children).flatMap fun clause =>
    segmentsIn (entryNodes clause)
  (fileNames source root).filter fun x => !segments.contains x.span

/-- The names that none of the cuts takes out. -/
def namesLeft (source : List Char) (root : Node) (cuts : List Span) : List NameRef :=
  (importableNames source root).filter fun x => cuts.all fun s => !decide (x.span.Inside s)

/-- **A name that is left is not that of an import that goes**, blind places apart. -/
theorem ne_lastSegment_or_blind {source : List Char} {root : Node} (r : Removal)
    (index : TypeIndex) (h : javaTree source = some root)
    (himport : (r.visitUnit index (.ofTree source root)).log.importRemoved) {x : NameRef}
    (hx : x ∈ namesLeft source root (r.cuts index (.ofTree source root) source)) :
    x.name ≠ Text.lastSegment r.exception ∨ FileBlind source root x := by
  obtain ⟨hx, hleft⟩ := List.mem_filter.1 hx
  refine (recorded_or_blind h (List.mem_filter.1 hx).1).imp_left fun hrecord heq => ?_
  rcases r.mem_names_or_taken index _ (clauseInPlace_of_javaTree h) hrecord with
    hname | ⟨s, hs, hinside⟩
  · exact r.lastSegment_not_mem_namesOfTypes index _ himport (heq ▸ hname)
  · have := List.all_eq_true.1 hleft s hs
    simp [hinside] at this

/-- **When dropping the import of the exception is safe.** If a rewrite of a file that has been read
    drops the import, the text that it prints is the text of the file without the cuts, and the
    names that are left in it are other names than that of the exception exactly if those in blind
    places are. -/
theorem import_safe_iff {source : List Char} {root : Node} {r : Removal} {index : TypeIndex}
    {out : Rewritten} (h : javaTree source = some root)
    (hout : r.rewrite index source (.ofTree source root) = .ok out)
    (himport : out.log.importRemoved) :
    let cuts := r.cuts index (.ofTree source root) source
    out.text = Text.cut cuts source ∧
      ((∀ x ∈ namesLeft source root cuts, x.name ≠ Text.lastSegment r.exception) ↔
        ∀ x ∈ namesLeft source root cuts, FileBlind source root x →
          x.name ≠ Text.lastSegment r.exception) := by
  have hlog : out.log ≠ ⟨[], false⟩ := by
    intro hlog
    simp [hlog] at himport
  obtain ⟨hvisit, htext⟩ := Removal.rewrite_eq_cut h hout hlog
  rw [hvisit] at himport
  refine ⟨htext, fun hsafe x hx _ => hsafe x hx, fun hblind x hx => ?_⟩
  exact (ne_lastSegment_or_blind r index h himport hx).elim id (hblind x hx)

set_option maxRecDepth 20000 in
/-- A field at the top level has the type of the exception and belongs to no type. -/
theorem import_safe_iff_top_level_field :
    let source := "import a.E;class A{void f()throws E{}}E g;".toList
    let root := (javaTree source).getD default
    let unit := CompilationUnit.ofTree source root
    let r := (Recipe.compile ⟨"* *(..)", "a.E", none⟩).toOption.getD default
    let index := TypeIndex.build [unit]
    let text := "class A{void f(){}}E g;".toList
    (∃ out, r.rewrite index source unit = .ok out ∧ out.text = text ∧ out.log.importRemoved) ∧
      ∃ x ∈ namesLeft source root (r.cuts index unit source),
        FileBlind source root x ∧ x.name = "E" := by
  intro source root unit r index text
  obtain ⟨hsome, hplace, hgate, htext, hparse, himport, hexception, x, hx, hname⟩ :
      (javaTree source).isSome ∧ unit.InPlace source ∧
      ¬ (Removal.quickReject r.pattern source || !Removal.declaresMatch r.pattern unit) ∧
      Text.cut (r.cuts index unit source) source = text ∧
      (CompilationUnit.parse text).toOption.isSome ∧
      (r.visitUnit index unit).log.importRemoved ∧ Text.lastSegment r.exception = "E" ∧
      ∃ x ∈ namesLeft source root (r.cuts index unit source), x.name = "E" := by
    decide +kernel
  have hroot : javaTree source = some root := by
    obtain ⟨n, hn⟩ := Option.isSome_iff_exists.1 hsome
    rw [hn]
    exact congrArg some (congrArg (Option.getD · default) hn).symm
  obtain ⟨out, hout, houttext, hlog⟩ := r.rewrite_of_inPlace index unit hplace hgate htext hparse
  rw [← hlog] at himport
  refine ⟨⟨out, hout, houttext, himport⟩, ?_⟩
  obtain ⟨-, -, hblind⟩ := import_safe_iff hroot hout himport
  rw [hexception] at hblind
  by_contra hnone
  exact hblind (fun y hy hyblind hyname => hnone ⟨y, hy, hyblind, hyname⟩) x hx hname

set_option maxRecDepth 20000 in
/-- The annotation of another exception uses the exception, and the import goes. -/
theorem import_removed_under_annotation :
    let source := "import a.E;class A{void f()throws E{}void g()throws @B(E.class) F{}}".toList
    let unit := (CompilationUnit.parse source).toOption.getD default
    let r := (Recipe.compile ⟨"A f()", "a.E", none⟩).toOption.getD default
    let text := "class A{void f(){}void g()throws @B(E.class) F{}}".toList
    let again := (javaTree text).getD default
    (∃ out, r.rewrite (.build [unit]) source unit = .ok out ∧ out.text = text ∧
      out.log.importRemoved) ∧
    ∃ x ∈ importableNames text again, x.name = "E" := by
  intro source unit r text again
  obtain ⟨hplace, hgate, htext, hparse, himport, hname⟩ :
      unit.InPlace source ∧
      ¬ (Removal.quickReject r.pattern source || !Removal.declaresMatch r.pattern unit) ∧
      Text.cut (r.cuts (.build [unit]) unit source) source = text ∧
      (CompilationUnit.parse text).toOption.isSome ∧
      (r.visitUnit (.build [unit]) unit).log.importRemoved ∧
      ∃ x ∈ importableNames text again, x.name = "E" := by
    decide +kernel
  obtain ⟨out, hout, houttext, hlog⟩ := r.rewrite_of_inPlace _ unit hplace hgate htext hparse
  rw [← hlog] at himport
  exact ⟨⟨out, hout, houttext, himport⟩, hname⟩

end JavaThrows
