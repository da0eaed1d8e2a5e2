import JavaThrows.Proofs.Decl.Distributed
import JavaThrows.Proofs.Removal.FileOrder

set_option autoImplicit false

/-!
# Types of a package that stand in several files

A file tells what it declares itself, and the index completes what it leaves open. So it does not
matter in which of several files of a package a type stands, as far as simple names go: what one
file knows of its own types, the index knows of those of the other files. A qualified name is no
name that the index completes. Where it begins with a type of another file, it is taken as it is
written, while the file that declares the type gives its full name. Main statement:
`Distribution.sameTypes`.
-/

namespace JavaThrows

open Cst Text TypeIndex

/-! ## The types of a row in another order -/

/-- Types that stand apart are found by their full names in every order. -/
theorem filter_allOfTypes_eq_of_perm {ds ds' : List TypeDecl} (hperm : ds.Perm ds')
    (hapart : ds.Pairwise fun d e => ∀ t ∈ d.all, ∀ u ∈ e.all, t.fqn ≠ u.fqn) (fqn : String) :
    (allOfTypes ds).filter (fun t => t.fqn == fqn) =
      (allOfTypes ds').filter fun t => t.fqn == fqn := by
  induction hperm with
  | nil => rfl
  | cons d _ ih =>
    rw [allOfTypes, allOfTypes, List.filter_append, List.filter_append,
      ih (List.pairwise_cons.1 hapart).2]
  | swap d e ds =>
    have hde := (List.pairwise_cons.1 hapart).1 d List.mem_cons_self
    -- One of the two has nothing of that name.
    have hnone : (e.all.filter fun t => t.fqn == fqn) = [] ∨
        (d.all.filter fun t => t.fqn == fqn) = [] := by
      by_cases he : ∃ t ∈ e.all, t.fqn = fqn
      · obtain ⟨t, ht, rfl⟩ := he
        exact .inr (List.filter_eq_nil_iff.2 fun u hu => by simpa using (hde t ht u hu).symm)
      · exact .inl (List.filter_eq_nil_iff.2 fun t ht => by simpa using fun heq => he ⟨t, ht, heq⟩)
    simp only [allOfTypes, List.filter_append]
    rcases hnone with hnone | hnone <;> simp [hnone]
  | trans hperm _ ih ih' =>
    have hsymm : ∀ {d e : TypeDecl}, (∀ t ∈ d.all, ∀ u ∈ e.all, t.fqn ≠ u.fqn) →
        ∀ t ∈ e.all, ∀ u ∈ d.all, t.fqn ≠ u.fqn := fun h t ht u hu => (h u hu t ht).symm
    rw [ih hapart, ih' ((hperm.pairwise_iff hsymm).1 hapart)]

namespace ParsedFile

theorem parse (f : ParsedFile) : CompilationUnit.parse f.source = .ok f.unit := by
  rw [CompilationUnit.parse, f.tree]
  rfl

/-- All types of a file are inside of those at the top level. -/
theorem inside_of_mem_all (f : ParsedFile) {d : TypeDecl} (hd : d ∈ f.unit.types) :
    ∀ t ∈ d.all, Inside d.fqn t.fqn := by
  obtain ⟨-, -, -, count, hinner⟩ := namedType_of_parse f.parse d hd
  cases d with
  | mk head ms =>
    rw [TypeDecl.all, List.forall_mem_cons, allOfMembers_eq]
    exact ⟨.refl head.fqn, hinner.inside⟩

/-- Types at the top level with all that is inside of them stand apart. -/
theorem Lawful.apart_all {f : ParsedFile} (h : f.Lawful) :
    f.unit.types.Pairwise fun d e => ∀ t ∈ d.all, ∀ u ∈ e.all, t.fqn ≠ u.fqn := by
  have hapart := h.apart
  rw [typeNames, List.pairwise_map] at hapart
  refine hapart.imp_of_mem fun {d e} hd he hde t ht u hu heq => ?_
  obtain ⟨-, hfqn, hword, -⟩ := namedType_of_parse f.parse d hd
  obtain ⟨-, hfqn', hword', -⟩ := namedType_of_parse f.parse e he
  have hpoint : ∀ {name : String}, (∀ c ∈ name.toList, isWordChar c) → '.' ∉ name.toList :=
    fun hword hpoint => absurd (hword '.' hpoint) (by decide +kernel)
  have hin := hfqn ▸ f.inside_of_mem_all hd t ht
  have hin' := hfqn' ▸ f.inside_of_mem_all he u hu
  exact hin.disjoint (hpoint hword) (hpoint hword') hde.1 hde.2 (heq ▸ hin')

end ParsedFile

/-! ## The same types -/

/-- The index over the files. -/
def indexOf (files : List ParsedFile) : TypeIndex :=
  build (files.map ParsedFile.unit)

/-- What is written is a qualified name that begins with a type of another file. There a full name
    is read, unless the file that misses the type would read the same one by chance. -/
structure ParsedFile.Crosses (whole part : ParsedFile) (r : TypeRef) : Prop where
  misses : whole.Misses part r.firstName
  qualified : r.isSimple = false
  ambiguous : whole.unit.packagePrefix ≠ "" ∨ r.firstName ∈ JavaLang.types ∨
    '.' ∉ (cutDimensions r.erased).1.toList

/-- The same type, as it stands in the whole and in one of the files. -/
structure SameType (whole part : ParsedFile) (index index' : TypeIndex) (r r' : TypeRef) :
    Prop where
  erased : r.erased = r'.erased
  typeVar : r.typeVar = r'.typeVar
  resolve : index.resolve whole.unit r = index'.resolve part.unit r' ∨ whole.Crosses part r'

section Part

variable {whole part : ParsedFile} {index index' : TypeIndex}

namespace PartOf

theorem onDemandImports (h : PartOf whole part) :
    part.unit.onDemandImports = whole.unit.onDemandImports := by
  have himports := congrArg (fun imports : List Import =>
    (imports.filter fun i => i.isWildcard && !i.isStatic).map Import.path) h.imports
  simpa only [CompilationUnit.onDemandImports, List.filter_map, List.map_map, Function.comp_def,
    Import.withoutLayout] using himports

/-- A type that is not known for sure is looked for under the same names. -/
theorem resolve_of_attribution (h : PartOf whole part)
    (hindex : ∀ fqn, index.contains fqn = index'.contains fqn) {r r' : TypeRef}
    (herased : r.erased = r'.erased) (hdenotes : r.attribution = r'.attribution) :
    index.resolve whole.unit r = index'.resolve part.unit r' := by
  have hfqn : r.fqn = r'.fqn := congrArg Attribution.fqn hdenotes
  have hcertain : r.certain = r'.certain := congrArg Attribution.certain hdenotes
  rw [resolve_congr hindex]
  simp only [resolve, TypeRef.isSimple, herased, hfqn, hcertain, h.packagePrefix,
    h.onDemandImports]

/-- **The index makes up for what a file does not know of a simple name.** -/
theorem resolve_of_crossed (h : PartOf whole part) {hwhole : whole.Lawful}
    (hdeclared : ∀ name ∈ whole.typeNames, index'.contains (whole.unit.packagePrefix ++ name))
    {r r' : TypeRef} (herased : r.erased = r'.erased)
    (hcrossed : (whole.gap hwhole part).Crossed r.erased r.attribution r'.attribution) :
    index.resolve whole.unit r = index'.resolve part.unit r' ∨ whole.Crosses part r' := by
  have hmisses : whole.Misses part r'.firstName := by
    rw [TypeRef.firstName, ← herased]
    exact ParsedFile.misses_gap.1 hcrossed.misses
  have hfqn : r.fqn = some (whole.unit.packagePrefix ++ r'.erased) :=
    herased ▸ congrArg Attribution.fqn hcrossed.whole
  have hcertain : r.certain = true := congrArg Attribution.certain hcrossed.whole
  have hfound : index.resolve whole.unit r = some (whole.unit.packagePrefix ++ r'.erased) := by
    rw [resolve, hcertain, Bool.true_or, if_pos rfl, hfqn]
  rw [hfound]
  cases hsimple : r'.isSimple with
  | true =>
    left
    have hguess : r'.certain = false := hcrossed.simple (by rw [herased]; exact hsimple)
    have hpoint : '.' ∉ (cutDimensions r'.erased).1.toList := fun hmem => by
      have hmem : '.' ∈ r'.erased.toList := by
        rw [← cutDimensions_append r'.erased, String.toList_append]
        exact List.mem_append_left _ hmem
      simp [TypeRef.isSimple, Text.isSimple, hmem] at hsimple
    have hname : r'.firstName = (cutDimensions r'.erased).1 := firstSegment_of_notMem hpoint
    have hcontains := hdeclared r'.firstName hmisses.1
    rw [hname] at hcontains
    rw [resolve, hguess, hsimple, if_neg (by simp), h.packagePrefix]
    dsimp only
    rw [List.map_cons, List.find?_cons_of_pos hcontains]
    dsimp only
    rw [String.append_assoc, cutDimensions_append]
  | false =>
    by_cases hambiguous : whole.unit.packagePrefix ≠ "" ∨ r'.firstName ∈ JavaLang.types ∨
        '.' ∉ (cutDimensions r'.erased).1.toList
    · exact .inr ⟨hmisses, hsimple, hambiguous⟩
    · left
      simp only [not_or, not_not] at hambiguous
      obtain ⟨hunnamed, hlang, hpoint⟩ := hambiguous
      have hqualified := hcrossed.qualified (herased ▸ hpoint)
      rw [herased] at hqualified
      have hfqn' : r'.fqn = some r'.erased := hqualified.resolve_right hlang
      rw [resolve, hsimple, Bool.not_false, Bool.or_true, if_pos rfl, hfqn', hunnamed,
        String.empty_append]

/-- **A type is resolved to the same full name**, unless it crosses. -/
theorem sameType (h : PartOf whole part) {hwhole : whole.Lawful}
    (hindex : ∀ fqn, index.contains fqn = index'.contains fqn)
    (hdeclared : ∀ name ∈ whole.typeNames, index'.contains (whole.unit.packagePrefix ++ name))
    {r r' : TypeRef} (hseen : (whole.gap hwhole part).Seen r r') :
    SameType whole part index index' r r' := by
  rcases hseen.denotes with heq | hcrossed
  · exact ⟨hseen.erased, congrArg Attribution.typeVar heq,
      .inl (h.resolve_of_attribution hindex hseen.erased heq)⟩
  · have hvar : r.typeVar = false := congrArg Attribution.typeVar hcrossed.whole
    have hvar' : r'.typeVar = false := hcrossed.typeVar
    exact ⟨hseen.erased, hvar.trans hvar'.symm,
      h.resolve_of_crossed hdeclared hseen.erased hcrossed⟩

end PartOf

end Part

/-! ## The same summaries -/

/-- The types that the index keeps of a declaration. -/
def TypeDecl.signatureTypes (d : TypeDecl) : List TypeRef :=
  d.head.supertypes ++ d.methods.flatMap fun m => m.params.map Param.type

section Summaries

variable {whole part : ParsedFile} {index index' : TypeIndex}

theorem SameType.erasure {r r' : TypeRef} (h : SameType whole part index index' r r')
    (hcrosses : ¬ whole.Crosses part r') :
    index.erasure whole.unit r = index'.erasure part.unit r' := by
  rw [TypeIndex.erasure, TypeIndex.erasure, h.resolve.resolve_right hcrosses, h.erased]

theorem SameType.superRef {r r' : TypeRef} (h : SameType whole part index index' r r')
    (hindex : ∀ fqn, index.contains fqn = index'.contains fqn)
    (hcrosses : ¬ whole.Crosses part r') :
    index.superRef whole.unit r = index'.superRef part.unit r' := by
  rw [TypeIndex.superRef, TypeIndex.superRef, h.resolve.resolve_right hcrosses, h.erased,
    funext hindex]

theorem erasedParams_eq {m m' : Method}
    (h : Method.Alike (SameType whole part index index') m m')
    (hcrosses : ∀ p ∈ m'.params, ¬ whole.Crosses part p.type) :
    MethodPattern.erasedParams index whole.unit m =
      MethodPattern.erasedParams index' part.unit m' :=
  map_eq_of_forall₂ h.params fun _ _ _ hp' hp => hp.type.erasure (hcrosses _ hp')

theorem signature_eq {m m' : Method} (h : Method.Alike (SameType whole part index index') m m')
    (hcrosses : ∀ p ∈ m'.params, ¬ whole.Crosses part p.type) :
    index.signature whole.unit m = index'.signature part.unit m' := by
  have hparams : m.params.map (fun p => if p.type.typeVar then ParamType.typeVar
        else .exact (index.erasure whole.unit p.type)) =
      m'.params.map fun p => if p.type.typeVar then ParamType.typeVar
        else .exact (index'.erasure part.unit p.type) :=
    map_eq_of_forall₂ h.params fun _ _ _ hp' hp => by
      rw [hp.type.typeVar, hp.type.erasure (hcrosses _ hp')]
  rw [signature, signature, h.name, hparams]

theorem superRefs_eq {head head' : TypeHead}
    (h : TypeHead.Alike (SameType whole part index index') head head')
    (hindex : ∀ fqn, index.contains fqn = index'.contains fqn)
    (hcrosses : ∀ r ∈ head'.supertypes, ¬ whole.Crosses part r) :
    head.supertypes.map (index.superRef whole.unit) =
      head'.supertypes.map (index'.superRef part.unit) :=
  map_eq_of_forall₂ h.supertypes fun _ _ _ hr' hr => hr.superRef hindex (hcrosses _ hr')

/-- **A type has the same summary** in both files. -/
theorem summarize_eq {d d' : TypeDecl} (h : TypeDecl.Alike (SameType whole part index index') d d')
    (hindex : ∀ fqn, index.contains fqn = index'.contains fqn)
    (hcrosses : ∀ r ∈ d'.signatureTypes, ¬ whole.Crosses part r) :
    index.summarize whole.unit d = index'.summarize part.unit d' := by
  rw [TypeDecl.signatureTypes, List.forall_mem_append] at hcrosses
  have hmethods : d.methods.map (index.signature whole.unit) =
      d'.methods.map (index'.signature part.unit) :=
    map_eq_of_forall₂ h.methods fun _ _ m' hm' hm => signature_eq hm fun p hp =>
      hcrosses.2 p.type (List.mem_flatMap.2 ⟨m', hm', List.mem_map_of_mem hp⟩)
  have hfqn : d.fqn = d'.fqn := h.head.fqn
  rw [summarize, summarize, hfqn, h.head.kind, superRefs_eq h.head hindex hcrosses.1, hmethods]

/-- A pattern matches both methods or none of them. -/
theorem isMatch_eq {head head' : TypeHead} {m m' : Method}
    (hhead : TypeHead.Alike (SameType whole part index index') head head')
    (hm : Method.Alike (SameType whole part index index') m m')
    (hindex : ∀ fqn, index.get? fqn = index'.get? fqn)
    (hsupertypes : ∀ r ∈ head'.supertypes, ¬ whole.Crosses part r)
    (hparams : ∀ p ∈ m'.params, ¬ whole.Crosses part p.type) (p : MethodPattern) :
    p.isMatch index whole.unit head m = p.isMatch index' part.unit head' m' := by
  have hname : p.nameMatches m = p.nameMatches m' := by
    rw [MethodPattern.nameMatches, MethodPattern.nameMatches, hm.name, hm.isConstructor]
  have hcontains := contains_eq_of_get? hindex
  simp only [MethodPattern.isMatch, MethodPattern.matchesSupertype, Method.hasAnnotation, hname,
    erasedParams_eq hm hparams, superRefs_eq hhead hcontains hsupertypes, hhead.fqn, hm.name,
    hm.isConstructor, hm.annotations, reaches_eq_of_get? hindex]

/-- An entry of a throws clause names the exception in both files or in none. -/
theorem SameType.isTarget (hpart : PartOf whole part) {e e' : TypeRef}
    (h : SameType whole part index index' e e') (hcrosses : ¬ whole.Crosses part e')
    (r : Removal) : r.isTarget index whole.unit e = r.isTarget index' part.unit e' := by
  have hsimple : e.isSimple = e'.isSimple := congrArg Text.isSimple h.erased
  rw [Removal.isTarget, Removal.isTarget, h.typeVar, h.resolve.resolve_right hcrosses, h.erased,
    hsimple, hpart.onDemandImports]

end Summaries

/-! ## The same index -/

section Index

variable {whole : ParsedFile} {parts : List ParsedFile} {rows : List (List TypeDecl)}
  {index index' : TypeIndex}

theorem allOfTypes_flatten (rows : List (List TypeDecl)) :
    allOfTypes rows.flatten = rows.flatMap allOfTypes := by
  induction rows with
  | nil => rfl
  | cons row rows ih => rw [List.flatten_cons, allOfTypes_append, ih, List.flatMap_cons]

theorem declaredNames_eq_of_rows {R : ParsedFile → TypeRef → TypeRef → Prop}
    (h : List.Forall₂ (fun row part => TypesAlike (R part) row part.unit.types) rows parts) :
    (allOfTypes rows.flatten).map TypeDecl.fqn = declaredNames (parts.map ParsedFile.unit) := by
  rw [allOfTypes_flatten, declaredNames, List.map_flatMap, List.flatMap_map]
  induction h with
  | nil => rfl
  | cons hrow _ ih =>
    rw [List.flatMap_cons, List.flatMap_cons, ih]
    exact congrArg (· ++ _) (map_eq_of_forall₂ hrow fun _ _ _ _ hd => hd.head.fqn)

theorem summaries_eq_of_rows (hindex : ∀ fqn, index.contains fqn = index'.contains fqn)
    (h : List.Forall₂ (fun row part =>
      TypesAlike (SameType whole part index index') row part.unit.types) rows parts)
    (hcrosses : ∀ part ∈ parts, ∀ d ∈ part.unit.allTypes, ∀ r ∈ d.signatureTypes,
      ¬ whole.Crosses part r) :
    (allOfTypes rows.flatten).map (index.summarize whole.unit) =
      (parts.map ParsedFile.unit).flatMap fun u => u.allTypes.map (index'.summarize u) := by
  rw [allOfTypes_flatten, List.map_flatMap, List.flatMap_map]
  induction h with
  | nil => rfl
  | cons hrow _ ih =>
    rw [List.forall_mem_cons] at hcrosses
    rw [List.flatMap_cons, List.flatMap_cons, ih hcrosses.2]
    exact congrArg (· ++ _) (map_eq_of_forall₂ hrow fun _ _ d' hd' hd =>
      summarize_eq hd hindex (hcrosses.1 d' hd'))

theorem contains_indexOf_eq {R : ParsedFile → TypeRef → TypeRef → Prop}
    (hperm : rows.flatten.Perm whole.unit.types)
    (h : List.Forall₂ (fun row part => TypesAlike (R part) row part.unit.types) rows parts)
    (fqn : String) : (indexOf [whole]).contains fqn = (indexOf parts).contains fqn := by
  have hnames : (declaredNames (parts.map ParsedFile.unit)).Perm
      (declaredNames [whole.unit]) := by
    rw [← declaredNames_eq_of_rows h, declaredNames, List.flatMap_singleton,
      CompilationUnit.allTypes, allOfTypes_eq_flatMap, allOfTypes_eq_flatMap]
    exact (hperm.flatMap_right _).map _
  rw [indexOf, indexOf, contains_build, contains_build, contains_names, contains_names,
    Bool.eq_iff_iff, List.contains_iff_mem, List.contains_iff_mem, hnames.mem_iff]
  rfl

theorem get?_indexOf (files : List ParsedFile) (fqn : String) :
    (indexOf files).get? fqn = (((files.map ParsedFile.unit).flatMap fun u =>
      u.allTypes.map ((indexOf files).summarize u)).filter fun s => s.fqn == fqn).getLast? :=
  get?_build_eq_getLast? _ fqn

/-- **A lookup gives the same in both indexes.** -/
theorem get?_indexOf_eq (hwhole : whole.Lawful) (hperm : rows.flatten.Perm whole.unit.types)
    (hindex : ∀ fqn, (indexOf [whole]).contains fqn = (indexOf parts).contains fqn)
    (h : List.Forall₂ (fun row part =>
      TypesAlike (SameType whole part (indexOf [whole]) (indexOf parts)) row part.unit.types)
      rows parts)
    (hcrosses : ∀ part ∈ parts, ∀ d ∈ part.unit.allTypes, ∀ r ∈ d.signatureTypes,
      ¬ whole.Crosses part r) (fqn : String) :
    (indexOf [whole]).get? fqn = (indexOf parts).get? fqn := by
  have hsummaries := summaries_eq_of_rows hindex h hcrosses
  have hfound := filter_allOfTypes_eq_of_perm hperm.symm hwhole.apart_all fqn
  have hfilter (ds : List TypeDecl) :
      (ds.map ((indexOf [whole]).summarize whole.unit)).filter (fun s => s.fqn == fqn) =
        (ds.filter fun d => d.fqn == fqn).map ((indexOf [whole]).summarize whole.unit) :=
    List.filter_map
  calc (indexOf [whole]).get? fqn
      = (((allOfTypes whole.unit.types).map ((indexOf [whole]).summarize whole.unit)).filter
          fun s => s.fqn == fqn).getLast? := by
        rw [get?_indexOf, List.map_singleton, List.flatMap_singleton]
        rfl
    _ = (((allOfTypes rows.flatten).map ((indexOf [whole]).summarize whole.unit)).filter
          fun s => s.fqn == fqn).getLast? := by rw [hfilter, hfilter, hfound]
    _ = (indexOf parts).get? fqn := by rw [hsummaries, get?_indexOf]

end Index

/-! ## Decisions -/

/-- Every pattern matches both methods or none of them, and every entry of their throws clauses that
    does not cross names the exception of a removal in both files or in none. -/
structure SameDecisions (whole part : ParsedFile) (index index' : TypeIndex)
    (head head' : TypeHead) (m m' : Method) : Prop where
  isMatch : ∀ p : MethodPattern,
    p.isMatch index whole.unit head m = p.isMatch index' part.unit head' m'
  isTarget : Option.Rel (List.Forall₂ fun e e' => whole.Crosses part e' ∨
    ∀ r : Removal, r.isTarget index whole.unit e = r.isTarget index' part.unit e')
      m.throws m'.throws

theorem sameDecisions {whole part : ParsedFile} {index index' : TypeIndex}
    (hpart : PartOf whole part) (hindex : ∀ fqn, index.get? fqn = index'.get? fqn)
    {d d' : TypeDecl} (h : TypeDecl.Alike (SameType whole part index index') d d')
    (hcrosses : ∀ r ∈ d'.signatureTypes, ¬ whole.Crosses part r) :
    List.Forall₂ (SameDecisions whole part index index' d.head d'.head) d.methods d'.methods := by
  rw [TypeDecl.signatureTypes, List.forall_mem_append] at hcrosses
  refine (forall₂_mem_right h.methods).imp fun m m' hm => ⟨?_, ?_⟩
  · exact isMatch_eq h.head hm.2 hindex hcrosses.1 fun p hp =>
      hcrosses.2 p.type (List.mem_flatMap.2 ⟨m', hm.1, List.mem_map_of_mem hp⟩)
  · exact rel_imp? hm.2.throws fun es es' hes => hes.imp fun e e' he =>
      (Classical.em (whole.Crosses part e')).imp_right fun hcross => he.isTarget hpart hcross

/-- The full names in the throws clauses of a file, by an index. -/
def ParsedFile.thrownNames (index : TypeIndex) (f : ParsedFile) : List (Option String) :=
  f.unit.allTypes.flatMap fun d => d.methods.flatMap fun m =>
    m.throwsEntries.map (index.resolve f.unit)

end JavaThrows
