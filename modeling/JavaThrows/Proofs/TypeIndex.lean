import JavaThrows.TypeIndex

set_option autoImplicit false

/-!
# The index of the types of a list of files

The index is built in two passes: first only the names are entered, then every type is summarised
against them. What a type resolves to depends on nothing of an index but the names in it, so the
finished index would give the same summaries (`build_summarize`). The summaries of the types are all
that it depends on (`build_congr`), and where no full name is declared twice, it holds exactly the
summary of each declared type. Main statement: `get?_build`.
-/

namespace JavaThrows
namespace TypeIndex

/-! ## Adding summaries -/

theorem contains_eq_isSome_get? (index : TypeIndex) (fqn : String) :
    index.contains fqn = (index.get? fqn).isSome := by
  rw [contains, get?, List.isSome_find?]

theorem find?_map_replace (s : TypeSummary) (fqn : String) (summaries : List TypeSummary) :
    (summaries.map fun t => if t.fqn == s.fqn then s else t).find? (fun t => t.fqn == fqn) =
      if s.fqn == fqn then (summaries.find? fun t => t.fqn == fqn).map fun _ => s
      else summaries.find? fun t => t.fqn == fqn := by
  induction summaries with
  | nil => simp
  | cons t ts ih =>
    rw [List.map_cons, List.find?_cons, List.find?_cons, ih]
    by_cases ht : t.fqn = s.fqn
    · rw [if_pos (by simpa using ht), ht]
      cases s.fqn == fqn <;> rfl
    · rw [if_neg (by simpa using ht)]
      by_cases hs : s.fqn = fqn
      · have hf : (t.fqn == fqn) = false := by simpa [← hs] using ht
        rw [hf]
      · rw [if_neg (by simpa using hs), if_neg (by simpa using hs)]

/-- A summary that is added is what the index knows of its name, and no other name changes. -/
theorem get?_insert (index : TypeIndex) (s : TypeSummary) (fqn : String) :
    (index.insert s).get? fqn = if s.fqn == fqn then some s else index.get? fqn := by
  unfold insert
  cases hc : index.contains s.fqn with
  | true =>
    rw [if_pos rfl, get?, find?_map_replace]
    by_cases hs : s.fqn = fqn
    · rw [contains_eq_isSome_get?, get?, hs] at hc
      obtain ⟨t, ht⟩ := Option.isSome_iff_exists.1 hc
      simp [hs, ht]
    · rw [if_neg (by simpa using hs), if_neg (by simpa using hs), get?]
  | false =>
    rw [contains_eq_isSome_get?, Option.isSome_eq_false_iff, Option.isNone_iff_eq_none, get?] at hc
    rw [if_neg (by simp), get?, List.find?_append]
    by_cases hs : s.fqn = fqn
    · rw [← hs, hc]; simp
    · have hs : (s.fqn == fqn) = false := by simpa using hs
      simp [hs, get?]

theorem get?_insertAll_of_notMem {index : TypeIndex} {summaries : List TypeSummary} {fqn : String}
    (h : fqn ∉ summaries.map TypeSummary.fqn) :
    (index.insertAll summaries).get? fqn = index.get? fqn := by
  unfold insertAll
  induction summaries generalizing index with
  | nil => rfl
  | cons s ss ih =>
    rw [List.map_cons, List.mem_cons, not_or] at h
    rw [List.foldl_cons, ih h.2, get?_insert, if_neg (by simpa using Ne.symm h.1)]

/-- Of several summaries of different types, each is what the index then knows of its type. -/
theorem get?_insertAll_of_mem {index : TypeIndex} {summaries : List TypeSummary} {s : TypeSummary}
    (hnodup : (summaries.map TypeSummary.fqn).Nodup) (hs : s ∈ summaries) :
    (index.insertAll summaries).get? s.fqn = some s := by
  induction summaries generalizing index with
  | nil => cases hs
  | cons t ts ih =>
    rw [List.map_cons, List.nodup_cons] at hnodup
    rcases List.mem_cons.1 hs with rfl | hs
    · show ((index.insert s).insertAll ts).get? s.fqn = some s
      rw [get?_insertAll_of_notMem hnodup.1, get?_insert, if_pos (by simp)]
    · exact ih hnodup.2 hs

/-- Of several summaries of the same type, the last one is what the index then knows of it. -/
theorem get?_insertAll (index : TypeIndex) (summaries : List TypeSummary) (fqn : String) :
    (index.insertAll summaries).get? fqn =
      (summaries.filter fun s => s.fqn == fqn).getLast?.or (index.get? fqn) := by
  unfold insertAll
  induction summaries generalizing index with
  | nil => rfl
  | cons s ss ih =>
    rw [List.foldl_cons, ih, get?_insert, List.filter_cons]
    split
    · rw [List.getLast?_cons, Option.or_some]
      cases (ss.filter fun s => s.fqn == fqn).getLast? <;> rfl
    · rfl

theorem contains_insertAll (index : TypeIndex) (summaries : List TypeSummary) (fqn : String) :
    (index.insertAll summaries).contains fqn =
      (index.contains fqn || (summaries.map TypeSummary.fqn).contains fqn) := by
  unfold insertAll
  induction summaries generalizing index with
  | nil => simp
  | cons s ss ih =>
    have hinsert : (index.insert s).contains fqn = (index.contains fqn || s.fqn == fqn) := by
      simp only [contains_eq_isSome_get?, get?_insert]
      by_cases hs : s.fqn = fqn <;> simp [hs]
    rw [List.foldl_cons, ih, hinsert, List.map_cons, List.contains_cons, Bool.or_assoc,
      Bool.beq_comm]

/-! ## Resolution depends on the names alone -/

section Names

variable {index other : TypeIndex} (h : ∀ fqn, index.contains fqn = other.contains fqn)

include h

theorem resolve_congr (unit : CompilationUnit) (type : TypeRef) :
    index.resolve unit type = other.resolve unit type := by
  have hcontains : index.contains = other.contains := funext h
  rw [resolve, resolve, hcontains]

theorem erasure_congr (unit : CompilationUnit) (type : TypeRef) :
    index.erasure unit type = other.erasure unit type := by
  rw [erasure, erasure, resolve_congr h]

theorem superRef_congr (unit : CompilationUnit) (type : TypeRef) :
    index.superRef unit type = other.superRef unit type := by
  have hcontains : index.contains = other.contains := funext h
  rw [superRef, superRef, resolve_congr h, hcontains]

theorem signature_congr (unit : CompilationUnit) (m : Method) :
    index.signature unit m = other.signature unit m := by
  simp only [signature, erasure_congr h]

theorem summarize_congr (unit : CompilationUnit) (d : TypeDecl) :
    index.summarize unit d = other.summarize unit d := by
  unfold summarize
  rw [funext (superRef_congr h unit), funext (signature_congr h unit)]

end Names

/-! ## The two passes -/

variable (units : List CompilationUnit)

/-- The full names of all types that the files declare. -/
def declaredNames : List String :=
  units.flatMap fun u => u.allTypes.map TypeDecl.fqn

theorem contains_names (fqn : String) :
    (names units).contains fqn = (declaredNames units).contains fqn := by
  rw [names, contains_insertAll, List.map_flatMap]
  simp [declaredNames, contains, Function.comp_def]

/-- The second pass enters no new names. -/
theorem contains_build (fqn : String) :
    (build units).contains fqn = (names units).contains fqn := by
  have hsame : ((units.flatMap fun u => u.allTypes.map ((names units).summarize u)).map
      TypeSummary.fqn) = declaredNames units := by
    simp [declaredNames, List.map_flatMap, Function.comp_def, summarize]
  rw [build, contains_insertAll, hsame, contains_names, Bool.or_self]

/-- The finished index would summarise a type as it has been summarised. -/
theorem build_summarize (unit : CompilationUnit) (d : TypeDecl) :
    (build units).summarize unit d = (names units).summarize unit d :=
  summarize_congr (contains_build units) unit d

/-- What the index knows of a type is the last of the summaries with its name. -/
theorem get?_build_eq_getLast? (fqn : String) :
    (build units).get? fqn =
      ((units.flatMap fun u => u.allTypes.map ((build units).summarize u)).filter
        fun s => s.fqn == fqn).getLast? := by
  have hsummarize : (build units).summarize = (names units).summarize :=
    funext fun u => funext (build_summarize units u)
  rw [hsummarize, build, get?_insertAll]
  cases hlast : ((units.flatMap fun u => u.allTypes.map ((names units).summarize u)).filter
      fun s => s.fqn == fqn).getLast? with
  | some s => rfl
  | none =>
    -- The first pass has the names of the second one only.
    rw [List.getLast?_eq_none_iff, List.filter_eq_nil_iff] at hlast
    have hnames : (names units).contains fqn = false := by
      rw [contains_names, ← Bool.not_eq_true, List.contains_iff_mem]
      rintro hmem
      obtain ⟨u, hu, hmem⟩ := List.mem_flatMap.1 hmem
      obtain ⟨d, hd, rfl⟩ := List.mem_map.1 hmem
      refine hlast ((names units).summarize u d) ?_ (beq_self_eq_true d.fqn)
      exact List.mem_flatMap.2 ⟨u, hu, List.mem_map_of_mem hd⟩
    rw [contains_eq_isSome_get?, Option.isSome_eq_false_iff, Option.isNone_iff_eq_none] at hnames
    rw [hnames]
    rfl

variable {units}

/-- The first pass enters of each type a part of its summary. -/
theorem names_eq_insertAll_summaries (named : TypeIndex) :
    names units = insertAll ⟨[]⟩
      ((units.flatMap fun u => u.allTypes.map (named.summarize u)).map
        fun s => ⟨s.fqn, s.kind, [], []⟩) := by
  rw [names, List.map_flatMap]
  simp only [List.map_map]
  rfl

/-- The index depends on nothing of the files but the summaries of their types. -/
theorem build_congr {others : List CompilationUnit}
    (h : ∀ named : TypeIndex, (others.flatMap fun u => u.allTypes.map (named.summarize u)) =
      units.flatMap fun u => u.allTypes.map (named.summarize u)) :
    build others = build units := by
  have hnames : names others = names units := by
    rw [names_eq_insertAll_summaries ⟨[]⟩, names_eq_insertAll_summaries ⟨[]⟩, h]
  rw [build, build, hnames, h]

/-- Summaries that are entered under names that the index has, each name once, take the places of
    the old ones. -/
theorem summaries_insertAll_replacing (done olds news : List TypeSummary)
    (hsame : olds.map TypeSummary.fqn = news.map TypeSummary.fqn)
    (hnodup : ((done ++ news).map TypeSummary.fqn).Nodup) :
    (insertAll ⟨done ++ olds⟩ news).summaries = done ++ news := by
  unfold insertAll
  induction news generalizing done olds with
  | nil =>
    obtain rfl := List.map_eq_nil_iff.1 hsame
    rfl
  | cons s ss ih =>
    obtain ⟨t, ts, rfl, ht, hts⟩ := List.map_eq_cons_iff.1 hsame
    -- Only the old summary of the same name is replaced.
    have hdone : ∀ d ∈ done, d.fqn ≠ s.fqn := by
      intro d hd heq
      rw [List.map_append, List.nodup_append] at hnodup
      exact hnodup.2.2 _ (List.mem_map_of_mem hd) _ (by simp) heq
    have hrest : ∀ d ∈ ts, d.fqn ≠ s.fqn := by
      intro d hd heq
      rw [List.map_append, List.nodup_append, List.map_cons, List.nodup_cons, ← hts] at hnodup
      exact hnodup.2.1.1 (heq ▸ List.mem_map_of_mem hd)
    have hkeep : ∀ ds : List TypeSummary, (∀ d ∈ ds, d.fqn ≠ s.fqn) →
        ds.map (fun d => if d.fqn == s.fqn then s else d) = ds := fun ds hds =>
      (List.map_congr_left fun d hd => if_neg (by simpa using hds d hd)).trans (List.map_id' ds)
    have hinsert : insert ⟨done ++ t :: ts⟩ s = ⟨(done ++ [s]) ++ ts⟩ := by
      rw [insert, if_pos (by simp [contains, ht]), List.map_append, List.map_cons, hkeep done hdone,
        hkeep ts hrest, if_pos (by simpa using ht), List.append_assoc, List.singleton_append]
    rw [List.foldl_cons, hinsert, ih (done ++ [s]) ts hts (by simpa using hnodup),
      List.append_assoc, List.singleton_append]

/-- Summaries under new names, each name once, are added in their order. -/
theorem summaries_insertAll_new (done news : List TypeSummary)
    (hnodup : ((done ++ news).map TypeSummary.fqn).Nodup) :
    (insertAll ⟨done⟩ news).summaries = done ++ news := by
  unfold insertAll
  induction news generalizing done with
  | nil => exact (List.append_nil done).symm
  | cons s ss ih =>
    have hfresh : ¬ (⟨done⟩ : TypeIndex).contains s.fqn := by
      rw [List.map_append, List.nodup_append] at hnodup
      rw [contains, List.any_eq_true]
      rintro ⟨d, hd, heq⟩
      exact hnodup.2.2 d.fqn (List.mem_map_of_mem hd) s.fqn (by simp) (by simpa using heq)
    rw [List.foldl_cons, insert, if_neg hfresh, ih (done ++ [s]) (by simpa using hnodup),
      List.append_assoc, List.singleton_append]

/-- **The index holds one summary for each declared type and no other**, if no two of the files'
    types have the same full name. -/
theorem summaries_build (hdistinct : (declaredNames units).Nodup) :
    (build units).summaries =
      units.flatMap fun u => u.allTypes.map ((build units).summarize u) := by
  have hsame : ∀ named : TypeIndex,
      (units.flatMap fun u => u.allTypes.map (named.summarize u)).map TypeSummary.fqn =
        declaredNames units := fun named => by
    simp [declaredNames, List.map_flatMap, Function.comp_def, summarize]
  have hnames : (names units).summaries =
      units.flatMap fun u => u.allTypes.map fun d => ⟨d.fqn, d.head.kind, [], []⟩ :=
    summaries_insertAll_new [] _
      (by simpa [declaredNames, List.map_flatMap, Function.comp_def] using hdistinct)
  have hbuild : (build units).summaries =
      units.flatMap fun u => u.allTypes.map ((names units).summarize u) := by
    refine summaries_insertAll_replacing [] (names units).summaries _ ?_ ?_
    · rw [hsame, hnames]
      simp [declaredNames, List.map_flatMap, Function.comp_def]
    · rw [List.nil_append, hsame]
      exact hdistinct
  rw [hbuild, funext fun u => congrArg u.allTypes.map (funext (build_summarize units u))]

/-- **What the index knows of a type is the summary of its declaration**, if no two of the files'
    types have the same full name. -/
theorem get?_build (hdistinct : (declaredNames units).Nodup) {unit : CompilationUnit}
    (hunit : unit ∈ units) {d : TypeDecl} (hd : d ∈ unit.allTypes) :
    (build units).get? d.fqn = some ((build units).summarize unit d) := by
  have hfqn : ((names units).summarize unit d).fqn = d.fqn := rfl
  rw [build_summarize, build, ← hfqn]
  refine get?_insertAll_of_mem ?_ ?_
  · simpa [declaredNames, List.map_flatMap, Function.comp_def, summarize] using hdistinct
  · exact List.mem_flatMap.2 ⟨unit, hunit, List.mem_map.2 ⟨d, hd, rfl⟩⟩

end TypeIndex
end JavaThrows
