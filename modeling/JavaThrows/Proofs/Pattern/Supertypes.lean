import JavaThrows.Removal.Recipe

set_option autoImplicit false

/-!
# Which methods override a matching one

The walk up the supertypes visits each name once, whatever cycles and diamonds the hierarchy has,
and stops at the first supertype that settles the question. Here its answer is described without
the walk, as the existence of a reachable supertype with the wanted property, so that the order of
the supertypes and their repetitions are of no account. Main statement:
`matchesSupertype_iff_reachable`.

A reference to a supertype may be marked as unresolved while its name is the full name of an indexed
type. A walk that meets such a reference takes it for foreign and marks the name as visited, so it
never follows the indexed type either. The statements are about walks that meet none
(`MethodPattern.WalksKnown`).
-/

namespace JavaThrows

/-! ## Reachable supertypes -/

namespace TypeIndex

/-- The supertypes that are reached from the given ones by following the supertypes of indexed
    types any number of times. -/
inductive Reachable (index : TypeIndex) (starts : List SuperRef) : SuperRef → Prop where
  | start {s : SuperRef} (hs : s ∈ starts) : Reachable index starts s
  | follow {s t : SuperRef} {summary : TypeSummary} (hs : Reachable index starts s)
      (hget : index.get? s.name = some summary) (ht : t ∈ summary.supertypes) :
      Reachable index starts t

variable {index : TypeIndex} {starts : List SuperRef}

theorem Reachable.trans {others : List SuperRef} {t : SuperRef} (ht : index.Reachable starts t)
    (h : ∀ s ∈ starts, index.Reachable others s) : index.Reachable others t := by
  induction ht with
  | start hs => exact h _ hs
  | follow _ hget ht ih => exact .follow ih hget ht

/-- Two indexes have the same types, each with the same supertypes and the same methods. The order
    of either and their repetitions may differ. -/
structure SameHierarchy (index other : TypeIndex) : Prop where
  known : ∀ name a, index.get? name = some a → ∃ b, other.get? name = some b ∧
    (∀ s, s ∈ a.supertypes ↔ s ∈ b.supertypes) ∧ ∀ m, m ∈ a.methods ↔ m ∈ b.methods
  unknown : ∀ name, index.get? name = none → other.get? name = none

theorem SameHierarchy.symm {other : TypeIndex} (h : index.SameHierarchy other) :
    other.SameHierarchy index where
  known name b hb := by
    cases ha : index.get? name with
    | none => exact absurd ((h.unknown name ha).symm.trans hb) (by simp)
    | some a =>
      obtain ⟨b', hb', hsupers, hmethods⟩ := h.known name a ha
      obtain rfl := Option.some.inj (hb'.symm.trans hb)
      exact ⟨a, rfl, fun s => (hsupers s).symm, fun m => (hmethods m).symm⟩
  unknown name hb := by
    cases ha : index.get? name with
    | none => rfl
    | some a =>
      obtain ⟨b, hb', -⟩ := h.known name a ha
      exact absurd (hb.symm.trans hb') (by simp)

theorem Reachable.of_sameHierarchy {other : TypeIndex} {others : List SuperRef} {t : SuperRef}
    (ht : index.Reachable starts t) (h : index.SameHierarchy other)
    (hstarts : ∀ s ∈ starts, s ∈ others) : other.Reachable others t := by
  induction ht with
  | start hs => exact .start (hstarts _ hs)
  | follow _ hget ht ih =>
    obtain ⟨found, hfound, hsupers, -⟩ := h.known _ _ hget
    exact .follow ih hfound ((hsupers _).1 ht)

end TypeIndex

/-! ## What the walk takes up -/

theorem get?_of_resolved {index : TypeIndex} {s : SuperRef} {summary : TypeSummary}
    (h : (if s.resolved then index.get? s.name else none) = some summary) :
    index.get? s.name = some summary := by
  revert h; split <;> simp

/-- Following a type that is not visited yet uses up its supertypes. -/
theorem unvisitedSupertypes_follow_le {index : TypeIndex} {s : SuperRef} {summary : TypeSummary}
    {visited : List String} (hget : index.get? s.name = some summary)
    (hfresh : ¬ visited.contains s.name) :
    unvisitedSupertypes (s.name :: visited) index.summaries + summary.supertypes.length ≤
      unvisitedSupertypes visited index.summaries := by
  obtain ⟨hmem, hfqn⟩ := TypeIndex.of_get?_eq_some hget
  rw [← hfqn]
  exact unvisitedSupertypes_add_le hmem (by rw [hfqn]; simpa using hfresh)

section Steps

variable {index : TypeIndex} {indexed : SuperRef → TypeSummary → Bool} {foreign : SuperRef → Bool}
  {visited : List String} {s : SuperRef} {waiting : List SuperRef}

theorem reaches_of_visited (hv : visited.contains s.name) :
    reaches index indexed foreign visited (s :: waiting) =
      reaches index indexed foreign visited waiting := by
  rw [reaches, dif_pos hv]

theorem reaches_of_some {summary : TypeSummary} (hv : ¬ visited.contains s.name)
    (hg : (if s.resolved then index.get? s.name else none) = some summary) :
    reaches index indexed foreign visited (s :: waiting) =
      (indexed s summary ||
        reaches index indexed foreign (s.name :: visited) (waiting ++ summary.supertypes)) := by
  rw [reaches, dif_neg hv]
  split
  · next found hfound => rw [Option.some.inj (hfound.symm.trans hg)]
  · next hnone => exact absurd (hnone.symm.trans hg) (by simp)

theorem reaches_of_none (hv : ¬ visited.contains s.name)
    (hg : (if s.resolved then index.get? s.name else none) = none) :
    reaches index indexed foreign visited (s :: waiting) =
      (foreign s || reaches index indexed foreign (s.name :: visited) waiting) := by
  rw [reaches, dif_neg hv]
  split
  · next found hfound => exact absurd (hfound.symm.trans hg) (by simp)
  · rfl

end Steps

section Walk

variable (index : TypeIndex) (indexed : SuperRef → TypeSummary → Bool) (foreign : SuperRef → Bool)

/-- The references that the walk takes up, in their order and up to the one that settles it. -/
def walked (visited : List String) : List SuperRef → List SuperRef
  | [] => []
  | s :: waiting =>
    if _hv : visited.contains s.name then s :: walked visited waiting
    else
      match _hg : (if s.resolved then index.get? s.name else none) with
      | some summary =>
        if indexed s summary then [s]
        else s :: walked (s.name :: visited) (waiting ++ summary.supertypes)
      | none => if foreign s then [s] else s :: walked (s.name :: visited) waiting
termination_by waiting => waiting.length + unvisitedSupertypes visited index.summaries
decreasing_by
  · simp
  · have := unvisitedSupertypes_follow_le (get?_of_resolved _hg) _hv
    simp; omega
  · have := unvisitedSupertypes_cons_le s.name visited index.summaries
    simp; omega

variable {index indexed foreign}

/-- The walk takes up a reference at most once for each time it stands among the waiting ones or
    among the supertypes of a type that is not visited yet. -/
theorem length_walked_le (visited : List String) (waiting : List SuperRef) :
    (walked index indexed foreign visited waiting).length ≤
      waiting.length + unvisitedSupertypes visited index.summaries := by
  fun_induction walked index indexed foreign visited waiting with
  | case1 visited => simp
  | case2 visited s waiting hv ih => simp; omega
  | case3 visited s waiting hv summary hg hhit => simp; omega
  | case4 visited s waiting hv summary hg hmiss ih =>
    have := unvisitedSupertypes_follow_le (get?_of_resolved hg) hv
    simp at ih ⊢; omega
  | case5 visited s waiting hv hg hhit => simp; omega
  | case6 visited s waiting hv hg hmiss ih =>
    have := unvisitedSupertypes_cons_le s.name visited index.summaries
    simp; omega

theorem reachable_of_mem_walked {visited : List String} {waiting : List SuperRef} {t : SuperRef}
    (ht : t ∈ walked index indexed foreign visited waiting) : index.Reachable waiting t := by
  fun_induction walked index indexed foreign visited waiting with
  | case1 visited => cases ht
  | case2 visited s waiting hv ih =>
    rcases List.mem_cons.1 ht with rfl | ht
    · exact .start List.mem_cons_self
    · exact (ih ht).trans fun u hu => .start (List.mem_cons_of_mem _ hu)
  | case3 visited s waiting hv summary hg hhit =>
    obtain rfl := List.mem_singleton.1 ht
    exact .start List.mem_cons_self
  | case4 visited s waiting hv summary hg hmiss ih =>
    rcases List.mem_cons.1 ht with rfl | ht
    · exact .start List.mem_cons_self
    · refine (ih ht).trans fun u hu => ?_
      rcases List.mem_append.1 hu with hu | hu
      · exact .start (List.mem_cons_of_mem _ hu)
      · exact .follow (.start List.mem_cons_self) (get?_of_resolved hg) hu
  | case5 visited s waiting hv hg hhit =>
    obtain rfl := List.mem_singleton.1 ht
    exact .start List.mem_cons_self
  | case6 visited s waiting hv hg hmiss ih =>
    rcases List.mem_cons.1 ht with rfl | ht
    · exact .start List.mem_cons_self
    · exact (ih ht).trans fun u hu => .start (List.mem_cons_of_mem _ hu)

end Walk

/-! ## What the walk finds -/

section Search

variable {index : TypeIndex} {indexed : String → TypeSummary → Bool} {foreign : String → Bool}

/-- Whether the type of a name has the wanted property, by what the index knows of the name. -/
def TypeIndex.Settles (index : TypeIndex) (indexed : String → TypeSummary → Bool)
    (foreign : String → Bool) (name : String) : Prop :=
  match index.get? name with
  | some summary => indexed name summary
  | none => foreign name

/-- No reference is marked as unresolved whose name is the full name of an indexed type. -/
def TypeIndex.Knows (index : TypeIndex) (refs : List SuperRef) : Prop :=
  ∀ s ∈ refs, s.resolved = false → index.get? s.name = none

theorem TypeIndex.Knows.get?_eq {refs : List SuperRef} {s : SuperRef} (h : index.Knows refs)
    (hs : s ∈ refs) : (if s.resolved then index.get? s.name else none) = index.get? s.name := by
  cases hr : s.resolved with
  | true => rfl
  | false => exact (h s hs hr).symm

theorem TypeIndex.Knows.tail {refs : List SuperRef} {s : SuperRef} (h : index.Knows (s :: refs)) :
    index.Knows refs :=
  fun t ht => h t (List.mem_cons_of_mem _ ht)

/-- A walk that finds something has taken it up. -/
theorem exists_settles_of_reaches {visited : List String} {waiting : List SuperRef}
    (hknows : index.Knows
      (walked index (fun s => indexed s.name) (fun s => foreign s.name) visited waiting))
    (h : reaches index (fun s => indexed s.name) (fun s => foreign s.name) visited waiting) :
    ∃ s ∈ walked index (fun s => indexed s.name) (fun s => foreign s.name) visited waiting,
      index.Settles indexed foreign s.name := by
  fun_induction walked index (fun s => indexed s.name) (fun s => foreign s.name) visited waiting
    with
  | case1 visited => simp [reaches] at h
  | case2 visited s waiting hv ih =>
    rw [reaches_of_visited hv] at h
    obtain ⟨t, ht, hsettles⟩ := ih hknows.tail h
    exact ⟨t, List.mem_cons_of_mem _ ht, hsettles⟩
  | case3 visited s waiting hv summary hg hhit =>
    refine ⟨s, List.mem_cons_self, ?_⟩
    simpa [TypeIndex.Settles, get?_of_resolved hg] using hhit
  | case4 visited s waiting hv summary hg hmiss ih =>
    rw [reaches_of_some hv hg, Bool.or_eq_true] at h
    obtain ⟨t, ht, hsettles⟩ := ih hknows.tail (h.resolve_left hmiss)
    exact ⟨t, List.mem_cons_of_mem _ ht, hsettles⟩
  | case5 visited s waiting hv hg hhit =>
    refine ⟨s, List.mem_cons_self, ?_⟩
    have hnone : index.get? s.name = none := (hknows.get?_eq List.mem_cons_self).symm.trans hg
    simpa [TypeIndex.Settles, hnone] using hhit
  | case6 visited s waiting hv hg hmiss ih =>
    rw [reaches_of_none hv hg, Bool.or_eq_true] at h
    obtain ⟨t, ht, hsettles⟩ := ih hknows.tail (h.resolve_left hmiss)
    exact ⟨t, List.mem_cons_of_mem _ ht, hsettles⟩

/-- The names that a walk leaves behind without success: nothing is found at a name, and its
    supertypes are left behind as well. -/
def TypeIndex.LeftBehind (index : TypeIndex) (indexed : String → TypeSummary → Bool)
    (foreign : String → Bool) (refs : List SuperRef) (name : String) : Prop :=
  ¬ index.Settles indexed foreign name ∧
    ∀ summary, index.get? name = some summary → ∀ t ∈ summary.supertypes, t ∈ refs

theorem TypeIndex.LeftBehind.mono {refs others : List SuperRef} {name : String}
    (h : index.LeftBehind indexed foreign refs name) (hsub : ∀ t ∈ refs, t ∈ others) :
    index.LeftBehind indexed foreign others name :=
  ⟨h.1, fun summary hget t ht => hsub t (h.2 summary hget t ht)⟩

/-- A walk that goes on from a name after leaving it behind. -/
theorem leftBehind_cons {refs : List SuperRef} {s : SuperRef} {visited : List String}
    (hs : index.LeftBehind indexed foreign refs s.name)
    (hrest : ∀ t ∈ refs,
      t.name ∈ s.name :: visited ∨ index.LeftBehind indexed foreign refs t.name) :
    ∀ t ∈ s :: refs, t.name ∈ visited ∨ index.LeftBehind indexed foreign (s :: refs) t.name := by
  have hgrow : ∀ t ∈ refs, t ∈ s :: refs := fun t ht => List.mem_cons_of_mem _ ht
  intro t ht
  rcases List.mem_cons.1 ht with rfl | ht
  · exact .inr (hs.mono hgrow)
  · rcases hrest t ht with hvisited | hleft
    · rcases List.mem_cons.1 hvisited with hname | hvisited
      · exact .inr (hname ▸ hs.mono hgrow)
      · exact .inl hvisited
    · exact .inr (hleft.mono hgrow)

/-- The invariant of a walk without success, from any state of it: all waiting references are taken
    up, and each name that was not visited before is left behind. -/
theorem leftBehind_of_not_reaches {visited : List String} {waiting : List SuperRef}
    (hknows : index.Knows
      (walked index (fun s => indexed s.name) (fun s => foreign s.name) visited waiting))
    (h : ¬ reaches index (fun s => indexed s.name) (fun s => foreign s.name) visited waiting) :
    let refs := walked index (fun s => indexed s.name) (fun s => foreign s.name) visited waiting
    (∀ s ∈ waiting, s ∈ refs) ∧
      ∀ s ∈ refs, s.name ∈ visited ∨ index.LeftBehind indexed foreign refs s.name := by
  fun_induction walked index (fun s => indexed s.name) (fun s => foreign s.name) visited waiting
    with
  | case1 visited => simp
  | case2 visited s waiting hv ih =>
    rw [reaches_of_visited hv] at h
    obtain ⟨hwaiting, hrefs⟩ := ih hknows.tail h
    refine ⟨List.forall_mem_cons.2 ⟨List.mem_cons_self, fun t ht =>
      List.mem_cons_of_mem _ (hwaiting t ht)⟩,
      List.forall_mem_cons.2 ⟨.inl (by simpa using hv), ?_⟩⟩
    exact fun t ht => (hrefs t ht).imp id fun hleft =>
      hleft.mono fun u hu => List.mem_cons_of_mem _ hu
  | case3 visited s waiting hv summary hg hhit =>
    rw [reaches_of_some hv hg, hhit] at h
    exact absurd rfl h
  | case4 visited s waiting hv summary hg hmiss ih =>
    rw [reaches_of_some hv hg, Bool.or_eq_true, not_or] at h
    obtain ⟨hwaiting, hrefs⟩ := ih hknows.tail h.2
    have hget := get?_of_resolved hg
    refine ⟨List.forall_mem_cons.2 ⟨List.mem_cons_self, fun t ht =>
      List.mem_cons_of_mem _ (hwaiting t (List.mem_append_left _ ht))⟩,
      leftBehind_cons ⟨?_, ?_⟩ hrefs⟩
    · simpa [TypeIndex.Settles, hget] using hmiss
    · rintro found hfound t ht
      obtain rfl := Option.some.inj (hget.symm.trans hfound)
      exact hwaiting t (List.mem_append_right _ ht)
  | case5 visited s waiting hv hg hhit =>
    rw [reaches_of_none hv hg, hhit] at h
    exact absurd rfl h
  | case6 visited s waiting hv hg hmiss ih =>
    rw [reaches_of_none hv hg, Bool.or_eq_true, not_or] at h
    obtain ⟨hwaiting, hrefs⟩ := ih hknows.tail h.2
    have hnone : index.get? s.name = none := (hknows.get?_eq List.mem_cons_self).symm.trans hg
    refine ⟨List.forall_mem_cons.2 ⟨List.mem_cons_self, fun t ht =>
      List.mem_cons_of_mem _ (hwaiting t ht)⟩, leftBehind_cons ⟨?_, ?_⟩ hrefs⟩
    · simpa [TypeIndex.Settles, hnone] using hmiss
    · exact fun found hfound => absurd (hnone.symm.trans hfound) (by simp)

/-- A walk from the beginning decides whether a supertype with the wanted property is reachable. -/
theorem reaches_iff {starts : List SuperRef}
    (hknows : index.Knows
      (walked index (fun s => indexed s.name) (fun s => foreign s.name) [] starts)) :
    reaches index (fun s => indexed s.name) (fun s => foreign s.name) [] starts ↔
      ∃ s, index.Reachable starts s ∧ index.Settles indexed foreign s.name := by
  constructor
  · intro h
    obtain ⟨s, hs, hsettles⟩ := exists_settles_of_reaches hknows h
    exact ⟨s, reachable_of_mem_walked hs, hsettles⟩
  · rintro ⟨s, hs, hsettles⟩
    refine Decidable.byContradiction fun hnot => ?_
    obtain ⟨hstarts, hleft⟩ := leftBehind_of_not_reaches hknows hnot
    have hleft : ∀ t ∈ walked index (fun s => indexed s.name) (fun s => foreign s.name) [] starts,
        index.LeftBehind indexed foreign _ t.name :=
      fun t ht => (hleft t ht).resolve_left List.not_mem_nil
    have hwalked :
        s ∈ walked index (fun s => indexed s.name) (fun s => foreign s.name) [] starts := by
      clear hsettles
      induction hs with
      | start hs => exact hstarts _ hs
      | follow _ hget ht ih => exact (hleft _ ih).2 _ hget _ ht
    exact (hleft s hwalked).1 hsettles

end Search

/-! ## Overriding methods -/

namespace MethodPattern

variable (p : MethodPattern) (index : TypeIndex) (m : Method) (params : List String)

/-- The references to supertypes that the walk of `matchesSupertype` takes up. -/
def walk (starts : List SuperRef) : List SuperRef :=
  walked index (fun s summary => p.target.isMatch s.name && summary.declares m.name params)
    (fun s => p.target.isMatch s.name && m.hasAnnotation "Override") [] starts

/-- The walk meets no unresolved reference whose name is the full name of an indexed type. -/
def WalksKnown (starts : List SuperRef) : Prop :=
  ∀ s ∈ p.walk index m params starts, s.resolved = false → index.get? s.name = none

/-- A supertype with a method that the given method overrides and the pattern matches: an indexed
    one declares the signature, and in any other one the method says so itself. -/
def OverridesAt (name : String) : Prop :=
  p.target.isMatch name ∧
    ((∃ summary, index.get? name = some summary ∧ summary.declares m.name params) ∨
      (index.get? name = none ∧ m.hasAnnotation "Override"))

theorem settles_iff_overridesAt (name : String) :
    index.Settles (fun name summary => p.target.isMatch name && summary.declares m.name params)
      (fun name => p.target.isMatch name && m.hasAnnotation "Override") name ↔
      p.OverridesAt index m params name := by
  unfold TypeIndex.Settles OverridesAt
  cases index.get? name <;> simp

/-- Whether a method overrides one that the pattern matches is a question of reachability. -/
theorem matchesSupertype_iff {starts : List SuperRef}
    (hknown : p.WalksKnown index m params starts) :
    p.matchesSupertype index m params starts ↔
      ∃ s, index.Reachable starts s ∧ p.OverridesAt index m params s.name := by
  have hsearch := @reaches_iff index
    (fun name summary => p.target.isMatch name && summary.declares m.name params)
    (fun name => p.target.isMatch name && m.hasAnnotation "Override") starts hknown
  simp only [settles_iff_overridesAt] at hsearch
  exact hsearch

theorem OverridesAt.of_sameHierarchy {p : MethodPattern} {index other : TypeIndex} {m : Method}
    {params : List String} {name : String} (h : p.OverridesAt index m params name)
    (hsame : index.SameHierarchy other) : p.OverridesAt other m params name := by
  refine ⟨h.1, ?_⟩
  rcases h.2 with ⟨summary, hget, hdeclares⟩ | ⟨hnone, hoverride⟩
  · obtain ⟨found, hfound, -, hmethods⟩ := hsame.known _ _ hget
    refine .inl ⟨found, hfound, ?_⟩
    obtain ⟨sig, hsig, haccepts⟩ := List.any_eq_true.1 hdeclares
    exact List.any_eq_true.2 ⟨sig, (hmethods sig).1 hsig, haccepts⟩
  · exact .inr ⟨hsame.unknown _ hnone, hoverride⟩

/-- **Override matching is reachability.** In any index, whatever cycles and diamonds it has, a walk
    that meets no unresolved name of an indexed type ends after at most as many steps as there are
    references to supertypes; it finds a match exactly if some reachable supertype is one; and its
    answer is the same for any order and any repetition of the supertypes, at the start and in the
    index. -/
theorem matchesSupertype_iff_reachable (starts : List SuperRef)
    (hknown : p.WalksKnown index m params starts) :
    (p.walk index m params starts).length ≤
        starts.length + unvisitedSupertypes [] index.summaries ∧
      (p.matchesSupertype index m params starts ↔
        ∃ s, index.Reachable starts s ∧ p.OverridesAt index m params s.name) ∧
      ∀ (other : TypeIndex) (others : List SuperRef), index.SameHierarchy other →
        (∀ s, s ∈ starts ↔ s ∈ others) → p.WalksKnown other m params others →
        p.matchesSupertype other m params others = p.matchesSupertype index m params starts := by
  refine ⟨length_walked_le _ _, p.matchesSupertype_iff index m params hknown, ?_⟩
  intro other others hsame hstarts hknown'
  rw [Bool.eq_iff_iff, p.matchesSupertype_iff other m params hknown',
    p.matchesSupertype_iff index m params hknown]
  constructor
  · rintro ⟨s, hs, hat⟩
    exact ⟨s, hs.of_sameHierarchy hsame.symm fun t => (hstarts t).2,
      hat.of_sameHierarchy hsame.symm⟩
  · rintro ⟨s, hs, hat⟩
    exact ⟨s, hs.of_sameHierarchy hsame fun t => (hstarts t).1, hat.of_sameHierarchy hsame⟩

set_option maxRecDepth 20000 in
/-- Two interfaces that extend each other, and a method below the one that does not declare it. -/
theorem matchesSupertype_cycle :
    let source := "interface A extends B\x7b\x7dinterface B extends A\x7bvoid f();\x7d".toList
    let unit := (CompilationUnit.parse source).toOption.getD default
    let index := TypeIndex.build [unit]
    let p := ((Recipe.compile ⟨"B f()", "a.E", some true⟩).toOption.getD default).pattern
    let m : Method := { (default : Method) with name := "f" }
    p.WalksKnown index m [] [⟨"A", true⟩] ∧ p.matchesSupertype index m [] [⟨"A", true⟩] := by
  intro source unit index p m
  have hknown : p.WalksKnown index m [] [⟨"A", true⟩] := by
    unfold WalksKnown
    decide +kernel
  obtain ⟨a, ha, hab, b, hb, hdeclares⟩ : ∃ a, index.get? "A" = some a ∧
      ⟨"B", true⟩ ∈ a.supertypes ∧ ∃ b, index.get? "B" = some b ∧ b.declares "f" [] := by
    refine ⟨(index.get? "A").getD default, ?_, ?_, (index.get? "B").getD default, ?_⟩ <;>
      decide +kernel
  have hmatch : p.target.isMatch "B" := by decide +kernel
  have hreach := (p.matchesSupertype_iff_reachable index m [] _ hknown).2.1
  refine ⟨hknown, hreach.2 ⟨⟨"B", true⟩, ?_, hmatch, .inl ⟨b, hb, hdeclares⟩⟩⟩
  exact .follow (.start List.mem_cons_self) ha hab

end MethodPattern
end JavaThrows
