import JavaThrows.Proofs.Decl.ScopedMethods
import JavaThrows.Proofs.Text.Split
import JavaThrows.TypeIndex

set_option autoImplicit false

/-!
# What type variables erase to

A type variable erases to its first bound, or to `java.lang.Object` without one; a bound that is a
variable itself is followed further, and it may stand in the same list (`ErasesTo`). A file is read
without following anything: what a variable stands for is fixed when its bound is read, from the
file alone and before the other variables of the list are seen. So the erasure is right where no
bound on the way names a variable of its own list and the last one is not better known from the
other files, and it is not right in general. Main statement: `erasure_variable_iff`.
-/

namespace JavaThrows

open JavaThrows.Cst

/-! ## Variables that types name -/

/-- A type variable with the list that it stands in and the lists around that. -/
structure Variable where
  param : TypeParam
  own : List TypeParam
  outer : List (List TypeParam)
deriving DecidableEq, Inhabited

/-- The variable that a name denotes: the innermost list with the name decides, and in one list the
    last of its variables. -/
def findVariable (name : String) : List (List TypeParam) → Option Variable
  | [] => none
  | own :: outer =>
    match own.reverse.find? fun v => v.name == name with
    | some v => some ⟨v, own, outer⟩
    | none => findVariable name outer

/-- The variable that an erased type names, dimensions apart. -/
def variableOf (type : String) (lists : List (List TypeParam)) : Option Variable :=
  let base := (Text.cutDimensions type).1
  if JavaLang.primitives.contains base || base.toList.contains '.' then none
  else findVariable base lists

namespace TypeRef

def variableIn (r : TypeRef) (lists : List (List TypeParam)) : Option Variable :=
  variableOf r.erased lists

def dimensions (r : TypeRef) : String :=
  (Text.cutDimensions r.erased).2

/-- What the type erases to as far as its file tells. -/
def fileErasure (r : TypeRef) : String :=
  r.fqn.getD r.erased

end TypeRef

variable {index : TypeIndex} {unit : CompilationUnit} {lists : List (List TypeParam)} {r : TypeRef}
  {erased : String} {bounds : List (List TypeParam × TypeRef)}

/-- The erasure of a type as seen from a file where the variables of the lists are in scope, by
    following the first bounds of variables to the end. The bounds on the way are kept, each with
    the list that it stands in. -/
inductive ErasesTo (index : TypeIndex) (unit : CompilationUnit) :
    List (List TypeParam) → TypeRef → String → List (List TypeParam × TypeRef) → Prop
  | type {lists : List (List TypeParam)} {r : TypeRef} (hr : r.variableIn lists = none) :
    ErasesTo index unit lists r (index.erasure unit r) []
  | object {lists : List (List TypeParam)} {r : TypeRef} {v : Variable}
    (hr : r.variableIn lists = some v) (hbound : v.param.bound = none) :
    ErasesTo index unit lists r (JavaLang.object ++ r.dimensions) []
  | bound {lists : List (List TypeParam)} {r b : TypeRef} {v : Variable} {erased : String}
    {bounds : List (List TypeParam × TypeRef)} (hr : r.variableIn lists = some v)
    (hbound : v.param.bound = some b) (hb : ErasesTo index unit (v.own :: v.outer) b erased bounds) :
    ErasesTo index unit lists r (erased ++ r.dimensions) ((v.own, b) :: bounds)

/-- Following the bounds leads to one end only. -/
theorem ErasesTo.unique {erased' : String} {bounds' : List (List TypeParam × TypeRef)}
    (h : ErasesTo index unit lists r erased bounds)
    (h' : ErasesTo index unit lists r erased' bounds') : erased = erased' ∧ bounds = bounds' := by
  induction h generalizing erased' bounds' with
  | type hr =>
    cases h' with
    | type => exact ⟨rfl, rfl⟩
    | object hr' => simp [hr] at hr'
    | bound hr' => simp [hr] at hr'
  | object hr hbound =>
    cases h' with
    | type hr' => simp [hr] at hr'
    | object => exact ⟨rfl, rfl⟩
    | bound hr' hbound' =>
      obtain rfl := Option.some.inj (hr.symm.trans hr')
      simp [hbound] at hbound'
  | bound hr hbound _ ih =>
    cases h' with
    | type hr' => simp [hr] at hr'
    | object hr' hbound' =>
      obtain rfl := Option.some.inj (hr.symm.trans hr')
      simp [hbound] at hbound'
    | bound hr' hbound' hb' =>
      obtain rfl := Option.some.inj (hr.symm.trans hr')
      obtain rfl := Option.some.inj (hbound.symm.trans hbound')
      obtain ⟨rfl, rfl⟩ := ih hb'
      exact ⟨rfl, rfl⟩

/-- Follow the bounds for a number of steps. -/
def followBounds (index : TypeIndex) (unit : CompilationUnit) :
    Nat → List (List TypeParam) → TypeRef → Option (String × List (List TypeParam × TypeRef))
  | 0, _, _ => none
  | n + 1, lists, r =>
    match r.variableIn lists with
    | none => some (index.erasure unit r, [])
    | some v =>
      match v.param.bound with
      | none => some (JavaLang.object ++ r.dimensions, [])
      | some b =>
        (followBounds index unit n (v.own :: v.outer) b).map fun rest =>
          (rest.1 ++ r.dimensions, (v.own, b) :: rest.2)

/-- The bounds lead to what some number of steps finds. -/
theorem erasesTo_iff_followBounds :
    ErasesTo index unit lists r erased bounds ↔
      ∃ n, followBounds index unit n lists r = some (erased, bounds) := by
  constructor
  · intro h
    induction h with
    | type hr => exact ⟨1, by simp [followBounds, hr]⟩
    | object hr hbound => exact ⟨1, by simp [followBounds, hr, hbound]⟩
    | bound hr hbound _ ih =>
      obtain ⟨n, hn⟩ := ih
      exact ⟨n + 1, by simp [followBounds, hr, hbound, hn]⟩
  · rintro ⟨n, hn⟩
    induction n generalizing lists r erased bounds with
    | zero => cases hn
    | succ n ih =>
      rw [followBounds] at hn
      split at hn
      · next hr =>
        cases hn
        exact .type hr
      next v hr =>
      split at hn
      · next hbound =>
        cases hn
        exact .object hr hbound
      · next b hbound =>
        obtain ⟨⟨rest, more⟩, hrest, hparts⟩ := Option.map_eq_some_iff.1 hn
        cases hparts
        exact .bound hr hbound (ih hrest)

/-! ## What a file tells -/

/-- A place that sees the lists finds the variable of a name as the lists say. -/
theorem Scope.Sees.find?_typeVars {s : Scope} (hs : s.Sees lists) (name : String) :
    (s.typeVars.find? fun v => v.name == name) = (findVariable name lists).map Variable.param := by
  rw [hs]
  clear hs
  induction lists with
  | nil => rfl
  | cons own outer ih =>
    rw [List.flatMap_cons, List.find?_append, ih, findVariable]
    cases own.reverse.find? fun v => v.name == name <;> rfl

/-- What the file says of a type, given the variable that it names. -/
structure AttributedTo (r : TypeRef) (named : Option Variable) : Prop where
  typeVar : r.typeVar = named.isSome
  fqn : ∀ v ∈ named, r.fqn = some (Scope.boundErasure v.param ++ r.dimensions)
  certain : ∀ v ∈ named, r.certain = true

theorem AttributedTo.of_none {r : TypeRef} (h : r.typeVar = false) : AttributedTo r none :=
  ⟨h, nofun, nofun⟩

/-- What a place says of an erased type that names a variable. -/
theorem Scope.Sees.attributionOf_eq {s : Scope} (hs : s.Sees lists) (ds : DeclaredTypes)
    {type : String} {v : Variable} (hv : variableOf type lists = some v) :
    s.attributionOf ds type =
      .ofVariable (Scope.boundErasure v.param ++ (Text.cutDimensions type).2) := by
  simp only [variableOf] at hv
  split at hv
  · cases hv
  · next hplain =>
    simp only [Bool.or_eq_true, not_or, List.contains_iff_mem] at hplain
    simp only [Scope.attributionOf]
    rw [if_neg (by simpa using hplain.1), Text.cutFirst_of_notMem hplain.2]
    simp only [hs.find?_typeVars, hv, Option.map_some]

/-- No type is taken for a variable but one that names it. -/
theorem Scope.Sees.typeVar_attributionOf {s : Scope} (hs : s.Sees lists) (ds : DeclaredTypes)
    {type : String} (hv : variableOf type lists = none) :
    (s.attributionOf ds type).typeVar = false := by
  simp only [Scope.attributionOf]
  split
  · rfl
  · next hprimitive =>
    split
    · next hcut =>
      have hpoint := Text.notMem_of_cutFirst_eq_none hcut
      simp only [variableOf] at hv
      rw [if_neg (by simpa using ⟨by simpa using hprimitive, hpoint⟩)] at hv
      simp only [hs.find?_typeVars, hv, Option.map_none]
      split
      · rfl
      · split <;> rfl
    · split
      · rfl
      · split <;> rfl

/-- **What a place says of a type is told by the variable that the type names.** -/
theorem Scope.Sees.attributedTo {s : Scope} (hs : s.Sees lists) (ds : DeclaredTypes) (n : Node) :
    AttributedTo (s.typeRef ds n) ((s.typeRef ds n).variableIn lists) := by
  obtain ⟨hfqn, hcertain, htypeVar⟩ :
      (s.typeRef ds n).fqn = (s.attributionOf ds (s.typeRef ds n).erased).fqn ∧
      (s.typeRef ds n).certain = (s.attributionOf ds (s.typeRef ds n).erased).certain ∧
      (s.typeRef ds n).typeVar = (s.attributionOf ds (s.typeRef ds n).erased).typeVar := by
    simp only [Scope.typeRef, and_self]
  generalize s.typeRef ds n = r at hfqn hcertain htypeVar ⊢
  cases hv : r.variableIn lists with
  | none =>
    refine .of_none ?_
    rw [htypeVar, hs.typeVar_attributionOf ds hv]
  | some v =>
    rw [hs.attributionOf_eq ds hv] at hfqn hcertain htypeVar
    refine ⟨htypeVar, fun v' hv' => ?_, fun v' hv' => hcertain⟩
    obtain rfl := Option.some.inj hv'
    exact hfqn

theorem dimensions_withDimensions (r : TypeRef) (dims : Nat) :
    (Scope.withDimensions r dims).dimensions =
      r.dimensions ++ String.ofList (Text.brackets dims) :=
  Text.snd_cutDimensions_append_brackets r.erased dims

theorem variableIn_withDimensions (r : TypeRef) (dims : Nat) :
    (Scope.withDimensions r dims).variableIn lists = r.variableIn lists := by
  simp only [TypeRef.variableIn, variableOf, Scope.withDimensions,
    Text.cutDimensions_append_brackets]

theorem AttributedTo.withDimensions {named : Option Variable} (h : AttributedTo r named)
    (dims : Nat) : AttributedTo (Scope.withDimensions r dims) named := by
  refine ⟨h.typeVar, fun v hv => ?_, h.certain⟩
  rw [dimensions_withDimensions, ← String.append_assoc]
  exact congrArg (Option.map (· ++ String.ofList (Text.brackets dims))) (h.fqn v hv)

/-! ## Following the bounds -/

variable {own : List TypeParam} {outer : List (List TypeParam)} {v : Variable}

/-- A type names a variable of the innermost list, or else what it names further out. -/
theorem TypeRef.variableIn_cons_cases (r : TypeRef) (own : List TypeParam)
    (outer : List (List TypeParam)) :
    (r.variableIn [own] = none ∧ r.variableIn (own :: outer) = r.variableIn outer) ∨
      ∃ p ∈ own, r.variableIn [own] ≠ none ∧ r.variableIn (own :: outer) = some ⟨p, own, outer⟩ := by
  simp only [variableIn, variableOf]
  split
  · exact .inl ⟨rfl, rfl⟩
  · cases hfind : own.reverse.find? fun v => v.name == (Text.cutDimensions r.erased).1 with
    | none => exact .inl ⟨by simp [findVariable, hfind], by simp [findVariable, hfind]⟩
    | some p =>
      refine .inr ⟨p, List.mem_reverse.1 (List.mem_of_find?_eq_some hfind), ?_, ?_⟩ <;>
        simp [findVariable, hfind]

theorem TypeRef.variableIn_cons_of_none (h : r.variableIn [own] = none) :
    r.variableIn (own :: outer) = r.variableIn outer := by
  rcases r.variableIn_cons_cases own outer with ⟨-, heq⟩ | ⟨p, -, hne, -⟩
  · exact heq
  · exact absurd h hne

theorem BoundsRead.of_variableIn (h : BoundsRead lists) (hv : r.variableIn lists = some v) :
    v.param ∈ v.own ∧ BoundsRead (v.own :: v.outer) := by
  induction h with
  | nil =>
    simp [TypeRef.variableIn, variableOf, findVariable] at hv
  | @cons own outer hown houter ih =>
    rcases r.variableIn_cons_cases own outer with ⟨-, heq⟩ | ⟨p, hp, -, heq⟩
    · exact ih (heq ▸ hv)
    · obtain rfl := Option.some.inj (heq.symm.trans hv)
      exact ⟨hp, .cons hown houter⟩

theorem ReadAmong.attributedTo (h : ReadAmong lists r) : AttributedTo r (r.variableIn lists) := by
  obtain ⟨s, ds, n, hs, rfl⟩ := h
  exact hs.attributedTo ds n

/-- **What the erasure of a type variable is**: what the file alone tells of its bound, whatever the
    index knows. -/
theorem AttributedTo.erasure_eq (h : AttributedTo r (some v)) (index : TypeIndex)
    (unit : CompilationUnit) :
    index.erasure unit r = Scope.boundErasure v.param ++ r.dimensions := by
  have hresolve : index.resolve unit r = r.fqn := by
    rw [TypeIndex.resolve, h.certain v rfl]
    rfl
  rw [TypeIndex.erasure, hresolve, h.fqn v rfl]
  rfl

theorem AttributedTo.erasure_eq_fileErasure (h : AttributedTo r (some v)) (index : TypeIndex)
    (unit : CompilationUnit) : index.erasure unit r = r.fileErasure := by
  rw [h.erasure_eq, TypeRef.fileErasure, h.fqn v rfl]
  rfl

/-- Only what the type names at first counts for where its bounds lead. -/
theorem ErasesTo.congr {lists' : List (List TypeParam)}
    (h : ErasesTo index unit lists r erased bounds)
    (heq : r.variableIn lists' = r.variableIn lists) :
    ErasesTo index unit lists' r erased bounds := by
  cases h with
  | type hr => exact .type (heq.trans hr)
  | object hr hbound => exact .object (heq.trans hr) hbound
  | bound hr hbound hb => exact .bound (heq.trans hr) hbound hb

/-- No bound in the lists names a variable of its own list. -/
def BoundsOutside (lists : List (List TypeParam)) : Prop :=
  ∀ own ∈ lists, ∀ v ∈ own, ∀ b ∈ v.bound, b.variableIn [own] = none

/-- Where no bound names a variable of its own list, the bounds lead to an end. -/
theorem exists_erasesTo (h : BoundsOutside lists) (index : TypeIndex) (unit : CompilationUnit)
    (r : TypeRef) :
    ∃ erased bounds, ErasesTo index unit lists r erased bounds ∧
      ∀ e ∈ bounds, e.2.variableIn [e.1] = none := by
  induction lists generalizing r with
  | nil =>
    refine ⟨_, _, .type ?_, List.forall_mem_nil _⟩
    simp [TypeRef.variableIn, variableOf, findVariable]
  | cons own outer ih =>
    rw [BoundsOutside, List.forall_mem_cons] at h
    rcases r.variableIn_cons_cases own outer with ⟨-, heq⟩ | ⟨p, hp, -, heq⟩
    · obtain ⟨erased, bounds, herased, hbounds⟩ := ih h.2 r
      exact ⟨erased, bounds, herased.congr heq, hbounds⟩
    · cases hbound : p.bound with
      | none => exact ⟨_, _, .object heq hbound, List.forall_mem_nil _⟩
      | some b =>
        have houtside := h.1 p hp b hbound
        obtain ⟨erased, bounds, herased, hbounds⟩ := ih h.2 b
        have hb := herased.congr (TypeRef.variableIn_cons_of_none houtside)
        exact ⟨_, _, .bound heq hbound hb, List.forall_mem_cons.2 ⟨houtside, hbounds⟩⟩

/-- A variable erases to where its bounds lead exactly if the index adds nothing to what the file
    tells of them, as long as none of them names a variable of its own list. -/
theorem erasure_eq_iff_of_erasesTo (h : ErasesTo index unit lists r erased bounds)
    (hlists : BoundsRead lists) (hr : AttributedTo r (r.variableIn lists))
    (hown : ∀ e ∈ bounds, e.2.variableIn [e.1] = none) :
    index.erasure unit r = erased ↔
      ∀ e ∈ bounds, index.erasure unit e.2 = e.2.fileErasure := by
  induction h with
  | type => simp
  | object hv hbound =>
    rw [hv] at hr
    rw [hr.erasure_eq, Scope.boundErasure, hbound]
    simp
  | @bound lists r b v erased bounds hv hbound hb ih =>
    rw [List.forall_mem_cons] at hown ⊢
    rw [hv] at hr
    obtain ⟨hmem, hbounds⟩ := hlists.of_variableIn hv
    have hread : ReadAmong v.outer b := by
      cases hbounds with
      | cons hown _ => exact hown v.param hmem b hbound
    have hsame : b.variableIn (v.own :: v.outer) = b.variableIn v.outer :=
      TypeRef.variableIn_cons_of_none hown.1
    have hattributed : AttributedTo b (b.variableIn (v.own :: v.outer)) :=
      hsame ▸ hread.attributedTo
    have hrest := ih hbounds hattributed hown.2
    have herasure : index.erasure unit r = b.fileErasure ++ r.dimensions := by
      rw [hr.erasure_eq, Scope.boundErasure, hbound]
      rfl
    rw [herasure, String.append_left_inj, ← hrest]
    refine ⟨fun heq => ?_, fun heq => heq.1.symm.trans heq.2⟩
    -- A bound that is a variable is settled in the file, and another one is the last.
    have hfile : index.erasure unit b = b.fileErasure := by
      cases hb' : b.variableIn (v.own :: v.outer) with
      | some w => exact (hb' ▸ hattributed).erasure_eq_fileErasure index unit
      | none =>
        have hend := hb.unique (.type hb')
        rw [heq, hend.1]
    exact ⟨hfile, hfile.trans heq⟩

/-- The type of a parameter, as far as the file tells. -/
theorem ScopedMethod.Read.attributedTo {m : ScopedMethod} (h : m.Read) {p : Param}
    (hp : p ∈ m.method.params) : AttributedTo p.type (p.type.variableIn m.lists) := by
  obtain ⟨r, dims, hr, htype⟩ := h.params p hp
  rw [htype, variableIn_withDimensions]
  exact hr.attributedTo.withDimensions dims

/-- **The erasure of a parameter whose type is a type variable.** Such a type is known as one exactly
    if it names a variable that the method sees. It erases to where the bounds lead if no bound on
    the way names a variable of its own list, and the index adds nothing to what the file tells of
    these bounds; if it does add something, it erases to something else. -/
theorem CompilationUnit.erasure_variable_iff {source : List Char}
    (hparse : CompilationUnit.parse source = .ok unit) {m : ScopedMethod}
    (hm : m ∈ unit.scopedMethods) {p : Param} (hp : p ∈ m.method.params) (index : TypeIndex) :
    (p.type.typeVar ↔ (p.type.variableIn m.lists).isSome) ∧
    (BoundsOutside m.lists → ∃ erased bounds, ErasesTo index unit m.lists p.type erased bounds ∧
      ∀ e ∈ bounds, e.2.variableIn [e.1] = none) ∧
    ∀ erased bounds, ErasesTo index unit m.lists p.type erased bounds →
      (∀ e ∈ bounds, e.2.variableIn [e.1] = none) →
      (index.erasure unit p.type = erased ↔
        ∀ e ∈ bounds, index.erasure unit e.2 = e.2.fileErasure) := by
  have hread := CompilationUnit.read_of_mem_scopedMethods hparse m hm
  have hattributed := hread.attributedTo hp
  refine ⟨?_, fun houtside => exists_erasesTo houtside index unit p.type, ?_⟩
  · rw [hattributed.typeVar]
  · intro erased bounds herased hown
    exact erasure_eq_iff_of_erasesTo herased hread.bounds hattributed hown

/-- The variable of a method with that of its class as its bound. -/
theorem CompilationUnit.erasure_variable_iff_nested :
    let source := "class A<T extends Number>\x7b<U extends T>void f(U[] u)\x7b\x7d\x7d".toList
    let unit := (CompilationUnit.parse source).toOption.getD default
    (CompilationUnit.parse source).toOption.isSome ∧
      ∃ m ∈ unit.scopedMethods, ∃ p ∈ m.method.params, p.type.typeVar ∧
        (TypeIndex.build [unit]).erasure unit p.type = "java.lang.Number[]" := by
  intro source unit
  obtain ⟨hparse, m, hm, p, hp, hvar, bounds, -, hfollow, hown, hfile⟩ :
      (CompilationUnit.parse source).toOption.isSome ∧
      ∃ m ∈ unit.scopedMethods, ∃ p ∈ m.method.params, p.type.typeVar ∧
        ∃ bounds ∈ (followBounds (.build [unit]) unit 3 m.lists p.type).map Prod.snd,
          followBounds (.build [unit]) unit 3 m.lists p.type = some ("java.lang.Number[]", bounds) ∧
          (∀ e ∈ bounds, e.2.variableIn [e.1] = none) ∧
          ∀ e ∈ bounds, (TypeIndex.build [unit]).erasure unit e.2 = e.2.fileErasure := by
    decide +kernel
  have herases := erasesTo_iff_followBounds.2 ⟨3, hfollow⟩
  have herasure :=
    (erasure_variable_iff (eq_ok_getD_of_isSome hparse) hm hp (.build [unit])).2.2 _ _ herases hown
  exact ⟨hparse, m, hm, p, hp, hvar, herasure.2 hfile⟩

/-- A bound that only another file of the package declares is not found, and a bound that is a later
    variable of the same list is not seen. -/
theorem CompilationUnit.erasure_of_variable_misses_bound :
    let sources := ["package p;class B\x7b\x7d",
      "package p;class A<T extends B>\x7bvoid f(T t)\x7b\x7d" ++
        "<U extends V,V extends Number>void g(U u)\x7b\x7d\x7d"].map String.toList
    let units := sources.map fun s => (CompilationUnit.parse s).toOption.getD default
    let index := TypeIndex.build units
    (∀ s ∈ sources, (CompilationUnit.parse s).toOption.isSome) ∧
      ∃ unit ∈ units, ∃ f ∈ unit.scopedMethods, ∃ g ∈ unit.scopedMethods,
        ∃ t ∈ f.method.params, ∃ u ∈ g.method.params,
          (t.type.typeVar ∧ u.type.typeVar) ∧
          ((∃ bounds, ErasesTo index unit f.lists t.type "p.B" bounds) ∧
            index.erasure unit t.type = "B") ∧
          (∃ bounds, ErasesTo index unit g.lists u.type "java.lang.Number" bounds) ∧
            index.erasure unit u.type = "V" := by
  intro sources units index
  obtain ⟨hparse, unit, hunit, f, hf, g, hg, t, ht, u, hu, hvars, ⟨hfollow, herasure⟩, hfollow',
      herasure'⟩ :
      (∀ s ∈ sources, (CompilationUnit.parse s).toOption.isSome) ∧
      ∃ unit ∈ units, ∃ f ∈ unit.scopedMethods, ∃ g ∈ unit.scopedMethods,
        ∃ t ∈ f.method.params, ∃ u ∈ g.method.params,
          (t.type.typeVar ∧ u.type.typeVar) ∧
          ((followBounds index unit 3 f.lists t.type).map Prod.fst = some "p.B" ∧
            index.erasure unit t.type = "B") ∧
          (followBounds index unit 3 g.lists u.type).map Prod.fst = some "java.lang.Number" ∧
            index.erasure unit u.type = "V" := by
    decide +kernel
  have hleads {m : ScopedMethod} {p : Param} {erased : String}
      (h : (followBounds index unit 3 m.lists p.type).map Prod.fst = some erased) :
      ∃ bounds, ErasesTo index unit m.lists p.type erased bounds := by
    obtain ⟨⟨_, bounds⟩, hfollow, rfl⟩ := Option.map_eq_some_iff.1 h
    exact ⟨bounds, erasesTo_iff_followBounds.2 ⟨3, hfollow⟩⟩
  exact ⟨hparse, unit, hunit, f, hf, g, hg, t, ht, u, hu, hvars, ⟨hleads hfollow, herasure⟩,
    hleads hfollow', herasure'⟩

end JavaThrows
