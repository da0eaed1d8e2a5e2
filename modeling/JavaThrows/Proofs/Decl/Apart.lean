import JavaThrows.Proofs.Decl.Copies
import JavaThrows.Proofs.Decl.Tables
import JavaThrows.Proofs.Text.Split

set_option autoImplicit false

/-!
# Types that another file declares

A declaration is read in a file that declares all types of a package, and as a copy in one that
lacks some of them. What a type denotes is the same in both, but for the types that are lacking:
there the whole file gives the full name, and the other file takes a simple name for a guess at
most. Main statements: `Gap.Scopes.attributionOf` for a single type, and `Copies.lowered` for the
walk through all that stands inside of a type.
-/

namespace JavaThrows

open Cst Text

/-! ## Types in both files -/

/-- The name that decides what the type denotes. -/
def TypeRef.firstName (r : TypeRef) : String :=
  firstSegment (cutDimensions r.erased).1

/-- What the type denotes. -/
def TypeRef.attribution (r : TypeRef) : Attribution :=
  ⟨r.fqn, r.certain, r.typeVar⟩

/-- What the second file has not got of the first one. -/
structure Gap where
  /-- What stands before the simple names of the package's types. -/
  packagePrefix : String
  /-- Simple and full names of the imported types, in both files. -/
  imports : List (String × String)
  /-- The names of the types at the top level that the second file lacks. -/
  lacking : List String
  /-- By the simple name of a type that is lacking no other one is imported. -/
  imported : ∀ name ∈ lacking, ∀ i ∈ imports.find? fun i => i.1 == name,
    i.2 = packagePrefix ++ name

namespace Gap

variable (g : Gap)

/-- The second file has neither the type nor an import of it. -/
def Misses (name : String) : Prop :=
  name ∈ g.lacking ∧ (g.imports.find? fun i => i.1 == name) = none

/-- The first file knows the erased type by a declaration that the second one misses. -/
structure Crossed (erased : String) (a a' : Attribution) : Prop where
  misses : g.Misses (firstSegment (cutDimensions erased).1)
  whole : a = .sure (g.packagePrefix ++ erased)
  typeVar : a'.typeVar = false
  simple : Text.isSimple erased → a'.certain = false
  qualified : '.' ∈ (cutDimensions erased).1.toList →
    a'.fqn = some erased ∨ firstSegment (cutDimensions erased).1 ∈ JavaLang.types

/-- The same type, as it is seen in both files. -/
structure Seen (r r' : TypeRef) : Prop where
  erased : r.erased = r'.erased
  denotes : r.attribution = r'.attribution ∨ g.Crossed r.erased r.attribution r'.attribution

/-- The bound of a type variable does not begin with a name that the second file misses. -/
def BoundWithin (source : List Char) (n : Node) : Prop :=
  n.kind = "type_bound" → ∀ c ∈ n.namedChildren.head?,
    ¬ g.Misses (firstSegment (cutDimensions (Erasure.erase (slice source c.span))).1)

/-! ## Scopes and tables -/

/-- The types in a region have all that is inside of them in it. Unless nothing is lacking, they are
    no types at the top level, which have the empty owner. -/
structure Closed (region : String → Prop) : Prop where
  inside : ∀ {owner fqn : String}, region owner → Inside owner fqn → region fqn
  clear : ∀ {owner : String}, region owner → owner = "" → g.lacking = []

/-- Two tables that say the same of the types in a region, and of the types at the top level, of
    which the second one lacks some. -/
structure Tables (region : String → Prop) (ds ds' : DeclaredTypes) : Prop where
  inner : ∀ {owner : String}, region owner → ∀ name, ds.find? owner name = ds'.find? owner name
  shared : ∀ {name : String}, name ∉ g.lacking → ds.find? "" name = ds'.find? "" name
  absent : ∀ {name : String}, name ∈ g.lacking →
    ds.find? "" name = some (g.packagePrefix ++ name) ∧ ds'.find? "" name = none

/-- Two places with the same types around them, which are in the region. -/
structure Scopes (region : String → Prop) (source source' : List Char) (s s' : Scope) : Prop where
  source : s.source = source
  source' : s'.source = source'
  packagePrefix : s.packagePrefix = g.packagePrefix
  packagePrefix' : s'.packagePrefix = g.packagePrefix
  imports : s.imports = g.imports
  imports' : s'.imports = g.imports
  enclosing : s.enclosing = s'.enclosing
  inside : ∀ owner ∈ s.enclosing, region owner
  typeVars : List.Forall₂
    (fun p p' => p.name = p'.name ∧ Scope.boundErasure p = Scope.boundErasure p')
    s.typeVars s'.typeVars

/-- A name without points denotes the same type in both files, or the second one misses it. -/
def Provides (s s' : Scope) (ds ds' : DeclaredTypes) (name : String) : Prop :=
  (s.declaredType ds name).or (s.importedType name) =
      (s'.declaredType ds' name).or (s'.importedType name) ∨
    g.Misses name ∧
      (s.declaredType ds name).or (s.importedType name) = some (g.packagePrefix ++ name) ∧
      (s'.declaredType ds' name).or (s'.importedType name) = none

end Gap

theorem Gap.Closed.of_name {g : Gap} {top : String} (htop : top ≠ "") : g.Closed (Inside top) where
  inside h h' := h.trans h'
  clear h hempty := absurd hempty (h.ne_empty htop)

theorem Scope.attribution_typeRef (s : Scope) (ds : DeclaredTypes) (n : Node) :
    (s.typeRef ds n).attribution = s.attributionOf ds (Erasure.erase (s.text n)) := by
  simp only [TypeRef.attribution, Scope.typeRef]

section Seen

variable {g : Gap} {region : String → Prop} {source source' : List Char} {s s' : Scope}
  {ds ds' : DeclaredTypes}

/-- Dimensions behind a type change nothing. -/
theorem Gap.Seen.withDimensions : KeepsDimensions g.Seen := by
  intro r r' dims h
  refine ⟨?_, ?_⟩
  · rw [Scope.withDimensions, Scope.withDimensions, h.erased]
  · have hwith (r : TypeRef) : (Scope.withDimensions r dims).attribution =
        ⟨r.attribution.fqn.map (· ++ String.ofList (brackets dims)), r.attribution.certain,
          r.attribution.typeVar⟩ := rfl
    have herased : (Scope.withDimensions r dims).erased =
        r.erased ++ String.ofList (brackets dims) := rfl
    rw [hwith, hwith, herased]
    rcases h.denotes with heq | hcrossed
    · exact .inl (by rw [heq])
    · have hfirst := cutDimensions_append_brackets r.erased dims
      refine .inr ⟨?_, ?_, hcrossed.typeVar, fun hsimple => hcrossed.simple ?_, fun hpoint => ?_⟩
      · rw [hfirst]
        exact hcrossed.misses
      · rw [hcrossed.whole, Attribution.sure, Attribution.sure, Option.map_some,
          String.append_assoc]
      · rwa [isSimple_append_brackets] at hsimple
      · rw [hfirst] at hpoint ⊢
        exact (hcrossed.qualified hpoint).imp_left fun hfqn => by rw [hfqn, Option.map_some]

namespace Gap.Scopes

theorem copy (hs : g.Scopes region source source' s s') {n n' : Node}
    (h : Copy source source' n n') : Copy s.source s'.source n n' := by
  rwa [hs.source, hs.source']

theorem header (hs : g.Scopes region source source' s s') {n n' : Node}
    (h : SameHeader source source' n n') : SameHeader s.source s'.source n n' := by
  rwa [hs.source, hs.source']

theorem qualify (hs : g.Scopes region source source' s s')
    (parent : Option String) (name : String) : s.qualify parent name = s'.qualify parent name := by
  cases parent <;> simp [Scope.qualify, hs.packagePrefix, hs.packagePrefix']

/-- A name that is lacking may still be declared around the place, in both files. -/
theorem declaredType (hs : g.Scopes region source source' s s') (hds : g.Tables region ds ds')
    (name : String) :
    s.declaredType ds name = s'.declaredType ds' name ∨ name ∈ g.lacking ∧
      s.declaredType ds name = some (g.packagePrefix ++ name) ∧
      s'.declaredType ds' name = none := by
  have henclosing : s.enclosing.findSome? (fun owner => ds.find? owner name) =
      s'.enclosing.findSome? fun owner => ds'.find? owner name := by
    rw [← hs.enclosing]
    have hinside := hs.inside
    generalize s.enclosing = owners at hinside ⊢
    induction owners with
    | nil => rfl
    | cons owner owners ih =>
      rw [List.forall_mem_cons] at hinside
      rw [List.findSome?_cons, List.findSome?_cons, hds.inner hinside.1, ih hinside.2]
  have htop (ds : DeclaredTypes) :
      [""].findSome? (fun owner => ds.find? owner name) = ds.find? "" name := by
    cases h : ds.find? "" name <;> simp [h]
  rw [Scope.declaredType, Scope.declaredType, List.findSome?_append, List.findSome?_append,
    henclosing, htop, htop]
  by_cases hname : name ∈ g.lacking
  · obtain ⟨hfound, hnone⟩ := hds.absent hname
    rw [hfound, hnone]
    cases s'.enclosing.findSome? fun owner => ds'.find? owner name with
    | some fqn => exact .inl rfl
    | none => exact .inr ⟨hname, rfl, rfl⟩
  · exact .inl (by rw [hds.shared hname])

/-- The import of a name that is lacking makes up for it. -/
theorem providedType (hs : g.Scopes region source source' s s') (hds : g.Tables region ds ds')
    (name : String) : g.Provides s s' ds ds' name := by
  rw [Gap.Provides, Scope.importedType, Scope.importedType, hs.imports, hs.imports']
  rcases hs.declaredType hds name with heq | ⟨hname, hfound, hnone⟩
  · exact .inl (by rw [heq])
  · rw [hfound, hnone, Option.some_or, Option.none_or]
    cases hfind : g.imports.find? fun i => i.1 == name with
    | none => exact .inr ⟨⟨hname, hfind⟩, rfl, rfl⟩
    | some i => exact .inl (congrArg some (g.imported name hname i hfind).symm)

/-- **What an erased type denotes in both files.** -/
theorem attributionOf (hs : g.Scopes region source source' s s') {erased : String}
    (hprovides : g.Provides s s' ds ds' (firstSegment (cutDimensions erased).1)) :
    s.attributionOf ds erased = s'.attributionOf ds' erased ∨
      g.Crossed erased (s.attributionOf ds erased) (s'.attributionOf ds' erased) := by
  have herased := cutDimensions_append erased
  simp only [Scope.attributionOf]
  split
  · exact .inl rfl
  cases hcut : cutFirst '.' (cutDimensions erased).1.toList with
  | none =>
    dsimp only
    have hvar := rel_find? hs.typeVars (p := fun p => p.name == (cutDimensions erased).1)
      (q := fun p => p.name == (cutDimensions erased).1) fun p p' hp => by rw [hp.1]
    generalize s.typeVars.find? _ = var, s'.typeVars.find? _ = var' at hvar ⊢
    cases hvar with
    | some hbound =>
      dsimp only
      exact .inl (by rw [hbound.2])
    | none =>
      dsimp only
      have hpoint := notMem_of_cutFirst_eq_none hcut
      rw [firstSegment_of_notMem hpoint] at hprovides
      rcases hprovides with heq | ⟨hname, hfound, hnone⟩
      · exact .inl (by rw [heq])
      · rw [hfound, hnone]
        dsimp only
        refine .inr ⟨?_, ?_, ?_, fun _ => ?_, fun h => absurd h hpoint⟩
        · rwa [firstSegment_of_notMem hpoint]
        · rw [String.append_assoc, herased]
        · split <;> rfl
        · split <;> rfl
  | some parts =>
    obtain ⟨first, rest⟩ := parts
    dsimp only
    have hbase := eq_append_of_cutFirst hcut
    have hfirst := firstSegment_of_eq_append (notMem_of_cutFirst hcut) hbase
    rw [hfirst] at hprovides
    rcases hprovides with heq | ⟨hname, hfound, hnone⟩
    · exact .inl (by rw [heq])
    · rw [hfound, hnone]
      dsimp only
      refine .inr ⟨?_, ?_, ?_, fun hsimple => ?_, fun _ => ?_⟩
      · rwa [hfirst]
      · have hpoint : String.ofList first ++ "." ++ String.ofList rest = (cutDimensions erased).1 :=
          String.toList_inj.1 (by simp [hbase])
        have hjoined : String.ofList first ++ "." ++ String.ofList rest ++
            (cutDimensions erased).2 = erased := by rw [hpoint, herased]
        refine congrArg Attribution.sure (Eq.trans ?_ (congrArg (g.packagePrefix ++ ·) hjoined))
        simp only [String.append_assoc]
      · split <;> rfl
      · rw [← herased, Text.isSimple] at hsimple
        simp [hbase] at hsimple
      · rw [hfirst]
        split
        · next hlang => exact .inr (by simpa using hlang)
        · exact .inl rfl

/-- **A type that is read in both files.** -/
theorem typeRef (hs : g.Scopes region source source' s s') (hds : g.Tables region ds ds') :
    RelatesTypes g.Seen s s' ds ds' := by
  intro n n' h
  have htext : s.text n = s'.text n' := h.text
  have herased : (s.typeRef ds n).erased = Erasure.erase (s'.text n') :=
    congrArg Erasure.erase htext
  refine ⟨herased, ?_⟩
  rw [herased, Scope.attribution_typeRef, Scope.attribution_typeRef, htext]
  exact hs.attributionOf (hs.providedType hds _)

end Gap.Scopes

theorem not_misses_of_boundWithin {n : Node} (h : n.Everywhere (g.BoundWithin source))
    (hs : s.source = source) :
    ∀ p ∈ s.typeParams ds n, ∀ bound ∈ p.bound, ¬ g.Misses bound.firstName := by
  intro p hp bound hbound
  unfold Scope.typeParams at hp
  cases hlist : n.childByField "type_parameters" with
  | none => simp [hlist] at hp
  | some list =>
    rw [hlist] at hp
    obtain ⟨param, hparam, rfl⟩ := List.mem_map.1 hp
    have hlist := h.children list (List.mem_of_find?_eq_some hlist)
    have hparam := hlist.children param (List.mem_filter.1 (List.mem_filter.1 hparam).1).1
    obtain ⟨c, hc, rfl⟩ := Option.mem_map.1 hbound
    obtain ⟨b, hb, hc⟩ := Option.bind_eq_some_iff.1 hc
    have hkind : b.kind = "type_bound" := by simpa using List.find?_some hb
    have hwithin := (hparam.children b (List.mem_of_find?_eq_some hb)).here hkind c hc
    rwa [← hs] at hwithin

namespace Gap.Scopes

/-- A type variable has the same erasure in both files, if its bound does not lead elsewhere. -/
theorem typeParams (hs : g.Scopes region source source' s s') (hds : g.Tables region ds ds')
    {n n' : Node} (h : SameHeader source source' n n')
    (hwithin : ∀ p ∈ s'.typeParams ds' n', ∀ bound ∈ p.bound, ¬ g.Misses bound.firstName) :
    List.Forall₂ (TypeParam.Alike g.Seen) (s.typeParams ds n) (s'.typeParams ds' n') ∧
      g.Scopes region source source' (s.withTypeVars (s.typeParams ds n))
        (s'.withTypeVars (s'.typeParams ds' n')) := by
  have halike := (hs.header h).typeParams (hs.typeRef hds)
  refine ⟨halike, { hs with typeVars := ?_ }⟩
  refine List.rel_append (List.rel_reverse ?_) hs.typeVars
  have hflipped : List.Forall₂ (flip (TypeParam.Alike g.Seen)) (s'.typeParams ds' n')
    (s.typeParams ds n) := halike.flip
  refine .flip (((List.forall₂_and_left _ _).2 ⟨hwithin, hflipped⟩).imp fun p' p hp => ?_)
  refine ⟨hp.2.name, ?_⟩
  have hbound : Option.Rel _ p.bound p'.bound := hp.2.bound
  have hnone := hp.1
  unfold Scope.boundErasure
  generalize p.bound = bound, p'.bound = bound' at hbound hnone ⊢
  cases hbound with
  | none => rfl
  | @some r r' hr =>
    dsimp only
    rcases hr.denotes with heq | hcrossed
    · have hfqn : r.fqn = r'.fqn := congrArg Attribution.fqn heq
      rw [hfqn, hr.erased]
    · have hmisses := hcrossed.misses
      rw [hr.erased] at hmisses
      exact absurd hmisses (hnone r' rfl)

theorem enter (hs : g.Scopes region source source' s s') {fqn : String}
    (hfqn : region fqn) :
    g.Scopes region source source' (s.enter fqn) (s'.enter fqn) :=
  { hs with
    enclosing := congrArg (fqn :: ·) hs.enclosing
    inside := List.forall_mem_cons.2 ⟨hfqn, hs.inside⟩ }

end Gap.Scopes

/-- A type that is declared in the region is declared in both. -/
theorem Gap.Tables.declare (hds : g.Tables region ds ds') (hregion : g.Closed region)
    {owner : String} (howner : region owner) (name fqn : String) :
    g.Tables region (ds.declare owner name fqn) (ds'.declare owner name fqn) := by
  refine ⟨fun {o} ho x => ?_, fun {x} hx => ?_, fun {x} hx => ?_⟩
  · rw [DeclaredTypes.find?_declare, DeclaredTypes.find?_declare, hds.inner howner, hds.inner ho]
  · rw [DeclaredTypes.find?_declare, DeclaredTypes.find?_declare, hds.inner howner, hds.shared hx]
  · have hout : ¬ ("" = owner ∧ x = name) := fun h => by
      rw [hregion.clear howner h.1.symm] at hx
      cases hx
    rw [DeclaredTypes.find?_declare, DeclaredTypes.find?_declare, if_neg hout, if_neg hout]
    exact hds.absent hx

/-- A type at the top level that both files have is declared in both. -/
theorem Gap.Tables.declare_top (hds : g.Tables region ds ds') {name : String}
    (hname : name ∉ g.lacking) (fqn : String) :
    g.Tables region (ds.declare "" name fqn) (ds'.declare "" name fqn) := by
  refine ⟨fun {o} ho x => ?_, fun {x} hx => ?_, fun {x} hx => ?_⟩
  · rw [DeclaredTypes.find?_declare, DeclaredTypes.find?_declare, hds.shared hname, hds.inner ho]
  · rw [DeclaredTypes.find?_declare, DeclaredTypes.find?_declare, hds.shared hname, hds.shared hx]
  · have hne : ¬ ("" = "" ∧ x = name) := fun h => hname (h.2 ▸ hx)
    rw [DeclaredTypes.find?_declare, DeclaredTypes.find?_declare, if_neg hne, if_neg hne]
    exact hds.absent hx

end Seen

/-! ## Two runs -/

section Runs

variable {α β γ δ : Type}

/-- Two runs from states that are related yield related results, and the states stay related. -/
def RunsAlike (states : Walk → Walk → Prop) (results : α → β → Prop) (x : WalkM α)
    (y : WalkM β) : Prop :=
  ∀ w w' : Walk, states w w' →
    results (x.run w).1 (y.run w').1 ∧ states (x.run w).2 (y.run w').2

namespace RunsAlike

variable {states : Walk → Walk → Prop} {results : α → β → Prop} {results' : γ → δ → Prop}

theorem pure {a : α} {b : β} (h : results a b) :
    RunsAlike states results (Pure.pure a) (Pure.pure b) :=
  fun _ _ hw => ⟨h, hw⟩

theorem bind {x : WalkM α} {y : WalkM β} {f : α → WalkM γ} {g : β → WalkM δ}
    (h : RunsAlike states results x y)
    (hfg : ∀ a b, results a b → RunsAlike states results' (f a) (g b)) :
    RunsAlike states results' (x >>= f) (y >>= g) := by
  intro w w' hw
  obtain ⟨hresults, hstates⟩ := h w w' hw
  exact hfg _ _ hresults _ _ hstates

theorem get : RunsAlike states states MonadState.get MonadState.get :=
  fun _ _ hw => ⟨hw, hw⟩

end RunsAlike

end Runs

section Results

variable (R : TypeRef → TypeRef → Prop)

def TypesAlike (ds ds' : List TypeDecl) : Prop :=
  List.Forall₂ (TypeDecl.Alike R) (allOfTypes ds) (allOfTypes ds')

def methodsOfMembers (ms : List Member) : List Method :=
  (TypeDecl.mk default ms).methods

structure MembersAlike (ms ms' : List Member) : Prop where
  methods : List.Forall₂ (Method.Alike R) (methodsOfMembers ms) (methodsOfMembers ms')
  types : TypesAlike R (typesOfMembers ms) (typesOfMembers ms')

variable {R}

theorem TypesAlike.append {as as' bs bs' : List TypeDecl} (ha : TypesAlike R as as')
    (hb : TypesAlike R bs bs') : TypesAlike R (as ++ bs) (as' ++ bs') := by
  rw [TypesAlike, allOfTypes_append, allOfTypes_append]
  exact List.rel_append ha hb

theorem methodsOfMembers_append (as bs : List Member) :
    methodsOfMembers (as ++ bs) = methodsOfMembers as ++ methodsOfMembers bs :=
  List.filterMap_append

theorem methodsOfMembers_map_type (ds : List TypeDecl) : methodsOfMembers (ds.map .type) = [] := by
  induction ds with
  | nil => rfl
  | cons d ds ih => exact ih

theorem MembersAlike.append {as as' bs bs' : List Member} (ha : MembersAlike R as as')
    (hb : MembersAlike R bs bs') : MembersAlike R (as ++ bs) (as' ++ bs') := by
  refine ⟨?_, ?_⟩
  · rw [methodsOfMembers_append, methodsOfMembers_append]
    exact List.rel_append ha.methods hb.methods
  · rw [typesOfMembers_append, typesOfMembers_append]
    exact ha.types.append hb.types

theorem TypesAlike.members {ds ds' : List TypeDecl} (h : TypesAlike R ds ds') :
    MembersAlike R (ds.map .type) (ds'.map .type) := by
  refine ⟨?_, ?_⟩
  · rw [methodsOfMembers_map_type, methodsOfMembers_map_type]
    exact .nil
  · rwa [typesOfMembers_map_type, typesOfMembers_map_type]

theorem TypesAlike.method {ts ts' : List TypeDecl} (h : TypesAlike R ts ts') {m m' : Method}
    (hm : Method.Alike R m m') : MembersAlike R [.method m ts] [.method m' ts'] := by
  refine ⟨.cons hm .nil, ?_⟩
  rwa [typesOfMembers, typesOfMembers, List.flatMap_singleton, List.flatMap_singleton]

/-- A type is the same if its head and its members are. -/
theorem TypesAlike.singleton {head head' : TypeHead} {ms ms' : List Member}
    (hhead : TypeHead.Alike R head head') (hms : MembersAlike R ms ms') :
    TypesAlike R [.mk head ms] [.mk head' ms'] := by
  have htypes := hms.types
  simp only [TypesAlike, allOfTypes, TypeDecl.all, allOfMembers_eq, List.append_nil]
  exact .cons ⟨hhead, hms.methods⟩ htypes

end Results

/-! ## The walk -/

section

variable (g : Gap) (region : String → Prop)

/-- Two states of the walk that have met as many anonymous classes. -/
structure Gap.Walks (w w' : Walk) : Prop where
  declared : g.Tables region w.declared w'.declared
  anonymous : w.anonymous = w'.anonymous

end

namespace Gap.Walks

variable {g : Gap} {region : String → Prop}

theorem openType : RunsAlike (g.Walks region) (· = ·) openType openType :=
  fun _ _ hw => ⟨hw.anonymous, hw.declared, rfl⟩

theorem closeType {outer outer' : Nat} (h : outer = outer') :
    RunsAlike (g.Walks region) (fun _ _ => True) (closeType outer)
      (closeType outer') :=
  fun _ _ hw => ⟨trivial, hw.declared, h⟩

theorem declare {owner name fqn : String}
    (h : ∀ ds ds', g.Tables region ds ds' →
      g.Tables region (ds.declare owner name fqn) (ds'.declare owner name fqn)) :
    RunsAlike (g.Walks region) (fun _ _ => True)
      (modify fun w => { w with declared := w.declared.declare owner name fqn })
      (modify fun w => { w with declared := w.declared.declare owner name fqn }) :=
  fun _ _ hw => ⟨trivial, h _ _ hw.declared, hw.anonymous⟩

theorem nextAnonymous :
    RunsAlike (g.Walks region) (· = ·) nextAnonymous nextAnonymous :=
  fun _ _ hw => ⟨congrArg (· + 1) hw.anonymous, hw.declared, congrArg (· + 1) hw.anonymous⟩

end Gap.Walks

section

variable (g : Gap) (region : String → Prop) (source source' : List Char)

/-- The walks through two rows of nodes yield the same, in the region. -/
structure Gap.Lowers (ns ns' : List Node) : Prop where
  members : ∀ {s s' : Scope}, g.Scopes region source source' s s' →
    ∀ {owner : String}, region owner → ∀ (ownerName : String)
    {recordParams recordParams' : List Param},
    List.Forall₂ (Param.Alike g.Seen) recordParams recordParams' →
    RunsAlike (g.Walks region) (MembersAlike g.Seen)
      (lowerMembers s owner ownerName recordParams ns)
      (lowerMembers s' owner ownerName recordParams' ns')
  inside : ∀ {s s' : Scope}, g.Scopes region source source' s s' →
    ∀ {owner : String}, region owner →
    RunsAlike (g.Walks region) (TypesAlike g.Seen)
      (lowerInside s owner ns) (lowerInside s' owner ns')
  body : ∀ {s s' : Scope}, g.Scopes region source source' s s' →
    ∀ {owner : String}, region owner → ∀ (ownerName : String)
    {recordParams recordParams' : List Param},
    List.Forall₂ (Param.Alike g.Seen) recordParams recordParams' →
    ∀ {isBody : Node → Bool}, (∀ n n', Copy source source' n n' → isBody n = isBody n') →
    RunsAlike (g.Walks region) (MembersAlike g.Seen)
      (lowerBody s owner ownerName recordParams isBody ns)
      (lowerBody s' owner ownerName recordParams' isBody ns')
  locals : ∀ {s s' : Scope}, g.Scopes region source source' s s' →
    ∀ {owner : String}, region owner →
    ∀ {isWanted : Node → Bool}, (∀ n n', Copy source source' n n' → isWanted n = isWanted n') →
    RunsAlike (g.Walks region) (TypesAlike g.Seen)
      (lowerLocals s owner isWanted ns) (lowerLocals s' owner isWanted ns')

end

section Walk

variable {g : Gap} {region : String → Prop} {source source' : List Char} {s s' : Scope}
  {ns ns' : List Node}

theorem Copy.isOfField {n n' : Node} (h : Copy source source' n n') (field : String) :
    (n.field == some field) = (n'.field == some field) := by
  rw [h.field]

theorem Gap.Lowers.nil : g.Lowers region source source' [] [] where
  members _ _ _ _ _ _ _ := by
    rw [lowerMembers, lowerMembers]
    exact .pure ⟨.nil, .nil⟩
  inside _ _ _ := by
    rw [lowerInside, lowerInside]
    exact .pure .nil
  body _ _ _ _ _ _ _ _ _ := by
    rw [lowerBody, lowerBody]
    exact .pure ⟨.nil, .nil⟩
  locals _ _ _ _ _ := by
    rw [lowerLocals, lowerLocals]
    exact .pure .nil

/-- A type is the same if its members are. -/
theorem lowerType_apart (hs : g.Scopes region source source' s s')
    (parent : Option String) {n n' : Node} (h : Copy source source' n n')
    (hbounds : n'.Everywhere (g.BoundWithin source'))
    (hchildren : g.Lowers region source source' n.children n'.children)
    (hfqn : region (s.qualify parent (s.nameOf n)))
    (hdeclare : ∀ ds ds', g.Tables region ds ds' →
      g.Tables region
        (ds.declare (parent.getD "") (s.nameOf n) (s.qualify parent (s.nameOf n)))
        (ds'.declare (parent.getD "") (s.nameOf n) (s.qualify parent (s.nameOf n)))) :
    RunsAlike (g.Walks region) (fun d d' => TypesAlike g.Seen [d] [d'])
      (lowerType s parent n) (lowerType s' parent n') := by
  have hcopy := hs.copy h
  have hname := hcopy.nameOf
  have hqualify := hs.qualify parent (s.nameOf n)
  have hkind := h.kind
  obtain ⟨kind, field, named, span, children⟩ := n
  obtain ⟨kind', field', named', span', children'⟩ := n'
  obtain rfl : kind = kind' := hkind
  rw [lowerType, lowerType, ← hname, ← hqualify]
  refine .bind (Gap.Walks.declare hdeclare) fun _ _ _ => .bind .get fun w w' hw => ?_
  obtain ⟨htypeParams, hinner⟩ := hs.typeParams hw.declared h.sameHeader
    (not_misses_of_boundWithin hbounds hs.source')
  have hsupertypes := (hinner.copy h).supertypes (hinner.typeRef hw.declared)
  have hbody := hinner.enter hfqn
  refine .bind Gap.Walks.openType fun outer outer' houter =>
    .bind (hchildren.body hbody hfqn _ ?_ fun _ _ hc => hc.isOfField "body") fun ms ms' hms =>
      .bind (Gap.Walks.closeType houter) fun _ _ _ => .pure (.singleton ?_ hms)
  · split
    · exact (hbody.copy h).sameHeader.params (hbody.typeRef hw.declared) Gap.Seen.withDimensions
    · exact .nil
  · exact ⟨rfl, rfl, rfl, htypeParams, hsupertypes⟩

/-- The body of an anonymous class is the same if its members are. -/
theorem Gap.Lowers.anonymous {α β : Type} {results : α → β → Prop}
    (h : g.Lowers region source source' ns ns') (hregion : g.Closed region)
    (hs : g.Scopes region source source' s s') {owner : String}
    (howner : region owner) {next : Nat → List Member → WalkM α}
    {next' : Nat → List Member → WalkM β}
    (hnext : ∀ number ms ms', MembersAlike g.Seen ms ms' →
      RunsAlike (g.Walks region) results (next number ms) (next' number ms')) :
    RunsAlike (g.Walks region) results
      (do
        let number ← nextAnonymous
        let outer ← openType
        let members ← lowerBody (s.enter s!"{owner}${number}") s!"{owner}${number}"
          (toString number) [] (fun c => c.kind == "class_body") ns
        closeType outer
        next number members)
      (do
        let number ← nextAnonymous
        let outer ← openType
        let members ← lowerBody (s'.enter s!"{owner}${number}") s!"{owner}${number}"
          (toString number) [] (fun c => c.kind == "class_body") ns'
        closeType outer
        next' number members) := by
  refine .bind Gap.Walks.nextAnonymous fun number _ hnumber => ?_
  subst hnumber
  have hinside := hregion.inside howner (Inside.anonymous owner number)
  exact .bind Gap.Walks.openType fun outer outer' houter =>
    .bind (h.body (hs.enter hinside) hinside _ .nil fun _ _ hc => by rw [hc.kind]) fun ms ms' hms =>
      .bind (Gap.Walks.closeType houter) fun _ _ _ => hnext number ms ms' hms

section Append

variable {states : Walk → Walk → Prop} {R : TypeRef → TypeRef → Prop}

/-- The two halves of a row are put together. -/
theorem RunsAlike.append_members {x y : WalkM (List Member)} {xs ys : List Member}
    (h : RunsAlike states (MembersAlike R) x y) (hxs : MembersAlike R xs ys) :
    RunsAlike states (MembersAlike R) (do return xs ++ (← x)) (do return ys ++ (← y)) :=
  .bind h fun _ _ hab => .pure (hxs.append hab)

theorem RunsAlike.append_types {x y : WalkM (List TypeDecl)} {xs ys : List TypeDecl}
    (h : RunsAlike states (TypesAlike R) x y) (hxs : TypesAlike R xs ys) :
    RunsAlike states (TypesAlike R) (do return xs ++ (← x)) (do return ys ++ (← y)) :=
  .bind h fun _ _ hab => .pure (hxs.append hab)

end Append

section Node

variable {kind : String} {field : Option String} {named : Bool} {span span' : Span}
  {children children' : List Node}

/-- A type that is declared inside of its owner. -/
theorem lowerMember_apart (hs : g.Scopes region source source' s s')
    (hregion : g.Closed region) {owner : String} (howner : region owner) {n n' : Node}
    (h : Copy source source' n n') (hbounds : n'.Everywhere (g.BoundWithin source'))
    (hchildren : g.Lowers region source source' n.children n'.children) :
    RunsAlike (g.Walks region) (fun d d' => TypesAlike g.Seen [d] [d'])
      (lowerType s (some owner) n) (lowerType s' (some owner) n') :=
  lowerType_apart hs (some owner) h hbounds hchildren (hregion.inside howner (.member owner _))
    fun _ _ hds => hds.declare hregion howner _ _

theorem lowerInside_apart (hregion : g.Closed region)
    (h : Copy source source' ⟨kind, field, named, span, children⟩
      ⟨kind, field, named, span', children'⟩)
    (hbounds : Node.Everywhere (g.BoundWithin source')
      ⟨kind, field, named, span', children'⟩)
    (hchildren : g.Lowers region source source' children children')
    (hrest : g.Lowers region source source' ns ns')
    (hs : g.Scopes region source source' s s') {owner : String}
    (howner : region owner) :
    RunsAlike (g.Walks region) (TypesAlike g.Seen)
      (lowerInside s owner (⟨kind, field, named, span, children⟩ :: ns))
      (lowerInside s' owner (⟨kind, field, named, span', children'⟩ :: ns')) := by
  have hothers := hrest.inside hs howner
  rw [lowerInside, lowerInside]
  by_cases htype : isTypeNode kind
  · rw [if_pos htype, if_pos htype]
    exact .bind (lowerMember_apart hs hregion howner h hbounds hchildren) fun d d' hd =>
      hothers.append_types hd
  rw [if_neg htype, if_neg htype]
  by_cases hcreation : kind == "object_creation_expression"
  · rw [if_pos hcreation, if_pos hcreation]
    refine .bind (hchildren.locals hs howner fun _ _ hc => hc.isOfField "arguments")
      fun created created' hcreated => ?_
    have hbody := h.childOfKind "class_body"
    have htype := h.childByField "type"
    generalize Node.childOfKind ⟨kind, field, named, span, children⟩ "class_body" = body,
      Node.childByField ⟨kind, field, named, span, children⟩ "type" = type at hbody htype ⊢
    generalize Node.childOfKind ⟨kind, field, named, span', children'⟩ "class_body" = body',
      Node.childByField ⟨kind, field, named, span', children'⟩ "type" = type' at hbody htype ⊢
    cases hbody with
    | none => exact .bind (.pure hcreated) fun _ _ hall => hothers.append_types hall
    | some hbody =>
      cases htype with
      | none => exact .bind (.pure hcreated) fun _ _ hall => hothers.append_types hall
      | some htype =>
        refine .bind .get fun w w' hw =>
          hchildren.anonymous hregion hs howner fun number ms ms' hms =>
            .bind (.pure (hcreated.append (.singleton ?_ hms))) fun _ _ hall =>
              hothers.append_types hall
        exact ⟨rfl, rfl, rfl, .nil, .cons (hs.typeRef hw.declared (hs.copy htype)) .nil⟩
  · rw [if_neg hcreation, if_neg hcreation]
    exact .bind (hchildren.inside hs howner) fun found found' hfound => hothers.append_types hfound

theorem lowerMembers_apart (hregion : g.Closed region)
    (h : Copy source source' ⟨kind, field, named, span, children⟩
      ⟨kind, field, named, span', children'⟩)
    (hbounds : Node.Everywhere (g.BoundWithin source')
      ⟨kind, field, named, span', children'⟩)
    (hchildren : g.Lowers region source source' children children')
    (hrest : g.Lowers region source source' ns ns')
    (hs : g.Scopes region source source' s s') {owner : String}
    (howner : region owner) (ownerName : String) {recordParams recordParams' : List Param}
    (hrecord : List.Forall₂ (Param.Alike g.Seen) recordParams
      recordParams') :
    RunsAlike (g.Walks region) (MembersAlike g.Seen)
      (lowerMembers s owner ownerName recordParams (⟨kind, field, named, span, children⟩ :: ns))
      (lowerMembers s' owner ownerName recordParams'
        (⟨kind, field, named, span', children'⟩ :: ns')) := by
  have hothers := hrest.members hs howner ownerName hrecord
  rw [lowerMembers, lowerMembers]
  by_cases hnamed : !named
  · rw [if_pos hnamed, if_pos hnamed]
    exact .bind (.pure ⟨.nil, .nil⟩) fun _ _ hall => hothers.append_members hall
  rw [if_neg hnamed, if_neg hnamed]
  by_cases hmethod : isMethodNode kind
  · rw [if_pos hmethod, if_pos hmethod]
    refine .bind .get fun w w' hw => ?_
    obtain ⟨-, hinner⟩ := hs.typeParams hw.declared h.sameHeader
      (not_misses_of_boundWithin hbounds hs.source')
    have halike := (hs.copy h).sameHeader.method (hs.typeRef hw.declared) (hinner.typeRef hw.declared)
      Gap.Seen.withDimensions ownerName hrecord
    exact .bind (hchildren.locals hinner howner fun _ _ hc => hc.isOfField "body")
      fun locals locals' hlocals => .bind (.pure (hlocals.method halike)) fun _ _ hall =>
        hothers.append_members hall
  rw [if_neg hmethod, if_neg hmethod]
  by_cases htype : isTypeNode kind
  · rw [if_pos htype, if_pos htype]
    exact .bind (lowerMember_apart hs hregion howner h hbounds hchildren) fun d d' hd =>
      .bind (.pure (TypesAlike.members hd)) fun _ _ hall => hothers.append_members hall
  rw [if_neg htype, if_neg htype]
  by_cases hdeclarations : kind == "enum_body_declarations"
  · rw [if_pos hdeclarations, if_pos hdeclarations]
    exact .bind (hchildren.members hs howner ownerName hrecord) fun _ _ hall =>
      hothers.append_members hall
  rw [if_neg hdeclarations, if_neg hdeclarations]
  by_cases hconstant : kind == "enum_constant"
  · rw [if_pos hconstant, if_pos hconstant]
    refine .bind (hchildren.locals hs howner fun _ _ hc => hc.isOfField "arguments")
      fun created created' hcreated => ?_
    have hbody := h.childOfKind "class_body"
    generalize Node.childOfKind ⟨kind, field, named, span, children⟩ "class_body" = body at hbody ⊢
    generalize Node.childOfKind ⟨kind, field, named, span', children'⟩ "class_body" = body'
      at hbody ⊢
    cases hbody with
    | none => exact .bind (.pure hcreated.members) fun _ _ hall => hothers.append_members hall
    | some hbody =>
      refine hchildren.anonymous hregion hs howner fun number ms ms' hms =>
        .bind (.pure (hcreated.members.append (TypesAlike.members (.singleton ?_ hms))))
          fun _ _ hall => hothers.append_members hall
      exact ⟨rfl, rfl, rfl, .nil, .cons ⟨rfl, .inl rfl⟩ .nil⟩
  · rw [if_neg hconstant, if_neg hconstant]
    exact .bind (hchildren.inside hs howner) fun found found' hfound =>
      .bind (.pure hfound.members) fun _ _ hall => hothers.append_members hall

end Node

/-- **The walks through copied rows yield the same**, inside of a type. -/
theorem Copies.lowered (hregion : g.Closed region) (h : Copies source source' ns ns')
    (hbounds : ∀ n ∈ ns', n.Everywhere (g.BoundWithin source')) :
    g.Lowers region source source' ns ns' := by
  induction h with
  | nil => exact .nil
  | @cons kind field named span span' children children' ns ns' htext hcopies _ ihchildren ih =>
    have hcopy : Copy source source' ⟨kind, field, named, span, children⟩
      ⟨kind, field, named, span', children'⟩ := ⟨rfl, rfl, rfl, htext, hcopies⟩
    rw [List.forall_mem_cons] at hbounds
    have hchildren := ihchildren hbounds.1.children
    have hrest := ih hbounds.2
    exact {
      members := fun hs _ howner ownerName _ _ hrecord =>
        lowerMembers_apart hregion hcopy hbounds.1 hchildren hrest hs howner ownerName hrecord
      inside := fun hs _ howner =>
        lowerInside_apart hregion hcopy hbounds.1 hchildren hrest hs howner
      body := fun hs _ howner ownerName _ _ hrecord isBody hbody => by
        rw [lowerBody, lowerBody, ← hbody _ _ hcopy]
        split
        · exact hchildren.members hs howner ownerName hrecord
        · exact hrest.body hs howner ownerName hrecord hbody
      locals := fun hs _ howner isWanted hwanted => by
        rw [lowerLocals, lowerLocals, ← hwanted _ _ hcopy]
        split
        · exact hchildren.inside hs howner
        · exact hrest.locals hs howner hwanted }

end Walk

end JavaThrows
