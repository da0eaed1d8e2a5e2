import JavaThrows.Proofs.Decl.SamePlace

set_option autoImplicit false

/-!
# What the headers of methods owe to their siblings

The walk enters the local classes of a body as members of the type around the method, and it takes
none of them back. So what a type in the header of a method denotes depends on the bodies of the
methods in front of it, but only by the names of the local classes there, and only where the type
begins with such a name. Main statement: `Rearranged.attributions_eq_iff`.
-/

namespace JavaThrows

open Cst Text

/-! ## Names that a header asks for -/

namespace TypeRef

theorem fqn_attribution (r : TypeRef) : r.attribution.fqn = r.fqn :=
  rfl

theorem typeVar_attribution (r : TypeRef) : r.attribution.typeVar = r.typeVar :=
  rfl

/-- The name that the file is asked for to attribute the type; none for a primitive type and for a
    type variable. -/
def asks (r : TypeRef) : List String :=
  if JavaLang.primitives.contains (cutDimensions r.erased).1 || r.typeVar then [] else [r.firstName]

theorem ite_typeVar_asks (r : TypeRef) : (if r.typeVar then [] else r.asks) = r.asks := by
  rw [asks]
  cases r.typeVar <;> simp

end TypeRef

/-- What is asked for the bound of a type variable. -/
def TypeParam.asks (p : TypeParam) : List String :=
  (p.bound.map TypeRef.asks).getD []

/-- The names that the file is asked for in a scope with type parameters of its own, for which their
    bounds stand. -/
def TypeRef.asksIn (params : List TypeParam) (r : TypeRef) : List String :=
  if r.typeVar then
    ((params.reverse.find? fun p => p.name == (cutDimensions r.erased).1).map
      TypeParam.asks).getD []
  else r.asks

namespace Method

/-- The types of the parameters and the entries of the throws clause. -/
def headerTypes (m : Method) : List TypeRef :=
  m.params.map Param.type ++ m.throwsEntries

/-- What the types of the header denote. -/
def attributions (m : Method) : List Attribution :=
  m.headerTypes.map TypeRef.attribution

/-- The names that the file is asked for to attribute the types of the header of a method that is
    declared by a node of the given kind. A compact constructor takes over the parameters of its
    record. -/
def asks (m : Method) (kind : String) : List String :=
  (if kind == "compact_constructor_declaration" then m.throwsEntries else m.headerTypes).flatMap
    (TypeRef.asksIn m.typeParams)

end Method

/-! ## What the first name decides -/

/-- The type that a name denotes by a declaration of the file or by an import. -/
def Scope.namedType (s : Scope) (ds : DeclaredTypes) (name : String) : Option String :=
  (s.declaredType ds name).or (s.importedType name)

theorem Scope.declaredType_congr {s : Scope} {ds ds' : DeclaredTypes} {name : String}
    (h : ∀ o ∈ s.enclosing ++ [""], ds.find? o name = ds'.find? o name) :
    s.declaredType ds name = s.declaredType ds' name := by
  rw [declaredType, declaredType]
  generalize s.enclosing ++ [""] = owners at h ⊢
  induction owners with
  | nil => rfl
  | cons o owners ih =>
    rw [List.forall_mem_cons] at h
    rw [List.findSome?_cons, List.findSome?_cons, h.1, ih h.2]

/-- The type variable in scope that an erased type names. -/
def Scope.typeVar? (s : Scope) (erased : String) : Option TypeParam :=
  s.typeVars.find? fun p => p.name == (cutDimensions erased).1

theorem Scope.typeVar?_withTypeVars (s : Scope) (params : List TypeParam) (erased : String) :
    (s.withTypeVars params).typeVar? erased =
      (params.reverse.find? fun p => p.name == (cutDimensions erased).1).or (s.typeVar? erased) :=
  List.find?_append

/-- The type variables of the same name in two scopes. -/
theorem typeVar?_rel {R : TypeParam → TypeParam → Prop} {s s' : Scope}
    (h : List.Forall₂ (fun p p' => p.name = p'.name ∧ R p p') s.typeVars s'.typeVars)
    (erased : String) :
    Option.Rel (fun p p' => p.name = p'.name ∧ R p p') (s.typeVar? erased) (s'.typeVar? erased) :=
  rel_find? h fun p p' hp => by rw [hp.1]

/-- The first name decides what the erased type denotes. -/
structure Scope.Asks (s : Scope) (erased : String) : Prop where
  notPrimitive : ¬ JavaLang.primitives.contains (cutDimensions erased).1
  notVariable : '.' ∈ (cutDimensions erased).1.toList ∨ s.typeVar? erased = none

section FirstName

variable {s s' : Scope} {ds ds' : DeclaredTypes} {erased : String}

/-- **The first name decides**: what stands behind it is put behind the type that it denotes, and
    if it denotes none, the attribution is the same in all places. -/
theorem exists_unnamed (erased : String) : ∃ (rest : String) (unnamed : Attribution),
    erased = firstSegment (cutDimensions erased).1 ++ rest ∧ unnamed.typeVar = false ∧
    (unnamed.fqn.getD erased = erased ∨ unnamed.fqn = some ("java.lang." ++ erased)) ∧
    ∀ {s : Scope}, s.Asks erased → ∀ ds : DeclaredTypes,
      s.attributionOf ds erased =
        ((s.namedType ds (firstSegment (cutDimensions erased).1)).map fun fqn =>
          Attribution.sure (fqn ++ rest)).getD unnamed := by
  have herased := cutDimensions_append erased
  cases hcut : cutFirst '.' (cutDimensions erased).1.toList with
  | none =>
    have hpoint := notMem_of_cutFirst_eq_none hcut
    rw [firstSegment_of_notMem hpoint]
    refine ⟨(cutDimensions erased).2, if JavaLang.types.contains (cutDimensions erased).1 then
      .guess ("java.lang." ++ erased) else .unknown, herased.symm, ?_, ?_, fun {s} hasks ds => ?_⟩
    · split <;> rfl
    · split
      · exact .inr rfl
      · exact .inl rfl
    · have hvar := hasks.notVariable.resolve_left hpoint
      rw [Scope.typeVar?] at hvar
      simp only [Scope.attributionOf, if_neg hasks.notPrimitive, hcut, hvar, Scope.namedType]
      cases (s.declaredType ds (cutDimensions erased).1).or
        (s.importedType (cutDimensions erased).1) with
      | some fqn => rfl
      | none => simp only [Option.map_none, Option.getD_none, String.append_assoc, herased]
  | some parts =>
    obtain ⟨first, others⟩ := parts
    have hbase := eq_append_of_cutFirst hcut
    rw [firstSegment_of_eq_append (notMem_of_cutFirst hcut) hbase]
    refine ⟨"." ++ String.ofList others ++ (cutDimensions erased).2,
      if JavaLang.types.contains (String.ofList first) then .guess ("java.lang." ++ erased) else
        .sure erased, ?_, ?_, ?_, fun {s} hasks ds => ?_⟩
    · have hpoint : String.ofList first ++ "." ++ String.ofList others = (cutDimensions erased).1 :=
        String.toList_inj.1 (by simp [hbase])
      rw [← String.append_assoc, ← String.append_assoc, hpoint, herased]
    · split <;> rfl
    · split
      · exact .inr rfl
      · exact .inl rfl
    · simp only [Scope.attributionOf, if_neg hasks.notPrimitive, hcut, Scope.namedType]
      cases (s.declaredType ds (String.ofList first)).or (s.importedType (String.ofList first)) with
      | some fqn => simp only [Option.map_some, Option.getD_some, String.append_assoc]
      | none => rfl

theorem Scope.Asks.typeVar (h : s.Asks erased) (ds : DeclaredTypes) :
    (s.attributionOf ds erased).typeVar = false := by
  obtain ⟨rest, unnamed, -, htypeVar, -, hdecides⟩ := exists_unnamed erased
  rw [hdecides h ds]
  cases s.namedType ds (firstSegment (cutDimensions erased).1) with
  | some fqn => rfl
  | none => exact htypeVar

theorem Scope.erased_typeRef (s : Scope) (ds : DeclaredTypes) (n : Node) :
    (s.typeRef ds n).erased = Erasure.erase (s.text n) := by
  simp only [typeRef]

/-- A type whose first name decides asks for this name. -/
theorem Scope.Asks.asks {n : Node} (h : s.Asks (Erasure.erase (s.text n))) (ds : DeclaredTypes)
    (names : List String) :
    (if (s.typeRef ds n).typeVar then names else (s.typeRef ds n).asks) =
      [(s.typeRef ds n).firstName] := by
  have htypeVar : (s.typeRef ds n).typeVar = false := by
    rw [← TypeRef.typeVar_attribution, s.attribution_typeRef, h.typeVar]
  have hprimitive : JavaLang.primitives.contains (cutDimensions (s.typeRef ds n).erased).1 =
      false := by
    rw [s.erased_typeRef]
    exact Bool.eq_false_iff.2 h.notPrimitive
  rw [htypeVar, if_neg Bool.false_ne_true, TypeRef.asks, hprimitive, htypeVar, Bool.or_false,
    if_neg Bool.false_ne_true]

theorem Scope.attributionOf_primitive
    (h : JavaLang.primitives.contains (cutDimensions erased).1) :
    s.attributionOf ds erased = .sure erased := by
  simp only [attributionOf, if_pos h]

theorem Scope.attributionOf_variable
    (hprimitive : ¬ JavaLang.primitives.contains (cutDimensions erased).1)
    (hpoint : '.' ∉ (cutDimensions erased).1.toList) {p : TypeParam}
    (hp : s.typeVar? erased = some p) :
    s.attributionOf ds erased = .ofVariable (boundErasure p ++ (cutDimensions erased).2) := by
  rw [typeVar?] at hp
  simp only [attributionOf, if_neg hprimitive, cutFirst_of_notMem hpoint, hp]

/-- The same type is named in both places. -/
theorem Scope.Asks.attributionOf_eq (h : s.Asks erased) (h' : s'.Asks erased)
    (hnamed : s.namedType ds (firstSegment (cutDimensions erased).1) =
      s'.namedType ds' (firstSegment (cutDimensions erased).1)) :
    s.attributionOf ds erased = s'.attributionOf ds' erased := by
  obtain ⟨rest, unnamed, -, -, -, hdecides⟩ := exists_unnamed erased
  rw [hdecides h ds, hdecides h' ds', hnamed]

/-- Only where the first name denotes a member of `owner` the type is one of its members. -/
theorem Scope.Asks.getD_fqn_eq_iff (h : s.Asks erased) (ds : DeclaredTypes) {owner : String}
    (howner : owner ≠ "java.lang") :
    (s.attributionOf ds erased).fqn.getD erased = owner ++ "." ++ erased ↔
      s.namedType ds (firstSegment (cutDimensions erased).1) =
        some (owner ++ "." ++ firstSegment (cutDimensions erased).1) := by
  obtain ⟨rest, unnamed, herased, -, hfqn, hdecides⟩ := exists_unnamed erased
  have hmember : owner ++ "." ++ erased =
      owner ++ "." ++ firstSegment (cutDimensions erased).1 ++ rest := by
    conv_rhs => rw [String.append_assoc, ← herased]
  rw [hdecides h ds]
  cases s.namedType ds (firstSegment (cutDimensions erased).1) with
  | some fqn =>
    rw [Option.map_some, Option.getD_some, Attribution.sure, Option.getD_some, hmember,
      String.append_left_inj, Option.some_inj]
  | none =>
    rw [Option.map_none, Option.getD_none]
    refine iff_of_false (fun heq => ?_) (Option.some_ne_none _).symm
    rcases hfqn with hfqn | hfqn
    · have hlength := congrArg String.length (hfqn.symm.trans heq)
      simp only [String.length_append] at hlength
      have : ".".length = 1 := rfl
      omega
    · rw [hfqn, Option.getD_some, String.append_left_inj] at heq
      have hpoint : owner ++ "." = "java.lang" ++ "." := heq.symm
      exact howner ((String.append_left_inj ".").1 hpoint)

end FirstName

/-! ## The place of a header -/

/-- The header of a method is read in the type `owner`. Since the type was opened with the table
    `known`, types of the given names have been entered as its members. -/
structure HeaderAt (packagePrefix owner : String) (known : DeclaredTypes) (names : List String)
    (s : Scope) (ds : DeclaredTypes) : Prop where
  inside : s.enclosing.head? = some owner
  within : ∀ o ∈ s.enclosing, o = owner ∨ o.length < owner.length
  longer : packagePrefix.length ≤ owner.length
  spelled : ∀ {o x fqn : String}, known.find? o x = some fqn →
    fqn = o ++ "." ++ x ∨ o = "" ∧ fqn = packagePrefix ++ x
  enters : Enters owner names known ds

namespace HeaderAt

variable {packagePrefix owner x : String} {known ds : DeclaredTypes} {names : List String}
  {s : Scope}

/-- The innermost type around the place decides first. -/
theorem declaredType_of_find? (h : HeaderAt packagePrefix owner known names s ds)
    {ds' : DeclaredTypes} {fqn : String} (hfound : ds'.find? owner x = some fqn) :
    s.declaredType ds' x = some fqn := by
  obtain ⟨outer, houter⟩ := List.head?_eq_some_iff.1 h.inside
  rw [Scope.declaredType, houter, List.cons_append, List.findSome?_cons, hfound]

theorem declaredType_of_mem (h : HeaderAt packagePrefix owner known names s ds)
    (hknown : known.find? owner x = none) (hx : x ∈ names) :
    s.declaredType ds x = some (owner ++ "." ++ x) := by
  refine h.declaredType_of_find? ?_
  rw [h.enters.enters x hx, hknown, Option.getD_none]

/-- What has been entered does not matter to other names. -/
theorem declaredType_eq (h : HeaderAt packagePrefix owner known names s ds)
    (hx : known.find? owner x = none → x ∉ names) :
    s.declaredType ds x = s.declaredType known x := by
  cases hknown : known.find? owner x with
  | some fqn =>
    rw [h.declaredType_of_find? hknown, h.declaredType_of_find? (h.enters.keeps hknown)]
  | none =>
    refine Scope.declaredType_congr fun o ho => h.enters.others fun hin => ⟨?_, hx hknown⟩
    rcases List.mem_append.1 ho with ho | ho
    · exact (h.within o ho).resolve_right (Nat.not_lt.2 hin.length_le)
    · have hempty : o = "" := List.mem_singleton.1 ho
      have hlength := hin.length_le
      rw [hempty] at hlength ⊢
      exact (String.length_eq_zero_iff.1 (Nat.le_zero.1 hlength)).symm

/-- The types around the place do not go by the name of a member that is not known. -/
theorem declaredType_known_ne (h : HeaderAt packagePrefix owner known names s ds)
    (hknown : known.find? owner x = none) : s.declaredType known x ≠ some (owner ++ "." ++ x) := by
  intro hfound
  obtain ⟨o, ho, hfound⟩ := List.exists_of_findSome?_eq_some hfound
  have hlength : (owner ++ "." ++ x).length = owner.length + 1 + x.length := by
    rw [String.length_append, String.length_append]
    rfl
  rcases h.spelled hfound with heq | ⟨-, heq⟩
  · rw [String.append_left_inj, String.append_left_inj] at heq
    rw [← heq, hknown] at hfound
    cases hfound
  · rw [heq, String.length_append] at hlength
    have hlonger := h.longer
    omega

/-- **A name denotes a member of the type** that was not known before exactly if a type of that name
    has been entered. -/
theorem namedType_eq_iff (h : HeaderAt packagePrefix owner known names s ds)
    (hknown : known.find? owner x = none) (himport : s.importedType x ≠ some (owner ++ "." ++ x)) :
    s.namedType ds x = some (owner ++ "." ++ x) ↔ x ∈ names := by
  by_cases hx : x ∈ names
  · refine iff_of_true ?_ hx
    rw [Scope.namedType, h.declaredType_of_mem hknown hx, Option.some_or]
  · refine iff_of_false (fun hnamed => ?_) hx
    rw [Scope.namedType, h.declaredType_eq fun _ => hx, Option.or_eq_some_iff] at hnamed
    rcases hnamed with hdeclared | ⟨-, himported⟩
    · exact h.declaredType_known_ne hknown hdeclared
    · exact himport himported

theorem withTypeVars (h : HeaderAt packagePrefix owner known names s ds)
    (params : List TypeParam) :
    HeaderAt packagePrefix owner known names (s.withTypeVars params) ds :=
  ⟨h.inside, h.within, h.longer, h.spelled, h.enters⟩

end HeaderAt

/-! ### Methods -/

section Method

variable (s : Scope) (ds : DeclaredTypes) (ownerName : String) (recordParams : List Param)
  (n : Node)

theorem Scope.typeParams_method :
    (s.method ds ownerName recordParams n).typeParams = s.typeParams ds n := by
  simp only [method]

theorem Scope.params_method :
    (s.method ds ownerName recordParams n).params =
      if n.kind == "compact_constructor_declaration" then recordParams
      else (s.withTypeVars (s.typeParams ds n)).params ds n := by
  simp only [method]

theorem Scope.throwsEntries_method :
    (s.method ds ownerName recordParams n).throwsEntries =
      ((clauseIn none n.children).map fun c => (c.2.namedChildren.filter fun e => !e.isComment).map
        ((s.withTypeVars (s.typeParams ds n)).typeRef ds)).getD [] := by
  simp only [Method.throwsEntries, method]

end Method

/-! ## Two headers -/

/-- The names in question decide whether two things are the same; that they have to is known in
    clear cases only. -/
structure Decides {α : Type} (same : String → Prop) (clear : Prop) (names : List String)
    (a b : α) : Prop where
  alike : (∀ x ∈ names, same x) → a = b
  apart : clear → a = b → ∀ x ∈ names, same x

/-- The names in question decide whether two spellings of a type denote the same. -/
structure TypeRef.DecidedBy (same : String → Prop) (clear : Prop) (names : List String)
    (r r' : TypeRef) : Prop where
  erased : r.erased = r'.erased
  alike : (∀ x ∈ names, same x) → r.attribution = r'.attribution
  apart : clear → r.fqn.getD r.erased = r'.fqn.getD r'.erased → ∀ x ∈ names, same x

/-- The same of types that are read with type parameters: the names that are asked for decide. -/
def TypeRef.DecidedIn (same : String → Prop) (clear : Prop) (params : List TypeParam)
    (r r' : TypeRef) : Prop :=
  r.DecidedBy same clear (r.asksIn params) r'

theorem Decides.of_eq {α : Type} {same : String → Prop} {clear : Prop} {a b : α} (h : a = b) :
    Decides same clear [] a b :=
  ⟨fun _ => h, fun _ _ => nofun⟩

theorem Decides.cons {α : Type} {same : String → Prop} {clear : Prop} {names others : List String}
    {a b : α} {as bs : List α} (h : Decides same clear names a b)
    (hrest : Decides same clear others as bs) :
    Decides same clear (names ++ others) (a :: as) (b :: bs) where
  alike hsame := by
    rw [List.forall_mem_append] at hsame
    rw [h.alike hsame.1, hrest.alike hsame.2]
  apart hclear heq := by
    rw [List.cons.injEq] at heq
    exact List.forall_mem_append.2 ⟨h.apart hclear heq.1, hrest.apart hclear heq.2⟩

theorem Decides.append_left {α : Type} {same : String → Prop} {clear : Prop} {names : List String}
    {as bs : List α} (h : Decides same clear names as bs) (front : List α) :
    Decides same clear names (front ++ as) (front ++ bs) where
  alike hsame := by rw [h.alike hsame]
  apart hclear heq := h.apart hclear (List.append_cancel_left heq)

theorem TypeRef.DecidedBy.decides {same : String → Prop} {clear : Prop} {names : List String}
    {r r' : TypeRef} (h : r.DecidedBy same clear names r') :
    Decides same clear names (r.fqn.getD r.erased) (r'.fqn.getD r'.erased) := by
  refine ⟨fun hsame => ?_, h.apart⟩
  have hfqn : r.fqn = r'.fqn := congrArg Attribution.fqn (h.alike hsame)
  rw [hfqn, h.erased]

theorem TypeRef.DecidedBy.attribution {same : String → Prop} {clear : Prop} {names : List String}
    {r r' : TypeRef} (h : r.DecidedBy same clear names r') :
    Decides same clear names r.attribution r'.attribution := by
  refine ⟨h.alike, fun hclear heq => h.apart hclear ?_⟩
  have hfqn : r.fqn = r'.fqn := congrArg Attribution.fqn heq
  rw [hfqn, h.erased]

/-- Rows that may be absent. -/
theorem forall₂_getD {α β : Type} {R : α → β → Prop} {as : Option (List α)} {bs : Option (List β)}
    (h : Option.Rel (List.Forall₂ R) as bs) : List.Forall₂ R (as.getD []) (bs.getD []) := by
  cases h with
  | none => exact .nil
  | some h => exact h

/-- What all types of a row denote is decided by all names that are asked for. -/
theorem decides_attributions {same : String → Prop} {clear : Prop} {params : List TypeParam}
    {rs rs' : List TypeRef}
    (h : List.Forall₂ (TypeRef.DecidedIn same clear params) rs rs') :
    Decides same clear (rs.flatMap (TypeRef.asksIn params)) (rs.map TypeRef.attribution)
      (rs'.map TypeRef.attribution) := by
  induction h with
  | nil => exact .of_eq rfl
  | cons hr _ ih => exact (TypeRef.DecidedBy.attribution hr).cons ih

theorem TypeRef.asksIn_withDimensions (params : List TypeParam) (r : TypeRef) (dims : Nat) :
    (Scope.withDimensions r dims).asksIn params = r.asksIn params := by
  simp only [asksIn, asks, firstName, Scope.withDimensions, cutDimensions_append_brackets]

/-- Dimensions behind a type change nothing about what decides. -/
theorem keepsDimensions_decidedIn (same : String → Prop) (clear : Prop) (params : List TypeParam) :
    KeepsDimensions (TypeRef.DecidedIn same clear params) := by
  intro r r' dims h
  rw [TypeRef.DecidedIn, TypeRef.asksIn_withDimensions]
  refine ⟨?_, fun hsame => ?_, fun hclear heq => h.apart hclear ?_⟩
  · rw [Scope.withDimensions, Scope.withDimensions, h.erased]
  · have heq := h.alike hsame
    rw [TypeRef.attribution, TypeRef.attribution, Attribution.mk.injEq] at heq
    rw [TypeRef.attribution, TypeRef.attribution, Scope.withDimensions, Scope.withDimensions,
      heq.1, heq.2.1, heq.2.2]
  · have hgetD (r : TypeRef) : (Scope.withDimensions r dims).fqn.getD
        (Scope.withDimensions r dims).erased =
          r.fqn.getD r.erased ++ String.ofList (brackets dims) := by
      rw [Scope.withDimensions]
      cases r.fqn <;> rfl
    rw [hgetD, hgetD] at heq
    exact (String.append_left_inj _).1 heq

/-- The erasure of a type variable is decided by its bound. -/
theorem TypeParam.Alike.decides {same : String → Prop} {clear : Prop} {p p' : TypeParam}
    (h : TypeParam.Alike (fun r r' => r.DecidedBy same clear r.asks r') p p') :
    Decides same clear p.asks (Scope.boundErasure p) (Scope.boundErasure p') := by
  have hbound : Option.Rel _ p.bound p'.bound := h.bound
  rw [TypeParam.asks, Scope.boundErasure, Scope.boundErasure]
  generalize p.bound = bound, p'.bound = bound' at hbound ⊢
  cases hbound with
  | none => exact .of_eq rfl
  | some hr => exact hr.decides

/-- The name is known as that of a member, or types of that name stand in front of both methods or
    of none. -/
def SameInFront (owner : String) (known : DeclaredTypes) (names names' : List String)
    (name : String) : Prop :=
  known.find? owner name = none → (name ∈ names ↔ name ∈ names')

/-- No import names a member of the type, and the type is not taken for the package of the names
    that Java itself provides. -/
structure ClearOwner (imports : List (String × String)) (owner : String) : Prop where
  notLang : owner ≠ "java.lang"
  imports : ∀ i ∈ imports, i.2 ≠ owner ++ "." ++ i.1

theorem ClearOwner.importedType_ne {s : Scope} {owner : String} (h : ClearOwner s.imports owner)
    (name : String) : s.importedType name ≠ some (owner ++ "." ++ name) := by
  intro himported
  obtain ⟨i, hi, hfqn⟩ := Option.map_eq_some_iff.1 himported
  have hname : i.1 = name := by simpa using List.find?_some hi
  exact h.imports i (List.mem_of_find?_eq_some hi) (by rw [hfqn, hname])

section Headers

variable (packagePrefix owner : String) (known : DeclaredTypes) (names names' : List String)

/-- The headers of two methods are read in the same type of two files with the same imports. -/
structure TwoHeaders (s s' : Scope) (ds ds' : DeclaredTypes) : Prop where
  enclosing : s.enclosing = s'.enclosing
  imports : s.imports = s'.imports
  first : HeaderAt packagePrefix owner known names s ds
  second : HeaderAt packagePrefix owner known names' s' ds'

end Headers

namespace TwoHeaders

variable {packagePrefix owner : String} {known ds ds' : DeclaredTypes} {names names' : List String}
  {s s' : Scope} (h : TwoHeaders packagePrefix owner known names names' s s' ds ds')

include h

theorem importedType_eq (name : String) : s.importedType name = s'.importedType name := by
  rw [Scope.importedType, Scope.importedType, h.imports]

/-- A name denotes the same in both headers, if it is known or entered in front of both or none. -/
theorem namedType_eq {name : String} (hsame : SameInFront owner known names names' name) :
    s.namedType ds name = s'.namedType ds' name := by
  have hbefore : s.declaredType known name = s'.declaredType known name := by
    rw [Scope.declaredType, Scope.declaredType, h.enclosing]
  rw [Scope.namedType, Scope.namedType, h.importedType_eq]
  by_cases hentered : known.find? owner name = none ∧ name ∈ names
  · obtain ⟨hknown, hmem⟩ := hentered
    rw [h.first.declaredType_of_mem hknown hmem,
      h.second.declaredType_of_mem hknown ((hsame hknown).1 hmem)]
  · have hfirst (hknown : known.find? owner name = none) : name ∉ names :=
      fun hmem => hentered ⟨hknown, hmem⟩
    rw [h.first.declaredType_eq hfirst, hbefore,
      h.second.declaredType_eq fun hknown hmem => hfirst hknown ((hsame hknown).2 hmem)]

theorem withTypeVars (params params' : List TypeParam) :
    TwoHeaders packagePrefix owner known names names' (s.withTypeVars params)
      (s'.withTypeVars params') ds ds' :=
  ⟨h.enclosing, h.imports, h.first.withTypeVars params, h.second.withTypeVars params'⟩

/-- **What the first name decides.** -/
theorem decided_of_asks {n n' : Node} (hcopy : Copy s.source s'.source n n')
    (hasks : s.Asks (Erasure.erase (s.text n))) (hasks' : s'.Asks (Erasure.erase (s.text n))) :
    (s.typeRef ds n).DecidedBy (SameInFront owner known names names') (ClearOwner s.imports owner)
      [(s.typeRef ds n).firstName] (s'.typeRef ds' n') := by
  have htext : s.text n = s'.text n' := hcopy.text
  refine ⟨congrArg Erasure.erase htext, fun hsame => ?_, fun hclear heq => ?_⟩
  · have hname := h.namedType_eq (hsame _ List.mem_cons_self)
    rw [Scope.attribution_typeRef, Scope.attribution_typeRef, ← htext]
    exact hasks.attributionOf_eq hasks' hname
  · rw [List.forall_mem_singleton, TypeRef.firstName]
    have hclear' : ClearOwner s'.imports owner := by rwa [← h.imports]
    rw [← TypeRef.fqn_attribution, ← TypeRef.fqn_attribution, s.attribution_typeRef,
      s'.attribution_typeRef, s.erased_typeRef, s'.erased_typeRef, ← htext] at heq
    rw [s.erased_typeRef]
    intro hknown
    rw [← h.first.namedType_eq_iff hknown (hclear.importedType_ne _),
      ← h.second.namedType_eq_iff hknown (hclear'.importedType_ne _),
      ← hasks.getD_fqn_eq_iff ds hclear.notLang, ← hasks'.getD_fqn_eq_iff ds' hclear.notLang, heq]

/-- What the first name decides, where type variables are known to be decided by other names. -/
theorem decided {n n' : Node} (hcopy : Copy s.source s'.source n n') {asked : List String}
    (hvar : Option.Rel (fun p p' => Decides (SameInFront owner known names names')
        (ClearOwner s.imports owner) asked (Scope.boundErasure p) (Scope.boundErasure p'))
      (s.typeVar? (Erasure.erase (s.text n))) (s'.typeVar? (Erasure.erase (s.text n)))) :
    (s.typeRef ds n).DecidedBy (SameInFront owner known names names') (ClearOwner s.imports owner)
      (if (s.typeRef ds n).typeVar then asked else (s.typeRef ds n).asks)
      (s'.typeRef ds' n') := by
  have herased : (s.typeRef ds n).erased = (s'.typeRef ds' n').erased :=
    congrArg Erasure.erase hcopy.text
  have hattribution := s.attribution_typeRef ds n
  have hattribution' := s'.attribution_typeRef ds' n'
  rw [show s'.text n' = s.text n from hcopy.text.symm] at hattribution'
  by_cases hprimitive : JavaLang.primitives.contains (cutDimensions (Erasure.erase (s.text n))).1
  · rw [Scope.attributionOf_primitive hprimitive] at hattribution hattribution'
    have htypeVar : (s.typeRef ds n).typeVar = false := by
      rw [← TypeRef.typeVar_attribution, hattribution, Attribution.sure]
    have hasks : (s.typeRef ds n).asks = [] := by
      rw [TypeRef.asks, s.erased_typeRef, hprimitive, Bool.true_or, if_pos rfl]
    rw [htypeVar, if_neg Bool.false_ne_true, hasks]
    exact ⟨herased, fun _ => hattribution.trans hattribution'.symm,
      fun _ _ _ hx => absurd hx List.not_mem_nil⟩
  by_cases hpoint : '.' ∈ (cutDimensions (Erasure.erase (s.text n))).1.toList
  · have hasks : s.Asks (Erasure.erase (s.text n)) := ⟨hprimitive, .inl hpoint⟩
    rw [hasks.asks]
    exact h.decided_of_asks hcopy hasks ⟨hprimitive, .inl hpoint⟩
  generalize hfound : s.typeVar? (Erasure.erase (s.text n)) = var,
    hfound' : s'.typeVar? (Erasure.erase (s.text n)) = var' at hvar
  cases hvar with
  | none =>
    have hasks : s.Asks (Erasure.erase (s.text n)) := ⟨hprimitive, .inr hfound⟩
    rw [hasks.asks]
    exact h.decided_of_asks hcopy hasks ⟨hprimitive, .inr hfound'⟩
  | @some p p' hp =>
    rw [Scope.attributionOf_variable hprimitive hpoint hfound] at hattribution
    rw [Scope.attributionOf_variable hprimitive hpoint hfound'] at hattribution'
    have htypeVar : (s.typeRef ds n).typeVar = true := by
      rw [← TypeRef.typeVar_attribution, hattribution, Attribution.ofVariable]
    rw [if_pos htypeVar]
    refine ⟨herased, fun hsame => ?_, fun hclear heq => hp.apart hclear ?_⟩
    · rw [hattribution, hattribution', hp.alike hsame]
    · rw [← TypeRef.fqn_attribution, ← TypeRef.fqn_attribution, hattribution, hattribution',
        Attribution.ofVariable, Attribution.ofVariable, Option.getD_some, Option.getD_some] at heq
      exact (String.append_left_inj _).1 heq

/-- Two scopes with type variables of the same names and erasures. -/
theorem relatesBounds
    (hvars : List.Forall₂ (fun p p' => p.name = p'.name ∧
      Scope.boundErasure p = Scope.boundErasure p') s.typeVars s'.typeVars) :
    RelatesTypes (fun r r' => r.DecidedBy (SameInFront owner known names names')
      (ClearOwner s.imports owner) r.asks r') s s' ds ds' := by
  intro n n' hcopy
  have hvar := typeVar?_rel hvars (Erasure.erase (s.text n))
  have hdecided := h.decided hcopy (rel_imp? hvar fun _ _ hp => .of_eq hp.2)
  rwa [TypeRef.ite_typeVar_asks] at hdecided

/-- The types in the header of a method are read with its type parameters, of which the bounds are
    read without them. -/
theorem relatesHeader
    (hvars : List.Forall₂ (fun p p' => p.name = p'.name ∧
      Scope.boundErasure p = Scope.boundErasure p') s.typeVars s'.typeVars)
    {m m' : Node} (hm : SameHeader s.source s'.source m m') :
    RelatesTypes (TypeRef.DecidedIn (SameInFront owner known names names')
        (ClearOwner s.imports owner) (s.typeParams ds m))
      (s.withTypeVars (s.typeParams ds m)) (s'.withTypeVars (s'.typeParams ds' m')) ds ds' := by
  have hparams := hm.typeParams (R := fun r r' => r.DecidedBy (SameInFront owner known names names')
    (ClearOwner s.imports owner) r.asks r') (h.relatesBounds hvars)
  have hinner := h.withTypeVars (s.typeParams ds m) (s'.typeParams ds' m')
  generalize s.typeParams ds m = params, s'.typeParams ds' m' = params' at hparams hinner ⊢
  intro n n' hcopy
  have htext : (s.withTypeVars params).text n = s.text n := rfl
  rw [TypeRef.DecidedIn, TypeRef.asksIn, Scope.erased_typeRef]
  refine hinner.decided hcopy ?_
  rw [htext, Scope.typeVar?_withTypeVars, Scope.typeVar?_withTypeVars]
  generalize Erasure.erase (s.text n) = erased
  have houter := typeVar?_rel hvars erased
  have hown := rel_find? (List.rel_reverse hparams)
    (p := fun p => p.name == (cutDimensions erased).1)
    (q := fun p => p.name == (cutDimensions erased).1) fun p p' hp => by rw [hp.name]
  generalize List.find? _ params.reverse = own, List.find? _ params'.reverse = own' at hown ⊢
  cases hown with
  | some hp => exact .some hp.decides
  | none => exact rel_imp? houter fun _ _ hp => .of_eq hp.2

/-- **What the types in the header of a method denote** is decided by the names that are asked
    for. -/
theorem method
    (hvars : List.Forall₂ (fun p p' => p.name = p'.name ∧
      Scope.boundErasure p = Scope.boundErasure p') s.typeVars s'.typeVars)
    {m m' : Node} (hm : SameHeader s.source s'.source m m') (ownerName : String)
    {recordParams recordParams' : List Param}
    (hrecord : (recordParams.map Param.type).map TypeRef.attribution =
      (recordParams'.map Param.type).map TypeRef.attribution) :
    Decides (SameInFront owner known names names') (ClearOwner s.imports owner)
      ((s.method ds ownerName recordParams m).asks m.kind)
      (s.method ds ownerName recordParams m).attributions
      (s'.method ds' ownerName recordParams' m').attributions := by
  have hinside : SameHeader (s.withTypeVars (s.typeParams ds m)).source
    (s'.withTypeVars (s'.typeParams ds' m')).source m m' := hm
  have hheader : RelatesTypes (TypeRef.DecidedIn (SameInFront owner known names names')
    (ClearOwner s.imports owner) (s.typeParams ds m)) _ _ ds ds' := h.relatesHeader hvars hm
  have hdims : KeepsDimensions (TypeRef.DecidedIn (SameInFront owner known names names')
    (ClearOwner s.imports owner) (s.typeParams ds m)) := keepsDimensions_decidedIn _ _ _
  have hparams := hinside.params hheader hdims
  have hthrows := forall₂_getD (hinside.throws hheader)
  have hentries := decides_attributions hthrows
  rw [Method.asks, Method.attributions, Method.attributions, Method.headerTypes, Method.headerTypes,
    Scope.typeParams_method, Scope.params_method, Scope.params_method, Scope.throwsEntries_method,
    Scope.throwsEntries_method, ← hm.kind]
  split
  · rw [List.map_append, List.map_append, hrecord]
    exact hentries.append_left _
  · have hall := List.rel_append (List.rel_map (fun _ _ hp => hp.type) hparams) hthrows
    exact decides_attributions hall

end TwoHeaders

/-! ## Files -/

/-- The type has the method, which is read from the node, behind the members in front of it. -/
def TypeDecl.Declares (d : TypeDecl) (front : List Member) (m : Method) (n : Node) : Prop :=
  m.span = n.span ∧ ∃ locals back, d.members = front ++ .method m locals :: back

theorem TypeDecl.Declares.mem_methods {d : TypeDecl} {front : List Member} {m : Method} {n : Node}
    (h : d.Declares front m n) : m ∈ d.methods := by
  obtain ⟨-, locals, back, hmembers⟩ := h
  rw [TypeDecl.methods, hmembers]
  refine List.mem_filterMap.2 ⟨.method m locals, ?_, rfl⟩
  exact List.mem_append_right _ List.mem_cons_self

/-- The name of a member that is known when a type is opened: the first pass has entered it, or it
    is that of a type in a type of the same full name, which is one of the types in front. -/
def KnownMember (declared : DeclaredTypes) (before : List TypeDecl) (owner name : String) : Prop :=
  (declared.find? owner name).isSome ∨ ∃ t ∈ before, t.fqn = owner ∧ name ∈ innerNames t.members

/-- A table that says the same of a type is as good to tell what has been entered. -/
theorem Enters.of_find?_eq {owner : String} {names : List String} {known known' ds : DeclaredTypes}
    (h : Enters owner names known' ds) (hknown : ∀ o x, known.find? o x = known'.find? o x) :
    Enters owner names known ds where
  keeps hfound := h.keeps (by rwa [hknown] at hfound)
  others hout := by rw [h.others hout, hknown]
  enters x hx := by rw [h.enters x hx, hknown]
  spelled hfound := by
    rw [hknown]
    exact h.spelled hfound

/-- A method among the nodes is read from a table that has got the types in front of it. -/
theorem TypeDecl.Reaches.declares {d : TypeDecl} {p : Station} {ns : List Node}
    (h : d.Reaches p ns) {n : Node} (hn : n ∈ ns) (hmethod : n.named ∧ isMethodNode n.kind) :
    ∃ ds front, d.Declares front (p.scope.method ds d.head.name p.recordParams n) n ∧
      Enters d.fqn (innerNames front) p.known ds := by
  obtain ⟨after, hmembers⟩ := h.members
  obtain ⟨ds, front, locals, back, hread, hds⟩ :=
    exists_table_of_mem p.scope d.fqn d.head.name p.recordParams hn hmethod p.walk
  refine ⟨ds, p.front ++ front, ⟨rfl, locals, back ++ after, ?_⟩, ?_⟩
  · rw [hmembers, Station.read, hread, List.append_assoc, List.append_assoc, List.cons_append]
  · rw [innerNames, typesOfMembers_append, siblingNames_append]
    exact h.enters.trans hds.toEnters

namespace InSameType

variable {g : Gap} {source source' : List Char} {declared : DeclaredTypes}
  {before : List TypeDecl} {d d' : TypeDecl} {p p' : Station} {ns ns' : List Node}
  (h : InSameType g source source' declared before d d' p p' ns ns')

include h

theorem attributions_recordParams (hg : g.lacking = []) :
    (p.recordParams.map Param.type).map TypeRef.attribution =
      (p'.recordParams.map Param.type).map TypeRef.attribution := by
  rw [List.map_map, List.map_map]
  refine map_eq_of_forall₂ h.recordParams fun q _ q' _ hq => ?_
  exact hq.type.denotes.resolve_right fun hcrossed => g.not_misses hg _ hcrossed.misses

/-- What is known of the type when it is opened. -/
theorem sameInFront_iff (hfqn : d.fqn ≠ "") (names names' : List String) (x : String) :
    SameInFront d.fqn p.known names names' x ↔
      KnownMember declared before d.fqn x ∨ (x ∈ names ↔ x ∈ names') := by
  rw [KnownMember, ← h.known_iff hfqn, SameInFront, ← Option.not_isSome_iff_eq_none,
    or_iff_not_imp_left]

/-- **The headers of two methods in the same type.** -/
theorem exists_methods (hg : g.lacking = []) {n n' : Node} (hn : n ∈ ns) (hn' : n' ∈ ns')
    (hmethod : n.named ∧ isMethodNode n.kind) (hnamed' : n'.named)
    (hheader : SameHeader source source' n n') :
    ∃ front m front' m', d.Declares front m n ∧ d'.Declares front' m' n' ∧
      Decides (SameInFront d.fqn p.known (innerNames front) (innerNames front'))
        (ClearOwner g.imports d.fqn) (m.asks n.kind) m.attributions m'.attributions := by
  obtain ⟨ds, front, hdeclares, henters⟩ := h.reaches.declares hn hmethod
  obtain ⟨ds', front', hdeclares', henters'⟩ :=
    h.reaches'.declares hn' ⟨hnamed', hheader.kind ▸ hmethod.2⟩
  rw [← h.fqn] at henters'
  have hknown (o x : String) : p.known.find? o x = p'.known.find? o x := h.known.inner trivial x
  have hfirst : HeaderAt g.packagePrefix d.fqn p.known (innerNames front) p.scope ds :=
    ⟨h.reaches.inside, h.place.within, h.place.longer, h.settled.spelled, henters⟩
  have hsecond : HeaderAt g.packagePrefix d.fqn p.known (innerNames front') p'.scope ds' := by
    refine ⟨?_, ?_, h.place.longer, h.settled.spelled, henters'.of_find?_eq hknown⟩
    · rw [h.fqn, h.reaches'.inside]
    · rw [← h.place.scopes.enclosing]
      exact h.place.within
  have hheaders : TwoHeaders g.packagePrefix d.fqn p.known (innerNames front) (innerNames front')
      p.scope p'.scope ds ds' :=
    ⟨h.place.scopes.enclosing, h.place.scopes.imports.trans h.place.scopes.imports'.symm, hfirst,
      hsecond⟩
  have hdecides := hheaders.method h.place.scopes.typeVars (h.place.scopes.header hheader)
    d.head.name (h.attributions_recordParams hg)
  rw [h.place.scopes.imports] at hdecides
  rw [← h.name] at hdeclares'
  exact ⟨front, _, front', _, hdeclares, hdeclares', hdecides⟩

end InSameType

/-- **What the header of a method owes to its siblings.** Two files may be the same but for the
    members of one type, which are put in another order and get other bodies. The types in the
    header of a method of this type denote the same in both files, if each name that is asked for is
    known when the type is opened, as the names of its member types are, or is that of a type in
    front of the method in both files or in none. The converse holds unless an import names a member
    of the type or the type is called `java.lang`. -/
theorem Rearranged.attributions_eq_iff {f f' : ParsedFile} {ns ns' : List Node}
    (h : Rearranged f f' ns ns') :
    ∃ before d after, f.unit.allTypes = before ++ d :: after ∧
    ∃ d' ∈ f'.unit.allTypes, d.fqn = d'.fqn ∧ (d.fqn ≠ "" →
      ∀ n ∈ ns, ∀ n' ∈ ns', n.named ∧ isMethodNode n.kind → n'.named →
      SameHeader f.source f'.source n n' →
      ∃ front m front' m', d.Declares front m n ∧ d'.Declares front' m' n' ∧
        ((∀ x ∈ m.asks n.kind, KnownMember f.declared before d.fqn x ∨
          (x ∈ innerNames front ↔ x ∈ innerNames front')) → m.attributions = m'.attributions) ∧
        (ClearOwner f.scope.imports d.fqn → m.attributions = m'.attributions →
          ∀ x ∈ m.asks n.kind, KnownMember f.declared before d.fqn x ∨
            (x ∈ innerNames front ↔ x ∈ innerNames front'))) := by
  obtain ⟨before, d, after, hsplit, d', hd', p, p', htype⟩ := h.matched
  rw [List.nil_append] at htype
  refine ⟨before, d, after, hsplit, d', hd', htype.fqn, fun hfqn => ?_⟩
  intro n hn n' hn' hmethod hnamed' hheader
  obtain ⟨front, m, front', m', hdeclares, hdeclares', hdecides⟩ :=
    htype.exists_methods rfl hn hn' hmethod hnamed' hheader
  simp only [← htype.sameInFront_iff hfqn]
  exact ⟨front, m, front', m', hdeclares, hdeclares', hdecides.alike, hdecides.apart⟩

/-- The methods of a file, with what the types in their headers denote. -/
def ParsedFile.headers (f : ParsedFile) : List (String × List Attribution) :=
  f.unit.allTypes.flatMap fun d => d.methods.map fun m => (m.name, m.attributions)

set_option maxRecDepth 20000 in
/-- A member type is known to all headers, whatever local classes go by the same name. -/
theorem Rearranged.attributions_eq_iff_member_type :
    let f := ParsedFile.ofSource
      "class A\x7bvoid f()\x7bclass E\x7b\x7d\x7dvoid g()throws E\x7b\x7dclass E\x7b\x7d\x7d".toList
      (by decide +kernel)
    let f' := ParsedFile.ofSource
      "class A\x7bvoid g()throws E\x7b\x7dvoid f()\x7b\x7dclass E\x7b\x7d\x7d".toList
      (by decide +kernel)
    Rearranged f f' f.onlyMembers f'.onlyMembers ∧
      f.headers = [("f", []), ("g", [.sure "A.E"])] ∧
      f'.headers = [("g", [.sure "A.E"]), ("f", [])] ∧
      ∀ n ∈ f.onlyMembers, ∀ n' ∈ f'.onlyMembers, n.named ∧ isMethodNode n.kind → n'.named →
      SameHeader f.source f'.source n n' →
      ∃ d ∈ f.unit.allTypes, ∃ d' ∈ f'.unit.allTypes, d.fqn = d'.fqn ∧
        ∃ front m front' m', d.Declares front m n ∧ d'.Declares front' m' n' ∧
          m.attributions = m'.attributions := by
  intro f f'
  have hchecks : f.Rearranges f' (f.onlyMembers.take 1 ++
        (((f.onlyMembers.drop 1).take 2).reverse ++ (f.onlyMembers.drop 1).drop 2)) ∧
      (f.headers = [("f", []), ("g", [.sure "A.E"])] ∧
        f'.headers = [("g", [.sure "A.E"]), ("f", [])]) ∧
      ∀ d ∈ f.unit.allTypes, d.fqn ≠ "" ∧ ∀ m ∈ d.methods, ∀ n ∈ f.onlyMembers,
        ∀ x ∈ m.asks n.kind, (f.declared.find? d.fqn x).isSome := by
    decide +kernel
  obtain ⟨hfiles, ⟨hheaders, hheaders'⟩, hknown⟩ := hchecks
  -- The two methods change places, and the brackets around the members stay where they are.
  have hswap := (List.reverse_perm ((f.onlyMembers.drop 1).take 2)).append_right
    ((f.onlyMembers.drop 1).drop 2)
  rw [List.take_append_drop] at hswap
  have hperm := (hswap.append_left (f.onlyMembers.take 1)).trans
    (.of_eq (List.take_append_drop 1 f.onlyMembers))
  have hrearranged := hfiles.rearranged hperm
  refine ⟨hrearranged, hheaders, hheaders', fun n hn n' hn' hmethod hnamed' hheader => ?_⟩
  obtain ⟨before, d, after, hsplit, d', hd', hfqn, hmethods⟩ := hrearranged.attributions_eq_iff
  have hd : d ∈ f.unit.allTypes := hsplit ▸ List.mem_append_right _ List.mem_cons_self
  obtain ⟨hnamed, hasks⟩ := hknown d hd
  obtain ⟨front, m, front', m', hdeclares, hdeclares', halike, -⟩ :=
    hmethods hnamed n hn n' hn' hmethod hnamed' hheader
  exact ⟨d, hd, d', hd', hfqn, front, m, front', m', hdeclares, hdeclares',
    halike fun x hx => .inl (.inl (hasks m hdeclares.mem_methods n hn x hx))⟩

set_option maxRecDepth 20000 in
/-- A local class in the body of a method in front decides what a header denotes. -/
theorem Rearranged.attributions_differ_local_class :
    let f := ParsedFile.ofSource
      "import a.E;class A\x7bvoid f()\x7bclass E\x7b\x7d\x7dvoid g()throws E\x7b\x7d\x7d".toList
      (by decide +kernel)
    let f' := ParsedFile.ofSource
      "import a.E;class A\x7bvoid f()\x7b\x7dvoid g()throws E\x7b\x7d\x7d".toList
      (by decide +kernel)
    Rearranged f f' f.onlyMembers f'.onlyMembers ∧
      f.headers = [("f", []), ("g", [.sure "A.E"])] ∧
      f'.headers = [("f", []), ("g", [.sure "a.E"])] := by
  intro f f'
  have hchecks : f.Rearranges f' f.onlyMembers ∧
      f.headers = [("f", []), ("g", [.sure "A.E"])] ∧
      f'.headers = [("f", []), ("g", [.sure "a.E"])] := by
    decide +kernel
  exact ⟨hchecks.1.rearranged (.refl _), hchecks.2⟩

end JavaThrows
