import JavaThrows.Proofs.Decl.Twins

set_option autoImplicit false

/-!
# Declarations without their layout

What the program knows of a file without the places of things and without the texts of types, of
which it goes by the erasure. Scopes that agree on this read the same headers off twin nodes: the
same type variables, supertypes, parameters, throws entries and annotations. Main statement:
`SameScope.method`.
-/

namespace JavaThrows

open Cst Text

/-! ## Declarations without their layout -/

def TypeRef.withoutLayout (t : TypeRef) : TypeRef :=
  { t with text := "", span := default }

def NameRef.withoutLayout (x : NameRef) : NameRef :=
  { x with span := default }

def Import.withoutLayout (i : Import) : Import :=
  { i with span := default, lineSpan := default }

def TypeParam.withoutLayout (p : TypeParam) : TypeParam :=
  { p with bound := p.bound.map TypeRef.withoutLayout }

def Param.withoutLayout (p : Param) : Param :=
  { p with type := p.type.withoutLayout }

def TypeHead.withoutLayout (head : TypeHead) : TypeHead :=
  { head with
    span := default
    typeParams := head.typeParams.map TypeParam.withoutLayout
    supertypes := head.supertypes.map TypeRef.withoutLayout
    references := head.references.map NameRef.withoutLayout }

/-- The places of the clause and of the end of the header go too. -/
def Method.withoutLayout (m : Method) : Method :=
  { m with
    span := default
    typeParams := m.typeParams.map TypeParam.withoutLayout
    params := m.params.map Param.withoutLayout
    throws := m.throws.map (·.map TypeRef.withoutLayout)
    throwsSpan := none
    headerEnd := 0
    references := m.references.map NameRef.withoutLayout }

mutual
def TypeDecl.withoutLayout : TypeDecl → TypeDecl
  | .mk head members => .mk head.withoutLayout (membersWithoutLayout members)

def membersWithoutLayout : List Member → List Member
  | [] => []
  | .method m locals :: ms =>
    .method m.withoutLayout (typesWithoutLayout locals) :: membersWithoutLayout ms
  | .type d :: ms => .type d.withoutLayout :: membersWithoutLayout ms

def typesWithoutLayout : List TypeDecl → List TypeDecl
  | [] => []
  | d :: ds => d.withoutLayout :: typesWithoutLayout ds
end

def Member.withoutLayout : Member → Member
  | .method m locals => .method m.withoutLayout (typesWithoutLayout locals)
  | .type d => .type d.withoutLayout

/-- All that the program knows of a file, without places and without the texts of types. -/
def CompilationUnit.withoutLayout (unit : CompilationUnit) : CompilationUnit where
  package := unit.package
  imports := unit.imports.map Import.withoutLayout
  types := typesWithoutLayout unit.types

theorem membersWithoutLayout_eq_map (ms : List Member) :
    membersWithoutLayout ms = ms.map Member.withoutLayout := by
  induction ms with
  | nil => rfl
  | cons m ms ih =>
    cases m <;> rw [membersWithoutLayout, ih, List.map_cons, Member.withoutLayout]

theorem typesWithoutLayout_eq_map (ds : List TypeDecl) :
    typesWithoutLayout ds = ds.map TypeDecl.withoutLayout := by
  induction ds with
  | nil => rfl
  | cons d ds ih => rw [typesWithoutLayout, ih, List.map_cons]

theorem membersWithoutLayout_append (xs ys : List Member) :
    membersWithoutLayout (xs ++ ys) = membersWithoutLayout xs ++ membersWithoutLayout ys := by
  simp only [membersWithoutLayout_eq_map, List.map_append]

theorem membersWithoutLayout_map_type (ds : List TypeDecl) :
    membersWithoutLayout (ds.map .type) = (typesWithoutLayout ds).map .type := by
  rw [membersWithoutLayout_eq_map, typesWithoutLayout_eq_map, List.map_map, List.map_map]
  rfl

/-! ## Scopes -/

def Scope.withoutLayout (s : Scope) : Scope :=
  { s with source := [], typeVars := s.typeVars.map TypeParam.withoutLayout }

/-- Two scopes in two sources that see the same. -/
structure SameScope (source source' : List Char) (s s' : Scope) : Prop where
  source : s.source = source
  source' : s'.source = source'
  same : s.withoutLayout = s'.withoutLayout

theorem boundErasure_withoutLayout (p : TypeParam) :
    Scope.boundErasure p.withoutLayout = Scope.boundErasure p := by
  cases hbound : p.bound <;> simp [Scope.boundErasure, TypeParam.withoutLayout, hbound,
    TypeRef.withoutLayout]

theorem attributionOf_withoutLayout (s : Scope) (ds : DeclaredTypes) (erased : String) :
    s.withoutLayout.attributionOf ds erased = s.attributionOf ds erased := by
  have hvar (base : String) : s.withoutLayout.typeVars.find? (fun p => p.name == base) =
      (s.typeVars.find? fun p => p.name == base).map TypeParam.withoutLayout := by
    rw [Scope.withoutLayout, List.find?_map]
    rfl
  have hdeclared : s.withoutLayout.declaredType ds = s.declaredType ds := rfl
  have himported : s.withoutLayout.importedType = s.importedType := rfl
  simp only [Scope.attributionOf, hvar, hdeclared, himported]
  split
  · rfl
  split
  · cases s.typeVars.find? fun p => p.name == (cutDimensions erased).1 with
    | none => rfl
    | some p => simp [boundErasure_withoutLayout]
  · rfl

namespace SameScope

variable {source source' : List Char} {s s' : Scope}

theorem packagePrefix (hs : SameScope source source' s s') : s.packagePrefix = s'.packagePrefix :=
  (congrArg Scope.packagePrefix hs.same :)

theorem qualify (hs : SameScope source source' s s') (parent : Option String) (name : String) :
    s.qualify parent name = s'.qualify parent name := by
  cases parent <;> simp [Scope.qualify, hs.packagePrefix]

theorem attributionOf (hs : SameScope source source' s s') (ds : DeclaredTypes) (erased : String) :
    s.attributionOf ds erased = s'.attributionOf ds erased := by
  rw [← attributionOf_withoutLayout s, hs.same, attributionOf_withoutLayout]

theorem enter (hs : SameScope source source' s s') (fqn : String) :
    SameScope source source' (s.enter fqn) (s'.enter fqn) := by
  refine ⟨hs.source, hs.source', ?_⟩
  have hsame := hs.same
  simp only [Scope.withoutLayout, Scope.mk.injEq, true_and] at hsame ⊢
  simp only [Scope.enter, hsame, true_and]

theorem withTypeVars (hs : SameScope source source' s s') {params params' : List TypeParam}
    (hparams : params.map TypeParam.withoutLayout = params'.map TypeParam.withoutLayout) :
    SameScope source source' (s.withTypeVars params) (s'.withTypeVars params') := by
  refine ⟨hs.source, hs.source', ?_⟩
  have hsame := hs.same
  simp only [Scope.withoutLayout, Scope.mk.injEq, true_and] at hsame ⊢
  simp only [Scope.withTypeVars, List.map_append, List.map_reverse, hsame, hparams, true_and]

end SameScope

/-! ## What is read off the nodes -/

/-- The types of the list in a clause. -/
def Cst.Node.listedTypes (n : Node) (clause : String) : List Node :=
  (((n.childOfKind clause).bind fun c => c.childOfKind "type_list").map Node.namedChildren).getD []

namespace Scope

variable (s : Scope) (ds : DeclaredTypes) (n : Node)

theorem supertypes_eq :
    s.supertypes ds n =
      (((n.childOfKind "superclass").bind fun c => c.namedChildren.head?).toList ++
        n.listedTypes "super_interfaces" ++ n.listedTypes "extends_interfaces").map
          (s.typeRef ds) := by
  simp only [Scope.supertypes, Node.listedTypes]
  cases (n.childOfKind "super_interfaces").bind fun c => c.childOfKind "type_list" <;>
    cases (n.childOfKind "extends_interfaces").bind fun c => c.childOfKind "type_list" <;> rfl

/-- The number of brackets after the name of a parameter. -/
def dimensions : Nat :=
  ((n.childByField "dimensions").map fun d => (s.text d).toList.count '[').getD 0

theorem param?_formal (hkind : n.kind = "formal_parameter") :
    s.param? ds n = (n.childByField "type").map fun t =>
      ⟨withDimensions (s.typeRef ds t) (s.dimensions n), s.nameOf n⟩ := by
  unfold Scope.param? Scope.dimensions
  rw [hkind]
  cases n.childByField "dimensions" <;> rfl

theorem param?_spread (hkind : n.kind = "spread_parameter") :
    s.param? ds n = (n.namedChildren.find? isSpreadType).map fun t =>
      ⟨withDimensions (s.typeRef ds t) 1,
        ((n.childOfKind "variable_declarator").map s.nameOf).getD ""⟩ := by
  rw [Scope.param?, hkind]
  rfl

theorem param?_eq_none (hformal : n.kind ≠ "formal_parameter")
    (hspread : n.kind ≠ "spread_parameter") : s.param? ds n = none := by
  rw [Scope.param?]
  split
  · exact absurd ‹_› hformal
  · exact absurd ‹_› hspread
  · rfl

theorem withDimensions_withoutLayout (t : TypeRef) (dims : Nat) :
    (withDimensions t dims).withoutLayout = withDimensions t.withoutLayout dims :=
  rfl

end Scope

namespace SameScope

variable {source source' : List Char} {s s' : Scope} {n n' : Node}

theorem text_eq (hs : SameScope source source' s s') : s.text = fun c => slice source c.span := by
  funext c
  rw [Scope.text, hs.source]

theorem text_eq' (hs : SameScope source source' s s') :
    s'.text = fun c => slice source' c.span := by
  funext c
  rw [Scope.text, hs.source']

theorem nameOf (hs : SameScope source source' s s') (h : Twin source source' n n')
    (hkind : n.kind ∈ namedKinds) : s.nameOf n = s'.nameOf n' := by
  rw [Scope.nameOf, Scope.nameOf, hs.text_eq, hs.text_eq', h.name_eq hkind]

/-- A type that is read denotes the same. -/
theorem typeRef (hs : SameScope source source' s s') (ds : DeclaredTypes)
    (h : Twin source source' n n') (hn : n.Uncommented ∧ '@' ∉ (slice source n.span).toList)
    (hn' : n'.Uncommented ∧ '@' ∉ (slice source' n'.span).toList) :
    (s.typeRef ds n).withoutLayout = (s'.typeRef ds n').withoutLayout := by
  simp only [Scope.typeRef, hs.text_eq, hs.text_eq', h.erase_eq hn hn', hs.attributionOf,
    TypeRef.withoutLayout]

/-- The type behind `extends`, or the first bound of a type variable. -/
theorem firstType (hs : SameScope source source' s s') (ds : DeclaredTypes)
    (h : Twin source source' n n') (hkind : n.kind = "superclass" ∨ n.kind = "type_bound") :
    n.namedChildren.head?.map (fun t => (s.typeRef ds t).withoutLayout) =
      n'.namedChildren.head?.map fun t => (s'.typeRef ds t).withoutLayout := by
  have hread {n : Node} (hkind : n.kind = "superclass" ∨ n.kind = "type_bound") :
      typesRead n = n.namedChildren.head?.toList := by
    rw [typesRead, if_pos (by simpa using hkind)]
  refine map_eq_of_rel (h.firstType hkind) fun t ht t' ht' htwin => ?_
  refine hs.typeRef ds htwin (h.fit.calm.here.types t ?_) (h.fit'.calm.here.types t' ?_)
  · rw [hread hkind]
    exact Option.mem_toList.2 ht
  · rw [hread (h.same.kind ▸ hkind)]
    exact Option.mem_toList.2 ht'

theorem typeParam (hs : SameScope source source' s s') (ds : DeclaredTypes)
    (h : Twin source source' n n') :
    (s.typeParam ds n).withoutLayout = (s'.typeParam ds n').withoutLayout := by
  have hname : (n.namedChildren.find? isName).map s.text =
      (n'.namedChildren.find? isName).map s'.text := by
    rw [hs.text_eq, hs.text_eq', namedChildren_find?, namedChildren_find?]
    have hshallow : Shallow fun c => c.named && isName c :=
      .ofNamed (p := fun kind => kind == "identifier" || kind == "type_identifier") (by decide)
    refine map_eq_of_rel (h.children.find? hshallow) fun c hc c' _ htwin => htwin.text_of_name ?_
    have hfound := List.find?_some hc
    simp only [isName, Bool.and_eq_true, Bool.or_eq_true, beq_iff_eq] at hfound
    simp only [nameKinds, List.mem_cons]
    exact hfound.2.imp_right .inl
  have hbound : ((n.childOfKind "type_bound").bind fun b => b.namedChildren.head?).map
        (fun t => (s.typeRef ds t).withoutLayout) =
      ((n'.childOfKind "type_bound").bind fun b => b.namedChildren.head?).map
        fun t => (s'.typeRef ds t).withoutLayout := by
    rw [Option.map_bind, Option.map_bind]
    exact bind_eq_of_rel (h.children.childOfKind (by decide)) fun b _ b' _ hb =>
      hs.firstType ds hb.1 (.inr hb.2)
  simp only [Scope.typeParam, TypeParam.withoutLayout, Option.map_map, Function.comp_def, hname,
    hbound]

theorem typeParams (hs : SameScope source source' s s') (ds : DeclaredTypes)
    (h : Twin source source' n n') :
    (s.typeParams ds n).map TypeParam.withoutLayout =
      (s'.typeParams ds n').map TypeParam.withoutLayout := by
  have hlist := h.children.find? (.ofField "type_parameters")
  simp only [Scope.typeParams, Node.childByField]
  generalize n.children.find? _ = list, n'.children.find? _ = list' at hlist ⊢
  cases hlist with
  | none => rfl
  | some hlist =>
    simp only [List.map_map, namedChildren_filter]
    have hshallow : Shallow fun c => c.named && c.kind == "type_parameter" :=
      .ofNamed (p := (· == "type_parameter")) (by decide)
    exact map_eq_of_forall₂ (hlist.children.filter hshallow)
      fun c _ c' _ htwin => hs.typeParam ds htwin

theorem supertypes (hs : SameScope source source' s s') (ds : DeclaredTypes)
    (h : Twin source source' n n') :
    (s.supertypes ds n).map TypeRef.withoutLayout =
      (s'.supertypes ds n').map TypeRef.withoutLayout := by
  have hsuper : ((n.childOfKind "superclass").bind fun c => c.namedChildren.head?).map
        (fun t => (s.typeRef ds t).withoutLayout) =
      ((n'.childOfKind "superclass").bind fun c => c.namedChildren.head?).map
        fun t => (s'.typeRef ds t).withoutLayout := by
    rw [Option.map_bind, Option.map_bind]
    exact bind_eq_of_rel (h.children.childOfKind (by decide)) fun b _ b' _ hb =>
      hs.firstType ds hb.1 (.inl hb.2)
  have hlisted (clause : String) (hclause : clause ∉ commentKinds) :
      ((n.childOfKind clause).bind fun c => c.childOfKind "type_list").map
          (fun list => list.namedChildren.map fun t => (s.typeRef ds t).withoutLayout) =
        ((n'.childOfKind clause).bind fun c => c.childOfKind "type_list").map
          fun list => list.namedChildren.map fun t => (s'.typeRef ds t).withoutLayout := by
    rw [Option.map_bind, Option.map_bind]
    refine bind_eq_of_rel (h.children.childOfKind hclause) fun c _ c' _ hc => ?_
    refine map_eq_of_rel (hc.1.children.childOfKind (by decide)) fun list _ list' _ hlist => ?_
    refine map_eq_of_forall₂ (hlist.1.listedTypes hlist.2) fun t ht t' ht' htwin => ?_
    refine hs.typeRef ds htwin (hlist.1.fit.calm.here.types t ?_)
      (hlist.1.fit'.calm.here.types t' ?_)
    · simpa [typesRead, hlist.2] using ht
    · simpa [typesRead, ← hlist.1.same.kind, hlist.2] using ht'
  have hpart {o o' : Option Node}
      (ho : o.map (fun t => (s.typeRef ds t).withoutLayout) =
        o'.map fun t => (s'.typeRef ds t).withoutLayout) :
      o.toList.map (fun t => (s.typeRef ds t).withoutLayout) =
        o'.toList.map fun t => (s'.typeRef ds t).withoutLayout := by
    rw [← Option.toList_map, ← Option.toList_map, ho]
  have hlist (clause : String) (hclause : clause ∉ commentKinds) :
      (n.listedTypes clause).map (fun t => (s.typeRef ds t).withoutLayout) =
        (n'.listedTypes clause).map fun t => (s'.typeRef ds t).withoutLayout := by
    have hlisted := congrArg (Option.getD · []) (hlisted clause hclause)
    have hget (o : Option Node) (f : Node → TypeRef) :
        ((o.map Node.namedChildren).getD []).map f =
          (o.map fun list => list.namedChildren.map f).getD [] := by
      cases o <;> rfl
    rwa [Node.listedTypes, Node.listedTypes, hget, hget]
  simp only [Scope.supertypes_eq, List.map_append, List.map_map, Function.comp_def]
  rw [hpart hsuper, hlist "super_interfaces" (by decide), hlist "extends_interfaces" (by decide)]

theorem dimensions (hs : SameScope source source' s s') (h : Twin source source' n n')
    (hkind : n.kind = "formal_parameter") : s.dimensions n = s'.dimensions n' := by
  rw [Scope.dimensions, Scope.dimensions, hs.text_eq, hs.text_eq']
  refine congrArg (Option.getD · 0) ?_
  refine map_eq_of_rel (h.children.find? (.ofField "dimensions")) fun d hd d' hd' htwin => ?_
  refine htwin.count_eq (h.fit.calm.here.dimensions d ?_) (h.fit'.calm.here.dimensions d' ?_)
  · simpa [dimensionsRead, hkind] using hd
  · simpa [dimensionsRead, ← h.same.kind, hkind] using hd'

/-- The declared type of a parameter, or the type that an object is made of. -/
theorem fieldType (hs : SameScope source source' s s') (ds : DeclaredTypes)
    (h : Twin source source' n n')
    (hkind : n.kind = "formal_parameter" ∨ n.kind = "object_creation_expression") :
    (n.childByField "type").map (fun t => (s.typeRef ds t).withoutLayout) =
      (n'.childByField "type").map fun t => (s'.typeRef ds t).withoutLayout := by
  have hread {n : Node}
      (hkind : n.kind = "formal_parameter" ∨ n.kind = "object_creation_expression") :
      typesRead n = (n.childByField "type").toList := by
    rcases hkind with hkind | hkind <;> simp [typesRead, hkind]
  refine map_eq_of_rel (h.children.find? (.ofField "type")) fun t ht t' ht' htwin => ?_
  refine hs.typeRef ds htwin (h.fit.calm.here.types t ?_) (h.fit'.calm.here.types t' ?_)
  · rw [hread hkind]
    exact Option.mem_toList.2 ht
  · rw [hread (h.same.kind ▸ hkind)]
    exact Option.mem_toList.2 ht'

theorem spreadType (hs : SameScope source source' s s') (ds : DeclaredTypes)
    (h : Twin source source' n n') (hkind : n.kind = "spread_parameter") :
    (n.namedChildren.find? isSpreadType).map (fun t => (s.typeRef ds t).withoutLayout) =
      (n'.namedChildren.find? isSpreadType).map fun t => (s'.typeRef ds t).withoutLayout := by
  refine map_eq_of_rel (h.spreadType hkind) fun t ht t' ht' htwin => ?_
  refine hs.typeRef ds htwin (h.fit.calm.here.types t ?_) (h.fit'.calm.here.types t' ?_)
  · simpa [typesRead, hkind] using ht
  · simpa [typesRead, ← h.same.kind, hkind] using ht'

theorem param? (hs : SameScope source source' s s') (ds : DeclaredTypes)
    (h : Twin source source' n n') :
    (s.param? ds n).map Param.withoutLayout = (s'.param? ds n').map Param.withoutLayout := by
  by_cases hformal : n.kind = "formal_parameter"
  · have htype := hs.fieldType ds h (.inl hformal)
    have hmake := congrArg (Option.map fun t : TypeRef =>
      Param.mk (Scope.withDimensions t (s'.dimensions n')) (s'.nameOf n')) htype
    rw [Scope.param?_formal s ds n hformal, Scope.param?_formal s' ds n' (h.same.kind ▸ hformal),
      hs.dimensions h hformal, hs.nameOf h (by simp [hformal, namedKinds])]
    simpa only [Option.map_map, Function.comp_def, Param.withoutLayout,
      Scope.withDimensions_withoutLayout] using hmake
  by_cases hspread : n.kind = "spread_parameter"
  · have hname : (n.childOfKind "variable_declarator").map s.nameOf =
        (n'.childOfKind "variable_declarator").map s'.nameOf :=
      map_eq_of_rel (h.children.childOfKind (by decide)) fun d _ d' _ hd =>
        hs.nameOf hd.1 (by simp [hd.2, namedKinds])
    have htype := hs.spreadType ds h hspread
    have hmake := congrArg (Option.map fun t : TypeRef =>
      Param.mk (Scope.withDimensions t 1)
        (((n'.childOfKind "variable_declarator").map s'.nameOf).getD "")) htype
    rw [Scope.param?_spread s ds n hspread, Scope.param?_spread s' ds n' (h.same.kind ▸ hspread),
      hname]
    simpa only [Option.map_map, Function.comp_def, Param.withoutLayout,
      Scope.withDimensions_withoutLayout] using hmake
  · rw [Scope.param?_eq_none s ds n hformal hspread,
      Scope.param?_eq_none s' ds n' (h.same.kind ▸ hformal) (h.same.kind ▸ hspread)]

/-- Comments between the parameters are none. -/
theorem params (hs : SameScope source source' s s') (ds : DeclaredTypes)
    (h : Twin source source' n n') :
    (s.params ds n).map Param.withoutLayout = (s'.params ds n').map Param.withoutLayout := by
  have hsolid (s : Scope) (n : Node) : n.namedChildren.filterMap (s.param? ds) =
      (n.children.filter fun c => c.named && !c.isComment).filterMap (s.param? ds) := by
    rw [← namedChildren_filter, List.filterMap_filter]
    refine congrArg (List.filterMap · n.namedChildren) (funext fun c => ?_)
    split
    · rfl
    · next hcomment =>
      have hkind : c.kind ∈ commentKinds := isComment_iff.1 (by simpa using hcomment)
      rw [Scope.param?_eq_none] <;> rintro heq <;> simp [heq, commentKinds] at hkind
  have hlist := h.children.find? (.ofField "parameters")
  simp only [Scope.params, Node.childByField]
  generalize n.children.find? _ = list, n'.children.find? _ = list' at hlist ⊢
  cases hlist with
  | none => rfl
  | some hlist =>
    change (List.filterMap _ _).map _ = (List.filterMap _ _).map _
    rw [hsolid, hsolid, List.map_filterMap, List.map_filterMap]
    exact filterMap_eq_of_forall₂ (hlist.children.filter (.ofSolid fun _ hnamed => hnamed))
      fun c _ c' _ htwin => hs.param? ds htwin

theorem annotations (hs : SameScope source source' s s') (h : Twin source source' n n') :
    s.annotations n = s'.annotations n' := by
  have hmodifiers := h.children.childOfKind (by decide : "modifiers" ∉ commentKinds)
  simp only [Scope.annotations]
  generalize n.childOfKind "modifiers" = mods, n'.childOfKind "modifiers" = mods' at hmodifiers ⊢
  cases hmodifiers with
  | none => rfl
  | some hmods =>
    simp only [namedChildren_filter]
    have hshallow : Shallow fun c =>
        c.named && (c.kind == "marker_annotation" || c.kind == "annotation") :=
      .ofNamed (p := fun kind => kind == "marker_annotation" || kind == "annotation") (by decide)
    refine filterMap_eq_of_forall₂ (hmods.1.children.filter hshallow) fun a ha a' ha' htwin => ?_
    have hread {n : Node} (hkind : n.kind = "marker_annotation" ∨ n.kind = "annotation") :
        namesRead n = (n.childByField "name").toList := by
      rcases hkind with hkind | hkind <;> simp [namesRead, hkind]
    have hkind : a.kind = "marker_annotation" ∨ a.kind = "annotation" := by
      simpa using (Bool.and_eq_true_iff.1 (List.mem_filter.1 ha).2).2
    refine map_eq_of_rel (htwin.children.find? (.ofField "name")) fun q hq q' hq' hname => ?_
    rw [Scope.text, Scope.text, hs.source, hs.source']
    refine congrArg lastSegment (hname.text_eq (htwin.fit.calm.here.names q ?_)
      (htwin.fit'.calm.here.names q' ?_))
    · rw [hread hkind]
      exact Option.mem_toList.2 hq
    · rw [hread (htwin.same.kind ▸ hkind)]
      exact Option.mem_toList.2 hq'

end SameScope

/-! ## Names that occur -/

section References

variable {source source' : List Char} {ns ns' : List Node}

theorem namesOf_comment (stop : String → String → Bool) (parent : String) (c : Comment) :
    namesOf source stop parent c.node = [] := by
  have hkind := kind_node_mem c
  have hname : isName c.node = false := by
    simp only [commentKinds, List.mem_cons, List.not_mem_nil, or_false] at hkind
    rcases hkind with hkind | hkind <;> simp [isName, hkind]
  unfold Comment.node at hname ⊢
  rw [namesOf, hname]
  split <;> rfl

theorem Twins.namesIn (h : Twins source source' ns ns') (stop : String → String → Bool)
    (parent : String) :
    (namesIn source stop parent ns).map NameRef.withoutLayout =
      (namesIn source' stop parent ns').map NameRef.withoutLayout := by
  induction h generalizing parent with
  | nil => rfl
  | comment_left c _ ih => rw [JavaThrows.namesIn, namesOf_comment, List.nil_append, ih]
  | comment_right c _ ih => rw [ih, JavaThrows.namesIn, namesOf_comment, List.nil_append]
  | @node kind _ _ _ _ _ _ _ _ hsame hfit hfit' hchildren _ ihchildren ih =>
    rw [JavaThrows.namesIn, JavaThrows.namesIn, List.map_append, List.map_append, ih, namesOf,
      namesOf]
    refine congrArg (· ++ _) ?_
    split
    · rfl
    have htwin : Twin source source' _ _ := ⟨hsame, hfit, hfit', hchildren⟩
    simp only [isName]
    by_cases hkind : kind = "identifier" ∨ kind = "type_identifier"
    · have htext := htwin.text_of_name (by simpa [nameKinds] using hkind.imp_right .inl)
      simp only [Bool.or_eq_true, beq_iff_eq, hkind, if_true, List.map_cons, NameRef.withoutLayout,
        htext]
    · simp only [Bool.or_eq_true, beq_iff_eq, hkind, if_false, ihchildren]

end References

/-! ## Methods -/

theorem map_snd_clauseIn (previous : Option Node) (ns : List Node) :
    (Scope.clauseIn previous ns).map Prod.snd = ns.find? fun n => n.kind == "throws" := by
  induction ns generalizing previous with
  | nil => rfl
  | cons n ns ih =>
    rw [Scope.clauseIn, List.find?_cons]
    split
    · next hkind => rw [hkind, Option.map_some]
    · next hkind => rw [ih, Bool.eq_false_iff.2 hkind]

namespace SameScope

variable {source source' : List Char} {s s' : Scope} {n n' : Node}

/-- The entries of a throws clause, between which comments may stand. -/
theorem throwsEntries (hs : SameScope source source' s s') (ds : DeclaredTypes)
    (h : Twin source source' n n') (hkind : n.kind = "throws") :
    (n.namedChildren.filter fun e => !e.isComment).map (fun e => (s.typeRef ds e).withoutLayout) =
      (n'.namedChildren.filter fun e => !e.isComment).map fun e =>
        (s'.typeRef ds e).withoutLayout := by
  have hread {n : Node} (hkind : n.kind = "throws") :
      typesRead n = n.namedChildren.filter fun e => !e.isComment := by
    simp [typesRead, hkind]
  have hentries : List.Forall₂ (Twin source source')
      (n.namedChildren.filter fun e => !e.isComment)
      (n'.namedChildren.filter fun e => !e.isComment) := by
    rw [namedChildren_filter, namedChildren_filter]
    exact h.children.filter (.ofSolid fun _ hnamed => hnamed)
  refine map_eq_of_forall₂ hentries fun e he e' he' htwin => ?_
  refine hs.typeRef ds htwin (h.fit.calm.here.types e ?_) (h.fit'.calm.here.types e' ?_)
  · rwa [hread hkind]
  · rwa [hread (h.same.kind ▸ hkind)]

/-- **A method is the same in both layouts.** -/
theorem method (hs : SameScope source source' s s') (ds : DeclaredTypes) (ownerName : String)
    {recordParams recordParams' : List Param}
    (hrecord : recordParams.map Param.withoutLayout = recordParams'.map Param.withoutLayout)
    (h : Twin source source' n n') (hkind : isMethodNode n.kind) :
    (s.method ds ownerName recordParams n).withoutLayout =
      (s'.method ds ownerName recordParams' n').withoutLayout := by
  have htypeParams := hs.typeParams ds h
  have hinner := hs.withTypeVars htypeParams
  have hname := hinner.nameOf h (by
    rw [namedKinds]
    exact List.mem_append_right _ (isMethodNode_iff.1 hkind))
  have hparams := hinner.params ds h
  have hreferences : (methodReferences source n).map NameRef.withoutLayout =
      (methodReferences source' n').map NameRef.withoutLayout := by
    rw [methodReferences, methodReferences, ← h.same.kind]
    exact h.children.namesIn _ _
  have hthrows : ((Scope.clauseIn none n.children).map Prod.snd).map (fun clause =>
        (clause.namedChildren.filter fun e => !e.isComment).map fun e =>
          ((s.withTypeVars (s.typeParams ds n)).typeRef ds e).withoutLayout) =
      ((Scope.clauseIn none n'.children).map Prod.snd).map fun clause =>
        (clause.namedChildren.filter fun e => !e.isComment).map fun e =>
          ((s'.withTypeVars (s'.typeParams ds n')).typeRef ds e).withoutLayout := by
    rw [map_snd_clauseIn, map_snd_clauseIn]
    exact map_eq_of_rel (h.children.childOfKind (by decide)) fun c _ c' _ hc =>
      hinner.throwsEntries ds hc.1 hc.2
  simp only [Option.map_map, Function.comp_def] at hthrows
  simp only [Scope.method, Method.withoutLayout, Method.mk.injEq, ← h.same.kind, hname,
    htypeParams, hinner.annotations h, Option.map_map, List.map_map, Function.comp_def, hthrows,
    hinner.source, hinner.source', hreferences, and_true, true_and]
  split
  · exact hrecord
  · exact hparams

end SameScope

end JavaThrows
