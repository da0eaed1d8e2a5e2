import JavaThrows.Proofs.Decl.WithoutLayout

set_option autoImplicit false

/-!
# Declarations that are copied

The same declaration may stand in two sources, at other places and among other declarations. What is
read off its nodes is spelled the same in both, but the types may be attributed in another way. How
they are is left open here: `R` says how a type of the one declaration is related to that of the
other. Main statement: `SameHeader.method`.
-/

namespace JavaThrows

open Cst Text

/-! ## Rows of nodes that are spelled the same -/

/-- Rows of nodes with the same kinds and fields and the same texts, wherever they stand. -/
inductive Copies (source source' : List Char) : List Node → List Node → Prop
  | nil : Copies source source' [] []
  | cons {kind : String} {field : Option String} {named : Bool} {span span' : Span}
    {children children' ns ns' : List Node} :
    slice source span = slice source' span' → Copies source source' children children' →
    Copies source source' ns ns' →
    Copies source source' (⟨kind, field, named, span, children⟩ :: ns)
      (⟨kind, field, named, span', children'⟩ :: ns')

/-- Two nodes that are spelled the same. -/
structure Copy (source source' : List Char) (n n' : Node) : Prop where
  kind : n.kind = n'.kind
  field : n.field = n'.field
  named : n.named = n'.named
  text : slice source n.span = slice source' n'.span
  children : Copies source source' n.children n'.children

theorem copies_cons_iff {source source' : List Char} {n n' : Node} {ns ns' : List Node} :
    Copies source source' (n :: ns) (n' :: ns') ↔
      Copy source source' n n' ∧ Copies source source' ns ns' := by
  constructor
  · intro h
    cases h with
    | cons htext hchildren hns => exact ⟨⟨rfl, rfl, rfl, htext, hchildren⟩, hns⟩
  · rintro ⟨h, hns⟩
    obtain ⟨kind, field, named, span, children⟩ := n
    obtain ⟨kind', field', named', span', children'⟩ := n'
    obtain ⟨rfl, rfl, rfl, htext, hchildren⟩ := h
    exact .cons htext hchildren hns

-- The nesting of the nodes itself.
mutual
def isCopy (source source' : List Char) : Node → Node → Bool
  | ⟨kind, field, named, span, children⟩, n' =>
    kind == n'.kind && field == n'.field && named == n'.named &&
      slice source span == slice source' n'.span && areCopies source source' children n'.children

def areCopies (source source' : List Char) : List Node → List Node → Bool
  | [], ns' => ns'.isEmpty
  | _ :: _, [] => false
  | n :: ns, n' :: ns' => isCopy source source' n n' && areCopies source source' ns ns'
end

mutual
theorem isCopy_iff (source source' : List Char) (n n' : Node) :
    isCopy source source' n n' ↔ Copy source source' n n' := by
  obtain ⟨kind, field, named, span, children⟩ := n
  simp only [isCopy, Bool.and_eq_true, beq_iff_eq, areCopies_iff source source' children]
  constructor
  · rintro ⟨⟨⟨⟨hkind, hfield⟩, hnamed⟩, htext⟩, hchildren⟩
    exact ⟨hkind, hfield, hnamed, htext, hchildren⟩
  · rintro ⟨hkind, hfield, hnamed, htext, hchildren⟩
    exact ⟨⟨⟨⟨hkind, hfield⟩, hnamed⟩, htext⟩, hchildren⟩

theorem areCopies_iff (source source' : List Char) (ns ns' : List Node) :
    areCopies source source' ns ns' ↔ Copies source source' ns ns' := by
  match ns, ns' with
  | [], [] => exact ⟨fun _ => .nil, fun _ => rfl⟩
  | [], _ :: _ => exact ⟨nofun, nofun⟩
  | _ :: _, [] => exact ⟨nofun, nofun⟩
  | n :: ns, n' :: ns' =>
    rw [areCopies, Bool.and_eq_true, isCopy_iff source source' n n',
      areCopies_iff source source' ns ns', copies_cons_iff]
end

instance {source source' : List Char} {n n' : Node} : Decidable (Copy source source' n n') :=
  decidable_of_iff _ (isCopy_iff source source' n n')

instance {source source' : List Char} {ns ns' : List Node} :
    Decidable (Copies source source' ns ns') :=
  decidable_of_iff _ (areCopies_iff source source' ns ns')

section Lookup

variable {source source' : List Char} {ns ns' : List Node} {n n' : Node}

theorem Copies.forall₂ (h : Copies source source' ns ns') :
    List.Forall₂ (Copy source source') ns ns' := by
  induction h with
  | nil => exact .nil
  | cons htext hchildren _ _ ih => exact .cons ⟨rfl, rfl, rfl, htext, hchildren⟩ ih

namespace Copy

theorem childByField (h : Copy source source' n n') (field : String) :
    Option.Rel (Copy source source') (n.childByField field) (n'.childByField field) :=
  rel_find? h.children.forall₂ fun _ _ hc => by rw [hc.field]

theorem childOfKind (h : Copy source source' n n') (kind : String) :
    Option.Rel (Copy source source') (n.childOfKind kind) (n'.childOfKind kind) :=
  rel_find? h.children.forall₂ fun _ _ hc => by rw [hc.kind]

theorem namedChildren (h : Copy source source' n n') :
    List.Forall₂ (Copy source source') n.namedChildren n'.namedChildren :=
  forall₂_filter h.children.forall₂ fun _ _ hc => hc.named

end Copy

/-- Two declarations with the same header: what is looked up in them is copied, the body apart. -/
structure SameHeader (source source' : List Char) (n n' : Node) : Prop where
  kind : n.kind = n'.kind
  byField : ∀ field ∈ ["name", "type_parameters", "parameters"],
    Option.Rel (Copy source source') (n.childByField field) (n'.childByField field)
  ofKind : ∀ kind ∈ ["modifiers", "throws"],
    Option.Rel (Copy source source') (n.childOfKind kind) (n'.childOfKind kind)

instance : Decidable (SameHeader source source' n n') :=
  decidable_of_iff (_ ∧ _ ∧ _)
    ⟨fun h => ⟨h.1, h.2.1, h.2.2⟩, fun h => ⟨h.kind, h.byField, h.ofKind⟩⟩

theorem Copy.sameHeader (h : Copy source source' n n') : SameHeader source source' n n' where
  kind := h.kind
  byField field _ := h.childByField field
  ofKind kind _ := h.childOfKind kind

end Lookup

/-! ## Declarations with related types -/

section Alike

variable (R : TypeRef → TypeRef → Prop)

structure TypeParam.Alike (p p' : TypeParam) : Prop where
  name : p.name = p'.name
  bound : Option.Rel R p.bound p'.bound

structure Param.Alike (p p' : Param) : Prop where
  type : R p.type p'.type
  name : p.name = p'.name

/-- Methods that are the same but for their places, the names that occur in them, and what their
    types denote. -/
structure Method.Alike (m m' : Method) : Prop where
  name : m.name = m'.name
  isConstructor : m.isConstructor = m'.isConstructor
  typeParams : List.Forall₂ (TypeParam.Alike R) m.typeParams m'.typeParams
  params : List.Forall₂ (Param.Alike R) m.params m'.params
  throws : Option.Rel (List.Forall₂ R) m.throws m'.throws
  annotations : m.annotations = m'.annotations

structure TypeHead.Alike (head head' : TypeHead) : Prop where
  kind : head.kind = head'.kind
  name : head.name = head'.name
  fqn : head.fqn = head'.fqn
  typeParams : List.Forall₂ (TypeParam.Alike R) head.typeParams head'.typeParams
  supertypes : List.Forall₂ R head.supertypes head'.supertypes

/-- Types with the same heads and the same methods, the types inside of them apart. -/
structure TypeDecl.Alike (d d' : TypeDecl) : Prop where
  head : TypeHead.Alike R d.head d'.head
  methods : List.Forall₂ (Method.Alike R) d.methods d'.methods

section Weaken

variable {R} {S : TypeRef → TypeRef → Prop} (hRS : ∀ r r', R r r' → S r r')

include hRS

theorem TypeParam.Alike.imp {p p' : TypeParam} (h : TypeParam.Alike R p p') :
    TypeParam.Alike S p p' :=
  ⟨h.name, rel_imp? h.bound hRS⟩

theorem Method.Alike.imp {m m' : Method} (h : Method.Alike R m m') : Method.Alike S m m' where
  name := h.name
  isConstructor := h.isConstructor
  typeParams := h.typeParams.imp fun _ _ hp => hp.imp hRS
  params := h.params.imp fun _ _ hp => ⟨hRS _ _ hp.type, hp.name⟩
  throws := rel_imp? h.throws fun _ _ hentries => hentries.imp hRS
  annotations := h.annotations

theorem TypeDecl.Alike.imp {d d' : TypeDecl} (h : TypeDecl.Alike R d d') :
    TypeDecl.Alike S d d' where
  head :=
    { kind := h.head.kind
      name := h.head.name
      fqn := h.head.fqn
      typeParams := h.head.typeParams.imp fun _ _ hp => hp.imp hRS
      supertypes := h.head.supertypes.imp hRS }
  methods := h.methods.imp fun _ _ hm => hm.imp hRS

end Weaken

end Alike

/-! ## What is read off the nodes -/

/-- The types that copied nodes spell are related in the two scopes. -/
def RelatesTypes (R : TypeRef → TypeRef → Prop) (s s' : Scope) (ds ds' : DeclaredTypes) : Prop :=
  ∀ {n n' : Node}, Copy s.source s'.source n n' → R (s.typeRef ds n) (s'.typeRef ds' n')

/-- Dimensions that are added to both types change nothing. -/
def KeepsDimensions (R : TypeRef → TypeRef → Prop) : Prop :=
  ∀ {r r' : TypeRef} (dims : Nat), R r r' →
    R (Scope.withDimensions r dims) (Scope.withDimensions r' dims)

section Read

variable {R : TypeRef → TypeRef → Prop} {s s' : Scope} {ds ds' : DeclaredTypes} {n n' : Node}

theorem SameHeader.nameOf (h : SameHeader s.source s'.source n n') : s.nameOf n = s'.nameOf n' :=
  congrArg (Option.getD · "")
    (map_eq_of_rel (h.byField "name" (by decide)) fun _ _ _ _ hc => hc.text)

theorem Copy.nameOf (h : Copy s.source s'.source n n') : s.nameOf n = s'.nameOf n' :=
  h.sameHeader.nameOf

theorem Copy.typeParam (h : Copy s.source s'.source n n') (hR : RelatesTypes R s s' ds ds') :
    TypeParam.Alike R (s.typeParam ds n) (s'.typeParam ds' n') where
  name := by
    have hname := rel_find? h.namedChildren fun (c c' : Node) hc => show isName c = isName c' by
      rw [isName, isName, hc.kind]
    exact congrArg (Option.getD · "") (map_eq_of_rel hname fun _ _ _ _ hc => hc.text)
  bound :=
    rel_map? (rel_bind? (h.childOfKind "type_bound") fun _ _ hb => rel_head? hb.namedChildren)
      fun _ _ hc => hR hc

theorem SameHeader.typeParams (h : SameHeader s.source s'.source n n')
    (hR : RelatesTypes R s s' ds ds') :
    List.Forall₂ (TypeParam.Alike R) (s.typeParams ds n) (s'.typeParams ds' n') := by
  have hlist := h.byField "type_parameters" (by decide)
  unfold Scope.typeParams
  generalize n.childByField "type_parameters" = list, n'.childByField "type_parameters" = list'
    at hlist ⊢
  cases hlist with
  | none => exact .nil
  | some hlist =>
    exact List.rel_map (fun _ _ hc => hc.typeParam hR)
      (forall₂_filter hlist.namedChildren fun _ _ hc => by rw [hc.kind])

theorem Copy.listedTypes (h : Copy s.source s'.source n n') (clause : String) :
    List.Forall₂ (Copy s.source s'.source) (n.listedTypes clause) (n'.listedTypes clause) := by
  have hlist := rel_bind? (h.childOfKind clause) fun _ _ hc => hc.childOfKind "type_list"
  unfold Node.listedTypes
  generalize (n.childOfKind clause).bind _ = list, (n'.childOfKind clause).bind _ = list' at hlist ⊢
  cases hlist with
  | none => exact .nil
  | some hlist => exact hlist.namedChildren

theorem Copy.supertypes (h : Copy s.source s'.source n n') (hR : RelatesTypes R s s' ds ds') :
    List.Forall₂ R (s.supertypes ds n) (s'.supertypes ds' n') := by
  have hsuper := rel_bind? (h.childOfKind "superclass") fun _ _ hc => rel_head? hc.namedChildren
  rw [Scope.supertypes_eq, Scope.supertypes_eq]
  exact List.rel_map (fun _ _ hc => hR hc) (List.rel_append (List.rel_append (rel_toList hsuper)
    (h.listedTypes "super_interfaces")) (h.listedTypes "extends_interfaces"))

theorem Copy.dimensions (h : Copy s.source s'.source n n') : s.dimensions n = s'.dimensions n' := by
  have htext := map_eq_of_rel (h.childByField "dimensions") fun d _ d' _ hd =>
    show (s.text d).toList.count '[' = (s'.text d').toList.count '[' by
      rw [Scope.text, Scope.text, hd.text]
  rw [Scope.dimensions, Scope.dimensions, htext]

theorem Copy.param? (h : Copy s.source s'.source n n') (hR : RelatesTypes R s s' ds ds')
    (hdims : KeepsDimensions R) :
    Option.Rel (Param.Alike R) (s.param? ds n) (s'.param? ds' n') := by
  by_cases hformal : n.kind = "formal_parameter"
  · rw [Scope.param?_formal s ds n hformal, Scope.param?_formal s' ds' n' (h.kind ▸ hformal),
      h.dimensions, h.nameOf]
    exact rel_map? (h.childByField "type") fun _ _ ht => ⟨hdims _ (hR ht), rfl⟩
  by_cases hspread : n.kind = "spread_parameter"
  · have hname : (n.childOfKind "variable_declarator").map s.nameOf =
        (n'.childOfKind "variable_declarator").map s'.nameOf :=
      map_eq_of_rel (h.childOfKind "variable_declarator") fun _ _ _ _ hd => hd.nameOf
    have htype := rel_find? h.namedChildren fun (c c' : Node) hc =>
      show isSpreadType c = isSpreadType c' by rw [isSpreadType, isSpreadType, hc.kind]
    rw [Scope.param?_spread s ds n hspread, Scope.param?_spread s' ds' n' (h.kind ▸ hspread),
      hname]
    exact rel_map? htype fun _ _ ht => ⟨hdims _ (hR ht), rfl⟩
  · rw [Scope.param?_eq_none s ds n hformal hspread,
      Scope.param?_eq_none s' ds' n' (h.kind ▸ hformal) (h.kind ▸ hspread)]
    exact .none

theorem SameHeader.params (h : SameHeader s.source s'.source n n') (hR : RelatesTypes R s s' ds ds')
    (hdims : KeepsDimensions R) :
    List.Forall₂ (Param.Alike R) (s.params ds n) (s'.params ds' n') := by
  have hlist := h.byField "parameters" (by decide)
  unfold Scope.params
  generalize n.childByField "parameters" = list, n'.childByField "parameters" = list' at hlist ⊢
  cases hlist with
  | none => exact .nil
  | some hlist => exact List.rel_filterMap (fun _ _ hc => hc.param? hR hdims) hlist.namedChildren

theorem SameHeader.annotations (h : SameHeader s.source s'.source n n') :
    s.annotations n = s'.annotations n' := by
  have hmodifiers := h.ofKind "modifiers" (by decide)
  unfold Scope.annotations
  generalize n.childOfKind "modifiers" = mods, n'.childOfKind "modifiers" = mods' at hmodifiers ⊢
  cases hmodifiers with
  | none => rfl
  | some hmods =>
    have hannotations := forall₂_filter hmods.namedChildren fun (c c' : Node) hc =>
      show (c.kind == "marker_annotation" || c.kind == "annotation") =
        (c'.kind == "marker_annotation" || c'.kind == "annotation") by rw [hc.kind]
    refine filterMap_eq_of_forall₂ hannotations fun a _ a' _ ha => ?_
    exact map_eq_of_rel (ha.childByField "name") fun c _ c' _ hc => congrArg lastSegment hc.text

theorem SameHeader.throws (h : SameHeader s.source s'.source n n')
    (hR : RelatesTypes R s s' ds ds') :
    Option.Rel (List.Forall₂ R)
      ((Scope.clauseIn none n.children).map fun c =>
        (c.2.namedChildren.filter fun e => !e.isComment).map (s.typeRef ds))
      ((Scope.clauseIn none n'.children).map fun c =>
        (c.2.namedChildren.filter fun e => !e.isComment).map (s'.typeRef ds')) := by
  have hclause := h.ofKind "throws" (by decide)
  unfold Node.childOfKind at hclause
  rw [← map_snd_clauseIn none, ← map_snd_clauseIn none] at hclause
  have hentries := rel_map? hclause fun c c' hc =>
    show List.Forall₂ R ((c.namedChildren.filter fun e => !e.isComment).map (s.typeRef ds))
        ((c'.namedChildren.filter fun e => !e.isComment).map (s'.typeRef ds')) from
      List.rel_map (fun _ _ he => hR he) (forall₂_filter hc.namedChildren fun e e' he => by
        rw [Node.isComment, Node.isComment, he.kind])
  rwa [Option.map_map, Option.map_map] at hentries

/-- **A method with a copied header is the same but for what its types denote.** Its types are read
    in the scope inside of it. -/
theorem SameHeader.method (h : SameHeader s.source s'.source n n') (hR : RelatesTypes R s s' ds ds')
    (hinner : RelatesTypes R (s.withTypeVars (s.typeParams ds n))
      (s'.withTypeVars (s'.typeParams ds' n')) ds ds') (hdims : KeepsDimensions R)
    (ownerName : String) {recordParams recordParams' : List Param}
    (hrecord : List.Forall₂ (Param.Alike R) recordParams recordParams') :
    Method.Alike R (s.method ds ownerName recordParams n)
      (s'.method ds' ownerName recordParams' n') := by
  have hinside : SameHeader (s.withTypeVars (s.typeParams ds n)).source
    (s'.withTypeVars (s'.typeParams ds' n')).source n n' := h
  refine ⟨?_, ?_, h.typeParams hR, ?_, hinside.throws hinner, hinside.annotations⟩
  · simp only [Scope.method, h.kind, hinside.nameOf]
  · simp only [Scope.method, h.kind]
  · simp only [Scope.method, h.kind]
    split
    · exact hrecord
    · exact hinside.params hinner hdims

end Read

end JavaThrows
