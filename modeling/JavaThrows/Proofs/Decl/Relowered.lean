import JavaThrows.Proofs.Decl.WithoutLayout

set_option autoImplicit false

/-!
# Declarations in two layouts

Calm sources with the same tokens declare the same: the compilation units differ in places and in
the texts of types only. The walks through the two trees go side by side, since they open the same
types, declare the same names and number the same anonymous classes. Main statement:
`withoutLayout_eq_of_javaTokens`.
-/

namespace JavaThrows

open Cst Text

/-! ## Two runs -/

section SameRun

variable {α β γ δ : Type}

/-- Two runs from the same state yield what looks the same, and leave the same state. -/
def SameRun (view : α → γ) (x y : WalkM α) : Prop :=
  ∀ w : Walk, view (x.run w).1 = view (y.run w).1 ∧ (x.run w).2 = (y.run w).2

namespace SameRun

variable {view : α → γ} {view' : β → δ} {x y : WalkM α} {f g : α → WalkM β}

theorem pure {a b : α} (h : view a = view b) :
    SameRun view (Pure.pure a : WalkM α) (Pure.pure b) :=
  fun _ => ⟨h, rfl⟩

theorem bind (h : SameRun view x y)
    (hfg : ∀ a b, view a = view b → SameRun view' (f a) (g b)) :
    SameRun view' (x >>= f) (y >>= g) := by
  intro w
  obtain ⟨hview, hwalk⟩ := h w
  rw [StateT.run_bind, StateT.run_bind]
  change view' ((f (x.run w).1).run (x.run w).2).1 = view' ((g (y.run w).1).run (y.run w).2).1 ∧
    ((f (x.run w).1).run (x.run w).2).2 = ((g (y.run w).1).run (y.run w).2).2
  rw [← hwalk]
  exact hfg _ _ hview _

/-- What looks at the state only goes the same way. -/
theorem bind_same (hfg : ∀ a, SameRun view' (f a) (g a)) : SameRun view' (x >>= f) (x >>= g) := by
  have hsame : SameRun id x x := fun _ => ⟨rfl, rfl⟩
  refine hsame.bind fun a b hab => ?_
  rw [← show a = b from hab]
  exact hfg a

end SameRun

end SameRun

/-! ## Comments in the walk -/

section Comments

variable (s : Scope) (owner ownerName : String) (recordParams : List Param) (c : Comment)
  (ns : List Node)

theorem lowerInside_comment : lowerInside s owner (c.node :: ns) = lowerInside s owner ns := by
  have hkind : c.kind ∈ commentKinds := kind_node_mem c
  simp only [commentKinds, List.mem_cons, List.not_mem_nil, or_false] at hkind
  unfold Comment.node
  rw [lowerInside]
  rcases hkind with hkind | hkind <;> simp [isTypeNode, hkind, lowerInside]

theorem lowerMembers_comment :
    lowerMembers s owner ownerName recordParams (c.node :: ns) =
      lowerMembers s owner ownerName recordParams ns := by
  have hkind : c.kind ∈ commentKinds := kind_node_mem c
  simp only [commentKinds, List.mem_cons, List.not_mem_nil, or_false] at hkind
  unfold Comment.node
  rw [lowerMembers]
  rcases hkind with hkind | hkind <;>
    simp [isMethodNode, isTypeNode, hkind, lowerInside]

theorem lowerBody_comment {isBody : Node → Bool} (hbody : Shallow isBody) :
    lowerBody s owner ownerName recordParams isBody (c.node :: ns) =
      lowerBody s owner ownerName recordParams isBody ns := by
  have hcomment := hbody.comment c
  unfold Comment.node at hcomment ⊢
  rw [lowerBody, hcomment, if_neg Bool.false_ne_true]

theorem lowerLocals_comment {isWanted : Node → Bool} (hwanted : Shallow isWanted) :
    lowerLocals s owner isWanted (c.node :: ns) = lowerLocals s owner isWanted ns := by
  have hcomment := hwanted.comment c
  unfold Comment.node at hcomment ⊢
  rw [lowerLocals, hcomment, if_neg Bool.false_ne_true]

end Comments

/-! ## The walk -/

/-- The walks through two rows of nodes yield the same. -/
structure SameLowering (source source' : List Char) (ns ns' : List Node) : Prop where
  members : ∀ {s s' : Scope}, SameScope source source' s s' → ∀ (owner ownerName : String)
    {recordParams recordParams' : List Param},
    recordParams.map Param.withoutLayout = recordParams'.map Param.withoutLayout →
    SameRun membersWithoutLayout (lowerMembers s owner ownerName recordParams ns)
      (lowerMembers s' owner ownerName recordParams' ns')
  inside : ∀ {s s' : Scope}, SameScope source source' s s' → ∀ owner : String,
    SameRun typesWithoutLayout (lowerInside s owner ns) (lowerInside s' owner ns')
  body : ∀ {s s' : Scope}, SameScope source source' s s' → ∀ (owner ownerName : String)
    {recordParams recordParams' : List Param},
    recordParams.map Param.withoutLayout = recordParams'.map Param.withoutLayout →
    ∀ {isBody : Node → Bool}, Shallow isBody →
    SameRun membersWithoutLayout (lowerBody s owner ownerName recordParams isBody ns)
      (lowerBody s' owner ownerName recordParams' isBody ns')
  locals : ∀ {s s' : Scope}, SameScope source source' s s' → ∀ (owner : String)
    {isWanted : Node → Bool}, Shallow isWanted →
    SameRun typesWithoutLayout (lowerLocals s owner isWanted ns)
      (lowerLocals s' owner isWanted ns')

section Walk

variable {source source' : List Char} {ns ns' : List Node}

namespace SameLowering

theorem nil : SameLowering source source' [] [] where
  members _ _ _ _ _ _ := by
    rw [lowerMembers, lowerMembers]
    exact .pure rfl
  inside _ _ := by
    rw [lowerInside, lowerInside]
    exact .pure rfl
  body _ _ _ _ _ _ _ _ := by
    rw [lowerBody, lowerBody]
    exact .pure rfl
  locals _ _ _ _ := by
    rw [lowerLocals, lowerLocals]
    exact .pure rfl

theorem comment_left (c : Comment) (h : SameLowering source source' ns ns') :
    SameLowering source source' (c.node :: ns) ns' where
  members hs owner ownerName _ _ hrecord := by
    rw [lowerMembers_comment]
    exact h.members hs owner ownerName hrecord
  inside hs owner := by
    rw [lowerInside_comment]
    exact h.inside hs owner
  body hs owner ownerName _ _ hrecord _ hbody := by
    rw [lowerBody_comment _ _ _ _ _ _ hbody]
    exact h.body hs owner ownerName hrecord hbody
  locals hs owner _ hwanted := by
    rw [lowerLocals_comment _ _ _ _ hwanted]
    exact h.locals hs owner hwanted

theorem comment_right (c : Comment) (h : SameLowering source source' ns ns') :
    SameLowering source source' ns (c.node :: ns') where
  members hs owner ownerName _ _ hrecord := by
    rw [lowerMembers_comment]
    exact h.members hs owner ownerName hrecord
  inside hs owner := by
    rw [lowerInside_comment]
    exact h.inside hs owner
  body hs owner ownerName _ _ hrecord _ hbody := by
    rw [lowerBody_comment _ _ _ _ _ _ hbody]
    exact h.body hs owner ownerName hrecord hbody
  locals hs owner _ hwanted := by
    rw [lowerLocals_comment _ _ _ _ hwanted]
    exact h.locals hs owner hwanted

end SameLowering

theorem Twin.typeReferences {n n' : Node} (h : Twin source source' n n') :
    (typeReferences source n).map NameRef.withoutLayout =
      (typeReferences source' n').map NameRef.withoutLayout := by
  rw [JavaThrows.typeReferences, JavaThrows.typeReferences, ← h.same.kind]
  exact h.children.namesIn _ _

variable {s s' : Scope}

/-- A type is the same if its members are. -/
theorem lowerType_same (hs : SameScope source source' s s') (parent : Option String)
    {n n' : Node} (h : Twin source source' n n') (hkind : isTypeNode n.kind)
    (hchildren : SameLowering source source' n.children n'.children) :
    SameRun TypeDecl.withoutLayout (lowerType s parent n) (lowerType s' parent n') := by
  have hname : s.nameOf n = s'.nameOf n' :=
    hs.nameOf h (by simp [namedKinds, isTypeNode_iff.1 hkind])
  have hfqn := hs.qualify parent (s'.nameOf n')
  have hsame := h.same.kind
  have hreferences := h.typeReferences
  obtain ⟨kind, field, named, span, children⟩ := n
  obtain ⟨kind', field', named', span', children'⟩ := n'
  obtain rfl : kind = kind' := hsame
  rw [lowerType, lowerType, hname, hfqn]
  refine .bind_same fun _ => .bind_same fun w => ?_
  have htypeParams := hs.typeParams w.declared h
  have hinner := hs.withTypeVars htypeParams
  have hsupertypes := hinner.supertypes w.declared h
  have hbody := hinner.enter
    (s'.qualify parent (s'.nameOf ⟨kind, field', named', span', children'⟩))
  refine .bind_same fun _ => .bind (hchildren.body hbody _ _ ?_ (.ofField "body"))
    fun ms ms' hms => .bind_same fun _ => .pure ?_
  · split
    · exact hbody.params w.declared h
    · rfl
  · simp only [TypeDecl.withoutLayout, TypeHead.withoutLayout, htypeParams, hsupertypes, hms,
      hbody.source, hbody.source', hreferences]

/-- The body of an anonymous class is the same if its members are. -/
theorem SameLowering.anonymous {α γ : Type} {view : α → γ} (hs : SameScope source source' s s')
    (h : SameLowering source source' ns ns') (owner : String)
    {next next' : Nat → List Member → WalkM α}
    (hnext : ∀ number ms ms', membersWithoutLayout ms = membersWithoutLayout ms' →
      SameRun view (next number ms) (next' number ms')) :
    SameRun view
      (do
        let number ← nextAnonymous
        let outer ← openType
        let members ← lowerBody (s.enter s!"{owner}${number}") s!"{owner}${number}"
          (toString number) [] (fun c => c.kind == "class_body") ns
        closeType outer
        next number members)
      (do
        let number ← nextAnonymous
        let outer ← openType
        let members ← lowerBody (s'.enter s!"{owner}${number}") s!"{owner}${number}"
          (toString number) [] (fun c => c.kind == "class_body") ns'
        closeType outer
        next' number members) :=
  .bind_same fun number => .bind_same fun _ =>
    .bind (h.body (hs.enter _) _ _ rfl (.ofKind (by decide))) fun ms ms' hms =>
      .bind_same fun _ => hnext number ms ms' hms

/-- The two halves of a row are put together. -/
theorem SameRun.append_members {x y : WalkM (List Member)} {xs ys : List Member}
    (h : SameRun membersWithoutLayout x y)
    (hxs : membersWithoutLayout xs = membersWithoutLayout ys) :
    SameRun membersWithoutLayout (do return xs ++ (← x)) (do return ys ++ (← y)) :=
  .bind h fun as bs hab => .pure (by
    rw [membersWithoutLayout_append, membersWithoutLayout_append, hxs, hab])

theorem SameRun.append_types {x y : WalkM (List TypeDecl)} {xs ys : List TypeDecl}
    (h : SameRun typesWithoutLayout x y) (hxs : typesWithoutLayout xs = typesWithoutLayout ys) :
    SameRun typesWithoutLayout (do return xs ++ (← x)) (do return ys ++ (← y)) :=
  .bind h fun as bs hab => .pure (by
    rw [typesWithoutLayout_eq_map, typesWithoutLayout_eq_map] at hxs hab ⊢
    rw [List.map_append, List.map_append, hxs, hab])

section Node

variable {kind : String} {field : Option String} {named : Bool} {span span' : Span}
  {children children' : List Node}

theorem lowerInside_same
    (h : Twin source source' ⟨kind, field, named, span, children⟩
      ⟨kind, field, named, span', children'⟩)
    (hchildren : SameLowering source source' children children')
    (hrest : SameLowering source source' ns ns')
    (hs : SameScope source source' s s') (owner : String) :
    SameRun typesWithoutLayout
      (lowerInside s owner (⟨kind, field, named, span, children⟩ :: ns))
      (lowerInside s' owner (⟨kind, field, named, span', children'⟩ :: ns')) := by
  have hothers := hrest.inside hs owner
  rw [lowerInside, lowerInside]
  by_cases htype : isTypeNode kind
  · rw [if_pos htype, if_pos htype]
    refine .bind (lowerType_same hs (some owner) h htype hchildren) fun d d' hd => ?_
    exact hothers.append_types (by rw [typesWithoutLayout_eq_map, typesWithoutLayout_eq_map,
      List.map_singleton, List.map_singleton, hd])
  rw [if_neg htype, if_neg htype]
  by_cases hcreation : kind == "object_creation_expression"
  · rw [if_pos hcreation, if_pos hcreation]
    refine .bind (hchildren.locals hs owner (.ofField "arguments"))
      fun created created' hcreated => ?_
    have hbody := h.children.childOfKind (by decide : "class_body" ∉ commentKinds)
    have htypeRef (ds : DeclaredTypes) := hs.fieldType ds h (.inr (by simpa using hcreation))
    generalize Node.childOfKind ⟨kind, field, named, span, children⟩ "class_body" = body,
      Node.childByField ⟨kind, field, named, span, children⟩ "type" = type at hbody htypeRef ⊢
    generalize Node.childOfKind ⟨kind, field, named, span', children'⟩ "class_body" = body',
      Node.childByField ⟨kind, field, named, span', children'⟩ "type" = type' at hbody htypeRef ⊢
    cases hbody with
    | none => exact .bind (.pure hcreated) fun _ _ hall => hothers.append_types hall
    | some hbody =>
      cases type with
      | none =>
        cases type' with
        | none => exact .bind (.pure hcreated) fun _ _ hall => hothers.append_types hall
        | some t' => simp at htypeRef
      | some t =>
        cases type' with
        | none => simp at htypeRef
        | some t' =>
          refine .bind_same fun w => hchildren.anonymous hs owner fun number ms ms' hms =>
            .bind (.pure ?_) fun _ _ hall => hothers.append_types hall
          rw [typesWithoutLayout_eq_map, typesWithoutLayout_eq_map] at hcreated ⊢
          have hsupertype := Option.some_inj.1 (htypeRef w.declared)
          simp only [List.map_append, hcreated, List.map_cons, List.map_nil,
            TypeDecl.withoutLayout, TypeHead.withoutLayout, anonymousHead, hsupertype, hms,
            hbody.1.typeReferences, hs.source, hs.source']
  · rw [if_neg hcreation, if_neg hcreation]
    exact .bind (hchildren.inside hs owner) fun found found' hfound => hothers.append_types hfound

theorem lowerMembers_same
    (h : Twin source source' ⟨kind, field, named, span, children⟩
      ⟨kind, field, named, span', children'⟩)
    (hchildren : SameLowering source source' children children')
    (hrest : SameLowering source source' ns ns')
    (hs : SameScope source source' s s') (owner ownerName : String)
    {recordParams recordParams' : List Param}
    (hrecord : recordParams.map Param.withoutLayout = recordParams'.map Param.withoutLayout) :
    SameRun membersWithoutLayout
      (lowerMembers s owner ownerName recordParams (⟨kind, field, named, span, children⟩ :: ns))
      (lowerMembers s' owner ownerName recordParams'
        (⟨kind, field, named, span', children'⟩ :: ns')) := by
  have hothers := hrest.members hs owner ownerName hrecord
  rw [lowerMembers, lowerMembers]
  by_cases hnamed : !named
  · rw [if_pos hnamed, if_pos hnamed]
    exact .bind (.pure rfl) fun _ _ hall => hothers.append_members hall
  rw [if_neg hnamed, if_neg hnamed]
  by_cases hmethod : isMethodNode kind
  · rw [if_pos hmethod, if_pos hmethod]
    refine .bind_same fun w => ?_
    have hsame := hs.method w.declared ownerName hrecord h hmethod
    have hinner := hs.withTypeVars (hs.typeParams w.declared h)
    refine .bind (hchildren.locals hinner owner (.ofField "body")) fun locals locals' hlocals =>
      .bind (.pure ?_) fun _ _ hall => hothers.append_members hall
    simp only [membersWithoutLayout, hsame, hlocals]
  rw [if_neg hmethod, if_neg hmethod]
  by_cases htype : isTypeNode kind
  · rw [if_pos htype, if_pos htype]
    refine .bind (lowerType_same hs (some owner) h htype hchildren) fun d d' hd =>
      .bind (.pure ?_) fun _ _ hall => hothers.append_members hall
    simp only [membersWithoutLayout, hd]
  rw [if_neg htype, if_neg htype]
  by_cases hdeclarations : kind == "enum_body_declarations"
  · rw [if_pos hdeclarations, if_pos hdeclarations]
    exact .bind (hchildren.members hs owner ownerName hrecord) fun _ _ hall =>
      hothers.append_members hall
  rw [if_neg hdeclarations, if_neg hdeclarations]
  by_cases hconstant : kind == "enum_constant"
  · rw [if_pos hconstant, if_pos hconstant]
    refine .bind (hchildren.locals hs owner (.ofField "arguments"))
      fun created created' hcreated => ?_
    have hcreated : membersWithoutLayout (created.map .type) =
        membersWithoutLayout (created'.map .type) := by
      rw [membersWithoutLayout_map_type, membersWithoutLayout_map_type, hcreated]
    have hbody := h.children.childOfKind (by decide : "class_body" ∉ commentKinds)
    generalize Node.childOfKind ⟨kind, field, named, span, children⟩ "class_body" = body at hbody ⊢
    generalize Node.childOfKind ⟨kind, field, named, span', children'⟩ "class_body" = body'
      at hbody ⊢
    cases hbody with
    | none => exact .bind (.pure hcreated) fun _ _ hall => hothers.append_members hall
    | some hbody =>
      refine hchildren.anonymous hs owner fun number ms ms' hms =>
        .bind (.pure ?_) fun _ _ hall => hothers.append_members hall
      simp only [membersWithoutLayout_append, hcreated, membersWithoutLayout,
        TypeDecl.withoutLayout, TypeHead.withoutLayout, anonymousHead, TypeRef.withoutLayout,
        List.map_cons, List.map_nil, hms, hbody.1.typeReferences, hs.source, hs.source']
  · rw [if_neg hconstant, if_neg hconstant]
    refine .bind (hchildren.inside hs owner) fun found found' hfound =>
      .bind (.pure ?_) fun _ _ hall => hothers.append_members hall
    rw [membersWithoutLayout_map_type, membersWithoutLayout_map_type, hfound]

/-- A node in front of a row. -/
theorem SameLowering.node
    (h : Twin source source' ⟨kind, field, named, span, children⟩
      ⟨kind, field, named, span', children'⟩)
    (hchildren : SameLowering source source' children children')
    (hrest : SameLowering source source' ns ns') :
    SameLowering source source' (⟨kind, field, named, span, children⟩ :: ns)
      (⟨kind, field, named, span', children'⟩ :: ns') where
  members hs owner ownerName _ _ hrecord :=
    lowerMembers_same h hchildren hrest hs owner ownerName hrecord
  inside hs owner := lowerInside_same h hchildren hrest hs owner
  body hs owner ownerName _ _ hrecord isBody hbody := by
    have hcongr : isBody ⟨kind, field, named, span, children⟩ =
        isBody ⟨kind, field, named, span', children'⟩ := hbody.congr rfl rfl rfl
    rw [lowerBody, lowerBody, ← hcongr]
    split
    · exact hchildren.members hs owner ownerName hrecord
    · exact hrest.body hs owner ownerName hrecord hbody
  locals hs owner isWanted hwanted := by
    have hcongr : isWanted ⟨kind, field, named, span, children⟩ =
        isWanted ⟨kind, field, named, span', children'⟩ := hwanted.congr rfl rfl rfl
    rw [lowerLocals, lowerLocals, ← hcongr]
    split
    · exact hchildren.inside hs owner
    · exact hrest.locals hs owner hwanted

end Node

/-- **The walks through twin rows yield the same.** -/
theorem Twins.sameLowering (h : Twins source source' ns ns') :
    SameLowering source source' ns ns' := by
  induction h with
  | nil => exact .nil
  | comment_left c _ ih => exact ih.comment_left c
  | comment_right c _ ih => exact ih.comment_right c
  | node hsame hfit hfit' hchildren _ ihchildren ih =>
    exact .node ⟨hsame, hfit, hfit', hchildren⟩ ihchildren ih

end Walk

/-! ## The types that a file declares -/

section Declare

variable {source source' : List Char} {ns ns' : List Node} {s s' : Scope}

theorem declareMembers_comment (s : Scope) (parent : Option String) (ds : DeclaredTypes)
    (c : Comment) (ns : List Node) :
    declareMembers s parent ds (c.node :: ns) = declareMembers s parent ds ns := by
  have hkind : c.kind ∈ commentKinds := kind_node_mem c
  simp only [commentKinds, List.mem_cons, List.not_mem_nil, or_false] at hkind
  unfold Comment.node
  rw [declareMembers, declareType]
  rcases hkind with hkind | hkind <;> simp [isTypeNode, hkind]

/-- The types declared in two rows of nodes are the same, and so are those in the first body
    among them. -/
theorem Twins.declare (h : Twins source source' ns ns') (hs : SameScope source source' s s') :
    (∀ parent ds, declareMembers s parent ds ns = declareMembers s' parent ds ns') ∧
      ∀ fqn ds, declareBody s fqn ds ns = declareBody s' fqn ds ns' := by
  induction h with
  | nil => exact ⟨fun _ _ => by rw [declareMembers, declareMembers],
      fun _ _ => by rw [declareBody, declareBody]⟩
  | comment_left c _ ih =>
    refine ⟨fun parent ds => ?_, fun fqn ds => ?_⟩
    · rw [declareMembers_comment, ih.1]
    · unfold Comment.node
      rw [declareBody, if_neg (by simp), ih.2]
  | comment_right c _ ih =>
    refine ⟨fun parent ds => ?_, fun fqn ds => ?_⟩
    · rw [declareMembers_comment, ih.1]
    · unfold Comment.node
      rw [declareBody, if_neg (by simp), ih.2]
  | @node kind field named span span' children children' _ _ hsame hfit hfit' hchildren _ ihchildren
      ih =>
    have htwin : Twin source source' ⟨kind, field, named, span, children⟩
      ⟨kind, field, named, span', children'⟩ := ⟨hsame, hfit, hfit', hchildren⟩
    refine ⟨fun parent ds => ?_, fun fqn ds => ?_⟩
    · have htype : declareType s parent ds ⟨kind, field, named, span, children⟩ =
          declareType s' parent ds ⟨kind, field, named, span', children'⟩ := by
        rw [declareType, declareType]
        cases hkind : named && isTypeNode kind with
        | false => rfl
        | true =>
          have hname := htwin.name_eq (by
            rw [Bool.and_eq_true] at hkind
            simp [namedKinds, isTypeNode_iff.1 hkind.2])
          generalize Node.childByField ⟨kind, field, named, span, children⟩ "name" = name at hname ⊢
          generalize Node.childByField ⟨kind, field, named, span', children'⟩ "name" = name'
            at hname ⊢
          cases name with
          | none =>
            cases name' with
            | none => rfl
            | some c' => simp at hname
          | some c =>
            cases name' with
            | none => simp at hname
            | some c' =>
              have htext : s.text c = s'.text c' := by
                rw [Scope.text, Scope.text, hs.source, hs.source']
                exact Option.some_inj.1 hname
              simp only [htext, hs.qualify, ihchildren.2]
      rw [declareMembers, declareMembers, htype, ihchildren.1, ih.1]
    · rw [declareBody, declareBody, ihchildren.1, ih.2]

end Declare

/-! ## The file -/

section File

variable {source source' : List Char} {ns ns' : List Node}

theorem Twins.lowerTypes (h : Twins source source' ns ns') {s s' : Scope}
    (hs : SameScope source source' s s') :
    SameRun typesWithoutLayout (lowerTypes s ns) (lowerTypes s' ns') := by
  have hcomment (s : Scope) (c : Comment) (ns : List Node) :
      JavaThrows.lowerTypes s (c.node :: ns) = JavaThrows.lowerTypes s ns := by
    have hkind : c.kind ∈ commentKinds := kind_node_mem c
    simp only [commentKinds, List.mem_cons, List.not_mem_nil, or_false] at hkind
    unfold Comment.node
    rw [JavaThrows.lowerTypes]
    rcases hkind with hkind | hkind <;> simp [isTypeNode, hkind]
  induction h with
  | nil =>
    rw [JavaThrows.lowerTypes, JavaThrows.lowerTypes]
    exact .pure rfl
  | comment_left c _ ih => rwa [hcomment]
  | comment_right c _ ih => rwa [hcomment]
  | @node kind field named span span' children children' _ _ hsame hfit hfit' hchildren _ _ ih =>
    have htwin : Twin source source' ⟨kind, field, named, span, children⟩
      ⟨kind, field, named, span', children'⟩ := ⟨hsame, hfit, hfit', hchildren⟩
    rw [JavaThrows.lowerTypes, JavaThrows.lowerTypes]
    by_cases hkind : named && isTypeNode kind
    · rw [if_pos hkind, if_pos hkind]
      rw [Bool.and_eq_true] at hkind
      refine .bind (lowerType_same hs none htwin hkind.2 hchildren.sameLowering)
        fun d d' hd => .bind ih fun ds ds' hds => .pure ?_
      rw [typesWithoutLayout, typesWithoutLayout, hd, hds]
    · rw [if_neg hkind, if_neg hkind]
      exact ih

theorem Twins.types (h : Twins source source' ns ns') {s s' : Scope}
    (hs : SameScope source source' s s') :
    typesWithoutLayout ((JavaThrows.lowerTypes s ns).run ⟨declareMembers s none [] ns, 0⟩).1 =
      typesWithoutLayout
        ((JavaThrows.lowerTypes s' ns').run ⟨declareMembers s' none [] ns', 0⟩).1 := by
  rw [(h.declare hs).1]
  exact (h.lowerTypes hs _).1

/-- A qualified name that is read is the same. -/
theorem Twin.qualifiedName {n n' : Node} (h : Twin source source' n n')
    (hkind : n.kind = "package_declaration" ∨ n.kind = "import_declaration") :
    (n.namedChildren.find? isQualifiedName).map (fun c => slice source c.span) =
      (n'.namedChildren.find? isQualifiedName).map fun c => slice source' c.span := by
  have hread {n : Node} (hkind : n.kind = "package_declaration" ∨ n.kind = "import_declaration") :
      namesRead n = (n.namedChildren.find? isQualifiedName).toList := by
    rw [namesRead, if_pos (by simpa using hkind)]
  have hshallow : Shallow fun c => c.named && isQualifiedName c :=
    .ofNamed (p := fun kind => kind == "scoped_identifier" || kind == "identifier") (by decide)
  have hfound : Option.Rel (Twin source source') (n.namedChildren.find? isQualifiedName)
      (n'.namedChildren.find? isQualifiedName) := by
    rw [namedChildren_find?, namedChildren_find?]
    exact h.children.find? hshallow
  refine map_eq_of_rel hfound fun q hq q' hq' hname =>
    hname.text_eq (h.fit.calm.here.names q ?_) (h.fit'.calm.here.names q' ?_)
  · rw [hread hkind]
    exact Option.mem_toList.2 hq
  · rw [hread (h.same.kind ▸ hkind)]
    exact Option.mem_toList.2 hq'

theorem Twin.lowerImport {n n' : Node} (h : Twin source source' n n')
    (hkind : n.kind = "import_declaration") :
    (lowerImport source n).withoutLayout = (lowerImport source' n').withoutLayout := by
  simp only [JavaThrows.lowerImport, Import.withoutLayout, h.qualifiedName (.inr hkind),
    h.children.any (.ofKind (by decide : "static" ∉ commentKinds)),
    h.children.any (.ofKind (by decide : "asterisk" ∉ commentKinds))]

/-- The scope at the top level of a file. -/
def fileScope (source : List Char) (package : Option String) (imports : List Import) : Scope where
  source
  packagePrefix := match package with
    | some p => p ++ "."
    | none => ""
  imports := ((imports.filter fun i => !i.isStatic && !i.isWildcard).map fun i =>
    (i.simpleName, i.path)).reverse
  typeVars := []
  enclosing := []

theorem sameScope_fileScope (package : Option String) {imports imports' : List Import}
    (h : imports.map Import.withoutLayout = imports'.map Import.withoutLayout) :
    SameScope source source' (fileScope source package imports)
      (fileScope source' package imports') := by
  have hforget (source : List Char) (imports : List Import) :
      (fileScope source package imports).withoutLayout =
        fileScope [] package (imports.map Import.withoutLayout) := by
    simp only [Scope.withoutLayout, fileScope, List.filter_map, List.map_map]
    rfl
  exact ⟨rfl, rfl, by rw [hforget, hforget, h]⟩

theorem Twins.ofTree {root root' : Node}
    (h : Twins source source' root.children root'.children) :
    (CompilationUnit.ofTree source root).withoutLayout =
      (CompilationUnit.ofTree source' root').withoutLayout := by
  have hpackage : ((root.childOfKind "package_declaration").bind fun p =>
        p.namedChildren.find? isQualifiedName).map (fun c => slice source c.span) =
      ((root'.childOfKind "package_declaration").bind fun p =>
        p.namedChildren.find? isQualifiedName).map fun c => slice source' c.span := by
    rw [Option.map_bind, Option.map_bind]
    exact bind_eq_of_rel (h.childOfKind (by decide)) fun p _ p' _ hp =>
      hp.1.qualifiedName (.inl hp.2)
  have himports : ((root.children.filter fun c => c.kind == "import_declaration").map
        (lowerImport source)).map Import.withoutLayout =
      ((root'.children.filter fun c => c.kind == "import_declaration").map
        (lowerImport source')).map Import.withoutLayout := by
    rw [List.map_map, List.map_map]
    refine map_eq_of_forall₂ (h.filter (.ofKind (by decide))) fun i hi i' _ htwin =>
      htwin.lowerImport ?_
    simpa using (List.mem_filter.1 hi).2
  simp only [CompilationUnit.ofTree, hpackage, himports, CompilationUnit.withoutLayout,
    CompilationUnit.mk.injEq, true_and]
  exact h.types (sameScope_fileScope _ himports)

/-- **Calm sources with the same tokens declare the same.** -/
theorem withoutLayout_eq_of_javaTokens {root root' : Node} (hroot : javaTree source = some root)
    (hroot' : javaTree source' = some root') (htokens : javaTokens source = javaTokens source')
    (hcalm : CalmSource source) (hcalm' : CalmSource source') :
    (CompilationUnit.ofTree source root).withoutLayout =
      (CompilationUnit.ofTree source' root').withoutLayout := by
  obtain ⟨nodes, nodes', trailing, trailing', _, _, _, _, hchildren, hchildren', hrelaid⟩ :=
    relaid_of_javaTokens hroot hroot' htokens
  have hfit := fit_of_javaTree hroot hcalm
  have hfit' := fit_of_javaTree hroot' hcalm'
  have htwins : Twins source source' nodes nodes' :=
    twins_of_relaid hrelaid
      (fun n hn => hfit n (hchildren ▸ List.mem_append_left _ hn))
      (fun n hn => hfit' n (hchildren' ▸ List.mem_append_left _ hn))
  refine Twins.ofTree ?_
  rw [hchildren, hchildren']
  exact htwins.append_comments trailing trailing'

end File

end JavaThrows
