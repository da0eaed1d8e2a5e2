import JavaThrows.Decl.OfNode

set_option autoImplicit false

/-!
# What the walk through a file does

The walk from a concrete tree to declarations threads scopes, numbers of anonymous classes and the
types declared so far. What comes out of it node by node is said here once, without any of these
(`WalkInvariant`), and a statement that is kept by every step holds of the whole walk. Main
statement: `WalkInvariant.ofTree`.
-/

namespace JavaThrows

open JavaThrows.Cst

/-- The nodes yield the items one after the other, each of them any number. -/
inductive Yields {α : Type} (yield : Node → List α → Prop) : List Node → List α → Prop
  | nil : Yields yield [] []
  | cons {n : Node} {ns : List Node} {xs ys : List α} :
    yield n xs → Yields yield ns ys → Yields yield (n :: ns) (xs ++ ys)

/-- The children of the first wanted node yield the items; without such a node there are none. -/
def FirstYields {α : Type} (yield : String → Node → List α → Prop) (isWanted : Node → Bool)
    (ns : List Node) (xs : List α) : Prop :=
  match ns.find? isWanted with
  | some n => Yields (yield n.kind) n.children xs
  | none => xs = []

/-- A property that holds of nothing and of two parts together holds of all that is yielded. -/
theorem Yields.of_append {α : Type} {yield : Node → List α → Prop} {good : List α → Prop}
    {ns : List Node} {xs : List α} (h : Yields yield ns xs) (hnil : good [])
    (happend : ∀ xs ys, good xs → good ys → good (xs ++ ys))
    (hyield : ∀ n ∈ ns, ∀ xs, yield n xs → good xs) : good xs := by
  induction h with
  | nil => exact hnil
  | cons hn _ ih =>
    rw [List.forall_mem_cons] at hyield
    exact happend _ _ (hyield.1 _ hn) (ih hyield.2)

/-- What one of the nodes yields is a part of what all of them yield. -/
theorem Yields.exists_part {α : Type} {yield : Node → List α → Prop} {ns : List Node} {xs : List α}
    (h : Yields yield ns xs) {n : Node} (hn : n ∈ ns) :
    ∃ front part back, xs = front ++ part ++ back ∧ yield n part := by
  induction h with
  | nil => simp at hn
  | @cons m ms part rest hm _ ih =>
    rcases List.mem_cons.1 hn with rfl | hn
    · exact ⟨[], part, rest, rfl, hm⟩
    · obtain ⟨front, part', back, rfl, hpart⟩ := ih hn
      exact ⟨part ++ front, part', back, by simp, hpart⟩

theorem FirstYields.of_append {α : Type} {yield : String → Node → List α → Prop}
    {good : List α → Prop} {isWanted : Node → Bool} {ns : List Node} {xs : List α}
    (h : FirstYields yield isWanted ns xs) (hnil : good [])
    (happend : ∀ xs ys, good xs → good ys → good (xs ++ ys))
    (hyield : ∀ n ∈ ns, ∀ c ∈ n.children, ∀ xs, yield n.kind c xs → good xs) : good xs := by
  unfold FirstYields at h
  split at h
  · next n hn => exact h.of_append hnil happend (hyield n (List.mem_of_find?_eq_some hn))
  · rwa [h]

theorem FirstYields.of_find? {α : Type} {yield : String → Node → List α → Prop}
    {isWanted : Node → Bool} {ns : List Node} {n : Node} {xs : List α}
    (h : FirstYields yield isWanted ns xs) (hn : ns.find? isWanted = some n) :
    Yields (yield n.kind) n.children xs := by
  rwa [FirstYields, hn] at h

def isBody (n : Node) : Bool :=
  n.field == some "body"

def isArguments (n : Node) : Bool :=
  n.field == some "arguments"

/-- A statement on types, members and inner types that every step of the walk keeps. Members and
    inner types are told for one node at a time, with the kind of its parent. -/
structure WalkInvariant (source : List Char) (type : Node → TypeDecl → Prop)
    (member : String → Node → List Member → Prop)
    (inner : String → Node → List TypeDecl → Prop) : Prop where
  ofType : ∀ {n : Node} {head : TypeHead} {ms : List Member}, isTypeNode n.kind →
    head.span = n.span → head.references = typeReferences source n →
    FirstYields member isBody n.children ms → type n (.mk head ms)
  ofUnnamed : ∀ {parent : String} {n : Node}, n.named = false → member parent n []
  ofMethod : ∀ {parent : String} {n : Node} {s : Scope} {ds : DeclaredTypes} {owner : String}
    {recordParams : List Param} {locals : List TypeDecl}, n.named → isMethodNode n.kind →
    s.source = source → FirstYields inner isBody n.children locals →
    member parent n [.method (s.method ds owner recordParams n) locals]
  ofMemberType : ∀ {parent : String} {n : Node} {d : TypeDecl}, isTypeNode n.kind → type n d →
    member parent n [.type d]
  ofDeclarations : ∀ {parent : String} {n : Node} {ms : List Member},
    n.kind = "enum_body_declarations" → Yields (member n.kind) n.children ms → member parent n ms
  ofConstant : ∀ {parent : String} {n : Node} {created : List TypeDecl},
    n.kind = "enum_constant" → n.childOfKind "class_body" = none →
    FirstYields inner isArguments n.children created → member parent n (created.map .type)
  ofConstantBody : ∀ {parent : String} {n body : Node} {created : List TypeDecl} {head : TypeHead}
    {ms : List Member}, n.kind = "enum_constant" → n.childOfKind "class_body" = some body →
    FirstYields inner isArguments n.children created → head.span = n.span →
    head.references = typeReferences source body → Yields (member body.kind) body.children ms →
    member parent n (created.map .type ++ [.type (.mk head ms)])
  ofMember : ∀ {parent : String} {n : Node} {ds : List TypeDecl}, ¬ isMethodNode n.kind →
    ¬ isTypeNode n.kind → n.kind ≠ "enum_body_declarations" → n.kind ≠ "enum_constant" →
    Yields (inner n.kind) n.children ds → member parent n (ds.map .type)
  ofInnerType : ∀ {parent : String} {n : Node} {d : TypeDecl}, isTypeNode n.kind → type n d →
    inner parent n [d]
  ofCreation : ∀ {parent : String} {n : Node} {created : List TypeDecl},
    n.kind = "object_creation_expression" →
    n.childOfKind "class_body" = none ∨ n.childByField "type" = none →
    FirstYields inner isArguments n.children created → inner parent n created
  ofCreationBody : ∀ {parent : String} {n body : Node} {created : List TypeDecl} {head : TypeHead}
    {ms : List Member}, n.kind = "object_creation_expression" →
    n.childOfKind "class_body" = some body → (n.childByField "type").isSome →
    FirstYields inner isArguments n.children created → head.span = n.span →
    head.references = typeReferences source body → Yields (member body.kind) body.children ms →
    inner parent n (created ++ [.mk head ms])
  ofInner : ∀ {parent : String} {n : Node} {ds : List TypeDecl}, ¬ isTypeNode n.kind →
    n.kind ≠ "object_creation_expression" → Yields (inner n.kind) n.children ds →
    inner parent n ds

/-- What a node at the top level yields. -/
def TopYields (type : Node → TypeDecl → Prop) (n : Node) (ds : List TypeDecl) : Prop :=
  if n.named && isTypeNode n.kind then ∃ d, type n d ∧ ds = [d] else ds = []

namespace WalkInvariant

variable {source : List Char} {type : Node → TypeDecl → Prop}
  {member : String → Node → List Member → Prop} {inner : String → Node → List TypeDecl → Prop}

-- The recursion of the walk itself.
mutual
theorem lowerType (inv : WalkInvariant source type member inner) {s : Scope}
    (hs : s.source = source) (parent : Option String) (n : Node) (hn : isTypeNode n.kind)
    (w : Walk) : type n ((JavaThrows.lowerType s parent n).run w).1 := by
  match n with
  | ⟨kind, field, named, span, children⟩ =>
    rw [JavaThrows.lowerType]
    refine inv.ofType hn rfl (by rw [← hs]; rfl) ?_
    refine lowerBody inv ?_ _ _ _ _ children _
    exact hs

theorem lowerBody (inv : WalkInvariant source type member inner) {s : Scope}
    (hs : s.source = source) (owner ownerName : String) (recordParams : List Param)
    (isWanted : Node → Bool) (ns : List Node) (w : Walk) :
    FirstYields member isWanted ns
      ((JavaThrows.lowerBody s owner ownerName recordParams isWanted ns).run w).1 := by
  match ns with
  | [] => exact rfl
  | ⟨kind, field, named, span, children⟩ :: ns =>
    rw [JavaThrows.lowerBody, FirstYields, List.find?_cons]
    cases isWanted ⟨kind, field, named, span, children⟩ with
    | true => exact lowerMembers inv hs kind _ _ _ children _
    | false => exact lowerBody inv hs _ _ _ _ ns _

theorem lowerMembers (inv : WalkInvariant source type member inner) {s : Scope}
    (hs : s.source = source) (parent owner ownerName : String) (recordParams : List Param)
    (ns : List Node) (w : Walk) :
    Yields (member parent) ns
      ((JavaThrows.lowerMembers s owner ownerName recordParams ns).run w).1 := by
  match ns with
  | [] => exact .nil
  | ⟨kind, field, named, span, children⟩ :: ns =>
    rw [JavaThrows.lowerMembers]
    split
    · -- A keyword or a sign is no member.
      next hnamed =>
      refine .cons (inv.ofUnnamed ?_) (lowerMembers inv hs parent _ _ _ ns _)
      simpa using hnamed
    next hnamed =>
    split
    · next hmethod =>
      refine .cons (inv.ofMethod (by simpa using hnamed) hmethod hs ?_)
        (lowerMembers inv hs parent _ _ _ ns _)
      refine lowerLocals inv ?_ _ _ children _
      exact hs
    split
    · next htype =>
      exact .cons (inv.ofMemberType htype (lowerType inv hs _ _ htype _))
        (lowerMembers inv hs parent _ _ _ ns _)
    next hmethod htype =>
    split
    · next hkind =>
      refine .cons (inv.ofDeclarations (by simpa using hkind) ?_)
        (lowerMembers inv hs parent _ _ _ ns _)
      exact lowerMembers inv hs kind _ _ _ children _
    next hdeclarations =>
    split
    · next hkind =>
      have hcreated := lowerLocals inv hs owner isArguments children
      -- A constant with a body declares an anonymous class after those of its arguments.
      split
      · next hbody =>
        exact .cons (inv.ofConstant (by simpa using hkind) hbody (hcreated _))
          (lowerMembers inv hs parent _ _ _ ns _)
      · next body hbody =>
        refine .cons (inv.ofConstantBody (by simpa using hkind) hbody (hcreated _) rfl
          (by rw [← hs]; rfl) ?_) (lowerMembers inv hs parent _ _ _ ns _)
        refine FirstYields.of_find? (lowerBody inv ?_ _ _ _ _ children _) hbody
        exact hs
    · next hconstant =>
      exact .cons (inv.ofMember hmethod htype (by simpa using hdeclarations)
        (by simpa using hconstant) (lowerInside inv hs kind _ children _))
        (lowerMembers inv hs parent _ _ _ ns _)

theorem lowerLocals (inv : WalkInvariant source type member inner) {s : Scope}
    (hs : s.source = source) (owner : String) (isWanted : Node → Bool) (ns : List Node)
    (w : Walk) :
    FirstYields inner isWanted ns ((JavaThrows.lowerLocals s owner isWanted ns).run w).1 := by
  match ns with
  | [] => exact rfl
  | ⟨kind, field, named, span, children⟩ :: ns =>
    rw [JavaThrows.lowerLocals, FirstYields, List.find?_cons]
    cases isWanted ⟨kind, field, named, span, children⟩ with
    | true => exact lowerInside inv hs kind _ children _
    | false => exact lowerLocals inv hs _ _ ns _

theorem lowerInside (inv : WalkInvariant source type member inner) {s : Scope}
    (hs : s.source = source) (parent owner : String) (ns : List Node) (w : Walk) :
    Yields (inner parent) ns ((JavaThrows.lowerInside s owner ns).run w).1 := by
  match ns with
  | [] => exact .nil
  | ⟨kind, field, named, span, children⟩ :: ns =>
    rw [JavaThrows.lowerInside]
    split
    · next htype =>
      exact .cons (inv.ofInnerType htype (lowerType inv hs _ _ htype _))
        (lowerInside inv hs parent _ ns _)
    next htype =>
    split
    · next hkind =>
      have hcreated := lowerLocals inv hs owner isArguments children
      split
      · next body type hbody htype =>
        have hsome := Option.isSome_of_eq_some htype
        refine .cons (inv.ofCreationBody (by simpa using hkind) hbody hsome (hcreated _) rfl
          (by rw [← hs]; rfl) ?_) (lowerInside inv hs parent _ ns _)
        refine FirstYields.of_find? (lowerBody inv ?_ _ _ _ _ children _) hbody
        exact hs
      · next hparts =>
        refine .cons (inv.ofCreation (by simpa using hkind) ?_ (hcreated _))
          (lowerInside inv hs parent _ ns _)
        cases hbody : Node.childOfKind ⟨kind, field, named, span, children⟩ "class_body" with
        | none => exact .inl rfl
        | some body =>
          cases htype : Node.childByField ⟨kind, field, named, span, children⟩ "type" with
          | none => exact .inr rfl
          | some type => exact (hparts body type hbody htype).elim
    · next hcreation =>
      exact .cons (inv.ofInner htype (by simpa using hcreation)
        (lowerInside inv hs kind _ children _)) (lowerInside inv hs parent _ ns _)
end

theorem lowerTypes (inv : WalkInvariant source type member inner) {s : Scope}
    (hs : s.source = source) (ns : List Node) (w : Walk) :
    Yields (TopYields type) ns ((JavaThrows.lowerTypes s ns).run w).1 := by
  induction ns generalizing w with
  | nil => exact .nil
  | cons n ns ih =>
    rw [JavaThrows.lowerTypes]
    split
    · next htype =>
      simp only [Bool.and_eq_true] at htype
      have hyields : TopYields type n [((JavaThrows.lowerType s none n).run w).1] := by
        rw [TopYields, if_pos (by simp [htype])]
        exact ⟨_, inv.lowerType hs none n htype.2 w, rfl⟩
      exact .cons hyields (ih _)
    · next htype =>
      have hyields : TopYields type n [] := by rw [TopYields, if_neg htype]
      exact .cons hyields (ih _)

/-- **A statement that every step of the walk keeps holds of the file**: each type node at the top
    level yields a type, and nothing else does. -/
theorem ofTree (inv : WalkInvariant source type member inner) (root : Node) :
    Yields (TopYields type) root.children (CompilationUnit.ofTree source root).types :=
  inv.lowerTypes rfl root.children _

end WalkInvariant

/-! ## Reading a file -/

theorem CompilationUnit.exists_tree_of_parse {source : List Char} {unit : CompilationUnit}
    (h : CompilationUnit.parse source = .ok unit) :
    ∃ root, javaTree source = some root ∧ unit = .ofTree source root := by
  unfold CompilationUnit.parse at h
  split at h
  · next root hroot => exact ⟨root, hroot, (Except.ok.inj h).symm⟩
  · cases h

theorem eq_ok_getD_of_isSome {ε α : Type} [Inhabited α] {x : Except ε α} (h : x.toOption.isSome) :
    x = .ok (x.toOption.getD default) := by
  cases x with
  | error e => simp [Except.toOption] at h
  | ok a => rfl

end JavaThrows
