import Mathlib.Data.List.Flatten
import Mathlib.Data.List.Perm.Subperm
import JavaThrows.Proofs.Cst.Nesting
import JavaThrows.Proofs.Removal.Failure
import JavaThrows.Proofs.Removal.Visited

set_option autoImplicit false

/-!
# Methods that the walk does not find

The walk to the declarations looks into chosen children only: of a declaration or a method into the
body, and of a `new` expression or a constant of an enum into the arguments and the class body. Here
the methods of a tree are counted twice, once everywhere and once where the walk looks. What the
walk finds are exactly the latter, each once and with the innermost declaration around it, so it
finds all methods if and only if none stands in a place that is passed over. Main statement:
`methods_of_javaTree`.
-/

namespace JavaThrows

open JavaThrows.Cst

/-! ## The methods of a tree -/

/-- The body of the anonymous class that a `new` expression or a constant of an enum declares. -/
def anonymousBody? (n : Node) : Option Node :=
  if n.kind == "enum_constant" ||
      n.kind == "object_creation_expression" && (n.childByField "type").isSome then
    n.childOfKind "class_body"
  else none

/-- Whether the node declares a type, with or without a name. -/
def declares (n : Node) : Bool :=
  isTypeNode n.kind || (anonymousBody? n).isSome

mutual
/-- The methods in a node, each with the innermost declaration around it; a method without one is
    left out. Only those children are looked into for which `looks` says so. -/
def methodsIn (looks : Node → Node → Bool) (holder : Option Span) : Node → List (Span × Span)
  | ⟨kind, field, named, span, children⟩ =>
    let n : Node := ⟨kind, field, named, span, children⟩
    let here := if named && isMethodNode kind then (holder.map (·, span)).toList else []
    here ++ methodsBelow looks n (if declares n then some span else holder) children

def methodsBelow (looks : Node → Node → Bool) (parent : Node) (holder : Option Span) :
    List Node → List (Span × Span)
  | [] => []
  | c :: cs =>
    (if looks parent c then methodsIn looks holder c else []) ++
      methodsBelow looks parent holder cs
end

/-- All methods in a node. -/
abbrev allMethodsIn (holder : Option Span) (n : Node) : List (Span × Span) :=
  methodsIn (fun _ _ => true) holder n

/-- Whether the child is where the given one is, if there is one. -/
def isAt (place : Option Node) (c : Node) : Bool :=
  place.any fun p => p.span == c.span

/-- Whether the walk looks into a child of a node. -/
def looksInto (n c : Node) : Bool :=
  if isTypeNode n.kind || isMethodNode n.kind then isAt (n.children.find? isBody) c
  else if n.kind == "object_creation_expression" || n.kind == "enum_constant" then
    isAt (n.children.find? isArguments) c || isAt (anonymousBody? n) c
  else true

/-- Whether the walk starts at a node of the top level. -/
def isTopType (n : Node) : Bool :=
  n.named && isTypeNode n.kind

/-- All methods of a file that belong to a declaration, wherever they stand. -/
def allMethods (root : Node) : List (Span × Span) :=
  root.children.flatMap (allMethodsIn none)

/-- The methods of a file that stand where the walk looks. -/
def seenMethods (root : Node) : List (Span × Span) :=
  root.children.flatMap fun n => if isTopType n then methodsIn looksInto none n else []

/-- The methods of the types, each with the type that declares it. -/
def declaredPlaces (ds : List TypeDecl) : List (Span × Span) :=
  ds.flatMap fun d => d.methods.map fun m => (d.head.span, m.span)

/-- No method stands in the node, and it is none. -/
def MethodFree (n : Node) : Prop :=
  n.Everywhere fun m => ¬ (m.named && isMethodNode m.kind)

/-- No method stands in the children that the walk passes over. -/
def PassesOverNone (n : Node) : Prop :=
  ∀ c ∈ n.children, ¬ looksInto n c → MethodFree c

theorem methodsBelow_eq (looks : Node → Node → Bool) (parent : Node) (holder : Option Span)
    (cs : List Node) :
    methodsBelow looks parent holder cs =
      (cs.filter (looks parent)).flatMap (methodsIn looks holder) := by
  induction cs with
  | nil => rw [methodsBelow, List.filter_nil, List.flatMap_nil]
  | cons c cs ih =>
    rw [methodsBelow, ih, List.filter_cons]
    split <;> simp

theorem methodsIn_eq (looks : Node → Node → Bool) (holder : Option Span) (n : Node) :
    methodsIn looks holder n =
      (if n.named && isMethodNode n.kind then (holder.map (·, n.span)).toList else []) ++
        (n.children.filter (looks n)).flatMap
          (methodsIn looks (if declares n then some n.span else holder)) := by
  cases n
  rw [methodsIn, methodsBelow_eq]

/-! ## Children that the walk looks into -/

section Places

variable {source : List Char} {lo hi : Nat} {ns : List Node}

theorem filter_isAt (h : PlacedBetween source lo hi ns) {place : Option Node}
    (hplace : ∀ p ∈ place, p ∈ ns) : ns.filter (isAt place) = place.toList := by
  cases place with
  | none => exact List.filter_eq_nil_iff.2 fun _ _ => by simp [isAt]
  | some p =>
    have hp := hplace p rfl
    have hpos := (h.placed_of_mem hp).1.nonempty
    obtain ⟨front, back, rfl⟩ := List.append_of_mem hp
    -- Nodes one after the other are in different places.
    have hpairs := List.pairwise_append.1 h.pairwise
    have hfront : front.filter (isAt (some p)) = [] := List.filter_eq_nil_iff.2 fun c hc hat => by
      have hle := hpairs.2.2 c hc p List.mem_cons_self
      have heq : p.span = c.span := by simpa [isAt] using hat
      rw [← heq] at hle
      omega
    have hback : back.filter (isAt (some p)) = [] := List.filter_eq_nil_iff.2 fun c hc hat => by
      have hle := (List.pairwise_cons.1 hpairs.2.1).1 c hc
      have heq : p.span = c.span := by simpa [isAt] using hat
      rw [← heq] at hle
      omega
    rw [List.filter_append, List.filter_cons_of_pos (by simp [isAt]), hfront, hback]
    rfl

theorem filter_isAt_or (h : PlacedBetween source lo hi ns) {a b : Option Node}
    (ha : ∀ p ∈ a, p ∈ ns) (hb : ∀ p ∈ b, p ∈ ns) (hne : ∀ p ∈ a, ∀ q ∈ b, p ≠ q) :
    (ns.filter fun c => isAt a c || isAt b c).Perm (a.toList ++ b.toList) := by
  rw [← filter_isAt h ha, ← filter_isAt h hb]
  refine (List.filter_append_perm (isAt a) _).symm.trans ?_
  rw [List.filter_filter, List.filter_filter]
  refine List.Perm.of_eq (congrArg₂ _ ?_ ?_)
  · exact List.filter_congr fun c _ => by cases isAt a c <;> simp
  · refine List.filter_congr fun c hc => ?_
    cases hat : isAt a c with
    | false => simp
    | true =>
      -- What is at the one place is not at the other.
      cases hbt : isAt b c with
      | false => simp
      | true =>
        have hca : c ∈ a.toList := filter_isAt h ha ▸ List.mem_filter.2 ⟨hc, hat⟩
        have hcb : c ∈ b.toList := filter_isAt h hb ▸ List.mem_filter.2 ⟨hc, hbt⟩
        exact absurd rfl (hne c (by simpa using hca) c (by simpa using hcb))

end Places

/-- A node that is neither a declaration nor a method nor a `new` expression. -/
def isPlain (n : Node) : Bool :=
  !(methodKinds ++ bodyParents).contains n.kind

theorem methodsIn_plain {n : Node} (h : isPlain n) (holder : Option Span) :
    methodsIn looksInto holder n = n.children.flatMap (methodsIn looksInto holder) := by
  simp only [isPlain, Bool.not_eq_true', List.contains_eq_mem, decide_eq_false_iff_not,
    List.mem_append, not_or, bodyParents, List.mem_cons] at h
  obtain ⟨hmethod, hcreation, hconstant, htype⟩ := h
  rw [← isMethodNode_iff] at hmethod
  rw [← isTypeNode_iff] at htype
  have hlooks : looksInto n = fun _ => true := by
    funext c
    simp [looksInto, hmethod, htype, hcreation, hconstant]
  have hdeclares : declares n = false := by
    simp [declares, htype, anonymousBody?, hcreation, hconstant]
  rw [methodsIn_eq, hlooks, hdeclares]
  simp [hmethod]

/-! ## Where the steps of the walk lead -/

/-- The node lies in the source, and so do its parts, each in a place for its kind. -/
structure WellNested (source : List Char) (n : Node) : Prop where
  placed : n.Placed source
  unnamed : n.Everywhere Node.UnnamedLeaf
  comments : n.Everywhere Node.CommentFree
  members : n.Everywhere
    (Node.StrictOn (fun k => !memberParents.contains k) ("enum_constant" :: methodKinds))
  bodies : n.Everywhere (Node.StrictOn (fun k => !bodyParents.contains k) bodyKinds)
  declarations : n.Everywhere (Node.StrictOn (· != "enum_body") ["enum_body_declarations"])
  creations : n.Everywhere (Node.StrictOn memberParents.contains ["object_creation_expression"])
  typeBody : n.Everywhere (Node.FilledWith typeKinds "body" (labelIn bodyKinds))
  methodBody : n.Everywhere
    (Node.FilledWith methodKinds "body" (labelIn ["block", "constructor_body"]))
  arguments : n.FieldAvoids "arguments" (methodKinds ++ bodyParents ++ memberParents)

theorem wellNested_of_javaTree {source : List Char} {root : Node}
    (h : javaTree source = some root) : ∀ c ∈ root.children, WellNested source c := by
  have harguments : ∀ c ∈ root.children,
      c.FieldAvoids "arguments" (methodKinds ++ bodyParents ++ memberParents) := by
    have htop : (Rule.many Java.topLevel).fieldAvoids "arguments"
        (methodKinds ++ bodyParents ++ memberParents) (· == .arguments) := by decide
    refine fieldAvoids_of_javaTree h (fun s hs => ?_) (fun s => ?_) htop
    · cases s <;> first | decide | exact absurd hs (by decide)
    · cases s <;> decide
  exact fun c hc => {
    placed := ((javaTree_placed h).placed_of_mem hc).1
    unnamed := javaTree_unnamedLeaf h c hc
    comments := javaTree_commentFree h c hc
    members := javaTree_members_in_bodies h c hc
    bodies := javaTree_bodies_in_parents h c hc
    declarations := javaTree_declarations_in_enums h c hc
    creations := javaTree_creations_not_members h c hc
    typeBody := javaTree_type_body h c hc
    methodBody := javaTree_method_body h c hc
    arguments := harguments c hc }

namespace WellNested

variable {source : List Char} {n : Node}

theorem children (h : WellNested source n) : ∀ c ∈ n.children, WellNested source c :=
  fun c hc => {
    placed := (h.placed.children.placed_of_mem hc).1
    unnamed := h.unnamed.children c hc
    comments := h.comments.children c hc
    members := h.members.children c hc
    bodies := h.bodies.children c hc
    declarations := h.declarations.children c hc
    creations := h.creations.children c hc
    typeBody := h.typeBody.children c hc
    methodBody := h.methodBody.children c hc
    arguments := h.arguments.children c hc }

theorem label_of_mem (h : WellNested source n) {c : Node} (hc : c ∈ n.children) :
    n.label = some n.kind :=
  h.unnamed.here.label_of_mem hc

end WellNested

theorem kind_notMem_of_labelIs {kinds : List String} {n : Node} (h : n.LabelIs (labelNotIn kinds))
    (hnamed : n.named) (hblock : "block_comment" ∉ kinds) (hline : "line_comment" ∉ kinds) :
    n.kind ∉ kinds := by
  rcases h with h | h
  · simp only [Node.isComment, Bool.or_eq_true, beq_iff_eq] at h
    rcases h with h | h <;> rwa [h]
  · simpa [labelNotIn, Node.label, hnamed] using h

/-- The node is of a kind that stands outside of bodies of types. -/
def IsInner (n : Node) : Prop :=
  n.named → n.kind ∉ "enum_constant" :: methodKinds ∧ n.kind ∉ memberParents

/-- The node is of a kind that stands in a body of a type. -/
def IsMember (n : Node) : Prop :=
  n.named → n.kind ≠ "object_creation_expression" ∧ n.kind ∉ bodyKinds

namespace WellNested

variable {source : List Char} {n : Node}

/-- No methods and no bodies stand right in a node that is plain and no body. -/
theorem isInner_children (h : WellNested source n) (hplain : isPlain n)
    (hbody : n.kind ∉ memberParents) : ∀ c ∈ n.children, IsInner c := by
  intro c hc hnamed
  have hlabel := h.label_of_mem hc
  simp only [isPlain, Bool.not_eq_true', List.contains_eq_mem, decide_eq_false_iff_not,
    List.mem_append, not_or] at hplain
  have hmembers := h.members.here (by simp [hlabel, hbody]) c hc
  have hbodies := h.bodies.here (by simp [hlabel, hplain.2]) c hc
  have hdeclarations := h.declarations.here (by
    rw [hlabel]
    simp only [Option.any_some, bne_iff_ne, ne_eq]
    rintro heq
    exact hbody (heq ▸ by decide)) c hc
  refine ⟨kind_notMem_of_labelIs hmembers hnamed (by decide) (by decide), ?_⟩
  rw [memberParents, List.mem_cons, not_or]
  refine ⟨?_, kind_notMem_of_labelIs hbodies hnamed (by decide) (by decide)⟩
  simpa using kind_notMem_of_labelIs hdeclarations hnamed (by decide) (by decide)

/-- No `new` expressions and no bodies stand right in a body of a type. -/
theorem isMember_children (h : WellNested source n) (hbody : n.kind ∈ memberParents) :
    ∀ c ∈ n.children, IsMember c := by
  intro c hc hnamed
  have hlabel := h.label_of_mem hc
  have hparent : n.kind ∉ bodyParents := by
    revert hbody
    generalize n.kind = kind
    revert kind
    decide
  have hcreations := h.creations.here (by simp [hlabel, hbody]) c hc
  have hbodies := h.bodies.here (by simp [hlabel, hparent]) c hc
  exact ⟨by simpa using kind_notMem_of_labelIs hcreations hnamed (by decide) (by decide),
    kind_notMem_of_labelIs hbodies hnamed (by decide) (by decide)⟩

theorem isPlain_of_mem_memberParents (hbody : n.kind ∈ memberParents) : isPlain n := by
  unfold isPlain
  revert hbody
  generalize n.kind = kind
  revert kind
  decide

/-- What fills the body of a node of one of the kinds. -/
theorem body_kind (h : WellNested source n) {parents kinds : List String}
    (hfilled : n.Everywhere (Node.FilledWith parents "body" (labelIn kinds)))
    (hn : n.kind ∈ parents) {b : Node} (hb : n.children.find? isBody = some b) :
    b.kind ∈ kinds := by
  have hmem := List.mem_of_find?_eq_some hb
  have hfield : b.field = some "body" := by simpa [isBody] using List.find?_some hb
  have hfills := hfilled.here (by simpa [h.label_of_mem hmem] using hn) b hmem
  have hcomment : ¬ b.isComment := fun hcomment => by
    simp [(h.comments.children b hmem).here hcomment] at hfield
  have hlabel := hfills.resolve_left hcomment hfield
  unfold Node.label at hlabel
  split at hlabel
  · simpa [labelIn] using hlabel
  · simp [labelIn] at hlabel

end WellNested

/-! ## What the walk yields -/

/-- If each node yields what is found in it, up to order, then so do all of them together. -/
theorem Yields.perm {α β : Type} {yield : Node → List α → Prop} {f : List α → List β}
    {g : Node → List β} {ns : List Node} {xs : List α} (h : Yields yield ns xs) (hnil : f [] = [])
    (happend : ∀ xs ys, f (xs ++ ys) = f xs ++ f ys)
    (hyield : ∀ n ∈ ns, ∀ xs, yield n xs → (f xs).Perm (g n)) : (f xs).Perm (ns.flatMap g) := by
  induction h with
  | nil => rw [hnil, List.flatMap_nil]
  | cons hn _ ih =>
    rw [List.forall_mem_cons] at hyield
    rw [happend, List.flatMap_cons]
    exact (hyield.1 _ hn).append (ih hyield.2)

theorem FirstYields.perm {α β : Type} {yield : String → Node → List α → Prop}
    {f : List α → List β} {g : Node → List β} {isWanted : Node → Bool} {ns : List Node}
    {xs : List α} (h : FirstYields yield isWanted ns xs) (hnil : f [] = [])
    (hyield : ∀ n, ns.find? isWanted = some n → Yields (yield n.kind) n.children xs →
      (f xs).Perm (g n)) :
    (f xs).Perm ((ns.find? isWanted).toList.flatMap g) := by
  unfold FirstYields at h
  cases hn : ns.find? isWanted with
  | none =>
    rw [hn] at h
    rw [h, hnil]
    exact List.Perm.refl _
  | some n =>
    rw [hn] at h
    rw [Option.toList_some, List.flatMap_singleton]
    exact hyield n hn h

/-- Where a method stands, with the type that declares it. -/
def methodPlace (owned : TypeHead × Method) : Span × Span :=
  (owned.1.span, owned.2.span)

def placesOfMembers (enclosing : TypeHead) (ms : List Member) : List (Span × Span) :=
  (ownedMethodsOfMembers enclosing ms).map methodPlace

def placesOfTypes (ds : List TypeDecl) : List (Span × Span) :=
  (ownedMethodsOfTypes ds).map methodPlace

theorem placesOfMembers_append (enclosing : TypeHead) (as bs : List Member) :
    placesOfMembers enclosing (as ++ bs) =
      placesOfMembers enclosing as ++ placesOfMembers enclosing bs := by
  rw [placesOfMembers, ownedMethodsOfMembers_append, List.map_append]
  rfl

theorem placesOfTypes_append (as bs : List TypeDecl) :
    placesOfTypes (as ++ bs) = placesOfTypes as ++ placesOfTypes bs := by
  rw [placesOfTypes, ownedMethodsOfTypes_append, List.map_append]
  rfl

theorem placesOfMembers_map_type (enclosing : TypeHead) (ds : List TypeDecl) :
    placesOfMembers enclosing (ds.map .type) = placesOfTypes ds := by
  rw [placesOfMembers, ownedMethodsOfMembers_map_type, placesOfTypes]

theorem placesOfTypes_mk (head : TypeHead) (ms : List Member) :
    placesOfTypes [.mk head ms] = placesOfMembers head ms := by
  simp [placesOfTypes, placesOfMembers, ownedMethodsOfTypes, TypeDecl.ownedMethods]

/-- The methods of the type are those that stand in the node where the walk looks. -/
def TypeSeen (source : List Char) (n : Node) (d : TypeDecl) : Prop :=
  WellNested source n → ∀ holder, (placesOfTypes [d]).Perm (methodsIn looksInto holder n)

/-- The methods of the members are those that stand in the node where the walk looks. -/
def MembersSeen (source : List Char) (n : Node) (ms : List Member) : Prop :=
  WellNested source n → IsMember n → ∀ enclosing : TypeHead,
    (placesOfMembers enclosing ms).Perm (methodsIn looksInto (some enclosing.span) n)

/-- The methods of the inner types are those that stand in the node where the walk looks. -/
def InnerSeen (source : List Char) (n : Node) (ds : List TypeDecl) : Prop :=
  WellNested source n → IsInner n → ∀ holder,
    (placesOfTypes ds).Perm (methodsIn looksInto holder n)

section Seen

variable {source : List Char} {n : Node}

theorem methodsIn_of_unnamed (hn : WellNested source n) (hnamed : n.named = false)
    (holder : Option Span) : methodsIn looksInto holder n = [] := by
  rw [methodsIn_eq, hn.unnamed.here hnamed]
  simp [hnamed]

/-- Inside of a plain node that is no body, the walk looks everywhere. -/
theorem perm_methodsIn_of_inner (hn : WellNested source n) (hplain : isPlain n)
    (hbody : n.kind ∉ memberParents) {ds : List TypeDecl}
    (h : Yields (InnerSeen source) n.children ds) (holder : Option Span) :
    (placesOfTypes ds).Perm (methodsIn looksInto holder n) := by
  rw [methodsIn_plain hplain]
  exact h.perm rfl placesOfTypes_append fun c hc _ hds =>
    hds (hn.children c hc) (hn.isInner_children hplain hbody c hc) holder

theorem isPlain_of_ne (hmethod : n.kind ∉ methodKinds) (htype : n.kind ∉ typeKinds)
    (hcreation : n.kind ≠ "object_creation_expression") (hconstant : n.kind ≠ "enum_constant") :
    isPlain n := by
  simp [isPlain, bodyParents, hmethod, htype, hcreation, hconstant]

/-- A node that may be that of a keyword or a sign. -/
theorem perm_methodsIn_of_other (hn : WellNested source n)
    (h : n.named → isPlain n ∧ n.kind ∉ memberParents) {ds : List TypeDecl}
    (hds : Yields (InnerSeen source) n.children ds) (holder : Option Span) :
    (placesOfTypes ds).Perm (methodsIn looksInto holder n) := by
  cases hnamed : n.named with
  | true => exact perm_methodsIn_of_inner hn (h hnamed).1 (h hnamed).2 hds holder
  | false =>
    rw [hn.unnamed.here hnamed] at hds
    cases hds
    rw [methodsIn_of_unnamed hn hnamed]
    exact List.Perm.refl _

/-- Inside of a body the walk looks everywhere. -/
theorem perm_methodsIn_of_members (hn : WellNested source n) (hbody : n.kind ∈ memberParents)
    {ms : List Member} (h : Yields (MembersSeen source) n.children ms) (enclosing : TypeHead) :
    (placesOfMembers enclosing ms).Perm (methodsIn looksInto (some enclosing.span) n) := by
  rw [methodsIn_plain (WellNested.isPlain_of_mem_memberParents hbody)]
  exact h.perm rfl (placesOfMembers_append enclosing) fun c hc _ hms =>
    hms (hn.children c hc) (hn.isMember_children hbody c hc) enclosing

theorem not_isMethodNode_of_isTypeNode {kind : String} (h : isTypeNode kind) :
    ¬ isMethodNode kind := by
  rw [isTypeNode_iff] at h
  rw [isMethodNode_iff]
  revert kind
  decide

theorem typeSeen_of_type {head : TypeHead} {ms : List Member} (htype : isTypeNode n.kind)
    (hspan : head.span = n.span)
    (h : FirstYields (fun _ => MembersSeen source) isBody n.children ms) :
    TypeSeen source n (.mk head ms) := by
  intro hn holder
  have hlooks : looksInto n = isAt (n.children.find? isBody) := by
    funext c
    simp [looksInto, htype]
  rw [placesOfTypes_mk, methodsIn_eq, hlooks,
    filter_isAt hn.placed.children fun b hb => List.mem_of_find?_eq_some hb,
    if_neg (by simp [not_isMethodNode_of_isTypeNode htype]), List.nil_append,
    if_pos (by simp [declares, htype]), ← hspan]
  refine h.perm rfl fun b hb hms => ?_
  have hkind := hn.body_kind hn.typeBody (isTypeNode_iff.1 htype) hb
  exact perm_methodsIn_of_members (hn.children b (List.mem_of_find?_eq_some hb))
    (List.mem_cons_of_mem _ hkind) hms head

theorem membersSeen_of_method {m : Method} {locals : List TypeDecl} (hnamed : n.named)
    (hmethod : isMethodNode n.kind) (hspan : m.span = n.span)
    (h : FirstYields (fun _ => InnerSeen source) isBody n.children locals) :
    MembersSeen source n [.method m locals] := by
  intro hn _ enclosing
  have htype : ¬ isTypeNode n.kind := fun h => not_isMethodNode_of_isTypeNode h hmethod
  have hlooks : looksInto n = isAt (n.children.find? isBody) := by
    funext c
    simp [looksInto, hmethod]
  have hdeclares : ¬ declares n := by
    have hkind := isMethodNode_iff.1 hmethod
    have hother : n.kind ≠ "enum_constant" ∧ n.kind ≠ "object_creation_expression" := by
      revert hkind
      generalize n.kind = kind
      revert kind
      decide
    simp [declares, htype, anonymousBody?, hother]
  have hplaces : placesOfMembers enclosing [.method m locals] =
      placesOfTypes locals ++ [(enclosing.span, n.span)] := by
    simp [placesOfMembers, ownedMethodsOfMembers, placesOfTypes, methodPlace, hspan]
  rw [hplaces, methodsIn_eq, hlooks,
    filter_isAt hn.placed.children fun b hb => List.mem_of_find?_eq_some hb,
    if_pos (by simp [hnamed, hmethod]), if_neg hdeclares]
  refine List.perm_append_comm.trans (List.Perm.append (List.Perm.refl _) ?_)
  refine h.perm rfl fun b hb hlocals => ?_
  have hkind := hn.body_kind hn.methodBody (isMethodNode_iff.1 hmethod) hb
  obtain ⟨hplain, hbody⟩ : isPlain b ∧ b.kind ∉ memberParents := by
    unfold isPlain
    revert hkind
    generalize b.kind = kind
    revert kind
    decide
  exact perm_methodsIn_of_inner (hn.children b (List.mem_of_find?_eq_some hb)) hplain hbody
    hlocals _

/-! ### Arguments and anonymous classes -/

theorem arguments_kind (hn : WellNested source n) {a : Node}
    (ha : n.children.find? isArguments = some a) :
    isPlain a ∧ a.kind ∉ memberParents := by
  have hfield : a.field = some "arguments" := by simpa [isArguments] using List.find?_some ha
  have hkind := (hn.arguments.children a (List.mem_of_find?_eq_some ha)).kind hfield
  rw [List.mem_append, not_or] at hkind
  exact ⟨by simpa [isPlain] using hkind.1, hkind.2⟩

theorem anonymousBody?_kind {body : Node} (h : anonymousBody? n = some body) :
    body ∈ n.children ∧ body.kind = "class_body" := by
  unfold anonymousBody? at h
  split at h
  · exact ⟨List.mem_of_find?_eq_some h, by simpa using List.find?_some h⟩
  · simp at h

/-- The methods in the arguments of a `new` expression or of a constant of an enum. -/
theorem perm_methodsIn_of_arguments (hn : WellNested source n) {created : List TypeDecl}
    (h : FirstYields (fun _ => InnerSeen source) isArguments n.children created)
    (holder : Option Span) :
    (placesOfTypes created).Perm
      ((n.children.find? isArguments).toList.flatMap (methodsIn looksInto holder)) := by
  refine h.perm rfl fun a ha hds => ?_
  obtain ⟨hplain, hbody⟩ := arguments_kind hn ha
  exact perm_methodsIn_of_inner (hn.children a (List.mem_of_find?_eq_some ha)) hplain hbody hds _

/-- In a `new` expression or a constant of an enum, the methods are those in the arguments and those
    of the anonymous class. -/
theorem methodsIn_perm_of_creation (hn : WellNested source n)
    (hkind : n.kind = "object_creation_expression" ∨ n.kind = "enum_constant")
    (holder : Option Span) :
    (methodsIn looksInto holder n).Perm
      ((n.children.find? isArguments).toList.flatMap
          (methodsIn looksInto (if (anonymousBody? n).isSome then some n.span else holder)) ++
        (anonymousBody? n).toList.flatMap (methodsIn looksInto (some n.span))) := by
  have hother : ¬ isTypeNode n.kind ∧ ¬ isMethodNode n.kind := by
    rcases hkind with h | h <;> rw [h] <;> decide
  have hlooks : looksInto n = fun c =>
      isAt (n.children.find? isArguments) c || isAt (anonymousBody? n) c := by
    funext c
    simp [looksInto, hother, hkind]
  have hdeclares : declares n = (anonymousBody? n).isSome := by simp [declares, hother]
  have hne : ∀ p ∈ n.children.find? isArguments, ∀ q ∈ anonymousBody? n, p ≠ q := by
    rintro p hp q hq rfl
    refine (arguments_kind hn hp).2 ?_
    rw [(anonymousBody?_kind hq).2]
    decide
  rw [methodsIn_eq, hlooks, hdeclares, if_neg (by simp [hother]), List.nil_append]
  refine ((filter_isAt_or hn.placed.children (fun p hp => List.mem_of_find?_eq_some hp)
    (fun p hp => (anonymousBody?_kind hp).1) hne).flatMap_right _).trans (List.Perm.of_eq ?_)
  rw [List.flatMap_append]
  cases anonymousBody? n <;> rfl

/-- The parts of a `new` expression or of a constant of an enum without a class body. -/
theorem perm_methodsIn_of_bodyless (hn : WellNested source n)
    (hkind : n.kind = "object_creation_expression" ∨ n.kind = "enum_constant")
    (hbody : anonymousBody? n = none) {created : List TypeDecl}
    (h : FirstYields (fun _ => InnerSeen source) isArguments n.children created)
    (holder : Option Span) : (placesOfTypes created).Perm (methodsIn looksInto holder n) := by
  refine (perm_methodsIn_of_arguments hn h holder).trans
    (List.Perm.trans ?_ (methodsIn_perm_of_creation hn hkind holder).symm)
  simp [hbody]

/-- The parts of a `new` expression or of a constant of an enum with a class body. -/
theorem perm_methodsIn_of_body (hn : WellNested source n)
    (hkind : n.kind = "object_creation_expression" ∨ n.kind = "enum_constant") {body : Node}
    (hbody : anonymousBody? n = some body) {created : List TypeDecl} {head : TypeHead}
    {ms : List Member} (h : FirstYields (fun _ => InnerSeen source) isArguments n.children created)
    (hspan : head.span = n.span) (hms : Yields (MembersSeen source) body.children ms)
    (holder : Option Span) :
    (placesOfTypes (created ++ [.mk head ms])).Perm (methodsIn looksInto holder n) := by
  refine List.Perm.trans ?_ (methodsIn_perm_of_creation hn hkind holder).symm
  obtain ⟨hmem, hclass⟩ := anonymousBody?_kind hbody
  rw [placesOfTypes_append, placesOfTypes_mk, hbody]
  refine (perm_methodsIn_of_arguments hn h _).append ?_
  rw [Option.toList_some, List.flatMap_singleton, ← hspan]
  exact perm_methodsIn_of_members (hn.children body hmem) (by rw [hclass]; decide) hms head

/-- **Every step of the walk finds the methods that stand where it looks.** -/
theorem walkInvariant_seen (source : List Char) :
    WalkInvariant source (TypeSeen source) (fun _ => MembersSeen source)
      (fun _ => InnerSeen source) where
  ofType htype hspan _ hms := typeSeen_of_type htype hspan hms
  ofUnnamed hnamed hn _ enclosing := by
    rw [methodsIn_of_unnamed hn hnamed]
    exact List.Perm.refl _
  ofMethod hnamed hmethod _ hlocals := membersSeen_of_method hnamed hmethod rfl hlocals
  ofMemberType _ hd hn _ enclosing := by
    rw [← List.map_singleton, placesOfMembers_map_type]
    exact hd hn _
  ofDeclarations hkind hms hn _ enclosing :=
    perm_methodsIn_of_members hn (by rw [hkind]; decide) hms enclosing
  ofConstant hkind hbody hds hn _ enclosing := by
    rw [placesOfMembers_map_type]
    exact perm_methodsIn_of_bodyless hn (.inr hkind) (by simp [anonymousBody?, hkind, hbody]) hds _
  ofConstantBody hkind hbody hds hspan _ hms hn _ enclosing := by
    rw [← List.map_singleton, ← List.map_append, placesOfMembers_map_type]
    exact perm_methodsIn_of_body hn (.inr hkind) (by simp [anonymousBody?, hkind, hbody]) hds hspan
      hms _
  ofMember {_ n _} hmethod htype hdeclarations hconstant hds hn hmember enclosing := by
    rw [placesOfMembers_map_type]
    refine perm_methodsIn_of_other hn (fun hnamed => ?_) hds _
    obtain ⟨hcreation, hbody⟩ := hmember hnamed
    rw [isMethodNode_iff] at hmethod
    rw [isTypeNode_iff] at htype
    exact ⟨isPlain_of_ne hmethod htype hcreation hconstant,
      by simp [memberParents, hdeclarations, hbody]⟩
  ofInnerType _ hd hn _ := hd hn
  ofCreation hkind hbody hds hn _ holder :=
    perm_methodsIn_of_bodyless hn (.inl hkind) (by
      rcases hbody with h | h <;> simp [anonymousBody?, hkind, h]) hds _
  ofCreationBody hkind hbody htype hds hspan _ hms hn _ holder :=
    perm_methodsIn_of_body hn (.inl hkind) (by simp [anonymousBody?, hkind, hbody, htype]) hds hspan
      hms _
  ofInner htype hcreation hds hn hinner holder := by
    refine perm_methodsIn_of_other hn (fun hnamed => ?_) hds _
    obtain ⟨hmember, hbody⟩ := hinner hnamed
    rw [List.mem_cons, not_or] at hmember
    rw [isTypeNode_iff] at htype
    exact ⟨isPlain_of_ne hmember.2 htype hcreation hmember.1, hbody⟩

/-- **The walk finds every method once where it looks**, with the declaration around it. -/
theorem perm_seenMethods {root : Node} (h : javaTree source = some root) :
    (placesOfTypes (CompilationUnit.ofTree source root).types).Perm (seenMethods root) := by
  refine ((walkInvariant_seen source).ofTree root).perm rfl placesOfTypes_append ?_
  intro n hn ds hds
  unfold TopYields at hds
  unfold isTopType
  split at hds
  · next htype =>
    obtain ⟨d, hd, rfl⟩ := hds
    rw [if_pos htype]
    exact hd (wellNested_of_javaTree h n hn) none
  · next htype =>
    rw [hds, if_neg htype]
    exact List.Perm.refl _

end Seen

/-! ## Types and their methods -/

theorem methods_cons_method (head : TypeHead) (m : Method) (locals : List TypeDecl)
    (ms : List Member) :
    (TypeDecl.mk head (.method m locals :: ms)).methods = m :: (TypeDecl.mk head ms).methods :=
  rfl

theorem declaredPlaces_cons (d : TypeDecl) (ds : List TypeDecl) :
    declaredPlaces (d :: ds) =
      d.methods.map (fun m => (d.head.span, m.span)) ++ declaredPlaces ds :=
  List.flatMap_cons

theorem declaredPlaces_append (as bs : List TypeDecl) :
    declaredPlaces (as ++ bs) = declaredPlaces as ++ declaredPlaces bs :=
  List.flatMap_append

-- Listing types with their methods comes to the same as visiting methods.
mutual
theorem TypeDecl.declaredPlaces_perm (d : TypeDecl) :
    (declaredPlaces d.all).Perm (placesOfTypes [d]) := by
  match d with
  | .mk head members =>
    rw [TypeDecl.all, placesOfTypes_mk]
    exact declaredPlaces_members_perm head members

theorem declaredPlaces_members_perm (enclosing : TypeHead) (ms : List Member) :
    (declaredPlaces (.mk enclosing ms :: allOfMembers ms)).Perm (placesOfMembers enclosing ms) := by
  match ms with
  | [] => exact List.Perm.refl _
  | .method m locals :: ms =>
    have hrest := (declaredPlaces_types_perm locals).append
      ((declaredPlaces_members_perm enclosing ms).cons (enclosing.span, m.span))
    refine List.Perm.trans ?_ (hrest.trans (List.Perm.of_eq ?_))
    · rw [allOfMembers, declaredPlaces_cons, declaredPlaces_append, declaredPlaces_cons,
        methods_cons_method, List.map_cons, List.cons_append]
      exact ((List.perm_append_comm_assoc _ _ _).cons _).trans List.perm_middle.symm
    · simp [placesOfMembers, ownedMethodsOfMembers, placesOfTypes, methodPlace]
  | .type d :: ms =>
    have hrest := d.declaredPlaces_perm.append (declaredPlaces_members_perm enclosing ms)
    refine List.Perm.trans ?_ (hrest.trans (List.Perm.of_eq ?_))
    · rw [allOfMembers, declaredPlaces_cons, declaredPlaces_append, declaredPlaces_cons]
      exact List.perm_append_comm_assoc _ _ _
    · rw [← placesOfMembers_map_type enclosing, ← placesOfMembers_append]
      rfl

theorem declaredPlaces_types_perm (ds : List TypeDecl) :
    (declaredPlaces (allOfTypes ds)).Perm (placesOfTypes ds) := by
  match ds with
  | [] => exact List.Perm.refl _
  | d :: ds =>
    rw [allOfTypes, declaredPlaces_append, ← List.singleton_append, placesOfTypes_append]
    exact d.declaredPlaces_perm.append (declaredPlaces_types_perm ds)
end

/-! ## Methods that are passed over -/

-- The recursion that finds the methods.
mutual
theorem methodsIn_sublist (looks : Node → Node → Bool) (holder : Option Span) (n : Node) :
    (methodsIn looks holder n).Sublist (allMethodsIn holder n) := by
  match n with
  | ⟨kind, field, named, span, children⟩ =>
    rw [methodsIn, allMethodsIn, methodsIn]
    exact (methodsBelow_sublist looks _ _ children).append_left _

theorem methodsBelow_sublist (looks : Node → Node → Bool) (parent : Node) (holder : Option Span)
    (cs : List Node) :
    (methodsBelow looks parent holder cs).Sublist
      (methodsBelow (fun _ _ => true) parent holder cs) := by
  match cs with
  | [] => exact List.Sublist.refl _
  | c :: cs =>
    rw [methodsBelow, methodsBelow]
    refine List.Sublist.append ?_ (methodsBelow_sublist looks parent holder cs)
    split
    · exact methodsIn_sublist looks holder c
    · exact List.nil_sublist _
end

/-- The walk finds no method twice, and none that is not there. -/
theorem seenMethods_sublist (root : Node) : (seenMethods root).Sublist (allMethods root) := by
  refine List.Sublist.flatMap_right _ fun n _ => ?_
  split
  · exact methodsIn_sublist looksInto none n
  · exact List.nil_sublist _

theorem append_eq_append_iff_of_sublist {α : Type} {xs xs' ys ys' : List α} (hx : xs.Sublist xs')
    (hy : ys.Sublist ys') : xs ++ ys = xs' ++ ys' ↔ xs = xs' ∧ ys = ys' := by
  constructor
  · intro h
    have hlength := congrArg List.length h
    rw [List.length_append, List.length_append] at hlength
    have hxl := hx.length_le
    have hyl := hy.length_le
    exact ⟨hx.eq_of_length (by omega), hy.eq_of_length (by omega)⟩
  · rintro ⟨rfl, rfl⟩
    rfl

mutual
theorem allMethodsIn_eq_nil_iff (holder : Span) (n : Node) :
    allMethodsIn (some holder) n = [] ↔ MethodFree n := by
  match n with
  | ⟨kind, field, named, span, children⟩ =>
    have hholder : ∃ inner, (if declares ⟨kind, field, named, span, children⟩ then some span
        else some holder) = some inner := by
      split <;> exact ⟨_, rfl⟩
    obtain ⟨inner, hinner⟩ := hholder
    rw [MethodFree, Node.Everywhere, allMethodsIn, methodsIn, hinner, List.append_eq_nil_iff,
      methodsBelow_eq_nil_iff _ inner children]
    refine and_congr_left' ?_
    cases named && isMethodNode kind <;> simp

theorem methodsBelow_eq_nil_iff (parent : Node) (holder : Span) (cs : List Node) :
    methodsBelow (fun _ _ => true) parent (some holder) cs = [] ↔
      AllEverywhere (fun m => ¬ (m.named && isMethodNode m.kind)) cs := by
  match cs with
  | [] => simp [methodsBelow, AllEverywhere]
  | c :: cs =>
    rw [methodsBelow, if_pos rfl, AllEverywhere, List.append_eq_nil_iff,
      methodsBelow_eq_nil_iff parent holder cs]
    exact and_congr_left' (allMethodsIn_eq_nil_iff holder c)
end

mutual
theorem MethodFree.passesOverNone {n : Node} (h : MethodFree n) :
    n.Everywhere PassesOverNone := by
  match n with
  | ⟨kind, field, named, span, children⟩ =>
    exact ⟨fun c hc _ => h.children c hc, allPassOverNone_of_methodFree h.2⟩

theorem allPassOverNone_of_methodFree {cs : List Node}
    (h : AllEverywhere (fun m => ¬ (m.named && isMethodNode m.kind)) cs) :
    AllEverywhere PassesOverNone cs := by
  match cs with
  | [] => trivial
  | c :: cs => exact ⟨MethodFree.passesOverNone h.1, allPassOverNone_of_methodFree h.2⟩
end

mutual
/-- **The walk finds all methods of a node if and only if it passes over none.** -/
theorem methodsIn_eq_all_iff (holder : Span) (n : Node) :
    methodsIn looksInto (some holder) n = allMethodsIn (some holder) n ↔
      n.Everywhere PassesOverNone := by
  match n with
  | ⟨kind, field, named, span, children⟩ =>
    have hholder : ∃ inner, (if declares ⟨kind, field, named, span, children⟩ then some span
        else some holder) = some inner := by
      split <;> exact ⟨_, rfl⟩
    obtain ⟨inner, hinner⟩ := hholder
    rw [Node.Everywhere, allMethodsIn, methodsIn, methodsIn, hinner, List.append_cancel_left_eq,
      methodsBelow_eq_all_iff _ inner children]
    rfl

theorem methodsBelow_eq_all_iff (parent : Node) (holder : Span) (cs : List Node) :
    methodsBelow looksInto parent (some holder) cs =
        methodsBelow (fun _ _ => true) parent (some holder) cs ↔
      (∀ c ∈ cs, ¬ looksInto parent c → MethodFree c) ∧ AllEverywhere PassesOverNone cs := by
  match cs with
  | [] => simp [methodsBelow, AllEverywhere]
  | c :: cs =>
    rw [methodsBelow, methodsBelow, if_pos rfl, AllEverywhere, List.forall_mem_cons,
      append_eq_append_iff_of_sublist ?_ (methodsBelow_sublist looksInto parent _ cs),
      methodsBelow_eq_all_iff parent holder cs, and_and_and_comm]
    · refine and_congr_left' ?_
      cases looksInto parent c with
      | true => simpa using methodsIn_eq_all_iff holder c
      | false =>
        -- What is passed over has no methods, and then nothing in it hides one either.
        have hfree := allMethodsIn_eq_nil_iff holder c
        simp only [Bool.false_eq_true, if_false, not_false_eq_true, forall_const]
        rw [eq_comm, hfree]
        exact ⟨fun h => ⟨h, h.passesOverNone⟩, And.left⟩
    · split
      · exact methodsIn_sublist looksInto _ c
      · exact List.nil_sublist _
end

/-- The methods of a declaration are the same, whatever it stands in. -/
theorem methodsIn_of_isTypeNode {looks : Node → Node → Bool} {n : Node} (h : isTypeNode n.kind)
    (holder holder' : Option Span) : methodsIn looks holder n = methodsIn looks holder' n := by
  have hmethod := not_isMethodNode_of_isTypeNode h
  rw [methodsIn_eq looks holder, methodsIn_eq looks holder']
  simp [declares, h, hmethod]

/-- Nothing in a node of the top level is hidden: in a declaration the walk passes over no method,
    and elsewhere there is none that belongs to a declaration. -/
def HidesNothing (n : Node) : Prop :=
  if isTopType n then n.Everywhere PassesOverNone else allMethodsIn none n = []

theorem flatMap_eq_flatMap_iff_of_sublist {α β : Type} {f g : α → List β} {xs : List α}
    (h : ∀ x ∈ xs, (f x).Sublist (g x)) : xs.flatMap f = xs.flatMap g ↔ ∀ x ∈ xs, f x = g x := by
  induction xs with
  | nil => simp
  | cons x xs ih =>
    rw [List.forall_mem_cons] at h
    rw [List.flatMap_cons, List.flatMap_cons, List.forall_mem_cons, append_eq_append_iff_of_sublist
      h.1 (List.Sublist.flatMap_right xs h.2), ih h.2]

theorem seenMethods_eq_allMethods_iff (root : Node) :
    seenMethods root = allMethods root ↔ ∀ n ∈ root.children, HidesNothing n := by
  rw [seenMethods, allMethods, flatMap_eq_flatMap_iff_of_sublist]
  · refine forall₂_congr fun n _ => ?_
    unfold HidesNothing
    split
    · next htype =>
      simp only [isTopType, Bool.and_eq_true] at htype
      rw [← methodsIn_eq_all_iff n.span, allMethodsIn, allMethodsIn,
        methodsIn_of_isTypeNode htype.2 none (some n.span),
        methodsIn_of_isTypeNode htype.2 none (some n.span)]
    · exact eq_comm
  · intro n _
    split
    · exact methodsIn_sublist looksInto none n
    · exact List.nil_sublist _

variable {source : List Char} {root : Node}

/-- **The walk finds methods once each, with the declaration right around them, and all of them if
    and only if none stands in a place that it passes over.** The places passed over are the
    qualifier of a `new` expression and what stands in front of its arguments, the headers of types
    and methods, the modifiers of constants, and all at the top level that is no type. -/
theorem methods_of_javaTree (h : javaTree source = some root) :
    let unit := CompilationUnit.ofTree source root
    (declaredPlaces unit.allTypes).Perm (seenMethods root) ∧
      (seenMethods root).Sublist (allMethods root) ∧
      ((declaredPlaces unit.allTypes).Perm (allMethods root) ↔
        ∀ n ∈ root.children, HidesNothing n) := by
  intro unit
  have hseen := (declaredPlaces_types_perm unit.types).trans (perm_seenMethods h)
  refine ⟨hseen, seenMethods_sublist root, ?_⟩
  rw [← seenMethods_eq_allMethods_iff]
  constructor
  · intro hall
    exact (seenMethods_sublist root).eq_of_length (hseen.symm.trans hall).length_eq
  · intro heq
    rwa [← heq]

set_option maxRecDepth 20000 in
/-- An anonymous class in a method and one in an initialiser are both found. -/
theorem methods_of_javaTree_anonymous :
    let source := "class A\x7bObject b=new C()\x7bvoid f()\x7b\x7d\x7d;void g()\x7bnew C()\x7bvoid h()\x7b\x7d\x7d;\x7d\x7d".toList
    let root := (javaTree source).getD default
    let unit := CompilationUnit.ofTree source root
    (javaTree source).isSome ∧ (allMethods root).length = 3 ∧
      (declaredPlaces unit.allTypes).Perm (allMethods root) ∧
      ∀ n ∈ root.children, HidesNothing n := by
  intro source root unit
  obtain ⟨hsome, hlength, hperm⟩ : (javaTree source).isSome ∧ (allMethods root).length = 3 ∧
      (declaredPlaces unit.allTypes).Perm (allMethods root) := by
    decide +kernel
  have hroot := Removal.eq_some_getD_of_isSome hsome
  exact ⟨hsome, hlength, hperm, (methods_of_javaTree hroot).2.2.1 hperm⟩

set_option maxRecDepth 20000 in
/-- **The walk passes over the qualifier of a `new` expression**, and so over the method of an
    anonymous class in it. -/
theorem hidden_method_in_qualifier :
    let source := "class A\x7bObject b=new C()\x7bvoid f()throws a.E\x7b\x7d\x7d.new D();\x7d".toList
    let root := (javaTree source).getD default
    let unit := CompilationUnit.ofTree source root
    (javaTree source).isSome ∧ declaredPlaces unit.allTypes = [] ∧
      allMethods root = [(⟨17, 46⟩, ⟨25, 45⟩)] := by
  decide +kernel

end JavaThrows
