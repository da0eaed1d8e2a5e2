import JavaThrows.Proofs.Cst.Spelling
import JavaThrows.Proofs.Decl.Lowering

set_option autoImplicit false

/-!
# Which type variables a method sees

A type variable is seen in all that is declared in the declaration with it among its type
parameters, so the parameters of a method can name those of the method itself and of all methods and
types around it (`ScopedMethod`). When a file is read, the types of the parameters are read at a
place where just these are seen, but the bounds of the variables in a list at one where the list
itself is not yet seen (`ScopedMethod.Read`). Main statement: `read_of_mem_scopedMethods`.
-/

namespace JavaThrows

open JavaThrows.Cst

/-- A method with the lists of type parameters that its own parameters can name, from the inside
    out, the one of the method itself first. -/
structure ScopedMethod where
  method : Method
  lists : List (List TypeParam)
deriving DecidableEq

mutual
/-- The methods in a type, where the lists around the type are given. -/
def TypeDecl.scopedMethods (lists : List (List TypeParam)) : TypeDecl → List ScopedMethod
  | .mk head ms => scopedInMembers (head.typeParams :: lists) ms

def scopedInMembers (lists : List (List TypeParam)) : List Member → List ScopedMethod
  | [] => []
  | .method m locals :: ms =>
    ⟨m, m.typeParams :: lists⟩ :: (scopedInTypes (m.typeParams :: lists) locals ++
      scopedInMembers lists ms)
  | .type d :: ms => d.scopedMethods lists ++ scopedInMembers lists ms

def scopedInTypes (lists : List (List TypeParam)) : List TypeDecl → List ScopedMethod
  | [] => []
  | d :: ds => d.scopedMethods lists ++ scopedInTypes lists ds
end

/-- All methods of a file. -/
def CompilationUnit.scopedMethods (u : CompilationUnit) : List ScopedMethod :=
  scopedInTypes [] u.types

variable {lists : List (List TypeParam)}

theorem scopedInMembers_append (as bs : List Member) :
    scopedInMembers lists (as ++ bs) = scopedInMembers lists as ++ scopedInMembers lists bs := by
  induction as with
  | nil => rfl
  | cons m as ih =>
    cases m <;> simp [scopedInMembers, ih]

theorem scopedInTypes_append (as bs : List TypeDecl) :
    scopedInTypes lists (as ++ bs) = scopedInTypes lists as ++ scopedInTypes lists bs := by
  induction as with
  | nil => rfl
  | cons d as ih => simp [scopedInTypes, ih]

theorem scopedInMembers_map_type (ds : List TypeDecl) :
    scopedInMembers lists (ds.map .type) = scopedInTypes lists ds := by
  induction ds with
  | nil => rfl
  | cons d ds ih => simp [scopedInMembers, scopedInTypes, ih]

theorem mem_scopedInMembers {ms : List Member} {m : Method} {locals : List TypeDecl}
    (h : .method m locals ∈ ms) : ⟨m, m.typeParams :: lists⟩ ∈ scopedInMembers lists ms := by
  obtain ⟨front, back, rfl⟩ := List.append_of_mem h
  rw [scopedInMembers_append, scopedInMembers]
  exact List.mem_append_right _ List.mem_cons_self

-- The recursion of the nested types.
mutual
theorem TypeDecl.exists_scoped (lists : List (List TypeParam)) (d : TypeDecl) {e : TypeDecl}
    (he : e ∈ d.all) {m : Method} (hm : m ∈ e.methods) :
    ∃ inner, ⟨m, inner⟩ ∈ d.scopedMethods lists := by
  match d with
  | .mk head ms =>
    rw [TypeDecl.all, List.mem_cons] at he
    rw [TypeDecl.scopedMethods]
    rcases he with rfl | he
    · obtain ⟨member, hmember, heq⟩ := List.mem_filterMap.1 hm
      cases member with
      | method m' locals =>
        obtain rfl := Option.some.inj heq
        exact ⟨_, mem_scopedInMembers hmember⟩
      | type d => cases heq
    · exact exists_scopedInMembers _ ms he hm

theorem exists_scopedInMembers (lists : List (List TypeParam)) (ms : List Member) {e : TypeDecl}
    (he : e ∈ allOfMembers ms) {m : Method} (hm : m ∈ e.methods) :
    ∃ inner, ⟨m, inner⟩ ∈ scopedInMembers lists ms := by
  match ms with
  | [] => cases he
  | .method m' locals :: ms =>
    rw [allOfMembers, List.mem_append] at he
    rw [scopedInMembers]
    rcases he with he | he
    · obtain ⟨inner, hinner⟩ := exists_scopedInTypes (m'.typeParams :: lists) locals he hm
      exact ⟨inner, List.mem_cons_of_mem _ (List.mem_append_left _ hinner)⟩
    · obtain ⟨inner, hinner⟩ := exists_scopedInMembers lists ms he hm
      exact ⟨inner, List.mem_cons_of_mem _ (List.mem_append_right _ hinner)⟩
  | .type d :: ms =>
    rw [allOfMembers, List.mem_append] at he
    rw [scopedInMembers]
    rcases he with he | he
    · obtain ⟨inner, hinner⟩ := TypeDecl.exists_scoped lists d he hm
      exact ⟨inner, List.mem_append_left _ hinner⟩
    · obtain ⟨inner, hinner⟩ := exists_scopedInMembers lists ms he hm
      exact ⟨inner, List.mem_append_right _ hinner⟩

theorem exists_scopedInTypes (lists : List (List TypeParam)) (ds : List TypeDecl) {e : TypeDecl}
    (he : e ∈ allOfTypes ds) {m : Method} (hm : m ∈ e.methods) :
    ∃ inner, ⟨m, inner⟩ ∈ scopedInTypes lists ds := by
  match ds with
  | [] => cases he
  | d :: ds =>
    rw [allOfTypes, List.mem_append] at he
    rw [scopedInTypes]
    rcases he with he | he
    · obtain ⟨inner, hinner⟩ := TypeDecl.exists_scoped lists d he hm
      exact ⟨inner, List.mem_append_left _ hinner⟩
    · obtain ⟨inner, hinner⟩ := exists_scopedInTypes lists ds he hm
      exact ⟨inner, List.mem_append_right _ hinner⟩
end

/-- Every method of a file sees some lists. -/
theorem CompilationUnit.exists_scoped {u : CompilationUnit} {d : TypeDecl} (hd : d ∈ u.allTypes)
    {m : Method} (hm : m ∈ d.methods) : ∃ lists, ⟨m, lists⟩ ∈ u.scopedMethods :=
  exists_scopedInTypes [] u.types hd hm

/-! ## How types are read -/

/-- A place sees the type variables of the lists, of each list the last one first. -/
def Scope.Sees (s : Scope) (lists : List (List TypeParam)) : Prop :=
  s.typeVars = lists.flatMap List.reverse

/-- The type is read at a place that sees the type variables of the lists. -/
def ReadAmong (lists : List (List TypeParam)) (r : TypeRef) : Prop :=
  ∃ (s : Scope) (ds : DeclaredTypes) (n : Node), s.Sees lists ∧ r = s.typeRef ds n

/-- The type of a parameter is so read, but for dimensions that stand elsewhere. -/
def ReadParam (lists : List (List TypeParam)) (p : Param) : Prop :=
  ∃ r dims, ReadAmong lists r ∧ p.type = Scope.withDimensions r dims

/-- The bounds in each list are read where only the lists around it are seen. -/
inductive BoundsRead : List (List TypeParam) → Prop
  | nil : BoundsRead []
  | cons {own : List TypeParam} {outer : List (List TypeParam)}
    (bounds : ∀ v ∈ own, ∀ b ∈ v.bound, ReadAmong outer b) (around : BoundsRead outer) :
    BoundsRead (own :: outer)

structure ScopedMethod.Read (m : ScopedMethod) : Prop where
  bounds : BoundsRead m.lists
  params : ∀ p ∈ m.method.params, ReadParam m.lists p

variable {s : Scope}

theorem Scope.Sees.withTypeVars (h : s.Sees lists) (params : List TypeParam) :
    (s.withTypeVars params).Sees (params :: lists) := by
  rw [Sees, Scope.withTypeVars, h, List.flatMap_cons]

/-- A list without variables hides nothing and adds nothing. -/
theorem Scope.Sees.withNone (h : s.Sees lists) : s.Sees ([] :: lists) := h

theorem ReadParam.withNone {p : Param} (h : ReadParam lists p) : ReadParam ([] :: lists) p := h

theorem BoundsRead.withNone (h : BoundsRead lists) : BoundsRead ([] :: lists) :=
  .cons (List.forall_mem_nil _) h

theorem BoundsRead.typeParams (h : BoundsRead lists) (hs : s.Sees lists) (ds : DeclaredTypes)
    (n : Node) : BoundsRead (s.typeParams ds n :: lists) := by
  refine .cons (fun v hv b hb => ?_) h
  rw [Scope.typeParams] at hv
  split at hv
  · obtain ⟨c, -, rfl⟩ := List.mem_map.1 hv
    obtain ⟨bound, -, rfl⟩ := Option.map_eq_some_iff.1 hb
    exact ⟨s, ds, bound, hs, rfl⟩
  · cases hv

theorem Scope.Sees.readParam (hs : s.Sees lists) {ds : DeclaredTypes} {n : Node} :
    ∀ p ∈ s.params ds n, ReadParam lists p := by
  have hone {c : Node} {p : Param} (hp : s.param? ds c = some p) : ReadParam lists p := by
    rw [Scope.param?] at hp
    split at hp
    · obtain ⟨type, -, rfl⟩ := Option.map_eq_some_iff.1 hp
      exact ⟨_, _, ⟨s, ds, type, hs, rfl⟩, rfl⟩
    · obtain ⟨type, -, rfl⟩ := Option.map_eq_some_iff.1 hp
      exact ⟨_, _, ⟨s, ds, type, hs, rfl⟩, rfl⟩
    · cases hp
  intro p hp
  rw [Scope.params] at hp
  split at hp
  · obtain ⟨c, -, hc⟩ := List.mem_filterMap.1 hp
    exact hone hc
  · cases hp

/-! ## Compact constructors -/

/-- In the tree of a source, a compact constructor has no type parameters. -/
structure CompactHeaders (n : Node) : Prop where
  comments : n.Everywhere Node.CommentFree
  compact : n.Everywhere
    (Node.FilledWith ["compact_constructor_declaration"] "type_parameters" fun _ => false)

theorem compactHeaders_of_javaTree {source : List Char} {root : Node}
    (h : javaTree source = some root) : ∀ c ∈ root.children, CompactHeaders c := by
  have hcompact : ∀ c ∈ root.children, c.Everywhere
      (Node.FilledWith ["compact_constructor_declaration"] "type_parameters" fun _ => false) := by
    refine everywhere_of_javaTree (enforces_filledWith (fun _ => false)
      (fun s hs => ?_) (fun s => ?_)) (fun s => ?_) (by decide) (fun _ _ _ _ => trivial) h
    · exact absurd hs (by decide)
    · cases s <;> decide
    · cases s <;> decide
  exact fun c hc => ⟨javaTree_commentFree h c hc, hcompact c hc⟩

namespace CompactHeaders

variable {n : Node}

theorem children (h : CompactHeaders n) : ∀ c ∈ n.children, CompactHeaders c :=
  fun c hc => ⟨h.comments.children c hc, h.compact.children c hc⟩

theorem children_of_find? (h : CompactHeaders n) {isWanted : Node → Bool} {m : Node}
    (hm : n.children.find? isWanted = some m) : ∀ c ∈ m.children, CompactHeaders c :=
  (h.children m (List.mem_of_find?_eq_some hm)).children

theorem typeParams_eq_nil (h : CompactHeaders n) (hnamed : n.named)
    (hkind : n.kind = "compact_constructor_declaration") (s : Scope) (ds : DeclaredTypes) :
    s.typeParams ds n = [] := by
  have hlabel : n.label.any ["compact_constructor_declaration"].contains := by
    simp [Node.label, hnamed, hkind]
  unfold Scope.typeParams
  split
  · next list hlist =>
    have hmem := List.mem_of_find?_eq_some hlist
    have hfield : list.field = some "type_parameters" := by simpa using List.find?_some hlist
    have hcomment : ¬ list.isComment := fun hcomment => by
      simp [(h.comments.children list hmem).here hcomment] at hfield
    have hnone := (h.compact.here hlabel list hmem).resolve_left hcomment hfield
    simp at hnone
  · rfl

end CompactHeaders

/-- The header of a method is read as its node says, and a compact constructor has the parameters of
    its record. -/
theorem ScopedMethod.read_method (hs : s.Sees lists) (hlists : BoundsRead lists)
    {recordParams : List Param} (hrecord : ∀ p ∈ recordParams, ReadParam lists p) {n : Node}
    (hn : CompactHeaders n) (hnamed : n.named) (ds : DeclaredTypes) (ownerName : String) :
    (⟨s.method ds ownerName recordParams n, s.typeParams ds n :: lists⟩ : ScopedMethod).Read := by
  refine ⟨hlists.typeParams hs ds n, fun p hp => ?_⟩
  simp only [Scope.method] at hp
  split at hp
  · next hkind =>
    rw [hn.typeParams_eq_nil hnamed (by simpa using hkind)]
    exact (hrecord p hp).withNone
  · exact (hs.withTypeVars _).readParam p hp

/-! ## The walk -/

/-- Whatever a run starts from, the methods in what it yields are read as their nodes say. -/
def YieldsRead {α : Type} (methods : α → List ScopedMethod) (run : WalkM α) : Prop :=
  ∀ w : Walk, ∀ m ∈ methods (run.run w).1, m.Read

theorem forall_read_append {as bs : List ScopedMethod} (has : ∀ m ∈ as, m.Read)
    (hbs : ∀ m ∈ bs, m.Read) : ∀ m ∈ as ++ bs, m.Read :=
  List.forall_mem_append.2 ⟨has, hbs⟩

/-- An anonymous class has no type parameters. -/
theorem forall_read_anonymous {head : TypeHead} (hhead : head.typeParams = []) {ms : List Member}
    (h : ∀ m ∈ scopedInMembers ([] :: lists) ms, m.Read) :
    ∀ m ∈ scopedInTypes lists [.mk head ms], m.Read := by
  rw [scopedInTypes, scopedInTypes, List.append_nil, TypeDecl.scopedMethods, hhead]
  exact h

theorem forall_read_members {as bs : List Member} (has : ∀ m ∈ scopedInMembers lists as, m.Read)
    (hbs : ∀ m ∈ scopedInMembers lists bs, m.Read) :
    ∀ m ∈ scopedInMembers lists (as ++ bs), m.Read := by
  rw [scopedInMembers_append]
  exact forall_read_append has hbs

theorem forall_read_types {as bs : List TypeDecl} (has : ∀ m ∈ scopedInTypes lists as, m.Read)
    (hbs : ∀ m ∈ scopedInTypes lists bs, m.Read) :
    ∀ m ∈ scopedInTypes lists (as ++ bs), m.Read := by
  rw [scopedInTypes_append]
  exact forall_read_append has hbs

theorem forall_read_map_type {ds : List TypeDecl} (h : ∀ m ∈ scopedInTypes lists ds, m.Read) :
    ∀ m ∈ scopedInMembers lists (ds.map .type), m.Read := by
  rwa [scopedInMembers_map_type]

/-- The parameters of a record are read inside of it; another type has none. -/
theorem recordParams_read {s : Scope} {lists : List (List TypeParam)} (hs : s.Sees lists)
    (kind : String) (params : List TypeParam) (fqn : String) (ds : DeclaredTypes) (n : Node) :
    ∀ p ∈ if kind == "record_declaration" then ((s.withTypeVars params).enter fqn).params ds n
      else [], ReadParam (params :: lists) p := by
  intro p hp
  split at hp
  · have hinside : ((s.withTypeVars params).enter fqn).Sees (params :: lists) :=
      hs.withTypeVars params
    exact hinside.readParam p hp
  · cases hp

-- The recursion of the walk itself.
mutual
theorem lowerType_read {s : Scope} {lists : List (List TypeParam)} (hs : s.Sees lists)
    (hlists : BoundsRead lists) (parent : Option String)
    (n : Node) (hn : CompactHeaders n) :
    YieldsRead (TypeDecl.scopedMethods lists) (lowerType s parent n) := by
  match n with
  | ⟨kind, field, named, span, children⟩ =>
    intro w
    rw [lowerType]
    have hbody (ds : DeclaredTypes) (fqn ownerName : String) :=
      lowerBody_read (s := (s.withTypeVars _).enter fqn) (hs.withTypeVars _)
        (hlists.typeParams hs ds ⟨kind, field, named, span, children⟩) fqn ownerName
        (recordParams_read hs kind _ fqn ds ⟨kind, field, named, span, children⟩) isBody children
        fun _ hm => hn.children_of_find? hm
    exact hbody _ _ _ _

theorem lowerBody_read {s : Scope} {lists : List (List TypeParam)} (hs : s.Sees lists)
    (hlists : BoundsRead lists) (owner ownerName : String)
    {recordParams : List Param} (hrecord : ∀ p ∈ recordParams, ReadParam lists p)
    (isWanted : Node → Bool) (ns : List Node)
    (hns : ∀ m, ns.find? isWanted = some m → ∀ c ∈ m.children, CompactHeaders c) :
    YieldsRead (scopedInMembers lists) (lowerBody s owner ownerName recordParams isWanted ns) := by
  match ns with
  | [] =>
    rw [lowerBody]
    exact fun _ => List.forall_mem_nil _
  | ⟨kind, field, named, span, children⟩ :: ns =>
    rw [lowerBody]
    rw [List.find?_cons] at hns
    cases hwanted : isWanted ⟨kind, field, named, span, children⟩ with
    | true =>
      rw [hwanted] at hns
      exact lowerMembers_read hs hlists _ _ hrecord children (hns _ rfl)
    | false =>
      rw [hwanted] at hns
      exact lowerBody_read hs hlists _ _ hrecord _ ns hns

theorem lowerMembers_read {s : Scope} {lists : List (List TypeParam)} (hs : s.Sees lists)
    (hlists : BoundsRead lists) (owner ownerName : String)
    {recordParams : List Param} (hrecord : ∀ p ∈ recordParams, ReadParam lists p)
    (ns : List Node) (hns : ∀ c ∈ ns, CompactHeaders c) :
    YieldsRead (scopedInMembers lists) (lowerMembers s owner ownerName recordParams ns) := by
  match ns with
  | [] =>
    rw [lowerMembers]
    exact fun _ => List.forall_mem_nil _
  | ⟨kind, field, named, span, children⟩ :: ns =>
    rw [List.forall_mem_cons] at hns
    obtain ⟨hn, hns⟩ := hns
    have hothers := lowerMembers_read hs hlists owner ownerName hrecord ns hns
    rw [lowerMembers]
    intro w
    split
    · exact hothers w
    split
    · next hnamed _ =>
      refine forall_read_members ?_ (hothers _)
      have hmethod := ScopedMethod.read_method hs hlists hrecord hn (by simpa using hnamed)
        w.declared ownerName
      have hlocals := lowerLocals_read (hs.withTypeVars _) hmethod.bounds owner isBody children
        (fun _ hm => hn.children_of_find? hm) w
      exact List.forall_mem_cons.2 ⟨hmethod, forall_read_append hlocals (List.forall_mem_nil _)⟩
    split
    · have htype := lowerType_read hs hlists (some owner) _ hn w
      exact forall_read_members (forall_read_append htype (List.forall_mem_nil _)) (hothers _)
    split
    · refine forall_read_members ?_ (hothers _)
      exact lowerMembers_read hs hlists owner ownerName hrecord children hn.children w
    split
    · have hcreated := lowerLocals_read hs hlists owner isArguments children
        (fun _ hm => hn.children_of_find? hm) w
      split
      · exact forall_read_members (forall_read_map_type hcreated) (hothers _)
      · next body hbody =>
        have hclass (fqn name : String) (w : Walk) :=
          lowerBody_read (s := s.enter fqn) hs.withNone hlists.withNone fqn name
            (List.forall_mem_nil _) (fun c => c.kind == "class_body") children
            (fun _ hm => hn.children_of_find? hm) w
        have hconstant := forall_read_map_type hcreated
        refine forall_read_members (forall_read_members hconstant ?_) (hothers _)
        exact forall_read_map_type (forall_read_anonymous rfl (hclass _ _ _))
    · refine forall_read_members ?_ (hothers _)
      exact forall_read_map_type (lowerInside_read hs hlists owner children hn.children w)

theorem lowerLocals_read {s : Scope} {lists : List (List TypeParam)} (hs : s.Sees lists)
    (hlists : BoundsRead lists) (owner : String)
    (isWanted : Node → Bool) (ns : List Node)
    (hns : ∀ m, ns.find? isWanted = some m → ∀ c ∈ m.children, CompactHeaders c) :
    YieldsRead (scopedInTypes lists) (lowerLocals s owner isWanted ns) := by
  match ns with
  | [] =>
    rw [lowerLocals]
    exact fun _ => List.forall_mem_nil _
  | ⟨kind, field, named, span, children⟩ :: ns =>
    rw [lowerLocals]
    rw [List.find?_cons] at hns
    cases hwanted : isWanted ⟨kind, field, named, span, children⟩ with
    | true =>
      rw [hwanted] at hns
      exact lowerInside_read hs hlists _ children (hns _ rfl)
    | false =>
      rw [hwanted] at hns
      exact lowerLocals_read hs hlists _ _ ns hns

theorem lowerInside_read {s : Scope} {lists : List (List TypeParam)} (hs : s.Sees lists)
    (hlists : BoundsRead lists) (owner : String)
    (ns : List Node) (hns : ∀ c ∈ ns, CompactHeaders c) :
    YieldsRead (scopedInTypes lists) (lowerInside s owner ns) := by
  match ns with
  | [] =>
    rw [lowerInside]
    exact fun _ => List.forall_mem_nil _
  | ⟨kind, field, named, span, children⟩ :: ns =>
    rw [List.forall_mem_cons] at hns
    obtain ⟨hn, hns⟩ := hns
    have hothers := lowerInside_read hs hlists owner ns hns
    rw [lowerInside]
    intro w
    split
    · have htype := lowerType_read hs hlists (some owner) _ hn w
      exact forall_read_types (forall_read_append htype (List.forall_mem_nil _)) (hothers _)
    split
    · have hcreated := lowerLocals_read hs hlists owner isArguments children
        (fun _ hm => hn.children_of_find? hm) w
      split
      · next body type hbody htype =>
        have hclass (fqn name : String) (w : Walk) :=
          lowerBody_read (s := s.enter fqn) hs.withNone hlists.withNone fqn name
            (List.forall_mem_nil _) (fun c => c.kind == "class_body") children
            (fun _ hm => hn.children_of_find? hm) w
        refine forall_read_types (forall_read_types hcreated ?_) (hothers _)
        exact forall_read_anonymous rfl (hclass _ _ _)
      · exact forall_read_types hcreated (hothers _)
    · exact forall_read_types (lowerInside_read hs hlists owner children hn.children w) (hothers _)
end

theorem lowerTypes_read {s : Scope} {lists : List (List TypeParam)} (hs : s.Sees lists)
    (hlists : BoundsRead lists) (ns : List Node) (hns : ∀ c ∈ ns, CompactHeaders c) :
    YieldsRead (scopedInTypes lists) (lowerTypes s ns) := by
  induction ns with
  | nil =>
    rw [lowerTypes]
    exact fun _ => List.forall_mem_nil _
  | cons n ns ih =>
    rw [List.forall_mem_cons] at hns
    have hothers := ih hns.2
    rw [lowerTypes]
    intro w
    split
    · exact forall_read_append (lowerType_read hs hlists none n hns.1 w) (hothers _)
    · exact hothers w

/-- **How the headers of the methods of a file are read**: the types of the parameters where all
    lists are seen that the method sees, the bounds in each of these lists where only the lists
    around it are seen. -/
theorem CompilationUnit.read_of_mem_scopedMethods {source : List Char} {unit : CompilationUnit}
    (h : CompilationUnit.parse source = .ok unit) : ∀ m ∈ unit.scopedMethods, m.Read := by
  obtain ⟨root, htree, rfl⟩ := CompilationUnit.exists_tree_of_parse h
  refine lowerTypes_read ?_ .nil root.children (compactHeaders_of_javaTree htree) _
  rfl

end JavaThrows
