import JavaThrows.Proofs.Decl.Lowering
import JavaThrows.Proofs.Removal.Clause
import JavaThrows.Proofs.Removal.Visited

set_option autoImplicit false

/-!
# The names of constructors

A constructor is entered among the methods of its type, under the simple name of the type. The walk
through a file knows that name before it knows the head of the type, so the members of a body are
told for any head that has the name. Main statement: `name_of_isConstructor`.
-/

namespace JavaThrows

open JavaThrows.Cst

/-- The method is no constructor, or it is called like the type that declares it. -/
def ConstructorNamed (owned : TypeHead × Method) : Prop :=
  owned.2.isConstructor → owned.2.name = owned.1.name

/-- Whatever a run starts from, the constructors in what it yields are called like their types. -/
def YieldsNamed {α : Type} (methods : α → List (TypeHead × Method)) (run : WalkM α) : Prop :=
  ∀ w : Walk, ∀ owned ∈ methods (run.run w).1, ConstructorNamed owned

theorem Scope.constructorNamed (s : Scope) (ds : DeclaredTypes) (recordParams : List Param)
    (n : Node) (head : TypeHead) :
    ConstructorNamed (head, s.method ds head.name recordParams n) := by
  intro hconstructor
  exact if_pos hconstructor

theorem forall_named_members {head : TypeHead} {as bs : List Member}
    (has : ∀ owned ∈ ownedMethodsOfMembers head as, ConstructorNamed owned)
    (hbs : ∀ owned ∈ ownedMethodsOfMembers head bs, ConstructorNamed owned) :
    ∀ owned ∈ ownedMethodsOfMembers head (as ++ bs), ConstructorNamed owned := by
  rw [ownedMethodsOfMembers_append]
  exact List.forall_mem_append.2 ⟨has, hbs⟩

theorem forall_named_types {as bs : List TypeDecl}
    (has : ∀ owned ∈ ownedMethodsOfTypes as, ConstructorNamed owned)
    (hbs : ∀ owned ∈ ownedMethodsOfTypes bs, ConstructorNamed owned) :
    ∀ owned ∈ ownedMethodsOfTypes (as ++ bs), ConstructorNamed owned := by
  rw [ownedMethodsOfTypes_append]
  exact List.forall_mem_append.2 ⟨has, hbs⟩

theorem forall_named_map_type {head : TypeHead} {ds : List TypeDecl}
    (h : ∀ owned ∈ ownedMethodsOfTypes ds, ConstructorNamed owned) :
    ∀ owned ∈ ownedMethodsOfMembers head (ds.map .type), ConstructorNamed owned := by
  rwa [ownedMethodsOfMembers_map_type]

-- The recursion of the walk itself.
mutual
theorem lowerType_constructors (s : Scope) (parent : Option String) (n : Node) :
    YieldsNamed TypeDecl.ownedMethods (lowerType s parent n) := by
  match n with
  | ⟨kind, field, named, span, children⟩ =>
    intro w
    rw [lowerType]
    exact lowerBody_constructors _ _ _ _ _ children _

theorem lowerBody_constructors (s : Scope) (head : TypeHead) (owner : String)
    (recordParams : List Param) (isWanted : Node → Bool) (ns : List Node) :
    YieldsNamed (ownedMethodsOfMembers head)
      (lowerBody s owner head.name recordParams isWanted ns) := by
  match ns with
  | [] =>
    rw [lowerBody]
    exact fun _ => List.forall_mem_nil _
  | ⟨kind, field, named, span, children⟩ :: ns =>
    rw [lowerBody]
    cases isWanted ⟨kind, field, named, span, children⟩ with
    | true => exact lowerMembers_constructors s head owner recordParams children
    | false => exact lowerBody_constructors s head owner recordParams _ ns

theorem lowerMembers_constructors (s : Scope) (head : TypeHead) (owner : String)
    (recordParams : List Param) (ns : List Node) :
    YieldsNamed (ownedMethodsOfMembers head) (lowerMembers s owner head.name recordParams ns) := by
  match ns with
  | [] =>
    rw [lowerMembers]
    exact fun _ => List.forall_mem_nil _
  | ⟨kind, field, named, span, children⟩ :: ns =>
    have hothers := lowerMembers_constructors s head owner recordParams ns
    rw [lowerMembers]
    intro w
    split
    · exact hothers w
    split
    · refine forall_named_members ?_ (hothers _)
      have hlocals (s : Scope) := lowerLocals_constructors s owner isBody children w
      refine List.forall_mem_append.2 ⟨hlocals _, List.forall_mem_singleton.2 ?_⟩
      exact s.constructorNamed _ recordParams _ head
    split
    · have htype := lowerType_constructors s (some owner) ⟨kind, field, named, span, children⟩ w
      refine forall_named_members ?_ (hothers _)
      exact List.forall_mem_append.2 ⟨htype, List.forall_mem_nil _⟩
    split
    · refine forall_named_members ?_ (hothers _)
      exact lowerMembers_constructors s head owner recordParams children w
    split
    · have hcreated := lowerLocals_constructors s owner isArguments children w
      split
      · exact forall_named_members (forall_named_map_type hcreated) (hothers _)
      · have hclass (s : Scope) (head : TypeHead) (fqn : String) (w : Walk) :=
          lowerBody_constructors s head fqn [] (fun c => c.kind == "class_body") children w
        refine forall_named_members ?_ (hothers _)
        refine forall_named_members (forall_named_map_type hcreated) ?_
        exact List.forall_mem_append.2 ⟨hclass _ _ _ _, List.forall_mem_nil _⟩
    · refine forall_named_members ?_ (hothers _)
      exact forall_named_map_type (lowerInside_constructors s owner children w)

theorem lowerLocals_constructors (s : Scope) (owner : String) (isWanted : Node → Bool)
    (ns : List Node) : YieldsNamed ownedMethodsOfTypes (lowerLocals s owner isWanted ns) := by
  match ns with
  | [] =>
    rw [lowerLocals]
    exact fun _ => List.forall_mem_nil _
  | ⟨kind, field, named, span, children⟩ :: ns =>
    rw [lowerLocals]
    cases isWanted ⟨kind, field, named, span, children⟩ with
    | true => exact lowerInside_constructors s owner children
    | false => exact lowerLocals_constructors s owner _ ns

theorem lowerInside_constructors (s : Scope) (owner : String) (ns : List Node) :
    YieldsNamed ownedMethodsOfTypes (lowerInside s owner ns) := by
  match ns with
  | [] =>
    rw [lowerInside]
    exact fun _ => List.forall_mem_nil _
  | ⟨kind, field, named, span, children⟩ :: ns =>
    have hothers := lowerInside_constructors s owner ns
    rw [lowerInside]
    intro w
    split
    · have htype := lowerType_constructors s (some owner) ⟨kind, field, named, span, children⟩ w
      refine forall_named_types ?_ (hothers _)
      exact List.forall_mem_append.2 ⟨htype, List.forall_mem_nil _⟩
    split
    · have hcreated := lowerLocals_constructors s owner isArguments children w
      split
      · have hclass (s : Scope) (head : TypeHead) (fqn : String) (w : Walk) :=
          lowerBody_constructors s head fqn [] (fun c => c.kind == "class_body") children w
        refine forall_named_types (forall_named_types hcreated ?_) (hothers _)
        exact List.forall_mem_append.2 ⟨hclass _ _ _ _, List.forall_mem_nil _⟩
      · exact forall_named_types hcreated (hothers _)
    · exact forall_named_types (lowerInside_constructors s owner children w) (hothers _)
end

theorem lowerTypes_constructors (s : Scope) (ns : List Node) :
    YieldsNamed ownedMethodsOfTypes (lowerTypes s ns) := by
  induction ns with
  | nil =>
    rw [lowerTypes]
    exact fun _ => List.forall_mem_nil _
  | cons n ns ih =>
    rw [lowerTypes]
    intro w
    split
    · exact List.forall_mem_append.2 ⟨lowerType_constructors s none n w, ih _⟩
    · exact ih w

/-- **A constructor is called like its type.** -/
theorem CompilationUnit.name_of_isConstructor {source : List Char} {unit : CompilationUnit}
    (h : CompilationUnit.parse source = .ok unit) {d : TypeDecl} (hd : d ∈ unit.allTypes)
    {m : Method} (hm : m ∈ d.methods) (hconstructor : m.isConstructor) : m.name = d.head.name := by
  obtain ⟨root, -, rfl⟩ := CompilationUnit.exists_tree_of_parse h
  have howned : (d.head, m) ∈ ownedMethodsOfTypes (CompilationUnit.ofTree source root).types :=
    (mem_ownedMethodsOfTypes_iff _).2 ⟨d, hd, rfl, hm⟩
  exact lowerTypes_constructors _ _ _ _ howned hconstructor

end JavaThrows
