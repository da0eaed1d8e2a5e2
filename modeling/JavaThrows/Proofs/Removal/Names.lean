import JavaThrows.Proofs.Removal.Clause

set_option autoImplicit false

/-!
# Which names of a file are recorded

The names of a file are recorded where they occur: with a type, with a method, or as an entry of a
throws clause. The names below a declaration are left to that declaration, and the walk does not
find every declaration. `TypeBlind`, `MemberBlind` and `InnerBlind` tell the places where a name is
left out by both. Main statement: `recorded_or_blind`, there are no others.
-/

namespace JavaThrows

open JavaThrows.Cst

variable (source : List Char)

/-! ## Names of a node -/

/-- All names of a node. -/
def allNames (n : Node) : List NameRef :=
  namesOf source (fun _ _ => false) "" n

mutual
/-- The names that `namesOf` leaves to the nodes where `stop` holds. -/
def passedOf (stop : String → String → Bool) (parent : String) : Node → List NameRef
  | ⟨kind, field, named, span, children⟩ =>
    if stop parent kind then allNames source ⟨kind, field, named, span, children⟩
    else if isName ⟨kind, field, named, span, children⟩ then []
    else passedIn stop kind children

def passedIn (stop : String → String → Bool) (parent : String) : List Node → List NameRef
  | [] => []
  | n :: ns => passedOf stop parent n ++ passedIn stop parent ns
end

variable {source}

theorem mem_namesIn_iff {stop : String → String → Bool} {parent : String} {ns : List Node}
    {x : NameRef} : x ∈ namesIn source stop parent ns ↔ ∃ n ∈ ns, x ∈ namesOf source stop parent n := by
  induction ns with
  | nil => simp [namesIn]
  | cons n ns ih => simp [namesIn, ih]

theorem mem_passedIn_iff {stop : String → String → Bool} {parent : String} {ns : List Node}
    {x : NameRef} : x ∈ passedIn source stop parent ns ↔ ∃ n ∈ ns, x ∈ passedOf source stop parent n := by
  induction ns with
  | nil => simp [passedIn]
  | cons n ns ih => simp [passedIn, ih]

theorem namesOf_never (parent : String) (n : Node) :
    namesOf source (fun _ _ => false) parent n = allNames source n := by
  cases n
  simp [allNames, namesOf]

/-- The names of a node that is no name itself are those of its children. -/
theorem mem_allNames_iff {n : Node} (hn : ¬ isName n) {x : NameRef} :
    x ∈ allNames source n ↔ ∃ c ∈ n.children, x ∈ allNames source c := by
  cases n with
  | mk kind field named span children =>
    rw [allNames, namesOf, if_neg (by simp), if_neg hn, mem_namesIn_iff]
    simp only [namesOf_never]

theorem mem_passedOf_of_stop {stop : String → String → Bool} {parent : String} {n : Node}
    (h : stop parent n.kind) {x : NameRef} :
    x ∈ passedOf source stop parent n ↔ x ∈ allNames source n := by
  cases n with
  | mk kind field named span children => rw [passedOf, if_pos h]

theorem mem_passedOf_of_not_stop {stop : String → String → Bool} {parent : String} {n : Node}
    (h : ¬ stop parent n.kind) {x : NameRef} (hx : x ∈ passedOf source stop parent n) :
    ∃ c ∈ n.children, x ∈ passedOf source stop n.kind c := by
  cases n with
  | mk kind field named span children =>
    rw [passedOf, if_neg h] at hx
    split at hx
    · simp at hx
    · exact mem_passedIn_iff.1 hx

-- Names are either met or passed over, down to the leaves.
mutual
theorem mem_namesOf_or_passedOf (stop : String → String → Bool) (parent : String) (n : Node)
    {x : NameRef} (hx : x ∈ allNames source n) :
    x ∈ namesOf source stop parent n ∨ x ∈ passedOf source stop parent n := by
  match n with
  | ⟨kind, field, named, span, children⟩ =>
    rw [namesOf, passedOf]
    by_cases hstop : stop parent kind
    · rw [if_pos hstop, if_pos hstop]
      exact .inr hx
    · rw [if_neg hstop, if_neg hstop]
      by_cases hname : isName ⟨kind, field, named, span, children⟩
      · rw [if_pos hname]
        left
        rwa [allNames, namesOf, if_neg (by simp), if_pos hname] at hx
      · rw [if_neg hname, if_neg hname]
        obtain ⟨c, hc, hxc⟩ := (mem_allNames_iff hname).1 hx
        exact mem_namesIn_or_passedIn stop kind children hc hxc

theorem mem_namesIn_or_passedIn (stop : String → String → Bool) (parent : String) (ns : List Node)
    {x : NameRef} {n : Node} (hn : n ∈ ns) (hx : x ∈ allNames source n) :
    x ∈ namesIn source stop parent ns ∨ x ∈ passedIn source stop parent ns := by
  match ns with
  | [] => simp at hn
  | m :: ms =>
    rw [namesIn, passedIn, List.mem_append, List.mem_append]
    rcases List.mem_cons.1 hn with heq | hn
    · rcases mem_namesOf_or_passedOf stop parent m (heq ▸ hx) with h | h
      · exact .inl (.inl h)
      · exact .inr (.inl h)
    · rcases mem_namesIn_or_passedIn stop parent ms hn hx with h | h
      · exact .inl (.inr h)
      · exact .inr (.inr h)
end

mutual
theorem mem_allNames_of_mem_passedOf (stop : String → String → Bool) (parent : String) (n : Node)
    {x : NameRef} (hx : x ∈ passedOf source stop parent n) : x ∈ allNames source n := by
  match n with
  | ⟨kind, field, named, span, children⟩ =>
    rw [passedOf] at hx
    split at hx
    · exact hx
    split at hx
    · simp at hx
    · next hname =>
      obtain ⟨c, hc, hxc⟩ := mem_allNames_of_mem_passedIn stop kind children hx
      exact (mem_allNames_iff hname).2 ⟨c, hc, hxc⟩

theorem mem_allNames_of_mem_passedIn (stop : String → String → Bool) (parent : String)
    (ns : List Node) {x : NameRef} (hx : x ∈ passedIn source stop parent ns) :
    ∃ n ∈ ns, x ∈ allNames source n := by
  match ns with
  | [] => simp [passedIn] at hx
  | n :: ns =>
    rw [passedIn, List.mem_append] at hx
    rcases hx with hx | hx
    · exact ⟨n, List.mem_cons_self, mem_allNames_of_mem_passedOf stop parent n hx⟩
    · obtain ⟨m, hm, hxm⟩ := mem_allNames_of_mem_passedIn stop parent ns hx
      exact ⟨m, List.mem_cons_of_mem _ hm, hxm⟩
end

-- Down to the leaves, every name lies inside the node.
mutual
theorem inside_of_mem_allNames (n : Node) (hn : n.Placed source) {x : NameRef}
    (hx : x ∈ allNames source n) : x.span.Inside n.span := by
  match n with
  | ⟨kind, field, named, span, children⟩ =>
    by_cases hname : isName ⟨kind, field, named, span, children⟩
    · rw [allNames, namesOf, if_neg (by simp), if_pos hname, List.mem_singleton] at hx
      rw [hx]
      exact ⟨Nat.le_refl _, Nat.le_refl _⟩
    · obtain ⟨c, hc, hxc⟩ := (mem_allNames_iff hname).1 hx
      obtain ⟨hstart, hstop⟩ := inside_of_mem_children children hn.children hc hxc
      exact ⟨hstart, hstop⟩

theorem inside_of_mem_children {lo hi : Nat} (ns : List Node) (hns : PlacedBetween source lo hi ns)
    {x : NameRef} {n : Node} (hn : n ∈ ns) (hx : x ∈ allNames source n) :
    lo ≤ x.span.start ∧ x.span.stop ≤ hi := by
  match ns with
  | [] => simp at hn
  | m :: ms =>
    obtain ⟨hlo, hm, hms⟩ := hns
    have hle := hms.le
    have hne := hm.nonempty
    rcases List.mem_cons.1 hn with heq | hn
    · obtain ⟨hstart, hstop⟩ := inside_of_mem_allNames m hm (heq ▸ hx)
      exact ⟨by omega, by omega⟩
    · obtain ⟨hstart, hstop⟩ := inside_of_mem_children ms hms hn hx
      exact ⟨by omega, by omega⟩
end

/-! ## Places where names are left out -/

/-- What `typeReferences` passes over. -/
def typeStop (parent kind : String) : Bool :=
  isMethodNode kind || isTypeNode kind || isAnonymousBody parent kind

/-- What `methodReferences` passes over. -/
def methodStop (parent kind : String) : Bool :=
  kind == "throws" || isTypeNode kind || isAnonymousBody parent kind

/-- The child of the node in which declarations are looked for: the first wanted one, unless names
    are not met in it at all. -/
def Searched (isWanted : Node → Bool) (stop : String → String → Bool) (n c : Node) : Prop :=
  n.children.find? isWanted = some c ∧ ¬ stop n.kind c.kind

/-- The name that an entry of a throws clause is recorded by. -/
def entryLead (source : List Char) (entry : Node) : String :=
  Text.firstSegment (Text.elementType (Erasure.erase (Text.slice source entry.span))).1

mutual
/-- A name in a type declaration that is not recorded. -/
inductive TypeBlind (source : List Char) : Node → NameRef → Prop
  /-- In a declaration that is not part of the body. -/
  | header {n c : Node} {x : NameRef} : c ∈ n.children → ¬ Searched isBody typeStop n c →
    x ∈ passedOf source typeStop n.kind c → TypeBlind source n x
  | member {n body c : Node} {x : NameRef} : Searched isBody typeStop n body →
    c ∈ body.children → MemberBlind source body.kind c x → TypeBlind source n x

/-- A name in a member of a type that is not recorded. -/
inductive MemberBlind (source : List Char) : String → Node → NameRef → Prop
  | unnamed {parent : String} {n : Node} {x : NameRef} : n.named = false →
    x ∈ passedOf source typeStop parent n → MemberBlind source parent n x
  | type {parent : String} {n : Node} {x : NameRef} : isTypeNode n.kind → TypeBlind source n x →
    MemberBlind source parent n x
  /-- In a throws clause, other than the leading name of an entry. -/
  | clause {parent : String} {n clause : Node} {x : NameRef} : isMethodNode n.kind →
    clause ∈ n.children → clause.kind = "throws" → x ∈ allNames source clause →
    (∀ p first, Scope.clauseIn none n.children = some (p, first) →
      ∀ entry ∈ entryNodes first, x ∈ allNames source entry → x.name ≠ entryLead source entry) →
    MemberBlind source parent n x
  /-- In a declaration that is part of neither the clause nor the body. -/
  | methodHeader {parent : String} {n c : Node} {x : NameRef} : isMethodNode n.kind →
    c ∈ n.children → c.kind ≠ "throws" → ¬ Searched isBody methodStop n c →
    x ∈ passedOf source methodStop n.kind c → MemberBlind source parent n x
  | methodBody {parent : String} {n body c : Node} {x : NameRef} : isMethodNode n.kind →
    Searched isBody methodStop n body → c ∈ body.children →
    InnerBlind source methodStop body.kind c x → MemberBlind source parent n x
  | declarations {parent : String} {n c : Node} {x : NameRef} :
    n.kind = "enum_body_declarations" → c ∈ n.children → MemberBlind source n.kind c x →
    MemberBlind source parent n x
  /-- In a declaration that is part of neither the arguments nor the body of an enum constant. -/
  | constantHeader {parent : String} {n c : Node} {x : NameRef} : n.kind = "enum_constant" →
    c ∈ n.children → ¬ Searched isArguments typeStop n c → n.childOfKind "class_body" ≠ some c →
    x ∈ passedOf source typeStop n.kind c → MemberBlind source parent n x
  | constantArguments {parent : String} {n args c : Node} {x : NameRef} :
    n.kind = "enum_constant" → Searched isArguments typeStop n args → c ∈ args.children →
    InnerBlind source typeStop args.kind c x → MemberBlind source parent n x
  | constantBody {parent : String} {n body c : Node} {x : NameRef} : n.kind = "enum_constant" →
    n.childOfKind "class_body" = some body → c ∈ body.children →
    MemberBlind source body.kind c x → MemberBlind source parent n x
  | inner {parent : String} {n : Node} {x : NameRef} : ¬ isMethodNode n.kind →
    InnerBlind source typeStop parent n x → MemberBlind source parent n x

/-- A name in code that is not recorded. What `stop` holds of is passed over in this code. -/
inductive InnerBlind (source : List Char) : (String → String → Bool) → String → Node → NameRef → Prop
  | type {stop : String → String → Bool} {parent : String} {n : Node} {x : NameRef} :
    isTypeNode n.kind → TypeBlind source n x → InnerBlind source stop parent n x
  /-- In a declaration that is part of neither the arguments nor the body of a `new` expression. -/
  | creationHeader {stop : String → String → Bool} {parent : String} {n c : Node} {x : NameRef} :
    n.kind = "object_creation_expression" → c ∈ n.children → ¬ Searched isArguments stop n c →
    ¬ (n.childOfKind "class_body" = some c ∧ (n.childByField "type").isSome) →
    x ∈ passedOf source stop n.kind c → InnerBlind source stop parent n x
  | creationArguments {stop : String → String → Bool} {parent : String} {n args c : Node}
    {x : NameRef} : n.kind = "object_creation_expression" → Searched isArguments stop n args →
    c ∈ args.children → InnerBlind source stop args.kind c x → InnerBlind source stop parent n x
  | creationBody {stop : String → String → Bool} {parent : String} {n body c : Node}
    {x : NameRef} : n.kind = "object_creation_expression" →
    n.childOfKind "class_body" = some body → c ∈ body.children →
    MemberBlind source body.kind c x → InnerBlind source stop parent n x
  /-- In a node that is passed over without being a declaration that the walk knows. -/
  | stray {stop : String → String → Bool} {parent : String} {n : Node} {x : NameRef} :
    ¬ isTypeNode n.kind → stop parent n.kind → x ∈ allNames source n →
    InnerBlind source stop parent n x
  | child {stop : String → String → Bool} {parent : String} {n c : Node} {x : NameRef} :
    ¬ isTypeNode n.kind → c ∈ n.children → InnerBlind source stop n.kind c x →
    InnerBlind source stop parent n x
end

/-! ## Recorded names -/

mutual
/-- The names that are recorded with a type and its methods, entries of throws clauses apart. -/
def TypeDecl.nameRefs : TypeDecl → List NameRef
  | .mk head members => head.references ++ nameRefsOfMembers members

def nameRefsOfMembers : List Member → List NameRef
  | [] => []
  | .method m locals :: ms => m.references ++ nameRefsOfTypes locals ++ nameRefsOfMembers ms
  | .type d :: ms => d.nameRefs ++ nameRefsOfMembers ms

def nameRefsOfTypes : List TypeDecl → List NameRef
  | [] => []
  | d :: ds => d.nameRefs ++ nameRefsOfTypes ds
end

/-- The name is the leading name of an entry, and stands in it. -/
def Method.EntryHolds (m : Method) (x : NameRef) : Prop :=
  ∃ e ∈ m.throwsEntries, x.name = e.leadingName ∧ x.span.Inside e.span

/-- The name is recorded with one of the members. -/
def MembersRecord (ms : List Member) (x : NameRef) : Prop :=
  x ∈ nameRefsOfMembers ms ∨
    ∀ enclosing, ∃ owned ∈ ownedMethodsOfMembers enclosing ms, owned.2.EntryHolds x

/-- The name is recorded with one of the types. -/
def TypesRecord (ds : List TypeDecl) (x : NameRef) : Prop :=
  x ∈ nameRefsOfTypes ds ∨ ∃ owned ∈ ownedMethodsOfTypes ds, owned.2.EntryHolds x

theorem nameRefsOfMembers_append (as bs : List Member) :
    nameRefsOfMembers (as ++ bs) = nameRefsOfMembers as ++ nameRefsOfMembers bs := by
  induction as with
  | nil => rfl
  | cons a as ih => cases a <;> simp [nameRefsOfMembers, ih]

theorem nameRefsOfTypes_append (as bs : List TypeDecl) :
    nameRefsOfTypes (as ++ bs) = nameRefsOfTypes as ++ nameRefsOfTypes bs := by
  induction as with
  | nil => rfl
  | cons a as ih => simp [nameRefsOfTypes, ih]

theorem nameRefsOfMembers_map_type (ds : List TypeDecl) :
    nameRefsOfMembers (ds.map .type) = nameRefsOfTypes ds := by
  induction ds with
  | nil => rfl
  | cons d ds ih => rw [List.map_cons, nameRefsOfMembers, nameRefsOfTypes, ih]

section Record

variable {x : NameRef}

theorem MembersRecord.middle {ms : List Member} (as bs : List Member) (h : MembersRecord ms x) :
    MembersRecord (as ++ ms ++ bs) x := by
  rcases h with h | h
  · left
    simp [nameRefsOfMembers_append, h]
  · right
    intro enclosing
    obtain ⟨owned, howned, hx⟩ := h enclosing
    exact ⟨owned, by simp [ownedMethodsOfMembers_append, howned], hx⟩

theorem TypesRecord.middle {ds : List TypeDecl} (as bs : List TypeDecl) (h : TypesRecord ds x) :
    TypesRecord (as ++ ds ++ bs) x := by
  rcases h with h | ⟨owned, howned, hx⟩
  · left
    simp [nameRefsOfTypes_append, h]
  · right
    exact ⟨owned, by simp [ownedMethodsOfTypes_append, howned], hx⟩

theorem TypesRecord.members {ds : List TypeDecl} (h : TypesRecord ds x) :
    MembersRecord (ds.map .type) x := by
  rcases h with h | h
  · left
    rwa [nameRefsOfMembers_map_type]
  · right
    intro enclosing
    rwa [ownedMethodsOfMembers_map_type]

theorem MembersRecord.type {head : TypeHead} {ms : List Member} (h : MembersRecord ms x) :
    TypesRecord [.mk head ms] x := by
  rcases h with h | h
  · left
    simp [nameRefsOfTypes, TypeDecl.nameRefs, h]
  · right
    simpa [ownedMethodsOfTypes, TypeDecl.ownedMethods] using h head

theorem typesRecord_of_mem_references {head : TypeHead} {ms : List Member}
    (h : x ∈ head.references) : TypesRecord [.mk head ms] x :=
  .inl (by simp [nameRefsOfTypes, TypeDecl.nameRefs, h])

end Record

/-! ## Every step of the walk -/

/-- The two ways to pass over declarations are alike for types and for `new` expressions. -/
structure StopsAtTypes (stop : String → String → Bool) : Prop where
  type : ∀ {parent kind : String}, isTypeNode kind → stop parent kind
  creation : ∀ {parent : String}, ¬ stop parent "object_creation_expression"

theorem stopsAtTypes_typeStop : StopsAtTypes typeStop := by
  refine ⟨fun h => by simp [typeStop, h], fun {parent} => ?_⟩
  simp [typeStop, isMethodNode, isTypeNode, isAnonymousBody]

theorem stopsAtTypes_methodStop : StopsAtTypes methodStop := by
  refine ⟨fun h => by simp [methodStop, h], fun {parent} => ?_⟩
  simp [methodStop, isTypeNode, isAnonymousBody]

variable (source)

/-- Every name of the type is recorded or in a blind place. -/
def TypeCovers (n : Node) (d : TypeDecl) : Prop :=
  n.Placed source → ∀ x ∈ allNames source n, TypesRecord [d] x ∨ TypeBlind source n x

/-- Every name that the type passes over in a member is recorded or in a blind place. -/
def MemberCovers (parent : String) (n : Node) (ms : List Member) : Prop :=
  n.Placed source → ∀ x ∈ passedOf source typeStop parent n,
    MembersRecord ms x ∨ MemberBlind source parent n x

/-- Every name that is passed over in code is recorded or in a blind place. -/
def InnerCovers (parent : String) (n : Node) (ds : List TypeDecl) : Prop :=
  n.Placed source → ∀ stop, StopsAtTypes stop → ∀ x ∈ passedOf source stop parent n,
    TypesRecord ds x ∨ InnerBlind source stop parent n x

variable {source}

theorem members_cover {parent : String} {ns : List Node} {ms : List Member}
    (h : Yields (MemberCovers source parent) ns ms) {c : Node} (hc : c ∈ ns)
    (hplaced : c.Placed source) {x : NameRef} (hx : x ∈ passedOf source typeStop parent c) :
    MembersRecord ms x ∨ MemberBlind source parent c x := by
  obtain ⟨front, part, back, rfl, hpart⟩ := h.exists_part hc
  exact (hpart hplaced x hx).imp_left (.middle front back)

theorem inner_cover {parent : String} {ns : List Node} {ds : List TypeDecl}
    (h : Yields (InnerCovers source parent) ns ds) {c : Node} (hc : c ∈ ns)
    (hplaced : c.Placed source) {stop : String → String → Bool} (hstop : StopsAtTypes stop)
    {x : NameRef} (hx : x ∈ passedOf source stop parent c) :
    TypesRecord ds x ∨ InnerBlind source stop parent c x := by
  obtain ⟨front, part, back, rfl, hpart⟩ := h.exists_part hc
  exact (hpart hplaced stop hstop x hx).imp_left (.middle front back)

/-- Names that are passed over in the child that is searched. -/
theorem searched_cover {isWanted : Node → Bool} {n c : Node} {ds : List TypeDecl}
    (h : FirstYields (InnerCovers source) isWanted n.children ds) (hplaced : n.Placed source)
    {stop : String → String → Bool} (hstop : StopsAtTypes stop) (hc : Searched isWanted stop n c)
    {x : NameRef} (hx : x ∈ passedOf source stop n.kind c) :
    TypesRecord ds x ∨ ∃ m ∈ c.children, InnerBlind source stop c.kind m x := by
  obtain ⟨m, hm, hxm⟩ := mem_passedOf_of_not_stop hc.2 hx
  have hc' := (hplaced.children.placed_of_mem (List.mem_of_find?_eq_some hc.1)).1
  have hm' := (hc'.children.placed_of_mem hm).1
  exact (inner_cover (h.of_find? hc.1) hm hm' hstop hxm).imp_right fun hblind => ⟨m, hm, hblind⟩

theorem not_isName_of_isTypeNode {n : Node} (h : isTypeNode n.kind) : ¬ isName n := by
  intro hname
  simp only [isName, Bool.or_eq_true, beq_iff_eq] at hname
  rcases hname with hname | hname <;> rw [hname] at h <;> exact absurd h (by decide)

theorem not_isName_of_isMethodNode {n : Node} (h : isMethodNode n.kind) : ¬ isName n := by
  intro hname
  simp only [isName, Bool.or_eq_true, beq_iff_eq] at hname
  rcases hname with hname | hname <;> rw [hname] at h <;> exact absurd h (by decide)

theorem typeCovers {n : Node} {head : TypeHead} {ms : List Member} (htype : isTypeNode n.kind)
    (hrefs : head.references = typeReferences source n)
    (hms : FirstYields (MemberCovers source) isBody n.children ms) :
    TypeCovers source n (.mk head ms) := by
  intro hplaced x hx
  obtain ⟨c, hc, hxc⟩ := (mem_allNames_iff (not_isName_of_isTypeNode htype)).1 hx
  rcases mem_namesOf_or_passedOf typeStop n.kind c hxc with hmet | hpassed
  · left
    refine typesRecord_of_mem_references ?_
    rw [hrefs]
    exact mem_namesIn_iff.2 ⟨c, hc, hmet⟩
  · -- What the type leaves to others is looked for in the body only.
    by_cases hsearched : Searched isBody typeStop n c
    · obtain ⟨m, hm, hxm⟩ := mem_passedOf_of_not_stop hsearched.2 hpassed
      have hc' := (hplaced.children.placed_of_mem hc).1
      have hm' := (hc'.children.placed_of_mem hm).1
      exact (members_cover (hms.of_find? hsearched.1) hm hm' hxm).imp MembersRecord.type
        (.member hsearched hm)
    · exact .inr (.header hc hsearched hpassed)

/-- The names of the body of an anonymous class. -/
theorem anonymousBody_cover {n body : Node} {head : TypeHead} {ms : List Member}
    (hbody : n.childOfKind "class_body" = some body) (hplaced : n.Placed source)
    (hrefs : head.references = typeReferences source body)
    (hms : Yields (MemberCovers source body.kind) body.children ms) {x : NameRef}
    (hx : x ∈ allNames source body) :
    TypesRecord [.mk head ms] x ∨ ∃ c ∈ body.children, MemberBlind source body.kind c x := by
  have hkind : body.kind = "class_body" := by simpa using List.find?_some hbody
  have hname : ¬ isName body := by simp [isName, hkind]
  have hbody' := (hplaced.children.placed_of_mem (List.mem_of_find?_eq_some hbody)).1
  obtain ⟨c, hc, hxc⟩ := (mem_allNames_iff hname).1 hx
  rcases mem_namesOf_or_passedOf typeStop body.kind c hxc with hmet | hpassed
  · left
    refine typesRecord_of_mem_references ?_
    rw [hrefs]
    exact mem_namesIn_iff.2 ⟨c, hc, hmet⟩
  · have hc' := (hbody'.children.placed_of_mem hc).1
    exact (members_cover hms hc hc' hpassed).imp MembersRecord.type fun hblind => ⟨c, hc, hblind⟩

/-- A name in the clause of a method. -/
theorem clause_cover {s : Scope} {ds : DeclaredTypes} {owner : String} {recordParams : List Param}
    {parent : String} {n clause : Node} (hmethod : isMethodNode n.kind) (hs : s.source = source)
    (hplaced : n.Placed source) (hclause : clause ∈ n.children) (hkind : clause.kind = "throws")
    {x : NameRef} (hx : x ∈ allNames source clause) :
    (s.method ds owner recordParams n).EntryHolds x ∨ MemberBlind source parent n x := by
  by_cases hlead : ∃ p first, Scope.clauseIn none n.children = some (p, first) ∧
      ∃ entry ∈ entryNodes first, x ∈ allNames source entry ∧ x.name = entryLead source entry
  · obtain ⟨p, first, hfirst, entry, hentry, hxentry, hname⟩ := hlead
    left
    obtain ⟨front, back, hchildren, -, -⟩ := Scope.clauseIn_eq_some hfirst
    have hfirst' := (hplaced.children.placed_of_mem (n := first) (by simp [hchildren])).1
    have hentry' := (hfirst'.children.placed_of_mem (mem_children_of_mem_entryNodes hentry)).1
    rw [Method.EntryHolds, method_throwsEntries hfirst]
    refine ⟨_, List.mem_map_of_mem hentry, ?_, inside_of_mem_allNames entry hentry' hxentry⟩
    rw [hname, entryLead, ← hs]
    rfl
  · refine .inr (.clause hmethod hclause hkind hx fun p first hfirst entry hentry hxentry hname => ?_)
    exact hlead ⟨p, first, hfirst, entry, hentry, hxentry, hname⟩

theorem methodCovers {s : Scope} {ds : DeclaredTypes} {owner : String} {recordParams : List Param}
    {parent : String} {n : Node} {locals : List TypeDecl} (hmethod : isMethodNode n.kind)
    (hs : s.source = source) (hlocals : FirstYields (InnerCovers source) isBody n.children locals) :
    MemberCovers source parent n [.method (s.method ds owner recordParams n) locals] := by
  intro hplaced x hx
  rw [mem_passedOf_of_stop (by simp [typeStop, hmethod])] at hx
  obtain ⟨c, hc, hxc⟩ := (mem_allNames_iff (not_isName_of_isMethodNode hmethod)).1 hx
  rcases mem_namesOf_or_passedOf methodStop n.kind c hxc with hmet | hpassed
  · left
    left
    have hrefs : x ∈ (s.method ds owner recordParams n).references := by
      show x ∈ methodReferences s.source n
      rw [hs]
      exact mem_namesIn_iff.2 ⟨c, hc, hmet⟩
    simp [nameRefsOfMembers, hrefs]
  · -- What the method leaves to others is an entry of the clause, or is looked for in the body.
    by_cases hkind : c.kind = "throws"
    · rcases clause_cover hmethod hs hplaced hc hkind hxc with hentry | hblind
      · left
        right
        intro enclosing
        exact ⟨(enclosing, s.method ds owner recordParams n), by simp [ownedMethodsOfMembers],
          hentry⟩
      · exact .inr hblind
    · by_cases hsearched : Searched isBody methodStop n c
      · rcases searched_cover hlocals hplaced stopsAtTypes_methodStop hsearched hpassed with
          hrecord | ⟨m, hm, hblind⟩
        · left
          rcases hrecord with hrefs | ⟨owned, howned, hentry⟩
          · left
            simp [nameRefsOfMembers, hrefs]
          · right
            intro enclosing
            exact ⟨owned, by simp [ownedMethodsOfMembers, howned], hentry⟩
        · exact .inr (.methodBody hmethod hsearched hm hblind)
      · exact .inr (.methodHeader hmethod hc hkind hsearched hpassed)

theorem constantCovers {parent : String} {n : Node} {created : List TypeDecl}
    (hkind : n.kind = "enum_constant") (hbody : n.childOfKind "class_body" = none)
    (hcreated : FirstYields (InnerCovers source) isArguments n.children created) :
    MemberCovers source parent n (created.map .type) := by
  intro hplaced x hx
  obtain ⟨c, hc, hxc⟩ := mem_passedOf_of_not_stop (by rw [hkind]; simp [typeStop, isMethodNode,
    isTypeNode, isAnonymousBody]) hx
  by_cases hsearched : Searched isArguments typeStop n c
  · rcases searched_cover hcreated hplaced stopsAtTypes_typeStop hsearched hxc with
      hrecord | ⟨m, hm, hblind⟩
    · exact .inl hrecord.members
    · exact .inr (.constantArguments hkind hsearched hm hblind)
  · exact .inr (.constantHeader hkind hc hsearched (by simp [hbody]) hxc)

theorem constantBodyCovers {parent : String} {n body : Node} {created : List TypeDecl}
    {head : TypeHead} {ms : List Member} (hkind : n.kind = "enum_constant")
    (hbody : n.childOfKind "class_body" = some body)
    (hcreated : FirstYields (InnerCovers source) isArguments n.children created)
    (hrefs : head.references = typeReferences source body)
    (hms : Yields (MemberCovers source body.kind) body.children ms) :
    MemberCovers source parent n (created.map .type ++ [.type (.mk head ms)]) := by
  intro hplaced x hx
  obtain ⟨c, hc, hxc⟩ := mem_passedOf_of_not_stop (by rw [hkind]; simp [typeStop, isMethodNode,
    isTypeNode, isAnonymousBody]) hx
  by_cases hsearched : Searched isArguments typeStop n c
  · rcases searched_cover hcreated hplaced stopsAtTypes_typeStop hsearched hxc with
      hrecord | ⟨m, hm, hblind⟩
    · exact .inl (hrecord.members.middle [] _)
    · exact .inr (.constantArguments hkind hsearched hm hblind)
  · by_cases hcbody : n.childOfKind "class_body" = some c
    · obtain rfl : body = c := Option.some.inj (hbody.symm.trans hcbody)
      rcases anonymousBody_cover hbody hplaced hrefs hms
        (mem_allNames_of_mem_passedOf _ _ _ hxc) with hrecord | ⟨m, hm, hblind⟩
      · left
        simpa using hrecord.members.middle (created.map .type) []
      · exact .inr (.constantBody hkind hbody hm hblind)
    · exact .inr (.constantHeader hkind hc hsearched hcbody hxc)

theorem creationCovers {parent : String} {n : Node} {created : List TypeDecl}
    (hkind : n.kind = "object_creation_expression")
    (hparts : n.childOfKind "class_body" = none ∨ n.childByField "type" = none)
    (hcreated : FirstYields (InnerCovers source) isArguments n.children created) :
    InnerCovers source parent n created := by
  intro hplaced stop hstop x hx
  obtain ⟨c, hc, hxc⟩ := mem_passedOf_of_not_stop (hkind ▸ hstop.creation) hx
  by_cases hsearched : Searched isArguments stop n c
  · rcases searched_cover hcreated hplaced hstop hsearched hxc with hrecord | ⟨m, hm, hblind⟩
    · exact .inl hrecord
    · exact .inr (.creationArguments hkind hsearched hm hblind)
  · refine .inr (.creationHeader hkind hc hsearched ?_ hxc)
    rcases hparts with hnone | hnone <;> simp [hnone]

theorem creationBodyCovers {parent : String} {n body : Node} {created : List TypeDecl}
    {head : TypeHead} {ms : List Member} (hkind : n.kind = "object_creation_expression")
    (hbody : n.childOfKind "class_body" = some body)
    (hcreated : FirstYields (InnerCovers source) isArguments n.children created)
    (hrefs : head.references = typeReferences source body)
    (hms : Yields (MemberCovers source body.kind) body.children ms) :
    InnerCovers source parent n (created ++ [.mk head ms]) := by
  intro hplaced stop hstop x hx
  obtain ⟨c, hc, hxc⟩ := mem_passedOf_of_not_stop (hkind ▸ hstop.creation) hx
  by_cases hsearched : Searched isArguments stop n c
  · rcases searched_cover hcreated hplaced hstop hsearched hxc with hrecord | ⟨m, hm, hblind⟩
    · exact .inl (hrecord.middle [] _)
    · exact .inr (.creationArguments hkind hsearched hm hblind)
  · by_cases hcbody : n.childOfKind "class_body" = some c
    · obtain rfl : body = c := Option.some.inj (hbody.symm.trans hcbody)
      rcases anonymousBody_cover hbody hplaced hrefs hms
        (mem_allNames_of_mem_passedOf _ _ _ hxc) with hrecord | ⟨m, hm, hblind⟩
      · left
        simpa using hrecord.middle created []
      · exact .inr (.creationBody hkind hbody hm hblind)
    · exact .inr (.creationHeader hkind hc hsearched (fun h => hcbody h.1) hxc)

theorem innerCovers {parent : String} {n : Node} {ds : List TypeDecl} (htype : ¬ isTypeNode n.kind)
    (hds : Yields (InnerCovers source n.kind) n.children ds) : InnerCovers source parent n ds := by
  intro hplaced stop hstop x hx
  -- The walk goes on into a node that is passed over, but it records nothing for it.
  by_cases hstray : stop parent n.kind
  · exact .inr (.stray htype hstray ((mem_passedOf_of_stop hstray).1 hx))
  · obtain ⟨c, hc, hxc⟩ := mem_passedOf_of_not_stop hstray hx
    have hc' := (hplaced.children.placed_of_mem hc).1
    exact (inner_cover hds hc hc' hstop hxc).imp_right (.child htype hc)

/-- Every step of the walk records the names that come with it, blind places apart. -/
theorem covers_walkInvariant :
    WalkInvariant source (TypeCovers source) (MemberCovers source) (InnerCovers source) where
  ofType htype _ := typeCovers htype
  ofUnnamed hnamed _ _ hx := .inr (.unnamed hnamed hx)
  ofMethod _ := methodCovers
  ofMemberType htype hd hplaced x hx :=
    (hd hplaced x (mem_allNames_of_mem_passedOf _ _ _ hx)).imp TypesRecord.members (.type htype)
  ofDeclarations {_ n _} hkind hms hplaced x hx := by
    obtain ⟨c, hc, hxc⟩ := mem_passedOf_of_not_stop (by rw [hkind]; simp [typeStop, isMethodNode,
      isTypeNode, isAnonymousBody]) hx
    have hc' := (hplaced.children.placed_of_mem hc).1
    exact (members_cover hms hc hc' hxc).imp_right (.declarations hkind hc)
  ofConstant := constantCovers
  ofConstantBody hkind hbody hcreated _ := constantBodyCovers hkind hbody hcreated
  ofMember hmethod htype _ _ hds hplaced x hx :=
    (innerCovers htype hds hplaced typeStop stopsAtTypes_typeStop x hx).imp TypesRecord.members
      (.inner hmethod)
  ofInnerType htype hd hplaced _ _ x hx :=
    (hd hplaced x (mem_allNames_of_mem_passedOf _ _ _ hx)).imp_right (.type htype)
  ofCreation := creationCovers
  ofCreationBody hkind hbody _ hcreated _ := creationBodyCovers hkind hbody hcreated
  ofInner htype _ := innerCovers htype

/-! ## Names of a file -/

/-- Whether a declaration at the top level tells the package or an import. -/
def isPackageOrImport (n : Node) : Bool :=
  n.kind == "package_declaration" || n.kind == "import_declaration"

/-- All names of a file outside its package and its imports. -/
def fileNames (source : List Char) (root : Node) : List NameRef :=
  (root.children.filter fun n => !isPackageOrImport n).flatMap (allNames source)

/-- A name of a file that is not recorded. -/
inductive FileBlind (source : List Char) (root : Node) (x : NameRef) : Prop
  /-- In a declaration at the top level that is no type. -/
  | top {n : Node} : n ∈ root.children → ¬ (n.named && isTypeNode n.kind) →
    x ∈ allNames source n → FileBlind source root x
  | type {n : Node} : n ∈ root.children → TypeBlind source n x → FileBlind source root x

/-- **A name of a file is recorded or in a blind place.** -/
theorem recorded_or_blind {root : Node} (h : javaTree source = some root) {x : NameRef}
    (hx : x ∈ fileNames source root) :
    TypesRecord (CompilationUnit.ofTree source root).types x ∨ FileBlind source root x := by
  obtain ⟨n, hn, hxn⟩ := List.mem_flatMap.1 hx
  have hn := (List.mem_filter.1 hn).1
  by_cases htype : n.named && isTypeNode n.kind
  · obtain ⟨front, part, back, heq, hpart⟩ := (covers_walkInvariant.ofTree root).exists_part hn
    rw [TopYields, if_pos htype] at hpart
    obtain ⟨d, hd, rfl⟩ := hpart
    have hplaced := ((javaTree_placed h).placed_of_mem hn).1
    rw [heq]
    exact (hd hplaced x hxn).imp (.middle front back) (.type hn)
  · exact .inr (.top hn htype hxn)

end JavaThrows
