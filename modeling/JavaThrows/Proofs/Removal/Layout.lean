import JavaThrows.Proofs.Cst.Fields
import JavaThrows.Proofs.Removal.Clause

set_option autoImplicit false

/-!
# Clauses do not meet

Methods stand inside each other, but the types in the body of a method are not in its clause. So the
clauses of all methods of a file lie apart from each other, each inside a node at the top level.
Main statements: `clauses_disjoint_of_javaTree`, `clauses_inTypes_of_javaTree`.
-/

namespace JavaThrows

open JavaThrows.Cst

variable {source : List Char}

/-! ## Spans inside a range -/

/-- The spans lie inside the range and do not meet. -/
structure Packed (range : Span) (spans : List Span) : Prop where
  inside : ∀ s ∈ spans, s.Inside range
  disjoint : spans.Pairwise Span.Disjoint

theorem Span.Inside.refl (s : Span) : s.Inside s :=
  ⟨Nat.le_refl _, Nat.le_refl _⟩

theorem Span.Inside.trans {a b c : Span} (hab : a.Inside b) (hbc : b.Inside c) : a.Inside c :=
  ⟨Nat.le_trans hbc.start hab.start, Nat.le_trans hab.stop hbc.stop⟩

namespace Packed

theorem nil (range : Span) : Packed range [] :=
  ⟨by simp, .nil⟩

theorem mono {a range : Span} {spans : List Span} (h : Packed a spans) (ha : a.Inside range) :
    Packed range spans :=
  ⟨fun s hs => (h.inside s hs).trans ha, h.disjoint⟩

theorem append {a b range : Span} {ss ts : List Span} (hss : Packed a ss) (hts : Packed b ts)
    (ha : a.Inside range) (hb : b.Inside range) (hab : a.Disjoint b) :
    Packed range (ss ++ ts) := by
  refine ⟨List.forall_mem_append.2 ⟨(hss.mono ha).inside, (hts.mono hb).inside⟩, ?_⟩
  rw [List.pairwise_append]
  refine ⟨hss.disjoint, hts.disjoint, fun s hs t ht => ?_⟩
  exact hab.mono (hss.inside s hs) (hts.inside t ht)

end Packed

/-- Nodes one after the other that are not the same do not meet. -/
theorem disjoint_of_placed {lo hi : Nat} {ns : List Node} (h : PlacedBetween source lo hi ns)
    {b c : Node} (hb : b ∈ ns) (hc : c ∈ ns) (hne : b ≠ c) : b.span.Disjoint c.span := by
  have hpairs : ns.Pairwise fun b c => b.span.Disjoint c.span := h.pairwise.imp fun hle => .inl hle
  have : Std.Symm fun b c : Node => b.span.Disjoint c.span := ⟨fun _ _ => Span.Disjoint.symm⟩
  exact hpairs.forall hb hc hne

/-! ## Spans of what a walk yields -/

section Yields

variable {α : Type} {spans : List α → List Span} (hnil : spans [] = [])
  (happend : ∀ xs ys, spans (xs ++ ys) = spans xs ++ spans ys)

include hnil happend

/-- Nodes one after the other yield spans that do not meet. -/
theorem Yields.packed {yield : Node → List α → Prop} {ns : List Node} {xs : List α}
    (h : Yields yield ns xs) {lo hi : Nat} (hplaced : PlacedBetween source lo hi ns)
    (hyield : ∀ n ∈ ns, ∀ xs, yield n xs → Packed n.span (spans xs)) :
    Packed ⟨lo, hi⟩ (spans xs) := by
  induction h generalizing lo with
  | nil =>
    rw [hnil]
    exact .nil _
  | @cons n ns xs ys hn _ ih =>
    obtain ⟨hlo, hnode, hrest⟩ := hplaced
    rw [List.forall_mem_cons] at hyield
    have hpos := hnode.nonempty
    have hle := hrest.le
    rw [happend]
    refine (hyield.1 xs hn).append (ih hrest hyield.2) ⟨hlo, hle⟩ ⟨?_, Nat.le_refl _⟩
      (.inl (Nat.le_refl _))
    show lo ≤ n.span.stop
    omega

/-- The first wanted child yields spans inside of itself. -/
theorem FirstYields.packed {yield : String → Node → List α → Prop} {isWanted : Node → Bool}
    {n : Node} {xs : List α} (h : FirstYields yield isWanted n.children xs)
    (hplaced : n.Placed source)
    (hyield : ∀ c ∈ n.children, ∀ d ∈ c.children, ∀ xs, yield c.kind d xs →
      Packed d.span (spans xs)) :
    spans xs = [] ∨ ∃ c ∈ n.children, isWanted c ∧ Packed c.span (spans xs) := by
  unfold FirstYields at h
  split at h
  · next c hc =>
    have hmem := List.mem_of_find?_eq_some hc
    have hchild := (hplaced.children.placed_of_mem hmem).1
    refine .inr ⟨c, hmem, by simpa using List.find?_some hc, ?_⟩
    exact h.packed hnil happend hchild.children (hyield c hmem)
  · rw [h]
    exact .inl hnil

end Yields

/-! ## Clauses of methods -/

/-- The clauses of all methods in the members. -/
def clausesOfMembers (ms : List Member) : List Span :=
  (ownedMethodsOfMembers default ms).flatMap fun owned => owned.2.clauseRanges

/-- The clauses of all methods in the types. -/
def clausesOfTypes (ds : List TypeDecl) : List Span :=
  (ownedMethodsOfTypes ds).flatMap fun owned => owned.2.clauseRanges

@[simp] theorem clausesOfMembers_nil : clausesOfMembers [] = [] := rfl

@[simp] theorem clausesOfTypes_nil : clausesOfTypes [] = [] := rfl

theorem clausesOfMembers_append (as bs : List Member) :
    clausesOfMembers (as ++ bs) = clausesOfMembers as ++ clausesOfMembers bs := by
  simp [clausesOfMembers, ownedMethodsOfMembers_append]

theorem clausesOfTypes_append (as bs : List TypeDecl) :
    clausesOfTypes (as ++ bs) = clausesOfTypes as ++ clausesOfTypes bs := by
  simp [clausesOfTypes, ownedMethodsOfTypes_append]

@[simp] theorem clausesOfMembers_map_type (ds : List TypeDecl) :
    clausesOfMembers (ds.map .type) = clausesOfTypes ds := by
  simp [clausesOfMembers, clausesOfTypes, ownedMethodsOfMembers_map_type]

/-- The type around the methods does not matter. -/
theorem clauses_ownedMethodsOfMembers (enclosing : TypeHead) (ms : List Member) :
    ((ownedMethodsOfMembers enclosing ms).flatMap fun owned => owned.2.clauseRanges) =
      clausesOfMembers ms := by
  unfold clausesOfMembers
  induction ms with
  | nil => rfl
  | cons m ms ih =>
    cases m with
    | method m locals => simp [ownedMethodsOfMembers, ih]
    | type d => simp [ownedMethodsOfMembers, ih]

@[simp] theorem clausesOfTypes_mk (head : TypeHead) (ms : List Member) :
    clausesOfTypes [.mk head ms] = clausesOfMembers ms := by
  rw [← clauses_ownedMethodsOfMembers head]
  simp [clausesOfTypes, ownedMethodsOfTypes, TypeDecl.ownedMethods]

@[simp] theorem clausesOfMembers_method (m : Method) (locals : List TypeDecl) :
    clausesOfMembers [.method m locals] = clausesOfTypes locals ++ m.clauseRanges := by
  simp [clausesOfMembers, clausesOfTypes, ownedMethodsOfMembers]

/-- The node lies in the source the way that its clauses need it: methods do not start with their
    clauses, bodies are no clauses, and argument lists no bodies. -/
structure Arranged (source : List Char) (n : Node) : Prop where
  wellBuilt : WellBuilt source n
  body : n.FieldAvoids "body" ["throws"]
  arguments : n.FieldAvoids "arguments" ["class_body"]

theorem Arranged.children {n : Node} (h : Arranged source n) :
    ∀ c ∈ n.children, Arranged source c :=
  fun c hc => ⟨h.wellBuilt.children c hc, h.body.children c hc, h.arguments.children c hc⟩

theorem arranged_of_javaTree {root : Node} (h : javaTree source = some root) :
    ∀ c ∈ root.children, Arranged source c :=
  fun c hc => ⟨wellBuilt_of_javaTree h c hc, javaTree_body_ne_throws h c hc,
    javaTree_arguments_ne_class_body h c hc⟩

theorem Arranged.inside_of_mem {n c : Node} (h : Arranged source n) (hc : c ∈ n.children) :
    c.span.Inside n.span := by
  obtain ⟨-, hstart, hstop⟩ := h.wellBuilt.1.children.placed_of_mem hc
  exact ⟨hstart, hstop⟩

/-- The clause of a method lies in its node, apart from the body. -/
theorem method_clause_apart {s : Scope} {ds : DeclaredTypes} {owner : String}
    {recordParams : List Param} {n : Node} (hn : Arranged source n) (hnamed : n.named)
    (hmethod : isMethodNode n.kind) (hne : (s.method ds owner recordParams n).throwsEntries ≠ []) :
    (s.method ds owner recordParams n).clauseSpan.Inside n.span ∧
      ∀ b ∈ n.children, isBody b →
        b.span.Disjoint (s.method ds owner recordParams n).clauseSpan := by
  cases hclause : Scope.clauseIn none n.children with
  | none => exact absurd (method_throwsEntries_of_none hclause) hne
  | some found =>
    obtain ⟨p, clause⟩ := found
    obtain ⟨front, previous, back, hchildren, rfl⟩ :=
      exists_clauseIn hn.wellBuilt.2 hnamed hmethod hclause
    obtain ⟨-, -, -, hkind, -⟩ := Scope.clauseIn_eq_some hclause
    have hplaced := hn.wellBuilt.1.children
    rw [method_clauseSpan hclause]
    rw [hchildren] at hplaced ⊢
    obtain ⟨mid, hfront, hlo, hprevious, hle, hthrows, hback⟩ := hplaced.exists_of_append
    have hmid := hfront.le
    have hpos := hprevious.nonempty
    have hstop := hback.le
    refine ⟨⟨?_, hstop⟩, fun b hb hbody => ?_⟩
    · show n.span.start ≤ previous.span.stop
      omega
    · -- The clause starts where the child before it ends, so the body is before that or behind.
      have hfield : b.field = some "body" := by simpa [isBody] using hbody
      have hnot : b ≠ clause := by
        rintro rfl
        have havoids := hn.body.children b (by rw [hchildren]; exact hb)
        exact havoids.kind hfield (by simp [hkind])
      rw [List.mem_append, List.mem_cons, List.mem_cons] at hb
      rcases hb with hb | rfl | hb | hb
      · left
        have hbefore := (hfront.placed_of_mem hb).2.2
        show b.span.stop ≤ previous.span.stop
        omega
      · exact .inl (Nat.le_refl _)
      · exact absurd hb hnot
      · exact .inr (hback.placed_of_mem hb).2.1

/-- The clause of a method does not meet those of the types in its body. -/
theorem method_clauses_packed {s : Scope} {ds : DeclaredTypes} {owner : String}
    {recordParams : List Param} {n : Node} {locals : List Span} (hn : Arranged source n)
    (hnamed : n.named) (hmethod : isMethodNode n.kind)
    (hlocals : locals = [] ∨ ∃ b ∈ n.children, isBody b ∧ Packed b.span locals) :
    Packed n.span (locals ++ (s.method ds owner recordParams n).clauseRanges) := by
  have hinner : Packed n.span locals := by
    rcases hlocals with rfl | ⟨b, hb, -, hpacked⟩
    · exact .nil _
    · exact hpacked.mono (hn.inside_of_mem hb)
  by_cases hne : (s.method ds owner recordParams n).throwsEntries = []
  · simpa [Method.clauseRanges, hne] using hinner
  · obtain ⟨hinside, hapart⟩ := method_clause_apart hn hnamed hmethod hne
    rw [clauseRanges_of_ne_nil hne]
    have hclause : Packed (s.method ds owner recordParams n).clauseSpan
        [(s.method ds owner recordParams n).clauseSpan] :=
      ⟨List.forall_mem_singleton.2 (.refl _), List.pairwise_singleton _ _⟩
    rcases hlocals with rfl | ⟨b, hb, hbody, hpacked⟩
    · exact hclause.mono hinside
    · exact hpacked.append hclause (hn.inside_of_mem hb) hinside (hapart b hb hbody)

/-! ## Clauses of the walk -/

/-- The clauses of the members that a node yields lie apart from each other in the node. -/
def MembersPacked (source : List Char) (_ : String) (n : Node) (ms : List Member) : Prop :=
  Arranged source n → Packed n.span (clausesOfMembers ms)

/-- The clauses of the types that a node yields lie apart from each other in the node. -/
def TypesPacked (source : List Char) (_ : String) (n : Node) (ds : List TypeDecl) : Prop :=
  Arranged source n → Packed n.span (clausesOfTypes ds)

section Walk

variable {n : Node} {parent : String}

theorem members_packed {ms : List Member} (hn : Arranged source n)
    (h : Yields (MembersPacked source parent) n.children ms) :
    Packed n.span (clausesOfMembers ms) :=
  h.packed rfl clausesOfMembers_append hn.wellBuilt.1.children
    fun c hc _ hms => hms (hn.children c hc)

theorem types_packed {ds : List TypeDecl} (hn : Arranged source n)
    (h : Yields (TypesPacked source parent) n.children ds) : Packed n.span (clausesOfTypes ds) :=
  h.packed rfl clausesOfTypes_append hn.wellBuilt.1.children
    fun c hc _ hds => hds (hn.children c hc)

theorem firstMembers_packed {isWanted : Node → Bool} {ms : List Member} (hn : Arranged source n)
    (h : FirstYields (MembersPacked source) isWanted n.children ms) :
    clausesOfMembers ms = [] ∨
      ∃ c ∈ n.children, isWanted c ∧ Packed c.span (clausesOfMembers ms) :=
  h.packed rfl clausesOfMembers_append hn.wellBuilt.1
    fun c hc d hd _ hms => hms ((hn.children c hc).children d hd)

theorem firstTypes_packed {isWanted : Node → Bool} {ds : List TypeDecl} (hn : Arranged source n)
    (h : FirstYields (TypesPacked source) isWanted n.children ds) :
    clausesOfTypes ds = [] ∨ ∃ c ∈ n.children, isWanted c ∧ Packed c.span (clausesOfTypes ds) :=
  h.packed rfl clausesOfTypes_append hn.wellBuilt.1
    fun c hc d hd _ hds => hds ((hn.children c hc).children d hd)

theorem packed_of_child {isWanted : Node → Bool} {spans : List Span} (hn : Arranged source n)
    (h : spans = [] ∨ ∃ c ∈ n.children, isWanted c ∧ Packed c.span spans) :
    Packed n.span spans := by
  rcases h with rfl | ⟨c, hc, -, hpacked⟩
  · exact .nil _
  · exact hpacked.mono (hn.inside_of_mem hc)

/-- The arguments of a `new` expression or an enum constant, and its class body. -/
theorem argumentsAndBody_packed {body : Node} {created : List TypeDecl} {ms : List Member}
    (hn : Arranged source n) (hbody : n.childOfKind "class_body" = some body)
    (hcreated : FirstYields (TypesPacked source) isArguments n.children created)
    (hms : Yields (MembersPacked source parent) body.children ms) :
    Packed n.span (clausesOfTypes created ++ clausesOfMembers ms) := by
  have hmem : body ∈ n.children := List.mem_of_find?_eq_some hbody
  have hkind : body.kind = "class_body" := by simpa using List.find?_some hbody
  have hmembers := members_packed (hn.children body hmem) hms
  rcases firstTypes_packed hn hcreated with hnone | ⟨c, hc, hwanted, hpacked⟩
  · rw [hnone]
    exact hmembers.mono (hn.inside_of_mem hmem)
  · have hfield : c.field = some "arguments" := by simpa [isArguments] using hwanted
    have hne : c ≠ body := by
      rintro rfl
      exact (hn.arguments.children c hc).kind hfield (by simp [hkind])
    exact hpacked.append hmembers (hn.inside_of_mem hc) (hn.inside_of_mem hmem)
      (disjoint_of_placed hn.wellBuilt.1.children hc hmem hne)

end Walk

/-- Every step of the walk keeps the clauses apart. -/
theorem packed_walkInvariant :
    WalkInvariant source (fun n d => TypesPacked source "" n [d]) (MembersPacked source)
      (TypesPacked source) where
  ofType := by
    intro n head ms _ _ _ hms hn
    rw [clausesOfTypes_mk]
    exact packed_of_child hn (firstMembers_packed hn hms)
  ofUnnamed := by
    intro _ n _ _
    exact .nil _
  ofMethod := by
    intro _ n s ds owner recordParams locals hnamed hmethod _ hlocals hn
    rw [clausesOfMembers_method]
    exact method_clauses_packed hn hnamed hmethod (firstTypes_packed hn hlocals)
  ofMemberType := by
    intro _ n d _ hd hn
    exact clausesOfMembers_map_type [d] ▸ hd hn
  ofDeclarations := by
    intro _ n ms _ hms hn
    exact members_packed hn hms
  ofConstant := by
    intro _ n created _ _ hcreated hn
    rw [clausesOfMembers_map_type]
    exact packed_of_child hn (firstTypes_packed hn hcreated)
  ofConstantBody := by
    intro _ n body created head ms _ hbody hcreated _ _ hms hn
    rw [clausesOfMembers_append, clausesOfMembers_map_type]
    have hpacked := argumentsAndBody_packed hn hbody hcreated hms
    rw [← clausesOfTypes_mk head, ← clausesOfMembers_map_type [_]] at hpacked
    exact hpacked
  ofMember := by
    intro _ n ds _ _ _ _ hds hn
    rw [clausesOfMembers_map_type]
    exact types_packed hn hds
  ofInnerType := by
    intro _ n d _ hd hn
    exact hd hn
  ofCreation := by
    intro _ n created _ _ hcreated hn
    exact packed_of_child hn (firstTypes_packed hn hcreated)
  ofCreationBody := by
    intro _ n body created head ms _ hbody _ hcreated _ _ hms hn
    rw [clausesOfTypes_append, clausesOfTypes_mk]
    exact argumentsAndBody_packed hn hbody hcreated hms
  ofInner := by
    intro _ n ds _ _ hds hn
    exact types_packed hn hds

/-! ## The clauses of a file -/

theorem topYields_packed {n : Node} {ds : List TypeDecl} (hn : Arranged source n)
    (h : TopYields (fun n d => TypesPacked source "" n [d]) n ds) :
    Packed n.span (clausesOfTypes ds) := by
  unfold TopYields at h
  split at h
  · obtain ⟨d, hd, rfl⟩ := h
    exact hd hn
  · rw [h]
    exact .nil _

/-- **The clauses of a file that has been read do not meet.** -/
theorem clauses_disjoint_of_javaTree {root : Node} (h : javaTree source = some root) :
    (clausesOfTypes (CompilationUnit.ofTree source root).types).Pairwise Span.Disjoint := by
  have hyields := (packed_walkInvariant : WalkInvariant source _ _ _).ofTree root
  exact (hyields.packed rfl clausesOfTypes_append (javaTree_placed h)
    fun n hn _ hds => topYields_packed (arranged_of_javaTree h n hn) hds).disjoint

/-- Each clause in the types lies in a type node at the top level. -/
def ClausesInTypes (root : Node) (ds : List TypeDecl) : Prop :=
  ∀ clause ∈ clausesOfTypes ds,
    ∃ n ∈ root.children, isTypeNode n.kind ∧ clause.Inside n.span

/-- **Each clause lies in a type at the top level.** -/
theorem clauses_inTypes_of_javaTree {root : Node} (h : javaTree source = some root) :
    ClausesInTypes root (CompilationUnit.ofTree source root).types := by
  have hnil : ClausesInTypes root [] := by simp [ClausesInTypes]
  have happend : ∀ xs ys, ClausesInTypes root xs → ClausesInTypes root ys →
      ClausesInTypes root (xs ++ ys) := by
    intro xs ys hxs hys
    rw [ClausesInTypes, clausesOfTypes_append]
    exact List.forall_mem_append.2 ⟨hxs, hys⟩
  refine (packed_walkInvariant.ofTree root).of_append hnil happend fun n hn ds hds => ?_
  by_cases htype : n.named && isTypeNode n.kind
  · have hpacked := topYields_packed (arranged_of_javaTree h n hn) hds
    simp only [Bool.and_eq_true] at htype
    exact fun clause hclause => ⟨n, hn, htype.2, hpacked.inside clause hclause⟩
  · rw [TopYields, if_neg htype] at hds
    rwa [hds]

end JavaThrows
