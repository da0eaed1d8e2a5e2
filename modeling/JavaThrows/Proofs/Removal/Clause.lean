import JavaThrows.Proofs.Cst.Heads
import JavaThrows.Proofs.Cst.Place
import JavaThrows.Proofs.Decl.Lowering
import JavaThrows.Proofs.Removal.Frame

set_option autoImplicit false

/-!
# Clauses of files that have been read

In a file that has been read from a source, the clauses of all methods lie in the source the way
that their edits need it: behind the header, with the entries inside, one after the other. Main
statement: `clauseInPlace_of_javaTree`.
-/

namespace JavaThrows

open JavaThrows.Cst

variable {source : List Char}

/-! ## All methods of a walk -/

theorem ownedMethodsOfMembers_append (enclosing : TypeHead) (as bs : List Member) :
    ownedMethodsOfMembers enclosing (as ++ bs) =
      ownedMethodsOfMembers enclosing as ++ ownedMethodsOfMembers enclosing bs := by
  induction as with
  | nil => rfl
  | cons a as ih =>
    cases a with
    | method m locals => simp [ownedMethodsOfMembers, ih]
    | type d => simp [ownedMethodsOfMembers, ih]

theorem ownedMethodsOfMembers_map_type (enclosing : TypeHead) (ds : List TypeDecl) :
    ownedMethodsOfMembers enclosing (ds.map .type) = ownedMethodsOfTypes ds := by
  induction ds with
  | nil => rfl
  | cons d ds ih => rw [List.map_cons, ownedMethodsOfMembers, ownedMethodsOfTypes, ih]

theorem ownedMethodsOfTypes_append (as bs : List TypeDecl) :
    ownedMethodsOfTypes (as ++ bs) = ownedMethodsOfTypes as ++ ownedMethodsOfTypes bs := by
  induction as with
  | nil => rfl
  | cons a as ih => simp [ownedMethodsOfTypes, ih]

/-- All methods in the members have the property. -/
def MembersHave (P : Method → Prop) (ms : List Member) : Prop :=
  ∀ enclosing, ∀ owned ∈ ownedMethodsOfMembers enclosing ms, P owned.2

/-- All methods in the types have the property. -/
def TypesHave (P : Method → Prop) (ds : List TypeDecl) : Prop :=
  ∀ owned ∈ ownedMethodsOfTypes ds, P owned.2

section Have

variable {P : Method → Prop}

theorem MembersHave.nil : MembersHave P [] := by
  simp [MembersHave, ownedMethodsOfMembers]

theorem MembersHave.append {as bs : List Member} (ha : MembersHave P as) (hb : MembersHave P bs) :
    MembersHave P (as ++ bs) := by
  intro enclosing
  rw [ownedMethodsOfMembers_append]
  exact List.forall_mem_append.2 ⟨ha enclosing, hb enclosing⟩

theorem TypesHave.nil : TypesHave P [] := by
  simp [TypesHave, ownedMethodsOfTypes]

theorem TypesHave.append {as bs : List TypeDecl} (ha : TypesHave P as) (hb : TypesHave P bs) :
    TypesHave P (as ++ bs) := by
  rw [TypesHave, ownedMethodsOfTypes_append]
  exact List.forall_mem_append.2 ⟨ha, hb⟩

theorem TypesHave.members {ds : List TypeDecl} (h : TypesHave P ds) :
    MembersHave P (ds.map .type) := by
  intro enclosing
  rwa [ownedMethodsOfMembers_map_type]

theorem typesHave_singleton {head : TypeHead} {ms : List Member} (h : MembersHave P ms) :
    TypesHave P [.mk head ms] := by
  simpa [TypesHave, ownedMethodsOfTypes, TypeDecl.ownedMethods] using h head

end Have

/-- **What holds of every method as it is read holds of all methods of the walk.** The nodes may be
    taken to have a property that passes on to children. -/
theorem walkInvariant_of_methods {P : Method → Prop} {good : Node → Prop}
    (hchildren : ∀ {n}, good n → ∀ c ∈ n.children, good c)
    (hmethod : ∀ {n : Node} {s : Scope} (ds : DeclaredTypes) (owner : String)
      (recordParams : List Param), good n → n.named → isMethodNode n.kind → s.source = source →
      P (s.method ds owner recordParams n)) :
    WalkInvariant source (fun n d => good n → TypesHave P [d])
      (fun _ n ms => good n → MembersHave P ms) (fun _ n ds => good n → TypesHave P ds) := by
  have hmembers : ∀ {ns : List Node} {ms : List Member}, (∀ c ∈ ns, good c) →
      Yields (fun n ms => good n → MembersHave P ms) ns ms → MembersHave P ms :=
    fun hns h => h.of_append .nil (fun _ _ => .append) fun c hc _ hms => hms (hns c hc)
  have htypes : ∀ {ns : List Node} {ds : List TypeDecl}, (∀ c ∈ ns, good c) →
      Yields (fun n ds => good n → TypesHave P ds) ns ds → TypesHave P ds :=
    fun hns h => h.of_append .nil (fun _ _ => .append) fun c hc _ hds => hds (hns c hc)
  have hbody : ∀ {n body : Node}, good n → n.childOfKind "class_body" = some body →
      ∀ c ∈ body.children, good c :=
    fun hn hbody => hchildren (hchildren hn _ (List.mem_of_find?_eq_some hbody))
  have hcreated : ∀ {n : Node} {isWanted : Node → Bool} {ds : List TypeDecl}, good n →
      FirstYields (fun _ n ds => good n → TypesHave P ds) isWanted n.children ds →
      TypesHave P ds :=
    fun hn h => h.of_append .nil (fun _ _ => .append)
      fun c hc x hx _ hds => hds (hchildren (hchildren hn c hc) x hx)
  exact {
    ofType := fun _ _ _ hms hn => typesHave_singleton <| hms.of_append .nil (fun _ _ => .append)
      fun c hc x hx _ h => h (hchildren (hchildren hn c hc) x hx)
    ofUnnamed := fun _ _ => .nil
    ofMethod := fun {_ n s ds owner recordParams locals} hnamed hkind hs hlocals hn enclosing => by
      rw [ownedMethodsOfMembers, ownedMethodsOfMembers, List.forall_mem_append]
      refine ⟨hcreated hn hlocals, ?_⟩
      rw [List.forall_mem_singleton]
      exact hmethod ds owner recordParams hn hnamed hkind hs
    ofMemberType := fun _ hd hn => (hd hn).members
    ofDeclarations := fun _ hms hn => hmembers (hchildren hn) hms
    ofConstant := fun _ _ hds hn => (hcreated hn hds).members
    ofConstantBody := fun _ hbody' hds _ _ hms hn =>
      (hcreated hn hds).members.append (typesHave_singleton (hmembers (hbody hn hbody') hms)).members
    ofMember := fun _ _ _ _ hds hn => (htypes (hchildren hn) hds).members
    ofInnerType := fun _ hd hn => hd hn
    ofCreation := fun _ _ hds hn => hcreated hn hds
    ofCreationBody := fun _ hbody' _ hds _ _ hms hn =>
      (hcreated hn hds).append (typesHave_singleton (hmembers (hbody hn hbody') hms))
    ofInner := fun _ _ hds hn => htypes (hchildren hn) hds }

/-- What holds of every method as it is read holds of all methods of the file. -/
theorem forall_ownedMethods_ofTree {P : Method → Prop} {good : Node → Prop}
    (hchildren : ∀ {n}, good n → ∀ c ∈ n.children, good c)
    (hmethod : ∀ {n : Node} {s : Scope} (ds : DeclaredTypes) (owner : String)
      (recordParams : List Param), good n → n.named → isMethodNode n.kind → s.source = source →
      P (s.method ds owner recordParams n))
    {root : Node} (hroot : ∀ c ∈ root.children, good c) :
    ∀ owned ∈ (CompilationUnit.ofTree source root).ownedMethods, P owned.2 := by
  have htypes : TypesHave P (CompilationUnit.ofTree source root).types := by
    refine ((walkInvariant_of_methods hchildren hmethod).ofTree root).of_append .nil
      (fun _ _ => .append) fun c hc ds hds => ?_
    unfold TopYields at hds
    split at hds
    · obtain ⟨d, hd, rfl⟩ := hds
      exact hd (hroot c hc)
    · rw [hds]
      exact .nil
  exact htypes

/-! ## The clause of one method -/

theorem Scope.clauseIn_eq_some {previous p : Option Node} {ns : List Node} {clause : Node}
    (h : Scope.clauseIn previous ns = some (p, clause)) :
    ∃ front back, ns = front ++ clause :: back ∧ clause.kind = "throws" ∧
      p = front.getLast?.or previous := by
  induction ns generalizing previous with
  | nil => simp [Scope.clauseIn] at h
  | cons n ns ih =>
    rw [Scope.clauseIn] at h
    split at h
    · next hkind =>
      cases h
      exact ⟨[], ns, rfl, by simpa using hkind, by simp⟩
    · obtain ⟨front, back, rfl, hkind, rfl⟩ := ih h
      refine ⟨n :: front, back, rfl, hkind, ?_⟩
      cases front with
      | nil => simp
      | cons m front => simp [List.getLast?_cons]

/-- The nodes of the entries of a throws clause. -/
def entryNodes (clause : Node) : List Node :=
  clause.namedChildren.filter fun e => !e.isComment

theorem mem_children_of_mem_entryNodes {clause c : Node} (h : c ∈ entryNodes clause) :
    c ∈ clause.children := by
  exact (List.mem_filter.1 (List.mem_filter.1 h).1).1

theorem entryNodes_sublist (clause : Node) : (entryNodes clause).Sublist clause.children :=
  List.filter_sublist.trans List.filter_sublist

section Clause

variable {s : Scope} {ds : DeclaredTypes} {owner : String} {recordParams : List Param} {n : Node}

theorem method_throwsEntries_of_none (h : Scope.clauseIn none n.children = none) :
    (s.method ds owner recordParams n).throwsEntries = [] := by
  simp [Scope.method, Method.throwsEntries, h]

theorem method_throwsEntries {p : Option Node} {clause : Node}
    (h : Scope.clauseIn none n.children = some (p, clause)) :
    (s.method ds owner recordParams n).throwsEntries =
      (entryNodes clause).map ((s.withTypeVars (s.typeParams ds n)).typeRef ds) := by
  simp [Scope.method, Method.throwsEntries, h, entryNodes]

theorem method_clauseSpan {previous clause : Node}
    (h : Scope.clauseIn none n.children = some (some previous, clause)) :
    (s.method ds owner recordParams n).clauseSpan = ⟨previous.span.stop, clause.span.stop⟩ := by
  simp [Scope.method, Method.clauseSpan, h]

/-- The clause of a method comes after another child. -/
theorem exists_clauseIn {p : Option Node} {clause : Node} (hheaded : n.Headed) (hnamed : n.named)
    (hmethod : isMethodNode n.kind) (h : Scope.clauseIn none n.children = some (p, clause)) :
    ∃ front previous back, n.children = front ++ previous :: clause :: back ∧ p = some previous := by
  obtain ⟨front, back, hchildren, hkind, hp⟩ := Scope.clauseIn_eq_some h
  cases n with
  | mk kind field named span children =>
    obtain ⟨first, others, hfirst, hne⟩ := hheaded.1 hnamed hmethod
    rcases List.eq_nil_or_concat front with rfl | ⟨init, previous, rfl⟩
    · -- The clause would be the first child.
      simp only [List.nil_append] at hchildren
      rw [hfirst, List.cons.injEq] at hchildren
      exact absurd (hchildren.1 ▸ hkind) hne
    · exact ⟨init, previous, back, by simpa using hchildren, by simpa using hp⟩

/-- **The clause of a method lies in the source** behind the header, with its entries inside. -/
theorem method_clauseInPlace (hplaced : n.Placed source) (hheaded : n.Headed) (hnamed : n.named)
    (hmethod : isMethodNode n.kind)
    (hne : (s.method ds owner recordParams n).throwsEntries ≠ []) :
    (s.method ds owner recordParams n).ClauseInPlace source := by
  cases hclause : Scope.clauseIn none n.children with
  | none => exact absurd (method_throwsEntries_of_none hclause) hne
  | some found =>
    obtain ⟨p, clause⟩ := found
    obtain ⟨front, previous, back, hchildren, rfl⟩ :=
      exists_clauseIn hheaded hnamed hmethod hclause
    have hplace := hplaced.children
    rw [hchildren] at hplace
    obtain ⟨mid, -, -, hprevious, hle, hclausePlaced, -⟩ := hplace.exists_of_append
    have hentries := hclausePlaced.children
    have hspan : (s.method ds owner recordParams n).clauseSpan =
        ⟨previous.span.stop, clause.span.stop⟩ := method_clauseSpan hclause
    have hlt := hclausePlaced.nonempty
    -- The header ends with the child before the clause, and the entries are children of the clause.
    refine ⟨?_, ?_, ⟨?_, ?_⟩, ?_, ?_⟩
    · simp [Scope.method, hclause]
    · rw [hspan]
      refine ⟨?_, hprevious.isPieceOf.stop_isBoundary, hclausePlaced.isPieceOf.stop_isBoundary⟩
      show previous.span.stop ≤ clause.span.stop
      omega
    · rw [method_throwsEntries hclause, List.forall_mem_map]
      exact fun c hc => (hentries.placed_of_mem (mem_children_of_mem_entryNodes hc)).1.nonempty
    · rw [method_throwsEntries hclause, List.pairwise_map]
      exact hentries.pairwise.sublist (entryNodes_sublist clause)
    · rw [method_throwsEntries hclause, List.forall_mem_map]
      exact fun c hc => (hentries.placed_of_mem (mem_children_of_mem_entryNodes hc)).1.isPieceOf
    · rw [method_throwsEntries hclause, List.forall_mem_map, hspan]
      intro c hc
      obtain ⟨-, hstart, hstop⟩ := hentries.placed_of_mem (mem_children_of_mem_entryNodes hc)
      exact ⟨Nat.le_trans hle hstart, hstop⟩

end Clause

/-! ## The clauses of a file -/

/-- The node lies in the source, and its methods do not start with their throws clauses. -/
def WellBuilt (source : List Char) (n : Node) : Prop :=
  n.Placed source ∧ n.Headed

theorem WellBuilt.children {n : Node} (h : WellBuilt source n) :
    ∀ c ∈ n.children, WellBuilt source c := by
  intro c hc
  refine ⟨(h.1.children.placed_of_mem hc).1, ?_⟩
  cases n with
  | mk kind field named span children => exact allHeaded_iff.1 h.2.2 c hc

theorem wellBuilt_of_javaTree {root : Node} (h : javaTree source = some root) :
    ∀ c ∈ root.children, WellBuilt source c :=
  fun c hc => ⟨((javaTree_placed h).placed_of_mem hc).1, allHeaded_iff.1 (javaTree_headed h) c hc⟩

/-- **The clauses of a file that has been read are in place.** -/
theorem clauseInPlace_of_javaTree {root : Node} (h : javaTree source = some root) :
    ∀ owned ∈ (CompilationUnit.ofTree source root).ownedMethods,
      owned.2.throwsEntries ≠ [] → owned.2.ClauseInPlace source :=
  forall_ownedMethods_ofTree (P := fun m => m.throwsEntries ≠ [] → m.ClauseInPlace source)
    WellBuilt.children
    (fun _ _ _ hn hnamed hmethod _ => method_clauseInPlace hn.1 hn.2 hnamed hmethod)
    (wellBuilt_of_javaTree h)

/-- The lines of the imports of a file that has been read lie in its text. -/
theorem importLine_isPieceOf_of_javaTree {root : Node} (h : javaTree source = some root) :
    ∀ i ∈ (CompilationUnit.ofTree source root).imports, i.lineSpan.IsPieceOf source := by
  intro i hi
  obtain ⟨n, hn, rfl⟩ := List.mem_map.1 hi
  have hplaced := ((javaTree_placed h).placed_of_mem (List.mem_filter.1 hn).1).1
  exact Text.lineSpan_isPieceOf hplaced.isPieceOf

/-- **What a rewrite leaves of a file that has been read**: its text without the cuts, wherever
    they lie. -/
theorem Removal.rewrite_eq_cut {r : Removal} {index : TypeIndex} {root : Node} {out : Rewritten}
    (h : javaTree source = some root)
    (hout : r.rewrite index source (.ofTree source root) = .ok out) (hlog : out.log ≠ ⟨[], false⟩) :
    out.log = (r.visitUnit index (.ofTree source root)).log ∧
      out.text = Text.cut (r.cuts index (.ofTree source root) source) source := by
  obtain ⟨hprint, hsame⟩ := (r.rewrite_eq_ok_iff index _).1 hout
  unfold visitSource at hprint hsame
  split at hsame
  · -- The file is left alone.
    exact absurd hsame hlog
  · next hgate =>
    rw [if_neg hgate] at hprint
    exact ⟨hsame, r.printRewrite_eq_cut index _ (clauseInPlace_of_javaTree h)
      (importLine_isPieceOf_of_javaTree h) hprint⟩

end JavaThrows
