import JavaThrows.Proofs.Decl.Apart

set_option autoImplicit false

/-!
# The types at the top level of a file

The types at the top level of a file are read one after the other, but none of them sees what
another one has left in the table of declared types, beyond what the first pass has entered for it:
their full names tell apart what is inside of them. So each is read as if the first pass had just
been made. Main statements: `find?_top`, `find?_inside` and `lowerTypes_settled`.
-/

namespace JavaThrows

open Cst Text

/-! ## What the first pass enters -/

/-- A type that is declared counts where the table has none before it. -/
theorem DeclaredTypes.find?_declare_or (ds : DeclaredTypes) (owner name fqn o x : String) :
    (ds.declare owner name fqn).find? o x =
      (ds.find? o x).or ((declare [] owner name fqn).find? o x) := by
  rw [find?_declare, find?_declare]
  by_cases h : o = owner ∧ x = name
  · rw [if_pos h, if_pos h, h.1, h.2]
    cases ds.find? owner name <;> rfl
  · rw [if_neg h, if_neg h]
    exact (Option.or_none).symm

-- The recursion of the first pass itself.
mutual
theorem find?_declareType (s : Scope) (parent : Option String) (ds : DeclaredTypes) (n : Node)
    (o x : String) :
    (declareType s parent ds n).find? o x =
      (ds.find? o x).or ((declareType s parent [] n).find? o x) := by
  match n with
  | ⟨kind, field, named, span, children⟩ =>
    rw [declareType, declareType]
    dsimp only
    split
    · next name _ _ =>
      rw [find?_declareBody, find?_declareBody s _ (DeclaredTypes.declare [] _ _ _),
        DeclaredTypes.find?_declare_or, Option.or_assoc]
    · exact (Option.or_none).symm

theorem find?_declareBody (s : Scope) (fqn : String) (ds : DeclaredTypes) (ns : List Node)
    (o x : String) :
    (declareBody s fqn ds ns).find? o x =
      (ds.find? o x).or ((declareBody s fqn [] ns).find? o x) := by
  match ns with
  | [] =>
    rw [declareBody, declareBody]
    exact (Option.or_none).symm
  | ⟨_, field, _, _, children⟩ :: ns =>
    rw [declareBody, declareBody]
    split
    · exact find?_declareMembers s (some fqn) ds children o x
    · exact find?_declareBody s fqn ds ns o x

theorem find?_declareMembers (s : Scope) (parent : Option String) (ds : DeclaredTypes)
    (ns : List Node) (o x : String) :
    (declareMembers s parent ds ns).find? o x =
      (ds.find? o x).or ((declareMembers s parent [] ns).find? o x) := by
  match ns with
  | [] =>
    rw [declareMembers, declareMembers]
    exact (Option.or_none).symm
  | ⟨kind, field, named, span, children⟩ :: ns =>
    rw [declareMembers, declareMembers, find?_declareMembers s parent _ ns,
      find?_declareMembers s parent (ite _ _ _) ns, ← Option.or_assoc]
    refine congrArg (Option.or · _) ?_
    split
    · exact find?_declareMembers s parent ds children o x
    · exact find?_declareType s parent ds _ o x
end

/-- The types of a row are declared one node after the other. -/
theorem find?_declareMembers_cons (s : Scope) (parent : Option String) (n : Node) (ns : List Node)
    (hkind : n.kind ≠ "enum_body_declarations") (o x : String) :
    (declareMembers s parent [] (n :: ns)).find? o x =
      ((declareType s parent [] n).find? o x).or ((declareMembers s parent [] ns).find? o x) := by
  obtain ⟨kind, field, named, span, children⟩ := n
  rw [declareMembers, if_neg (by simpa using hkind), find?_declareMembers]

-- The recursion of the first pass itself.
mutual
/-- A type is entered under its own name, and else only what is inside of it. -/
theorem eq_or_inside_of_declareType {s : Scope} {parent : Option String} {n : Node}
    {o x fqn : String} (h : (declareType s parent [] n).find? o x = some fqn) :
    o = parent.getD "" ∧ x = s.nameOf n ∧ fqn = s.qualify parent (s.nameOf n) ∨
      Inside (s.qualify parent (s.nameOf n)) o := by
  match n with
  | ⟨kind, field, named, span, children⟩ =>
    rw [declareType] at h
    dsimp only at h
    split at h
    · next name _ hname =>
      have hnameOf : s.nameOf ⟨kind, field, named, span, children⟩ = s.text name := by
        rw [Scope.nameOf, hname]
        rfl
      rw [hnameOf]
      rw [find?_declareBody, DeclaredTypes.find?_declare] at h
      split at h
      · next heq =>
        refine .inl ⟨heq.1, heq.2, ?_⟩
        exact (Option.some.inj (by simpa [DeclaredTypes.find?] using h)).symm
      · exact .inr (inside_of_declareBody h)
    · cases h

theorem inside_of_declareBody {s : Scope} {owner o x fqn : String} {ns : List Node}
    (h : (declareBody s owner [] ns).find? o x = some fqn) : Inside owner o := by
  match ns with
  | [] =>
    rw [declareBody] at h
    cases h
  | ⟨_, field, _, _, children⟩ :: ns =>
    rw [declareBody] at h
    split at h
    · exact inside_of_declareMembers h
    · exact inside_of_declareBody h

theorem inside_of_declareMembers {s : Scope} {owner o x fqn : String} {ns : List Node}
    (h : (declareMembers s (some owner) [] ns).find? o x = some fqn) : Inside owner o := by
  match ns with
  | [] =>
    rw [declareMembers] at h
    cases h
  | ⟨kind, field, named, span, children⟩ :: ns =>
    rw [declareMembers, find?_declareMembers, Option.or_eq_some_iff] at h
    rcases h with h | ⟨-, h⟩
    · split at h
      · exact inside_of_declareMembers h
      · rcases eq_or_inside_of_declareType h with ⟨howner, -, -⟩ | hinside
        · rw [howner]
          exact .refl owner
        · exact (Inside.member owner _).trans hinside
    · exact inside_of_declareMembers h
end

/-- Copies declare the same types. -/
theorem Copies.declare {s s' : Scope} {ns ns' : List Node} (h : Copies s.source s'.source ns ns')
    (hs : s.packagePrefix = s'.packagePrefix) :
    (∀ parent ds, declareMembers s parent ds ns = declareMembers s' parent ds ns') ∧
      (∀ fqn ds, declareBody s fqn ds ns = declareBody s' fqn ds ns') ∧
      List.Forall₂ (fun n n' => ∀ parent ds,
        declareType s parent ds n = declareType s' parent ds n') ns ns' := by
  induction h with
  | nil =>
    exact ⟨fun _ _ => by rw [declareMembers, declareMembers],
      fun _ _ => by rw [declareBody, declareBody], .nil⟩
  | @cons kind field named span span' children children' ns ns' htext hchildren _ ihchildren ih =>
    have hcopy : Copy s.source s'.source ⟨kind, field, named, span, children⟩
      ⟨kind, field, named, span', children'⟩ := ⟨rfl, rfl, rfl, htext, hchildren⟩
    have htype (parent : Option String) (ds : DeclaredTypes) :
        declareType s parent ds ⟨kind, field, named, span, children⟩ =
          declareType s' parent ds ⟨kind, field, named, span', children'⟩ := by
      have hname := hcopy.childByField "name"
      rw [declareType, declareType]
      generalize Node.childByField ⟨kind, field, named, span, children⟩ "name" = name,
        Node.childByField ⟨kind, field, named, span', children'⟩ "name" = name' at hname ⊢
      cases hname with
      | none => cases named && isTypeNode kind <;> rfl
      | @some c c' hc =>
        have htext : s.text c = s'.text c' := hc.text
        have hqualify : s.qualify parent (s.text c) = s'.qualify parent (s'.text c') := by
          rw [htext]
          cases parent <;> simp [Scope.qualify, hs]
        cases named && isTypeNode kind with
        | false => rfl
        | true =>
          dsimp only
          rw [hqualify, htext, ihchildren.2.1]
    refine ⟨fun parent ds => ?_, fun fqn ds => ?_, .cons htype ih.2.2⟩
    · rw [declareMembers, declareMembers, htype, ihchildren.1, ih.1]
    · rw [declareBody, declareBody, ihchildren.1, ih.2.1]

theorem Copy.declareType {s s' : Scope} {n n' : Node} (h : Copy s.source s'.source n n')
    (hs : s.packagePrefix = s'.packagePrefix) (parent : Option String) (ds : DeclaredTypes) :
    declareType s parent ds n = declareType s' parent ds n' := by
  obtain ⟨kind, field, named, span, children⟩ := n
  obtain ⟨kind', field', named', span', children'⟩ := n'
  obtain ⟨rfl, rfl, rfl, htext, hchildren⟩ := h
  obtain ⟨-, -, htypes⟩ := (Copies.cons htext hchildren .nil).declare hs
  exact (List.forall₂_cons.1 htypes).1 parent ds

/-! ## Types at the top level -/

/-- The declarations of types among the nodes. -/
def typeNodes (ns : List Node) : List Node :=
  ns.filter fun n => n.named && isTypeNode n.kind

theorem lowerTypes_typeNodes (s : Scope) (ns : List Node) :
    lowerTypes s (typeNodes ns) = lowerTypes s ns := by
  induction ns with
  | nil => rfl
  | cons n ns ih =>
    rw [typeNodes] at ih ⊢
    cases h : n.named && isTypeNode n.kind with
    | false => rw [List.filter_cons, lowerTypes, h, if_neg (by simp), if_neg (by simp), ih]
    | true => rw [List.filter_cons, if_pos h, lowerTypes, lowerTypes, ih]

theorem declareMembers_typeNodes (s : Scope) (parent : Option String) (ds : DeclaredTypes)
    (ns : List Node) (h : ∀ n ∈ ns, n.kind ≠ "enum_body_declarations") :
    declareMembers s parent ds (typeNodes ns) = declareMembers s parent ds ns := by
  induction ns generalizing ds with
  | nil => rfl
  | cons n ns ih =>
    rw [List.forall_mem_cons] at h
    rw [typeNodes] at ih ⊢
    obtain ⟨kind, field, named, span, children⟩ := n
    have hkind : ¬ (kind == "enum_body_declarations") := by simpa using h.1
    cases htype : named && isTypeNode kind with
    | false =>
      rw [List.filter_cons, if_neg (by simp [htype]), ih _ h.2, declareMembers, if_neg hkind,
        declareType, htype]
    | true =>
      rw [List.filter_cons, if_pos htype, declareMembers, declareMembers, ih _ h.2]

/-- Declarations of types with names by which they are told apart. -/
structure Separate (s : Scope) (ns : List Node) : Prop where
  types : ∀ n ∈ ns, n.named ∧ isTypeNode n.kind
  named : ∀ n ∈ ns, s.nameOf n ≠ ""
  plain : ∀ n ∈ ns, '.' ∉ (s.nameOf n).toList
  apart : ns.Pairwise fun n m =>
    ¬ Inside (s.nameOf n) (s.nameOf m) ∧ ¬ Inside (s.nameOf m) (s.nameOf n)

/-- The full name of a type at the top level. -/
def Scope.topName (s : Scope) (n : Node) : String :=
  s.packagePrefix ++ s.nameOf n

theorem topName_ne_empty {s : Scope} {n : Node} (h : s.nameOf n ≠ "") : s.topName n ≠ "" := by
  intro htop
  have hlength := congrArg String.length htop
  rw [Scope.topName, String.length_append] at hlength
  exact h (String.length_eq_zero_iff.1 (Nat.eq_zero_of_add_eq_zero_left hlength))

theorem isTypeNode_ne_declarations {kind : String} (h : isTypeNode kind) :
    kind ≠ "enum_body_declarations" := by
  rintro rfl
  exact absurd h (by decide)

section TopLevel

variable {s : Scope} {ns : List Node}

theorem Separate.tail {n : Node} (h : Separate s (n :: ns)) : Separate s ns where
  types m hm := h.types m (List.mem_cons_of_mem n hm)
  named m hm := h.named m (List.mem_cons_of_mem n hm)
  plain m hm := h.plain m (List.mem_cons_of_mem n hm)
  apart := (List.pairwise_cons.1 h.apart).2

theorem Separate.not_inside {n m : Node} (h : Separate s (n :: ns)) (hm : m ∈ ns) {o : String}
    (hn : Inside (s.topName n) o) : ¬ Inside (s.topName m) o := by
  obtain ⟨hnm, hmn⟩ := (List.pairwise_cons.1 h.apart).1 m hm
  exact hn.disjoint (h.plain n List.mem_cons_self) (h.plain m (List.mem_cons_of_mem n hm)) hnm hmn

/-- **The types at the top level that the first pass finds.** -/
theorem Separate.find?_top (h : Separate s ns) (x : String) :
    (declareMembers s none [] ns).find? "" x =
      if x ∈ ns.map s.nameOf then some (s.packagePrefix ++ x) else none := by
  induction ns with
  | nil =>
    rw [declareMembers]
    rfl
  | cons n ns ih =>
    have hn := h.types n List.mem_cons_self
    have hname := h.named n List.mem_cons_self
    have htop : (declareType s none [] n).find? "" x =
        if x = s.nameOf n then some (s.topName n) else none := by
      obtain ⟨kind, field, named, span, children⟩ := n
      rw [declareType, Bool.and_eq_true_iff.2 hn]
      cases hfound : Node.childByField ⟨kind, field, named, span, children⟩ "name" with
      | none => exact absurd (by rw [Scope.nameOf, hfound]; rfl) hname
      | some c =>
        have hnameOf : s.nameOf ⟨kind, field, named, span, children⟩ = s.text c := by
          rw [Scope.nameOf, hfound]
          rfl
        have hbody : (declareBody s (s.packagePrefix ++ s.text c) [] children).find? "" x =
            none := by
          rw [← Option.not_isSome_iff_eq_none, Option.isSome_iff_exists]
          rintro ⟨fqn, hfqn⟩
          have hinside : Inside (s.topName ⟨kind, field, named, span, children⟩) "" := by
            rw [Scope.topName, hnameOf]
            exact inside_of_declareBody hfqn
          exact hinside.ne_empty (topName_ne_empty hname) rfl
        dsimp only
        rw [Scope.qualify, find?_declareBody, hbody, Option.or_none, DeclaredTypes.find?_declare,
          Scope.topName, hnameOf]
        simp [DeclaredTypes.find?]
    rw [find?_declareMembers_cons s none n ns (isTypeNode_ne_declarations hn.2), htop, ih h.tail,
      List.map_cons]
    by_cases hx : x = s.nameOf n
    · rw [if_pos hx, Option.some_or, hx, if_pos List.mem_cons_self, Scope.topName]
    · rw [if_neg hx, Option.none_or]
      simp only [List.mem_cons, hx, false_or]

/-- Nothing is found where no type of the row is. -/
theorem Separate.find?_eq_none (h : Separate s ns) {o : String} (ho : o ≠ "")
    (hout : ∀ n ∈ ns, ¬ Inside (s.topName n) o) (x : String) :
    (declareMembers s none [] ns).find? o x = none := by
  induction ns with
  | nil =>
    rw [declareMembers]
    rfl
  | cons n ns ih =>
    rw [List.forall_mem_cons] at hout
    have hkind := isTypeNode_ne_declarations (h.types n List.mem_cons_self).2
    rw [find?_declareMembers_cons s none n ns hkind, ih h.tail hout.2, Option.or_none,
      ← Option.not_isSome_iff_eq_none, Option.isSome_iff_exists]
    rintro ⟨fqn, hfqn⟩
    rcases eq_or_inside_of_declareType hfqn with ⟨heq, -, -⟩ | hinside
    · exact ho heq
    · exact hout.1 hinside

/-- **What the first pass finds inside of a type at the top level** depends on this type only. -/
theorem Separate.find?_inside (h : Separate s ns) {n : Node} (hn : n ∈ ns) {o : String}
    (hin : Inside (s.topName n) o) (x : String) :
    (declareMembers s none [] ns).find? o x = (declareType s none [] n).find? o x := by
  have ho := hin.ne_empty (topName_ne_empty (h.named n hn))
  induction ns with
  | nil => cases hn
  | cons m ns ih =>
    have hkind := isTypeNode_ne_declarations (h.types m List.mem_cons_self).2
    rw [find?_declareMembers_cons s none m ns hkind]
    rcases List.mem_cons.1 hn with rfl | hn
    · rw [h.tail.find?_eq_none ho (fun k hk => h.not_inside hk hin), Option.or_none]
    · have hnone : (declareType s none [] m).find? o x = none := by
        rw [← Option.not_isSome_iff_eq_none, Option.isSome_iff_exists]
        rintro ⟨fqn, hfqn⟩
        rcases eq_or_inside_of_declareType hfqn with ⟨heq, -, -⟩ | hinside
        · exact ho heq
        · exact h.not_inside hn hinside hin
      rw [hnone, Option.none_or, ih h.tail hn]

/-! ## The walk over the top level -/

/-- Two tables that say the same of the type, of all inside of it and of the top level. -/
structure SameAround (top : String) (ds ds' : DeclaredTypes) : Prop where
  inner : ∀ {o : String}, Inside top o → ∀ x, ds.find? o x = ds'.find? o x
  outer : ∀ x, ds.find? "" x = ds'.find? "" x

/-- **Each type at the top level is read as if the first pass had just been made.** -/
theorem Separate.lowerTypes_settled (h : Separate s ns) {declared : DeclaredTypes}
    (hdeclared : ∀ n ∈ ns, declared.find? "" (s.nameOf n) = some (s.topName n)) {w : Walk}
    (hw : ∀ n ∈ ns, SameAround (s.topName n) declared w.declared)
    (houter : ∀ x, declared.find? "" x = w.declared.find? "" x) :
    List.Forall₂ (fun n d => ∃ ds, SameAround (s.topName n) declared ds ∧
        d = ((lowerType s none n).run ⟨ds, w.anonymous⟩).1)
      ns ((lowerTypes s ns).run w).1 := by
  induction ns generalizing w with
  | nil => exact .nil
  | cons n ns ih =>
    have htype : (n.named && isTypeNode n.kind) = true :=
      Bool.and_eq_true_iff.2 (h.types n List.mem_cons_self)
    have hwalk : ((lowerType s none n).run w).2.anonymous = w.anonymous := by
      cases n
      rw [lowerType]
      rfl
    have hadds := (lowerType_enters s none n).inner w
    rw [List.forall_mem_cons] at hdeclared hw
    -- What is found at the top level and inside of the other types is as before.
    have houter' (x : String) :
        declared.find? "" x = ((lowerType s none n).run w).2.declared.find? "" x := by
      have hname := topName_ne_empty (h.named n List.mem_cons_self)
      rw [hadds.others fun hin => absurd rfl (hin.ne_empty hname), DeclaredTypes.find?_declare]
      split
      · next heq =>
        rw [heq.2, hdeclared.1, Option.getD_none, ← houter, hdeclared.1]
        rfl
      · exact houter x
    have hinner : ∀ m ∈ ns,
        SameAround (s.topName m) declared ((lowerType s none n).run w).2.declared := by
      refine fun m hm => ⟨fun {o} hin x => ?_, houter'⟩
      have ho := hin.ne_empty (topName_ne_empty (h.tail.named m hm))
      rw [hadds.others fun hn => absurd hin (h.not_inside hm hn), DeclaredTypes.find?_declare,
        if_neg fun heq => ho heq.1, (hw.2 m hm).inner hin]
    rw [lowerTypes, if_pos htype]
    have hrest := ih h.tail hdeclared.2 hinner houter'
    rw [hwalk] at hrest
    exact .cons ⟨w.declared, hw.1, rfl⟩ hrest

end TopLevel

end JavaThrows
