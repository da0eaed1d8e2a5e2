import JavaThrows.Proofs.Decl.FullNames

set_option autoImplicit false

/-!
# The declared types that the walk adds

The walk through a type enters the local classes that it meets in the table of declared types, as
members of the type around them. So what it adds belongs to the type or to one inside of it, which
their full names tell, and whatever else the table says stays as it is. Main statements:
`lowerType_enters` and `Inside.disjoint`.
-/

namespace JavaThrows

open Cst

/-! ## Full names inside of a type -/

/-- What stands behind the full name of a type in the full names of the types inside of it. -/
inductive IsTail : List Char → Prop
  | nil : IsTail []
  | point (cs : List Char) : IsTail ('.' :: cs)
  | number (n : Nat) {cs : List Char} : IsTail cs → IsTail ('$' :: (n.repr.toList ++ cs))

/-- The full name of the type or of a type inside of it. -/
def Inside (top fqn : String) : Prop :=
  ∃ tail, IsTail tail ∧ fqn.toList = top.toList ++ tail

theorem IsTail.append {as bs : List Char} (ha : IsTail as) (hb : IsTail bs) :
    IsTail (as ++ bs) := by
  induction ha with
  | nil => exact hb
  | point cs => exact .point (cs ++ bs)
  | number n _ ih =>
    rw [List.cons_append, List.append_assoc]
    exact .number n ih

namespace Inside

variable {top owner fqn : String}

theorem refl (top : String) : Inside top top :=
  ⟨[], .nil, (List.append_nil _).symm⟩

theorem trans (h : Inside top owner) (h' : Inside owner fqn) : Inside top fqn := by
  obtain ⟨front, hfront, howner⟩ := h
  obtain ⟨back, hback, hfqn⟩ := h'
  exact ⟨front ++ back, hfront.append hback, by rw [hfqn, howner, List.append_assoc]⟩

theorem member (owner name : String) : Inside owner (owner ++ "." ++ name) :=
  ⟨'.' :: name.toList, .point _, toList_member owner name⟩

theorem anonymous (owner : String) (number : Nat) : Inside owner s!"{owner}${number}" := by
  refine ⟨'$' :: (number.repr.toList ++ []), .number number .nil, ?_⟩
  rw [toList_anonymous, List.append_nil]

theorem isPrefix (h : Inside top fqn) : top.toList <+: fqn.toList := by
  obtain ⟨tail, -, heq⟩ := h
  exact ⟨tail, heq.symm⟩

theorem length_le (h : Inside top fqn) : top.length ≤ fqn.length := by
  rw [← String.length_toList, ← String.length_toList]
  exact h.isPrefix.length_le

theorem ne_empty (h : Inside top fqn) (htop : top ≠ "") : fqn ≠ "" := by
  rintro rfl
  exact htop (String.length_eq_zero_iff.1 (Nat.le_zero.1 h.length_le))

theorem ne_of_length_lt (h : Inside owner fqn) (hlt : top.length < owner.length) : fqn ≠ top := by
  rintro rfl
  exact absurd h.length_le (Nat.not_le_of_lt hlt)

end Inside

theorem length_lt_member (owner name : String) : owner.length < (owner ++ "." ++ name).length := by
  rw [← String.length_toList, ← String.length_toList, toList_member]
  simp

theorem length_lt_anonymous (owner : String) (number : Nat) :
    owner.length < s!"{owner}${number}".length :=
  (Extends.anonymous number).length_lt

/-- What stands in front of a tail in another one is a tail as well. -/
theorem isTail_of_append {cs front back : List Char} (h : IsTail cs) (hcs : cs = front ++ back)
    (hback : IsTail back) (hpoint : '.' ∉ front) : IsTail front := by
  induction h generalizing front with
  | nil =>
    rw [(List.append_eq_nil_iff.1 hcs.symm).1]
    exact .nil
  | point cs =>
    cases front with
    | nil => exact .nil
    | cons c rest =>
      obtain rfl := (List.cons.inj hcs).1
      simp at hpoint
  | @number n cs _ ih =>
    cases front with
    | nil => exact .nil
    | cons c rest =>
      obtain rfl := (List.cons.inj hcs).1
      have hrest : n.repr.toList ++ cs = rest ++ back := (List.cons.inj hcs).2
      rw [List.append_eq_append_iff] at hrest
      rcases hrest with ⟨mid, rfl, hrest⟩ | ⟨mid, hdigits, rfl⟩
      · exact .number n (ih hrest (by simp_all))
      · -- The tail behind starts within the number, so it is the whole of what follows.
        cases mid with
        | nil =>
          rw [List.append_nil] at hdigits
          rw [← hdigits, ← List.append_nil n.repr.toList]
          exact .number n .nil
        | cons d mid =>
          have hdigit : d.isDigit := isDigit_of_mem_repr (by rw [hdigits]; simp)
          generalize htail : d :: mid ++ cs = tail at hback
          cases hback with
          | nil => cases htail
          | point cs =>
            obtain rfl := (List.cons.inj htail).1
            exact absurd hdigit (by decide)
          | number n _ =>
            obtain rfl := (List.cons.inj htail).1
            exact absurd hdigit (by decide)

/-- **No type is inside of two types that are declared side by side**, unless one of them is called
    like an anonymous class of the other one. -/
theorem Inside.disjoint {before a b fqn : String} (ha : '.' ∉ a.toList) (hb : '.' ∉ b.toList)
    (hab : ¬ Inside a b) (hba : ¬ Inside b a) (h : Inside (before ++ a) fqn) :
    ¬ Inside (before ++ b) fqn := by
  obtain ⟨tail, htail, heq⟩ := h
  rintro ⟨tail', htail', heq'⟩
  rw [heq, String.toList_append, String.toList_append, List.append_assoc, List.append_assoc,
    List.append_cancel_left_eq, List.append_eq_append_iff] at heq'
  rcases heq' with ⟨mid, hsplit, rfl⟩ | ⟨mid, hsplit, rfl⟩
  · exact hab ⟨mid, isTail_of_append htail rfl htail' fun hpoint => hb (by simp [hsplit, hpoint]),
      hsplit⟩
  · exact hba ⟨mid, isTail_of_append htail' rfl htail fun hpoint => ha (by simp [hsplit, hpoint]),
      hsplit⟩

/-- The types of an owner and all those inside of them are inside of the owner. -/
theorem Composed.inside {owner : String} {lo hi : Nat} {ds : List TypeDecl}
    (h : Composed owner lo hi ds) : ∀ t ∈ allOfTypes ds, Inside owner t.fqn := by
  induction h with
  | nil => simp [allOfTypes]
  | @named owner _ _ _ head _ _ _ hfqn _ _ _ ihinner ihds =>
    have hhead : Inside owner head.fqn := hfqn ▸ .member owner head.name
    exact forall_allOfTypes_cons.2 ⟨hhead, fun t ht => hhead.trans (ihinner t ht), ihds⟩
  | @anonymous owner lo _ _ head _ _ _ hfqn _ _ ihinner ihds =>
    have hhead : Inside owner head.fqn := hfqn ▸ .anonymous owner (lo + 1)
    exact forall_allOfTypes_cons.2 ⟨hhead, fun t ht => hhead.trans (ihinner t ht), ihds⟩

/-! ## Tables of declared types -/

/-- **What a table says once a type is declared**: the same, but for this type, unless its owner
    had one of that name before. -/
theorem DeclaredTypes.find?_declare (ds : DeclaredTypes) (owner name fqn o x : String) :
    (ds.declare owner name fqn).find? o x =
      if o = owner ∧ x = name then some ((ds.find? owner name).getD fqn) else ds.find? o x := by
  have happend : DeclaredTypes.find? (ds ++ [⟨owner, name, fqn⟩]) o x =
      (ds.find? o x).or (if o = owner ∧ x = name then some fqn else none) := by
    unfold find?
    rw [List.find?_append, Option.map_or]
    refine congrArg _ ?_
    by_cases ho : o = owner
    · by_cases hx : x = name
      · simp [ho, hx]
      · simp [ho, hx, Ne.symm hx]
    · simp [ho, Ne.symm ho]
  unfold declare
  cases hfound : ds.find? owner name with
  | some found =>
    dsimp only
    split
    · next heq => rw [heq.1, heq.2, hfound, Option.getD_some]
    · rfl
  | none =>
    dsimp only
    rw [happend]
    split
    · next heq => rw [heq.1, heq.2, hfound, Option.none_or, Option.getD_none]
    · rw [Option.or_none]

theorem DeclaredTypes.find?_declare_of_some {ds : DeclaredTypes} {o x found : String}
    (h : ds.find? o x = some found) (owner name fqn : String) :
    (ds.declare owner name fqn).find? o x = some found := by
  rw [find?_declare]
  split
  · next heq =>
    rw [heq.1, heq.2] at h
    rw [h, Option.getD_some]
  · exact h

/-- The second table has all entries of the first one, and beside these it has only members of the
    type `owner` with the given names and types inside of such ones. -/
structure AddsOnly (owner : String) (names : List String) (ds ds' : DeclaredTypes) : Prop where
  keeps : ∀ {o x fqn : String}, ds.find? o x = some fqn → ds'.find? o x = some fqn
  others : ∀ {o x : String}, (Inside owner o → o = owner ∧ x ∉ names) →
    ds'.find? o x = ds.find? o x

theorem siblingNames_append (as bs : List TypeDecl) :
    siblingNames (as ++ bs) = siblingNames as ++ siblingNames bs := by
  rw [siblingNames, List.filter_append, List.map_append, siblingNames, siblingNames]

namespace AddsOnly

variable {owner name fqn : String} {names names' : List String} {ds ds' ds'' : DeclaredTypes}

theorem refl (owner : String) (ds : DeclaredTypes) : AddsOnly owner [] ds ds :=
  ⟨id, fun _ => rfl⟩

theorem trans (h : AddsOnly owner names ds ds') (h' : AddsOnly owner names' ds' ds'') :
    AddsOnly owner (names ++ names') ds ds'' where
  keeps hfound := h'.keeps (h.keeps hfound)
  others hout := by
    simp only [List.mem_append, not_or] at hout
    rw [h'.others fun hin => ⟨(hout hin).1, (hout hin).2.2⟩,
      h.others fun hin => ⟨(hout hin).1, (hout hin).2.1⟩]

/-- What is added to a member that is declared is added to its owner. -/
theorem of_member (h : AddsOnly (owner ++ "." ++ name) names
    (ds.declare owner name (owner ++ "." ++ name)) ds') : AddsOnly owner [name] ds ds' where
  keeps hfound := h.keeps (DeclaredTypes.find?_declare_of_some hfound _ _ _)
  others {o x} hout := by
    have hdeclared : ¬ (o = owner ∧ x = name) := by
      rintro ⟨rfl, rfl⟩
      exact (hout (.refl o)).2 List.mem_cons_self
    rw [h.others fun hin => ?_, DeclaredTypes.find?_declare, if_neg hdeclared]
    -- A type inside of the member is not its owner.
    exact absurd (hout ((Inside.member owner name).trans hin)).1
      (hin.ne_of_length_lt (length_lt_member owner name))

/-- What is added to an anonymous class is inside of its owner. -/
theorem of_anonymous {number : Nat} (h : AddsOnly s!"{owner}${number}" names ds ds') :
    AddsOnly owner [] ds ds' where
  keeps := h.keeps
  others hout := h.others fun hin =>
    absurd (hout ((Inside.anonymous owner number).trans hin)).1
      (hin.ne_of_length_lt (length_lt_anonymous owner number))

end AddsOnly

/-- The second table has the types of the given names as members of the type `owner`, and whatever
    it has got beside the entries of the first one goes by the full name that the owner and the name
    make. -/
structure Enters (owner : String) (names : List String) (ds ds' : DeclaredTypes) : Prop extends
    AddsOnly owner names ds ds' where
  enters : ∀ x ∈ names, ds'.find? owner x = some ((ds.find? owner x).getD (owner ++ "." ++ x))
  spelled : ∀ {o x fqn : String}, ds'.find? o x = some fqn →
    ds.find? o x = some fqn ∨ fqn = o ++ "." ++ x

/-- The simple names of the types right inside of members: of member types, and of the local
    classes that stand in the bodies. -/
def innerNames (ms : List Member) : List String :=
  siblingNames (typesOfMembers ms)

/-- The second table has got the types as members of the type `owner`, and what is inside of them as
    members of the types around. -/
structure EntersTypes (owner : String) (ts : List TypeDecl) (ds ds' : DeclaredTypes) : Prop extends
    Enters owner (siblingNames ts) ds ds' where
  traced : ∀ {o x : String}, (ds'.find? o x).isSome → (ds.find? o x).isSome ∨
    (o = owner ∧ x ∈ siblingNames ts) ∨ ∃ t ∈ allOfTypes ts, t.fqn = o ∧ x ∈ innerNames t.members
  entered : ∀ t ∈ allOfTypes ts, ∀ x ∈ innerNames t.members, (ds'.find? t.fqn x).isSome

namespace Enters

variable {owner name : String} {names names' : List String} {ds ds' ds'' : DeclaredTypes}

theorem refl (owner : String) (ds : DeclaredTypes) : Enters owner [] ds ds where
  toAddsOnly := .refl owner ds
  enters := nofun
  spelled := .inl

theorem trans (h : Enters owner names ds ds') (h' : Enters owner names' ds' ds'') :
    Enters owner (names ++ names') ds ds'' where
  toAddsOnly := h.toAddsOnly.trans h'.toAddsOnly
  enters x hx := by
    by_cases hfirst : x ∈ names
    · exact h'.keeps (h.enters x hfirst)
    · have hsecond : x ∈ names' := (List.mem_append.1 hx).resolve_left hfirst
      rw [h'.enters x hsecond, h.others fun _ => ⟨rfl, hfirst⟩]
  spelled hfound := by
    rcases h'.spelled hfound with hfound | hfqn
    · exact h.spelled hfound
    · exact .inr hfqn

theorem of_member (h : Enters (owner ++ "." ++ name) names
    (ds.declare owner name (owner ++ "." ++ name)) ds') : Enters owner [name] ds ds' where
  toAddsOnly := h.toAddsOnly.of_member
  enters x hx := by
    obtain rfl := List.mem_singleton.1 hx
    refine h.keeps ?_
    rw [DeclaredTypes.find?_declare, if_pos ⟨rfl, rfl⟩]
  spelled {o x fqn} hfound := by
    rcases h.spelled hfound with hfound | hfqn
    · rw [DeclaredTypes.find?_declare] at hfound
      split at hfound
      · next heq =>
        obtain ⟨rfl, rfl⟩ := heq
        cases hbefore : ds.find? o x with
        | some fqn' => exact .inl (by rwa [hbefore, Option.getD_some] at hfound)
        | none => exact .inr (by simpa [hbefore] using hfound.symm)
      · exact .inl hfound
    · exact .inr hfqn

theorem of_anonymous {number : Nat} (h : Enters s!"{owner}${number}" names ds ds') :
    Enters owner [] ds ds' where
  toAddsOnly := h.toAddsOnly.of_anonymous
  enters := nofun
  spelled := h.spelled

end Enters

theorem siblingNames_singleton {t : TypeDecl} (h : t.head.kind ≠ .anonymous) :
    siblingNames [t] = [t.head.name] := by
  simp [siblingNames, h]

theorem siblingNames_anonymous {t : TypeDecl} (h : t.head.kind = .anonymous) :
    siblingNames [t] = [] := by
  simp [siblingNames, h]

/-- A type and those inside of it. -/
theorem allOfTypes_singleton (t : TypeDecl) :
    allOfTypes [t] = t :: allOfTypes (typesOfMembers t.members) := by
  cases t
  rw [allOfTypes, allOfTypes, List.append_nil, TypeDecl.all, allOfMembers_eq]
  rfl

namespace EntersTypes

variable {owner : String} {ts ts' : List TypeDecl} {t : TypeDecl} {ds ds' ds'' : DeclaredTypes}

theorem refl (owner : String) (ds : DeclaredTypes) : EntersTypes owner [] ds ds where
  toEnters := .refl owner ds
  traced := .inl
  entered := nofun

theorem trans (h : EntersTypes owner ts ds ds') (h' : EntersTypes owner ts' ds' ds'') :
    EntersTypes owner (ts ++ ts') ds ds'' where
  toEnters := by
    rw [siblingNames_append]
    exact h.toEnters.trans h'.toEnters
  traced hfound := by
    simp only [siblingNames_append, allOfTypes_append, List.mem_append]
    rcases h'.traced hfound with hfound | ⟨howner, hx⟩ | ⟨t, ht, hinner⟩
    · rcases h.traced hfound with hfound | ⟨howner, hx⟩ | ⟨t, ht, hinner⟩
      · exact .inl hfound
      · exact .inr (.inl ⟨howner, .inl hx⟩)
      · exact .inr (.inr ⟨t, .inl ht, hinner⟩)
    · exact .inr (.inl ⟨howner, .inr hx⟩)
    · exact .inr (.inr ⟨t, .inr ht, hinner⟩)
  entered t ht x hx := by
    rw [allOfTypes_append, List.mem_append] at ht
    rcases ht with ht | ht
    · obtain ⟨fqn, hfound⟩ := Option.isSome_iff_exists.1 (h.entered t ht x hx)
      rw [h'.keeps hfound, Option.isSome_some]
    · exact h'.entered t ht x hx

/-- What a type is opened with is known of it, and what has been entered in it. -/
theorem opened {base : DeclaredTypes} (h : EntersTypes t.fqn (typesOfMembers t.members) base ds') :
    (∀ {o x : String}, (ds'.find? o x).isSome → (base.find? o x).isSome ∨
      ∃ t' ∈ allOfTypes [t], t'.fqn = o ∧ x ∈ innerNames t'.members) ∧
    ∀ t' ∈ allOfTypes [t], ∀ x ∈ innerNames t'.members, (ds'.find? t'.fqn x).isSome := by
  rw [allOfTypes_singleton]
  refine ⟨fun hfound => ?_, fun t' ht' x hx => ?_⟩
  · rcases h.traced hfound with hbase | ⟨rfl, hx⟩ | ⟨t', ht', hinner⟩
    · exact .inl hbase
    · exact .inr ⟨t, List.mem_cons_self, rfl, hx⟩
    · exact .inr ⟨t', List.mem_cons_of_mem t ht', hinner⟩
  · rcases List.mem_cons.1 ht' with rfl | ht'
    · rw [h.enters x hx, Option.isSome_some]
    · exact h.entered t' ht' x hx

theorem of_member (hkind : t.head.kind ≠ .anonymous) (hfqn : t.fqn = owner ++ "." ++ t.head.name)
    (h : EntersTypes t.fqn (typesOfMembers t.members) (ds.declare owner t.head.name t.fqn) ds') :
    EntersTypes owner [t] ds ds' where
  toEnters := by
    have henters := h.toEnters
    rw [hfqn] at henters
    rw [siblingNames_singleton hkind]
    exact henters.of_member
  traced hfound := by
    rw [siblingNames_singleton hkind]
    rcases h.opened.1 hfound with hbase | hinner
    · rw [DeclaredTypes.find?_declare] at hbase
      split at hbase
      · next heq => exact .inr (.inl ⟨heq.1, List.mem_singleton.2 heq.2⟩)
      · exact .inl hbase
    · exact .inr (.inr hinner)
  entered := h.opened.2

theorem of_anonymous {number : Nat} (hkind : t.head.kind = .anonymous)
    (hfqn : t.fqn = s!"{owner}${number}")
    (h : EntersTypes t.fqn (typesOfMembers t.members) ds ds') : EntersTypes owner [t] ds ds' where
  toEnters := by
    have henters := h.toEnters
    rw [hfqn] at henters
    rw [siblingNames_anonymous hkind]
    exact henters.of_anonymous
  traced hfound := by
    rcases h.opened.1 hfound with hbase | hinner
    · exact .inl hbase
    · exact .inr (.inr hinner)
  entered := h.opened.2

end EntersTypes

/-- What is run enters the types that it yields. -/
def EntersAll {α : Type} (types : List α → List TypeDecl) (owner : String)
    (m : WalkM (List α)) : Prop :=
  ∀ w : Walk, EntersTypes owner (types (m.run w).1) w.declared (m.run w).2.declared

/-- What is run for one type declares it, and then enters the types inside of it. -/
structure EntersType (owner name fqn : String) (m : WalkM TypeDecl) : Prop where
  named : ∀ w : Walk, (m.run w).1.head.kind ≠ .anonymous
  called : ∀ w : Walk, (m.run w).1.head.name = name
  qualified : ∀ w : Walk, (m.run w).1.fqn = fqn
  inner : ∀ w : Walk, EntersTypes fqn (typesOfMembers (m.run w).1.members)
    (w.declared.declare owner name fqn) (m.run w).2.declared

/-! ## The walk -/

namespace EntersTypes

variable {owner : String} {ds ds' ds'' : DeclaredTypes}

theorem append_members {as bs : List Member} (ha : EntersTypes owner (typesOfMembers as) ds ds')
    (hb : EntersTypes owner (typesOfMembers bs) ds' ds'') :
    EntersTypes owner (typesOfMembers (as ++ bs)) ds ds'' := by
  rw [typesOfMembers_append]
  exact ha.trans hb

theorem members {ts : List TypeDecl} (h : EntersTypes owner ts ds ds') :
    EntersTypes owner (typesOfMembers (ts.map .type)) ds ds' := by
  rwa [typesOfMembers_map_type]

theorem method {ts : List TypeDecl} (h : EntersTypes owner ts ds ds') (m : Method) :
    EntersTypes owner (typesOfMembers [.method m ts]) ds ds' := by
  rwa [typesOfMembers, List.flatMap_singleton]

end EntersTypes

/-- A type that is run as a member of its owner. -/
theorem EntersType.member {owner name : String} {m : WalkM TypeDecl}
    (h : EntersType owner name (owner ++ "." ++ name) m) (w : Walk) :
    EntersTypes owner [(m.run w).1] w.declared (m.run w).2.declared := by
  have hfqn : (m.run w).1.fqn = owner ++ "." ++ (m.run w).1.head.name := by
    rw [h.qualified, h.called]
  refine .of_member (h.named w) hfqn ?_
  rw [h.called, h.qualified]
  exact h.inner w

/-- The body of an anonymous class that is run. -/
theorem EntersAll.anonymous {owner : String} {number : Nat} {m : WalkM (List Member)}
    (h : EntersAll typesOfMembers s!"{owner}${number}" m) {head : TypeHead}
    (hkind : head.kind = .anonymous) (hfqn : head.fqn = s!"{owner}${number}") (ds : DeclaredTypes)
    (count : Nat) :
    EntersTypes owner [.mk head (m.run ⟨ds, count⟩).1] ds (m.run ⟨ds, count⟩).2.declared := by
  have hinner := h ⟨ds, count⟩
  rw [← hfqn] at hinner
  exact .of_anonymous hkind hfqn hinner

section Walk

-- The recursion of the walk itself.
mutual
/-- **A type is entered as a member of its owner**, and else only what is inside of the type. -/
theorem lowerType_enters (s : Scope) (parent : Option String) (n : Node) :
    EntersType (parent.getD "") (s.nameOf n) (s.qualify parent (s.nameOf n))
      (lowerType s parent n) := by
  match n with
  | ⟨kind, field, named, span, children⟩ =>
    rw [lowerType]
    have hbody (s' : Scope) (owner ownerName : String) (recordParams : List Param) :=
      lowerBody_enters s' owner ownerName recordParams isBody children
    exact ⟨fun _ => typeKind_ne_anonymous kind, fun _ => rfl, fun _ => rfl,
      fun _ => hbody _ _ _ _ _⟩

theorem lowerBody_enters (s : Scope) (owner ownerName : String) (recordParams : List Param)
    (isWanted : Node → Bool) (ns : List Node) :
    EntersAll typesOfMembers owner (lowerBody s owner ownerName recordParams isWanted ns) := by
  match ns with
  | [] =>
    rw [lowerBody]
    exact fun _ => .refl _ _
  | ⟨kind, field, named, span, children⟩ :: ns =>
    rw [lowerBody]
    split
    · exact lowerMembers_enters s owner ownerName recordParams children
    · exact lowerBody_enters s owner ownerName recordParams isWanted ns

theorem lowerMembers_enters (s : Scope) (owner ownerName : String) (recordParams : List Param)
    (ns : List Node) :
    EntersAll typesOfMembers owner (lowerMembers s owner ownerName recordParams ns) := by
  match ns with
  | [] =>
    rw [lowerMembers]
    exact fun _ => .refl _ _
  | ⟨kind, field, named, span, children⟩ :: ns =>
    have hothers := lowerMembers_enters s owner ownerName recordParams ns
    rw [lowerMembers]
    intro w
    split
    · exact hothers w
    split
    · have hlocals (params : List TypeParam) :=
        lowerLocals_enters (s.withTypeVars params) owner isBody children
      exact EntersTypes.append_members ((hlocals _ w).method _) (hothers _)
    split
    · have htype := (lowerType_enters s (some owner) ⟨kind, field, named, span, children⟩).member w
      exact EntersTypes.append_members htype.members (hothers _)
    split
    · refine EntersTypes.append_members ?_ (hothers _)
      exact lowerMembers_enters s owner ownerName recordParams children w
    split
    · have hcreated := lowerLocals_enters s owner isArguments children w
      split
      · exact EntersTypes.append_members hcreated.members (hothers _)
      · next body hbody =>
        have hclass (fqn name : String) := lowerBody_enters (s.enter fqn) fqn name []
          (fun c => c.kind == "class_body") children
        refine EntersTypes.append_members (EntersTypes.append_members hcreated.members ?_)
          (hothers _)
        exact EntersTypes.members ((hclass _ _).anonymous rfl rfl _ 0)
    · exact EntersTypes.append_members (lowerInside_enters s owner children w).members (hothers _)

theorem lowerLocals_enters (s : Scope) (owner : String) (isWanted : Node → Bool) (ns : List Node) :
    EntersAll id owner (lowerLocals s owner isWanted ns) := by
  match ns with
  | [] =>
    rw [lowerLocals]
    exact fun _ => .refl _ _
  | ⟨kind, field, named, span, children⟩ :: ns =>
    rw [lowerLocals]
    split
    · exact lowerInside_enters s owner children
    · exact lowerLocals_enters s owner isWanted ns

theorem lowerInside_enters (s : Scope) (owner : String) (ns : List Node) :
    EntersAll id owner (lowerInside s owner ns) := by
  match ns with
  | [] =>
    rw [lowerInside]
    exact fun _ => .refl _ _
  | ⟨kind, field, named, span, children⟩ :: ns =>
    have hothers := lowerInside_enters s owner ns
    rw [lowerInside]
    intro w
    split
    · have htype := (lowerType_enters s (some owner) ⟨kind, field, named, span, children⟩).member w
      exact EntersTypes.trans htype (hothers _)
    split
    · have hcreated := lowerLocals_enters s owner isArguments children w
      split
      · next body type hbody htype =>
        have hclass (fqn name : String) := lowerBody_enters (s.enter fqn) fqn name []
          (fun c => c.kind == "class_body") children
        refine EntersTypes.trans (EntersTypes.trans hcreated ?_) (hothers _)
        exact (hclass _ _).anonymous rfl rfl _ 0
      · exact EntersTypes.trans hcreated (hothers _)
    · exact EntersTypes.trans (lowerInside_enters s owner children w) (hothers _)
end

end Walk

end JavaThrows
