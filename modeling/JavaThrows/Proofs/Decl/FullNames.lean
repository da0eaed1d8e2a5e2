import Mathlib.Data.Nat.Digits.Lemmas
import Mathlib.Logic.Relation
import JavaThrows.Proofs.Cst.Spelling
import JavaThrows.Proofs.Decl.Lowering
import JavaThrows.Proofs.TypeIndex

set_option autoImplicit false

/-!
# Full names of declared types

The full name of a type is that of its owner with a step added to it: a point and the name, or for
an anonymous class a dollar sign and a number that counts up in the owner. A step can be taken back,
so two types have the same full name only if their owners do, and the names of a whole file are
distinct where those in each single owner are. Main statement: `declaredNames_nodup`.
-/

namespace JavaThrows

open JavaThrows.Cst

/-! ## Steps from owner to type -/

/-- A name that could be that of an anonymous class: it ends with a dollar sign and a number. -/
def IsNumbered (name : String) : Prop :=
  ∃ (front : String) (number : Nat), name = s!"{front}${number}"

/-- A name of a type that is not confused with the names around it. -/
def IsPlainName (name : String) : Prop :=
  '.' ∉ name.toList ∧ ¬ IsNumbered name

/-- A full name that is composed from that of the owner. -/
inductive Extends (owner : String) : String → Prop
  | member {name : String} : IsPlainName name → Extends owner (owner ++ "." ++ name)
  | anonymous (number : Nat) : Extends owner s!"{owner}${number}"

theorem toList_member (owner name : String) :
    (owner ++ "." ++ name).toList = owner.toList ++ '.' :: name.toList := by
  simp

theorem toList_anonymous (owner : String) (number : Nat) :
    s!"{owner}${number}".toList = owner.toList ++ '$' :: number.repr.toList := by
  show (owner ++ "$" ++ number.repr).toList = _
  rw [String.toList_append, String.toList_append, List.append_assoc]
  rfl

theorem isDigit_of_mem_repr {number : Nat} {c : Char} (h : c ∈ number.repr.toList) : c.isDigit := by
  rw [Nat.repr_eq_ofList_toDigits, String.toList_ofList] at h
  exact Nat.isDigit_of_mem_toDigits (by decide) (by decide) h

theorem repr_inj {m n : Nat} (h : m.repr = n.repr) : m = n := by
  rw [Nat.repr_eq_ofList_toDigits, Nat.repr_eq_ofList_toDigits] at h
  have hnumbers := congrArg (fun cs => Nat.ofDigitChars 10 cs 0) (String.ofList_injective h)
  simpa using hnumbers

theorem notMem_repr {number : Nat} {c : Char} (hc : c.isDigit = false) :
    c ∉ number.repr.toList := fun h => by
  simp [isDigit_of_mem_repr h] at hc

/-- A list is split at the last place of an element in one way only. -/
theorem append_cons_inj_of_notMem_right {α : Type} {x : α} {as bs as' bs' : List α} (hb : x ∉ bs)
    (hb' : x ∉ bs') (h : as ++ x :: bs = as' ++ x :: bs') : as = as' ∧ bs = bs' := by
  rw [List.append_eq_append_iff] at h
  rcases h with ⟨mid, rfl, h⟩ | ⟨mid, rfl, h⟩
  all_goals
    cases mid with
    | nil => simpa [eq_comm] using h
    | cons c mid =>
      rw [List.cons_append, List.cons.injEq] at h
      simp [h.2] at hb hb'

theorem member_inj {owner owner' name name' : String} (hname : IsPlainName name)
    (hname' : IsPlainName name') (h : owner ++ "." ++ name = owner' ++ "." ++ name') :
    owner = owner' ∧ name = name' := by
  have hlists := congrArg String.toList h
  rw [toList_member, toList_member] at hlists
  simpa [String.toList_inj] using append_cons_inj_of_notMem_right hname.1 hname'.1 hlists

theorem anonymous_inj {owner other : String} {number count : Nat}
    (h : s!"{owner}${number}" = s!"{other}${count}") : owner = other ∧ number = count := by
  have hlists := congrArg String.toList h
  rw [toList_anonymous, toList_anonymous] at hlists
  obtain ⟨howner, hnumber⟩ :=
    append_cons_inj_of_notMem_right (notMem_repr (by decide)) (notMem_repr (by decide)) hlists
  exact ⟨String.toList_inj.1 howner, repr_inj (String.toList_inj.1 hnumber)⟩

theorem member_ne_anonymous {owner other name : String} {number : Nat} (hname : IsPlainName name) :
    owner ++ "." ++ name ≠ s!"{other}${number}" := by
  intro h
  have hlists := congrArg String.toList h
  rw [toList_member, toList_anonymous, List.append_eq_append_iff] at hlists
  rcases hlists with ⟨mid, -, h⟩ | ⟨mid, -, h⟩
  · -- The dollar sign and the number would stand in the name.
    cases mid with
    | nil => simp at h
    | cons c mid =>
      rw [List.cons_append, List.cons.injEq] at h
      refine hname.2 ⟨String.ofList mid, number, String.toList_inj.1 ?_⟩
      rw [toList_anonymous, String.toList_ofList, h.2]
  · -- The point and the name would stand in the number.
    cases mid with
    | nil => simp at h
    | cons c mid =>
      rw [List.cons_append, List.cons.injEq] at h
      have hpoint : '.' ∈ number.repr.toList := by simp [h.2]
      exact notMem_repr (by decide) hpoint

/-- **A step can be taken back in one way only.** -/
theorem Extends.owner_unique {owner owner' fqn : String} (h : Extends owner fqn)
    (h' : Extends owner' fqn) : owner = owner' := by
  cases h with
  | member hname =>
    generalize heq : owner ++ "." ++ _ = fqn at h'
    cases h' with
    | member hname' => exact (member_inj hname hname' heq).1
    | anonymous number => exact absurd heq (member_ne_anonymous hname)
  | anonymous number =>
    generalize heq : s!"{owner}${number}" = fqn at h'
    cases h' with
    | member hname' => exact absurd heq.symm (member_ne_anonymous hname')
    | anonymous number' => exact (anonymous_inj heq).1

theorem Extends.length_lt {owner fqn : String} (h : Extends owner fqn) :
    owner.length < fqn.length := by
  rw [← String.length_toList, ← String.length_toList]
  cases h with
  | member _ => rw [toList_member]; simp
  | anonymous number => rw [toList_anonymous]; simp

/-! ## Names that the walk composes -/

/-- The types that are declared in the member itself. -/
def Member.types : Member → List TypeDecl
  | .method _ locals => locals
  | .type d => [d]

/-- The types that are declared right inside of the members. -/
def typesOfMembers (ms : List Member) : List TypeDecl :=
  ms.flatMap Member.types

theorem typesOfMembers_append (as bs : List Member) :
    typesOfMembers (as ++ bs) = typesOfMembers as ++ typesOfMembers bs :=
  List.flatMap_append

theorem typesOfMembers_map_type (ds : List TypeDecl) : typesOfMembers (ds.map .type) = ds := by
  induction ds with
  | nil => rfl
  | cons d ds ih => rw [List.map_cons, typesOfMembers, List.flatMap_cons, ← typesOfMembers, ih]; rfl

/-- The types have full names that are composed from that of their owner, and the anonymous ones
    among them take the numbers after `lo` up to `hi` in turn. -/
inductive Composed : String → Nat → Nat → List TypeDecl → Prop
  | nil {owner : String} {n : Nat} : Composed owner n n []
  | named {owner : String} {lo hi inner : Nat} {head : TypeHead} {ms : List Member}
    {ds : List TypeDecl} : head.kind ≠ .anonymous → head.fqn = owner ++ "." ++ head.name →
    (∀ c ∈ head.name.toList, isWordChar c) → Composed head.fqn 0 inner (typesOfMembers ms) →
    Composed owner lo hi ds → Composed owner lo hi (.mk head ms :: ds)
  | anonymous {owner : String} {lo hi inner : Nat} {head : TypeHead} {ms : List Member}
    {ds : List TypeDecl} : head.kind = .anonymous → head.fqn = s!"{owner}${lo + 1}" →
    Composed head.fqn 0 inner (typesOfMembers ms) → Composed owner (lo + 1) hi ds →
    Composed owner lo hi (.mk head ms :: ds)

theorem Composed.append {owner : String} {lo mid hi : Nat} {as bs : List TypeDecl}
    (ha : Composed owner lo mid as) (hb : Composed owner mid hi bs) :
    Composed owner lo hi (as ++ bs) := by
  induction ha with
  | nil => exact hb
  | named hkind hfqn hname hinner _ _ ih => exact .named hkind hfqn hname hinner (ih hb)
  | anonymous hkind hfqn hinner _ _ ih => exact .anonymous hkind hfqn hinner (ih hb)

/-- A declared type that is no anonymous class, with the types in it. -/
structure NamedType (s : Scope) (parent : Option String) (d : TypeDecl) : Prop where
  kind : d.head.kind ≠ .anonymous
  fqn : d.fqn = s.qualify parent d.head.name
  name : ∀ c ∈ d.head.name.toList, isWordChar c
  inner : ∃ count, Composed d.fqn 0 count (typesOfMembers d.members)

theorem composed_singleton {s : Scope} {owner : String} {n : Nat} {d : TypeDecl}
    (h : NamedType s (some owner) d) : Composed owner n n [d] := by
  cases d with
  | mk head ms =>
    obtain ⟨count, hinner⟩ := h.inner
    exact .named h.kind h.fqn h.name hinner .nil

/-- The node lies in a tree of the source, so its names are words. -/
structure NamesSpelled (source : List Char) (n : Node) : Prop where
  unnamed : n.Everywhere Node.UnnamedLeaf
  comments : n.Everywhere Node.CommentFree
  words : n.Everywhere (Node.WordName source)
  typeNames : n.Everywhere (Node.FilledWith typeKinds "name" (labelIn ["identifier"]))

theorem namesSpelled_of_javaTree {source : List Char} {root : Node}
    (h : javaTree source = some root) : ∀ c ∈ root.children, NamesSpelled source c :=
  fun c hc => {
    unnamed := javaTree_unnamedLeaf h c hc
    comments := javaTree_commentFree h c hc
    words := javaTree_wordName h c hc
    typeNames := javaTree_type_name h c hc }

namespace NamesSpelled

variable {source : List Char} {n : Node}

theorem children (h : NamesSpelled source n) : ∀ c ∈ n.children, NamesSpelled source c :=
  fun c hc => {
    unnamed := h.unnamed.children c hc
    comments := h.comments.children c hc
    words := h.words.children c hc
    typeNames := h.typeNames.children c hc }

theorem children_of_find? (h : NamesSpelled source n) {isWanted : Node → Bool} {m : Node}
    (hm : n.children.find? isWanted = some m) : ∀ c ∈ m.children, NamesSpelled source c :=
  (h.children m (List.mem_of_find?_eq_some hm)).children

/-- **The name of a type is a word.** -/
theorem isWordChar_of_mem_nameOf (h : NamesSpelled source n) (htype : isTypeNode n.kind) {s : Scope}
    (hs : s.source = source) : ∀ c ∈ (s.nameOf n).toList, isWordChar c := by
  unfold Scope.nameOf
  cases hname : n.childByField "name" with
  | none => simp
  | some name =>
    have hmem := List.mem_of_find?_eq_some hname
    have hfield : name.field = some "name" := by simpa using List.find?_some hname
    have hparent : n.label.any typeKinds.contains := by
      rw [h.unnamed.here.label_of_mem hmem]
      exact htype
    have hcomment : ¬ name.isComment := fun hcomment => by
      simp [(h.comments.children name hmem).here hcomment] at hfield
    have hlabel := (h.typeNames.here hparent name hmem).resolve_left hcomment hfield
    have hidentifier : name.label = some "identifier" := by
      cases hl : name.label <;> simp_all [labelIn]
    rw [Option.map_some, Option.getD_some, Scope.text, hs]
    exact (h.words.children name hmem).here hidentifier

end NamesSpelled

theorem typeKind_ne_anonymous (kind : String) : typeKind kind ≠ .anonymous := by
  unfold typeKind
  split <;> simp

/-- What is run yields types with composed names, and the counter goes on from the first of their
    numbers to the last one. -/
def Composes {α : Type} (types : List α → List TypeDecl) (owner : String) (m : WalkM (List α)) :
    Prop :=
  ∀ w : Walk, Composed owner w.anonymous (m.run w).2.anonymous (types (m.run w).1)

theorem Composes.run {α : Type} {types : List α → List TypeDecl} {owner : String}
    {m : WalkM (List α)} (h : Composes types owner m) {w : Walk} {lo : Nat}
    (hlo : w.anonymous = lo) : Composed owner lo (m.run w).2.anonymous (types (m.run w).1) :=
  hlo ▸ h w

theorem Composed.append_members {owner : String} {lo mid hi : Nat} {as bs : List Member}
    (ha : Composed owner lo mid (typesOfMembers as))
    (hb : Composed owner mid hi (typesOfMembers bs)) :
    Composed owner lo hi (typesOfMembers (as ++ bs)) := by
  rw [typesOfMembers_append]
  exact ha.append hb

theorem Composed.members {owner : String} {lo hi : Nat} {ds : List TypeDecl}
    (h : Composed owner lo hi ds) : Composed owner lo hi (typesOfMembers (ds.map .type)) := by
  rwa [typesOfMembers_map_type]

theorem composed_method {owner : String} {lo hi : Nat} {m : Method} {locals : List TypeDecl}
    (h : Composed owner lo hi locals) :
    Composed owner lo hi (typesOfMembers [.method m locals]) := by
  rwa [typesOfMembers, List.flatMap_singleton]

theorem composed_anonymous {owner : String} {n : Nat} {head : TypeHead} {ms : List Member}
    (hkind : head.kind = .anonymous) (hfqn : head.fqn = s!"{owner}${n + 1}")
    (hinner : ∃ count, Composed head.fqn 0 count (typesOfMembers ms)) :
    Composed owner n (n + 1) [.mk head ms] :=
  hinner.elim fun _ h => .anonymous hkind hfqn h .nil

section Walk

variable {source : List Char}

-- The recursion of the walk itself.
mutual
theorem lowerType_named {s : Scope} (hs : s.source = source) (parent : Option String) (n : Node)
    (htype : isTypeNode n.kind) (hn : NamesSpelled source n) (w : Walk) :
    NamedType s parent ((lowerType s parent n).run w).1 ∧
      ((lowerType s parent n).run w).2.anonymous = w.anonymous := by
  match n with
  | ⟨kind, field, named, span, children⟩ =>
    rw [lowerType]
    have hbody {s' : Scope} (hs' : s'.source = source) (owner ownerName : String)
        (recordParams : List Param) :=
      lowerBody_composed hs' owner ownerName recordParams isBody children
        fun _ hm => hn.children_of_find? hm
    refine ⟨⟨typeKind_ne_anonymous kind, rfl, hn.isWordChar_of_mem_nameOf htype hs, ?_⟩, rfl⟩
    exact ⟨_, (hbody (by exact hs) _ _ _).run rfl⟩

theorem lowerBody_composed {s : Scope} (hs : s.source = source) (owner ownerName : String)
    (recordParams : List Param) (isWanted : Node → Bool) (ns : List Node)
    (hns : ∀ m, ns.find? isWanted = some m → ∀ c ∈ m.children, NamesSpelled source c) :
    Composes typesOfMembers owner (lowerBody s owner ownerName recordParams isWanted ns) := by
  match ns with
  | [] =>
    rw [lowerBody]
    exact fun _ => .nil
  | ⟨kind, field, named, span, children⟩ :: ns =>
    rw [lowerBody]
    rw [List.find?_cons] at hns
    cases hwanted : isWanted ⟨kind, field, named, span, children⟩ with
    | true =>
      rw [hwanted] at hns
      exact lowerMembers_composed hs _ _ _ children (hns _ rfl)
    | false =>
      rw [hwanted] at hns
      exact lowerBody_composed hs _ _ _ _ ns hns

theorem lowerMembers_composed {s : Scope} (hs : s.source = source) (owner ownerName : String)
    (recordParams : List Param) (ns : List Node) (hns : ∀ c ∈ ns, NamesSpelled source c) :
    Composes typesOfMembers owner (lowerMembers s owner ownerName recordParams ns) := by
  match ns with
  | [] =>
    rw [lowerMembers]
    exact fun _ => .nil
  | ⟨kind, field, named, span, children⟩ :: ns =>
    rw [List.forall_mem_cons] at hns
    obtain ⟨hn, hns⟩ := hns
    have hothers := lowerMembers_composed hs owner ownerName recordParams ns hns
    rw [lowerMembers]
    intro w
    split
    · exact hothers w
    split
    · have hlocals (params : List TypeParam) :=
        lowerLocals_composed (s := s.withTypeVars params) hs owner isBody children
          fun _ hm => hn.children_of_find? hm
      refine Composed.append_members ?_ (hothers _)
      exact composed_method (hlocals _ w)
    split
    · next htype =>
      obtain ⟨hnamed, hwalk⟩ := lowerType_named hs (some owner) _ htype hn w
      refine Composed.append_members ?_ (hothers.run hwalk)
      exact (composed_singleton hnamed).members
    split
    · refine Composed.append_members ?_ (hothers _)
      exact lowerMembers_composed hs owner ownerName recordParams children hn.children w
    split
    · have hcreated := lowerLocals_composed hs owner isArguments children
        (fun _ hm => hn.children_of_find? hm) w
      split
      · exact Composed.append_members hcreated.members (hothers _)
      · next body hbody =>
        have hclass (fqn name : String) :=
          lowerBody_composed (s := s.enter fqn) hs fqn name [] (fun c => c.kind == "class_body")
            children fun _ hm => hn.children_of_find? hm
        refine Composed.append_members (Composed.append_members hcreated.members
          (composed_anonymous rfl rfl ?_).members) (hothers.run rfl)
        exact ⟨_, (hclass _ _).run rfl⟩
    · refine Composed.append_members ?_ (hothers _)
      exact (lowerInside_composed hs owner children hn.children w).members

theorem lowerLocals_composed {s : Scope} (hs : s.source = source) (owner : String)
    (isWanted : Node → Bool) (ns : List Node)
    (hns : ∀ m, ns.find? isWanted = some m → ∀ c ∈ m.children, NamesSpelled source c) :
    Composes id owner (lowerLocals s owner isWanted ns) := by
  match ns with
  | [] =>
    rw [lowerLocals]
    exact fun _ => .nil
  | ⟨kind, field, named, span, children⟩ :: ns =>
    rw [lowerLocals]
    rw [List.find?_cons] at hns
    cases hwanted : isWanted ⟨kind, field, named, span, children⟩ with
    | true =>
      rw [hwanted] at hns
      exact lowerInside_composed hs _ children (hns _ rfl)
    | false =>
      rw [hwanted] at hns
      exact lowerLocals_composed hs _ _ ns hns

theorem lowerInside_composed {s : Scope} (hs : s.source = source) (owner : String)
    (ns : List Node) (hns : ∀ c ∈ ns, NamesSpelled source c) :
    Composes id owner (lowerInside s owner ns) := by
  match ns with
  | [] =>
    rw [lowerInside]
    exact fun _ => .nil
  | ⟨kind, field, named, span, children⟩ :: ns =>
    rw [List.forall_mem_cons] at hns
    obtain ⟨hn, hns⟩ := hns
    have hothers := lowerInside_composed hs owner ns hns
    rw [lowerInside]
    intro w
    split
    · next htype =>
      obtain ⟨hnamed, hwalk⟩ := lowerType_named hs (some owner) _ htype hn w
      exact (composed_singleton hnamed).append (hothers.run hwalk)
    split
    · have hcreated := lowerLocals_composed hs owner isArguments children
        (fun _ hm => hn.children_of_find? hm) w
      split
      · next body type hbody htype =>
        have hclass (fqn name : String) :=
          lowerBody_composed (s := s.enter fqn) hs fqn name [] (fun c => c.kind == "class_body")
            children fun _ hm => hn.children_of_find? hm
        refine (hcreated.append (composed_anonymous rfl rfl ?_)).append (hothers.run rfl)
        exact ⟨_, (hclass _ _).run rfl⟩
      · exact hcreated.append (hothers _)
    · exact (lowerInside_composed hs owner children hn.children w).append (hothers _)
end

theorem lowerTypes_named {s : Scope} (hs : s.source = source) (ns : List Node)
    (hns : ∀ n ∈ ns, NamesSpelled source n) (w : Walk) :
    ∀ d ∈ ((lowerTypes s ns).run w).1, NamedType s none d := by
  induction ns generalizing w with
  | nil =>
    intro d hd
    cases hd
  | cons n ns ih =>
    rw [List.forall_mem_cons] at hns
    rw [lowerTypes]
    split
    · next htype =>
      simp only [Bool.and_eq_true] at htype
      have hfirst := (lowerType_named hs none n htype.2 hns.1 w).1
      exact List.forall_mem_cons.2 ⟨hfirst, ih hns.2 _⟩
    · exact ih hns.2 w

end Walk

/-- The names of the types that are declared right inside of the members, anonymous ones apart. -/
def siblingNames (ds : List TypeDecl) : List String :=
  (ds.filter fun d => d.head.kind != .anonymous).map fun d => d.head.name

/-- The name of a type is not confused with that of an anonymous class. -/
def TypeDecl.Unnumbered (d : TypeDecl) : Prop :=
  d.head.kind ≠ .anonymous → ¬ IsNumbered d.head.name

theorem isPlainName_of_isWordChar {name : String} (h : ∀ c ∈ name.toList, isWordChar c)
    (hnumbered : ¬ IsNumbered name) : IsPlainName name := by
  refine ⟨fun hpoint => ?_, hnumbered⟩
  have hword := h '.' hpoint
  revert hword
  decide +kernel

namespace Composed

variable {owner : String} {lo hi : Nat} {ds : List TypeDecl}

theorem fqn_of_mem (h : Composed owner lo hi ds) : ∀ d ∈ ds,
    (d.head.kind ≠ .anonymous ∧ d.fqn = owner ++ "." ++ d.head.name ∧
      ∀ c ∈ d.head.name.toList, isWordChar c) ∨
    d.head.kind = .anonymous ∧ ∃ number, lo < number ∧ d.fqn = s!"{owner}${number}" := by
  induction h with
  | nil => simp
  | named hkind hfqn hname _ _ _ ih => exact List.forall_mem_cons.2 ⟨.inl ⟨hkind, hfqn, hname⟩, ih⟩
  | @anonymous _ lo _ _ _ _ _ hkind hfqn _ _ _ ih =>
    refine List.forall_mem_cons.2 ⟨.inr ⟨hkind, lo + 1, Nat.lt_succ_self lo, hfqn⟩, ?_⟩
    intro d hd
    refine (ih d hd).imp_right fun ⟨hkind, number, hlt, hfqn⟩ => ⟨hkind, number, ?_, hfqn⟩
    omega

theorem extends_of_mem (h : Composed owner lo hi ds) {d : TypeDecl} (hd : d ∈ ds)
    (hnumbered : d.Unnumbered) : Extends owner d.fqn := by
  rcases h.fqn_of_mem d hd with ⟨hkind, hfqn, hname⟩ | ⟨-, number, -, hfqn⟩
  · rw [hfqn]
    exact .member (isPlainName_of_isWordChar hname (hnumbered hkind))
  · rw [hfqn]
    exact .anonymous number

/-- Types with one owner have different full names, named ones by their names and anonymous ones by
    their numbers. -/
theorem fqn_nodup (h : Composed owner lo hi ds) (hnames : (siblingNames ds).Nodup)
    (hnumbered : ∀ d ∈ ds, d.Unnumbered) : (ds.map TypeDecl.fqn).Nodup := by
  induction h with
  | nil => exact List.nodup_nil
  | @named owner _ _ _ head ms ds hkind hfqn hname _ hds _ ih =>
    rw [List.forall_mem_cons] at hnumbered
    rw [siblingNames, List.filter_cons_of_pos (by simpa [TypeDecl.head] using hkind), List.map_cons,
      List.nodup_cons] at hnames
    refine List.nodup_cons.2 ⟨fun hmem => ?_, ih hnames.2 hnumbered.2⟩
    obtain ⟨e, he, heq⟩ := List.mem_map.1 hmem
    have hplain := isPlainName_of_isWordChar hname (hnumbered.1 hkind)
    have heq : e.fqn = owner ++ "." ++ head.name := heq.trans hfqn
    rcases hds.fqn_of_mem e he with ⟨hkind', hfqn', hname'⟩ | ⟨-, number, -, hfqn'⟩
    · have hplain' := isPlainName_of_isWordChar hname' (hnumbered.2 e he hkind')
      refine hnames.1 (List.mem_map.2 ⟨e, List.mem_filter.2 ⟨he, by simpa using hkind'⟩, ?_⟩)
      exact (member_inj hplain' hplain (hfqn'.symm.trans heq)).2
    · exact member_ne_anonymous hplain (heq.symm.trans hfqn')
  | @anonymous owner lo _ _ head ms ds hkind hfqn _ hds _ ih =>
    rw [List.forall_mem_cons] at hnumbered
    rw [siblingNames, List.filter_cons_of_neg (by simp [hkind, TypeDecl.head])] at hnames
    refine List.nodup_cons.2 ⟨fun hmem => ?_, ih hnames hnumbered.2⟩
    obtain ⟨e, he, heq⟩ := List.mem_map.1 hmem
    have heq : e.fqn = s!"{owner}${lo + 1}" := heq.trans hfqn
    rcases hds.fqn_of_mem e he with ⟨hkind', hfqn', hname'⟩ | ⟨-, number, hlt, hfqn'⟩
    · have hplain' := isPlainName_of_isWordChar hname' (hnumbered.2 e he hkind')
      exact member_ne_anonymous hplain' (hfqn'.symm.trans heq)
    · have hnumber := (anonymous_inj (hfqn'.symm.trans heq)).2
      omega

end Composed

/-! ## The types of a forest -/

section Forest

variable {declared : String → Prop}

/-- A step back from a full name to that of a declared owner. -/
def Up (declared : String → Prop) (fqn owner : String) : Prop :=
  Extends owner fqn ∧ declared owner

/-- The full name is reached from the other one by steps through declared types. -/
abbrev Below (declared : String → Prop) : String → String → Prop :=
  Relation.ReflTransGen (Up declared)

theorem up_rightUnique : Relator.RightUnique (Up declared) :=
  fun _ _ _ h h' => h.1.owner_unique h'.1

theorem Below.length_le {fqn owner : String} (h : Below declared fqn owner) :
    owner.length ≤ fqn.length := by
  induction h with
  | refl => exact Nat.le_refl _
  | tail _ hup ih => exact Nat.le_trans (Nat.le_of_lt hup.1.length_lt) ih

/-- Two names above the same one are above each other, so they are the same where neither is. -/
theorem eq_of_below {a b fqn : String} (ha : ∀ x, Up declared a x → ¬ Below declared x b)
    (hb : ∀ x, Up declared b x → ¬ Below declared x a) (hfa : Below declared fqn a)
    (hfb : Below declared fqn b) : a = b := by
  rcases Relation.ReflTransGen.total_of_right_unique up_rightUnique hfa hfb with h | h
  · rcases Relation.ReflTransGen.cases_head h with h | ⟨x, hup, hbelow⟩
    · exact h
    · exact absurd hbelow (ha x hup)
  · rcases Relation.ReflTransGen.cases_head h with h | ⟨x, hup, hbelow⟩
    · exact h.symm
    · exact absurd hbelow (hb x hup)

/-- Different types with one owner have no type below them in common. -/
theorem not_below_of_extends {owner a b : String} (ha : Extends owner a) (hb : Extends owner b)
    (hne : a ≠ b) (fqn : String) (hfa : Below declared fqn a) : ¬ Below declared fqn b := by
  have hup : ∀ {c d : String}, Extends owner c → Extends owner d → ∀ x, Up declared c x →
      ¬ Below declared x d := by
    intro c d hc hd x hup hbelow
    obtain rfl := hup.1.owner_unique hc
    have hlt := hd.length_lt
    have hle := hbelow.length_le
    omega
  exact fun hfb => hne (eq_of_below (hup ha hb) (hup hb ha) hfa hfb)

/-- The full names of the types and of those inside them are distinct, and those inside are below
    the types. -/
structure DistinctBelow (declared : String → Prop) (ds : List TypeDecl) : Prop where
  nodup : ((allOfTypes ds).map TypeDecl.fqn).Nodup
  below : ∀ t ∈ allOfTypes ds, ∃ d ∈ ds, Below declared t.fqn d.fqn

theorem DistinctBelow.nil : DistinctBelow declared [] :=
  ⟨List.nodup_nil, by simp [allOfTypes]⟩

theorem allOfTypes_append (as bs : List TypeDecl) :
    allOfTypes (as ++ bs) = allOfTypes as ++ allOfTypes bs := by
  induction as with
  | nil => rfl
  | cons a as ih => simp [allOfTypes, ih]

theorem allOfTypes_eq_flatMap (ds : List TypeDecl) : allOfTypes ds = ds.flatMap TypeDecl.all := by
  induction ds with
  | nil => rfl
  | cons d ds ih => rw [allOfTypes, List.flatMap_cons, ih]

theorem allOfMembers_eq (ms : List Member) : allOfMembers ms = allOfTypes (typesOfMembers ms) := by
  induction ms with
  | nil => rfl
  | cons m ms ih =>
    rw [typesOfMembers, List.flatMap_cons, ← typesOfMembers, allOfTypes_append, ← ih]
    cases m with
    | method m locals => rfl
    | type d => simp [allOfMembers, Member.types, allOfTypes]

theorem DistinctBelow.cons {head : TypeHead} {ms : List Member} {ds : List TypeDecl}
    (hinner : DistinctBelow declared (typesOfMembers ms))
    (hextends : ∀ e ∈ typesOfMembers ms, Extends head.fqn e.fqn) (hdeclared : declared head.fqn)
    (hds : DistinctBelow declared ds)
    (hseparate : ∀ e ∈ ds, ∀ fqn, Below declared fqn head.fqn → ¬ Below declared fqn e.fqn) :
    DistinctBelow declared (.mk head ms :: ds) := by
  have hall : allOfTypes (.mk head ms :: ds) =
      (.mk head ms :: allOfTypes (typesOfMembers ms)) ++ allOfTypes ds := by
    rw [allOfTypes, TypeDecl.all, allOfMembers_eq]
  -- What is inside of the first type is below it, and strictly so.
  have hbelow : ∀ t ∈ allOfTypes (typesOfMembers ms),
      Below declared t.fqn head.fqn ∧ t.fqn ≠ head.fqn := by
    intro t ht
    obtain ⟨e, he, hte⟩ := hinner.below t ht
    refine ⟨hte.tail ⟨hextends e he, hdeclared⟩, fun heq => ?_⟩
    have hle := hte.length_le
    have hlt := (hextends e he).length_lt
    rw [heq] at hle
    omega
  have hfirst : ∀ t ∈ TypeDecl.mk head ms :: allOfTypes (typesOfMembers ms),
      Below declared t.fqn head.fqn :=
    List.forall_mem_cons.2 ⟨.refl, fun t ht => (hbelow t ht).1⟩
  refine ⟨?_, ?_⟩
  · rw [hall, List.map_append, List.nodup_append, List.map_cons, List.nodup_cons]
    refine ⟨⟨fun hmem => ?_, hinner.nodup⟩, hds.nodup, ?_⟩
    · obtain ⟨t, ht, heq⟩ := List.mem_map.1 hmem
      exact (hbelow t ht).2 heq
    · rw [← List.map_cons]
      intro fqn hfqn fqn' hfqn' heq
      obtain ⟨t, ht, rfl⟩ := List.mem_map.1 hfqn
      obtain ⟨u, hu, rfl⟩ := List.mem_map.1 hfqn'
      obtain ⟨e, he, hue⟩ := hds.below u hu
      exact hseparate e he t.fqn (hfirst t ht) (heq ▸ hue)
  · rw [hall, List.forall_mem_append]
    refine ⟨fun t ht => ⟨_, List.mem_cons_self, hfirst t ht⟩, fun t ht => ?_⟩
    obtain ⟨e, he, hte⟩ := hds.below t ht
    exact ⟨e, List.mem_cons_of_mem _ he, hte⟩

/-- What is asked of a declared type: no two types right inside of it have one name, and its own
    name is no name of an anonymous class. -/
structure TypeDecl.Orderly (d : TypeDecl) : Prop where
  names : (siblingNames (typesOfMembers d.members)).Nodup
  unnumbered : d.Unnumbered

theorem sublist_allOfTypes (ds : List TypeDecl) : ds.Sublist (allOfTypes ds) := by
  induction ds with
  | nil => exact List.Sublist.refl _
  | cons d ds ih =>
    cases d with
    | mk head ms =>
      rw [allOfTypes, TypeDecl.all, List.cons_append]
      exact (ih.trans (List.sublist_append_right _ _)).cons_cons _

theorem forall_allOfTypes_cons {P : TypeDecl → Prop} {head : TypeHead} {ms : List Member}
    {ds : List TypeDecl} :
    (∀ t ∈ allOfTypes (.mk head ms :: ds), P t) ↔
      P (.mk head ms) ∧ (∀ t ∈ allOfTypes (typesOfMembers ms), P t) ∧ ∀ t ∈ allOfTypes ds, P t := by
  rw [allOfTypes, TypeDecl.all, allOfMembers_eq, List.forall_mem_append, List.forall_mem_cons,
    and_assoc]

/-- One of several types with the same owner. -/
theorem DistinctBelow.cons_of_composed {owner : String} {lo hi count : Nat} {head : TypeHead}
    {ms : List Member} {ds : List TypeDecl} (h : Composed owner lo hi (.mk head ms :: ds))
    (hcomposed : Composed head.fqn 0 count (typesOfMembers ms))
    (hnames : (siblingNames (.mk head ms :: ds)).Nodup)
    (hall : ∀ t ∈ allOfTypes (.mk head ms :: ds), declared t.fqn ∧ t.Orderly)
    (hinner : DistinctBelow declared (typesOfMembers ms)) (hds : DistinctBelow declared ds) :
    DistinctBelow declared (.mk head ms :: ds) := by
  have hunnumbered : ∀ d ∈ TypeDecl.mk head ms :: ds, d.Unnumbered :=
    fun d hd => (hall d ((sublist_allOfTypes _).subset hd)).2.unnumbered
  have hfqns := h.fqn_nodup hnames hunnumbered
  rw [List.map_cons, List.nodup_cons] at hfqns
  rw [forall_allOfTypes_cons] at hall
  obtain ⟨hhead, hallInner, -⟩ := hall
  refine hinner.cons (fun e he => ?_) hhead.1 hds fun e he => ?_
  · exact hcomposed.extends_of_mem he (hallInner e ((sublist_allOfTypes _).subset he)).2.unnumbered
  · have hextends := fun d hd => h.extends_of_mem (d := d) hd (hunnumbered d hd)
    have hne : head.fqn ≠ e.fqn := fun heq => hfqns.1 (List.mem_map.2 ⟨e, he, heq.symm⟩)
    exact not_below_of_extends (hextends _ List.mem_cons_self)
      (hextends e (List.mem_cons_of_mem _ he)) hne

/-- **The types of one owner and all those inside of them have distinct full names.** -/
theorem Composed.distinctBelow {owner : String} {lo hi : Nat} {ds : List TypeDecl}
    (h : Composed owner lo hi ds) (hnames : (siblingNames ds).Nodup)
    (hall : ∀ t ∈ allOfTypes ds, declared t.fqn ∧ t.Orderly) : DistinctBelow declared ds := by
  have htail {head : TypeHead} {ms : List Member} {ds : List TypeDecl}
      (hnames : (siblingNames (.mk head ms :: ds)).Nodup) : (siblingNames ds).Nodup :=
    hnames.sublist (((List.sublist_cons_self _ _).filter _).map _)
  induction h with
  | nil => exact .nil
  | named hkind hfqn hname hinner hds ihinner ihds =>
    have hparts := forall_allOfTypes_cons.1 hall
    exact .cons_of_composed (.named hkind hfqn hname hinner hds) hinner hnames hall
      (ihinner hparts.1.2.names hparts.2.1) (ihds (htail hnames) hparts.2.2)
  | anonymous hkind hfqn hinner hds ihinner ihds =>
    have hparts := forall_allOfTypes_cons.1 hall
    exact .cons_of_composed (.anonymous hkind hfqn hinner hds) hinner hnames hall
      (ihinner hparts.1.2.names hparts.2.1) (ihds (htail hnames) hparts.2.2)

/-- **Types without owners and all those inside of them have distinct full names.** -/
theorem distinctBelow_of_tops {ds : List TypeDecl} (hfqns : (ds.map TypeDecl.fqn).Nodup)
    (htops : ∀ d ∈ ds, (∃ count, Composed d.fqn 0 count (typesOfMembers d.members)) ∧
      ∀ owner, ¬ Up declared d.fqn owner)
    (hall : ∀ t ∈ allOfTypes ds, declared t.fqn ∧ t.Orderly) : DistinctBelow declared ds := by
  induction ds with
  | nil => exact .nil
  | cons d ds ih =>
    cases d with
    | mk head ms =>
      rw [List.map_cons, List.nodup_cons] at hfqns
      rw [List.forall_mem_cons] at htops
      obtain ⟨⟨⟨count, hcomposed⟩, hroot⟩, htops⟩ := htops
      obtain ⟨hhead, hallInner, hallRest⟩ := forall_allOfTypes_cons.1 hall
      refine (hcomposed.distinctBelow hhead.2.names hallInner).cons (fun e he => ?_) hhead.1
        (ih hfqns.2 htops hallRest) fun e he fqn hbelow hbelow' => ?_
      · have horderly := (hallInner e ((sublist_allOfTypes _).subset he)).2
        exact hcomposed.extends_of_mem he horderly.unnumbered
      · have heq := eq_of_below (fun x hup => absurd hup (hroot x))
          (fun x hup => absurd hup ((htops e he).2 x)) hbelow hbelow'
        exact hfqns.1 (List.mem_map.2 ⟨e, he, heq.symm⟩)

end Forest

/-! ## The types of all files -/

/-- What the full names of a file start from. -/
theorem namedType_of_parse {source : List Char} {unit : CompilationUnit}
    (h : CompilationUnit.parse source = .ok unit) : ∀ d ∈ unit.types,
    d.head.kind ≠ .anonymous ∧ d.fqn = unit.packagePrefix ++ d.head.name ∧
      (∀ c ∈ d.head.name.toList, isWordChar c) ∧
      ∃ count, Composed d.fqn 0 count (typesOfMembers d.members) := by
  obtain ⟨root, htree, rfl⟩ := CompilationUnit.exists_tree_of_parse h
  intro d hd
  have hnamed := lowerTypes_named rfl root.children (namesSpelled_of_javaTree htree) _ d hd
  exact ⟨hnamed.kind, hnamed.fqn, hnamed.name, hnamed.inner⟩

/-- Types that stand side by side are told apart by their names: at the top level by the full
    names, and in one owner by the names themselves, be they of members or of local classes. -/
structure DistinctSiblings (units : List CompilationUnit) : Prop where
  top : ((units.flatMap CompilationUnit.types).map TypeDecl.fqn).Nodup
  inner : ∀ unit ∈ units, ∀ d ∈ unit.allTypes, (siblingNames (typesOfMembers d.members)).Nodup

/-- No name is mistaken for another one: none is that of an anonymous class, and no package is
    called like a type. -/
structure ClearNames (units : List CompilationUnit) : Prop where
  unnumbered : ∀ unit ∈ units, ∀ d ∈ unit.allTypes, d.Unnumbered
  packages : ∀ unit ∈ units, ∀ other ∈ units, ∀ d ∈ other.allTypes, unit.package ≠ some d.fqn

/-- A type at the top level has no declared owner. -/
theorem not_extends_top {unit : CompilationUnit} {name owner : String} (hname : IsPlainName name)
    (hpackage : unit.package ≠ some owner) : ¬ Extends owner (unit.packagePrefix ++ name) := by
  intro h
  cases hunit : unit.package with
  | none =>
    rw [CompilationUnit.packagePrefix, hunit, String.empty_append] at h
    cases h with
    | member h => exact hname.1 (by simp)
    | anonymous number => exact hname.2 ⟨owner, number, rfl⟩
  | some p =>
    rw [CompilationUnit.packagePrefix, hunit] at h
    exact hpackage (hunit.trans (congrArg some ((Extends.member hname).owner_unique h)))

theorem allOfTypes_flatMap (units : List CompilationUnit) :
    allOfTypes (units.flatMap CompilationUnit.types) =
      units.flatMap CompilationUnit.allTypes := by
  induction units with
  | nil => rfl
  | cons unit units ih =>
    rw [List.flatMap_cons, List.flatMap_cons, allOfTypes_append, ih]
    rfl

theorem declaredNames_eq (units : List CompilationUnit) :
    TypeIndex.declaredNames units =
      (allOfTypes (units.flatMap CompilationUnit.types)).map TypeDecl.fqn := by
  rw [allOfTypes_flatMap, TypeIndex.declaredNames, List.map_flatMap]

/-! ### Full names that are distinct -/

theorem Composed.names_nodup {owner : String} {lo hi : Nat} {ds : List TypeDecl}
    (h : Composed owner lo hi ds) (hfqns : (ds.map TypeDecl.fqn).Nodup) :
    (siblingNames ds).Nodup := by
  have hnamed : (ds.filter fun d => d.head.kind != .anonymous).map TypeDecl.fqn =
      (siblingNames ds).map (owner ++ "." ++ ·) := by
    rw [siblingNames, List.map_map]
    refine List.map_congr_left fun d hd => ?_
    obtain ⟨hd, hkind⟩ := List.mem_filter.1 hd
    rcases h.fqn_of_mem d hd with ⟨-, hfqn, -⟩ | ⟨hanonymous, -⟩
    · exact hfqn
    · simp [hanonymous] at hkind
  refine List.Nodup.of_map (owner ++ "." ++ ·) ?_
  rw [← hnamed]
  exact hfqns.sublist (List.filter_sublist.map _)

/-- The parts of a row of types whose full names are distinct. -/
theorem nodup_parts {head : TypeHead} {ms : List Member} {ds : List TypeDecl}
    (h : ((allOfTypes (.mk head ms :: ds)).map TypeDecl.fqn).Nodup) :
    ((typesOfMembers ms).map TypeDecl.fqn).Nodup ∧
      ((allOfTypes (typesOfMembers ms)).map TypeDecl.fqn).Nodup ∧
      ((allOfTypes ds).map TypeDecl.fqn).Nodup := by
  rw [allOfTypes, TypeDecl.all, allOfMembers_eq, List.map_append, List.map_cons, List.nodup_append,
    List.nodup_cons] at h
  exact ⟨h.1.2.sublist ((sublist_allOfTypes _).map _), h.1.2, h.2.1⟩

theorem Composed.forall_inner_of_nodup {owner : String} {lo hi : Nat} {ds : List TypeDecl}
    (h : Composed owner lo hi ds) (hnodup : ((allOfTypes ds).map TypeDecl.fqn).Nodup) :
    ∀ d ∈ allOfTypes ds, (siblingNames (typesOfMembers d.members)).Nodup := by
  induction h with
  | nil => simp [allOfTypes]
  | named _ _ _ hinner _ ihinner ihds =>
    obtain ⟨hsiblings, hbelow, hrest⟩ := nodup_parts hnodup
    exact forall_allOfTypes_cons.2 ⟨hinner.names_nodup hsiblings, ihinner hbelow, ihds hrest⟩
  | anonymous _ _ hinner _ ihinner ihds =>
    obtain ⟨hsiblings, hbelow, hrest⟩ := nodup_parts hnodup
    exact forall_allOfTypes_cons.2 ⟨hinner.names_nodup hsiblings, ihinner hbelow, ihds hrest⟩

theorem forall_inner_of_nodup {ds : List TypeDecl}
    (h : ∀ d ∈ ds, ∃ count, Composed d.fqn 0 count (typesOfMembers d.members))
    (hnodup : ((allOfTypes ds).map TypeDecl.fqn).Nodup) :
    ∀ d ∈ allOfTypes ds, (siblingNames (typesOfMembers d.members)).Nodup := by
  induction ds with
  | nil => simp [allOfTypes]
  | cons d ds ih =>
    cases d with
    | mk head ms =>
      rw [List.forall_mem_cons] at h
      obtain ⟨⟨count, hcomposed⟩, hds⟩ := h
      obtain ⟨hsiblings, hbelow, hrest⟩ := nodup_parts hnodup
      exact forall_allOfTypes_cons.2 ⟨hcomposed.names_nodup hsiblings,
        hcomposed.forall_inner_of_nodup hbelow, ih hds hrest⟩

section Files

variable {units : List CompilationUnit}
  (hparse : ∀ unit ∈ units, ∃ source, CompilationUnit.parse source = .ok unit)

include hparse

/-- **The full names of all types of all files are distinct**, member types, local classes and
    anonymous classes included, if the names in each single type are. -/
theorem declaredNames_nodup (hclear : ClearNames units) (hdistinct : DistinctSiblings units) :
    (TypeIndex.declaredNames units).Nodup := by
  let declared : String → Prop := fun fqn => ∃ unit ∈ units, ∃ d ∈ unit.allTypes, d.fqn = fqn
  have hall : ∀ t ∈ allOfTypes (units.flatMap CompilationUnit.types),
      declared t.fqn ∧ t.Orderly := by
    rw [allOfTypes_flatMap]
    intro t ht
    obtain ⟨unit, hunit, ht⟩ := List.mem_flatMap.1 ht
    exact ⟨⟨unit, hunit, t, ht, rfl⟩, hdistinct.inner unit hunit t ht,
      hclear.unnumbered unit hunit t ht⟩
  have htops : ∀ d ∈ units.flatMap CompilationUnit.types,
      (∃ count, Composed d.fqn 0 count (typesOfMembers d.members)) ∧
        ∀ owner, ¬ Up declared d.fqn owner := by
    intro d hd
    obtain ⟨unit, hunit, hd'⟩ := List.mem_flatMap.1 hd
    obtain ⟨source, hsource⟩ := hparse unit hunit
    obtain ⟨hkind, hfqn, hname, hcomposed⟩ := namedType_of_parse hsource d hd'
    refine ⟨hcomposed, fun owner hup => ?_⟩
    have hnumbered := (hall d ((sublist_allOfTypes _).subset hd)).2.unnumbered hkind
    obtain ⟨other, hother, t, ht, rfl⟩ := hup.2
    refine not_extends_top (isPlainName_of_isWordChar hname hnumbered)
      (hclear.packages unit hunit other hother t ht) ?_
    rw [← hfqn]
    exact hup.1
  rw [declaredNames_eq]
  exact (distinctBelow_of_tops hdistinct.top htops hall).nodup

/-- Only different names lead to different full names. -/
theorem distinctSiblings_of_nodup (h : (TypeIndex.declaredNames units).Nodup) :
    DistinctSiblings units := by
  rw [declaredNames_eq] at h
  have hinner : ∀ d ∈ allOfTypes (units.flatMap CompilationUnit.types),
      (siblingNames (typesOfMembers d.members)).Nodup := by
    refine forall_inner_of_nodup (fun d hd => ?_) h
    obtain ⟨unit, hunit, hd⟩ := List.mem_flatMap.1 hd
    obtain ⟨source, hsource⟩ := hparse unit hunit
    exact (namedType_of_parse hsource d hd).2.2.2
  rw [allOfTypes_flatMap] at hinner
  exact ⟨h.sublist ((sublist_allOfTypes _).map _),
    fun unit hunit d hd => hinner d (List.mem_flatMap.2 ⟨unit, hunit, hd⟩)⟩

/-- **Every declared type has its own entry in the index**, and the index has no others, exactly if
    types that stand side by side have different names. -/
theorem TypeIndex.own_entries (hclear : ClearNames units) :
    ((declaredNames units).Nodup ↔ DistinctSiblings units) ∧
      (DistinctSiblings units →
        (build units).size = (units.flatMap CompilationUnit.allTypes).length ∧
        ∀ unit ∈ units, ∀ d ∈ unit.allTypes,
          (build units).get? d.fqn = some ((build units).summarize unit d)) := by
  refine ⟨⟨distinctSiblings_of_nodup hparse, declaredNames_nodup hparse hclear⟩,
    fun hdistinct => ?_⟩
  have hnodup := declaredNames_nodup hparse hclear hdistinct
  refine ⟨?_, fun unit hunit d hd => get?_build hnodup hunit hd⟩
  rw [size, summaries_build hnodup, List.length_flatMap, List.length_flatMap]
  simp only [List.length_map]

end Files

theorem not_isNumbered_of_notMem {name : String} (h : '$' ∉ name.toList) : ¬ IsNumbered name := by
  rintro ⟨front, number, rfl⟩
  rw [toList_anonymous] at h
  simp at h

set_option maxRecDepth 20000 in
/-- A class with a member, a local class and an anonymous class, and an enum with the same name and
    the same member in a package. -/
theorem TypeIndex.own_entries_two_files :
    let first := "class A\x7bclass M\x7b\x7dvoid f()\x7bclass L\x7b\x7dnew B()\x7b\x7d;\x7d\x7d".toList
    let second := "package p;enum A\x7bX\x7b\x7d;class M\x7b\x7d\x7d".toList
    let units := [first, second].map fun s => (CompilationUnit.parse s).toOption.getD default
    ClearNames units ∧ DistinctSiblings units ∧
      declaredNames units = ["A", "A.M", "A.L", "A$1", "p.A", "p.A$1", "p.A.M"] ∧
      (build units).size = 7 ∧ (build units).get? "p.A$1" =
        some ⟨"p.A$1", .anonymous, [⟨"p.A", true⟩], []⟩ := by
  intro first second units
  obtain ⟨hfirst, hsecond, hnames, htop, hinner, hdollar, hpackages, hget⟩ :
      (CompilationUnit.parse first).toOption.isSome ∧
      (CompilationUnit.parse second).toOption.isSome ∧
      declaredNames units = ["A", "A.M", "A.L", "A$1", "p.A", "p.A$1", "p.A.M"] ∧
      ((units.flatMap CompilationUnit.types).map TypeDecl.fqn).Nodup ∧
      (∀ unit ∈ units, ∀ d ∈ unit.allTypes,
        (siblingNames (typesOfMembers d.members)).Nodup) ∧
      (∀ unit ∈ units, ∀ d ∈ unit.allTypes, '$' ∉ d.head.name.toList) ∧
      (∀ unit ∈ units, ∀ other ∈ units, ∀ d ∈ other.allTypes, unit.package ≠ some d.fqn) ∧
      (build units).get? "p.A$1" = some ⟨"p.A$1", .anonymous, [⟨"p.A", true⟩], []⟩ := by
    decide +kernel
  have hparse : ∀ unit ∈ units, ∃ source, CompilationUnit.parse source = .ok unit := by
    refine List.forall_mem_cons.2 ⟨⟨first, eq_ok_getD_of_isSome hfirst⟩, ?_⟩
    exact List.forall_mem_singleton.2 ⟨second, eq_ok_getD_of_isSome hsecond⟩
  have hclear : ClearNames units :=
    ⟨fun unit hunit d hd _ => not_isNumbered_of_notMem (hdollar unit hunit d hd), hpackages⟩
  obtain ⟨-, hentries⟩ := own_entries hparse hclear
  have hsize := (hentries ⟨htop, hinner⟩).1
  have hcount : (declaredNames units).length =
      (units.flatMap CompilationUnit.allTypes).length := by
    simp [declaredNames, List.length_flatMap]
  rw [← hcount, hnames] at hsize
  exact ⟨hclear, ⟨htop, hinner⟩, hnames, hsize, hget⟩

set_option maxRecDepth 20000 in
/-- Local classes of two methods have one full name if they have one name, and the index keeps the
    second one, without the method of the first. No type here has a member type. -/
theorem TypeIndex.shared_entry_of_local_classes :
    let source :=
      ("class A\x7bvoid f()\x7bclass L\x7bvoid m()throws a.E\x7b\x7d\x7dclass M extends L\x7b" ++
        "void m()throws a.E\x7b\x7d\x7d\x7dvoid g()\x7bclass L\x7b\x7d\x7d\x7d").toList
    let unit := (CompilationUnit.parse source).toOption.getD default
    (CompilationUnit.parse source).toOption.isSome ∧
      (unit.allTypes.all fun d => d.members.all fun
        | .method _ _ => true
        | .type _ => false) ∧
      declaredNames [unit] = ["A", "A.L", "A.M", "A.L"] ∧ (build [unit]).size = 3 ∧
      (build [unit]).get? "A.L" = some ⟨"A.L", .classType, [], []⟩ := by
  decide +kernel

end JavaThrows
