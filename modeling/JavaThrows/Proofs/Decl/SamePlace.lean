import JavaThrows.Proofs.Decl.Rearranged

set_option autoImplicit false

/-!
# The same type in two files

In two files that are the same but for the members of one type, the walks go the same way until they
come to these members, and they open the type around them in the same scope and with the same
declared types. Main statement: `Rearranged.matched`.
-/

namespace JavaThrows

open Cst Text

mutual
/-- What holds of every node holds everywhere. -/
theorem everywhere_of_forall {P : Node → Prop} (h : ∀ n, P n) (n : Node) : n.Everywhere P := by
  match n with
  | ⟨kind, field, named, span, children⟩ =>
    rw [Node.Everywhere]
    exact ⟨h _, allEverywhere_of_forall h children⟩

theorem allEverywhere_of_forall {P : Node → Prop} (h : ∀ n, P n) (ns : List Node) :
    AllEverywhere P ns := by
  match ns with
  | [] => exact trivial
  | n :: ns => exact ⟨everywhere_of_forall h n, allEverywhere_of_forall h ns⟩
end

/-! ## Places that are the same in both files -/

/-- All entries of the tables count. -/
def Anywhere (_ : String) : Prop :=
  True

theorem anywhere (owner : String) : Anywhere owner :=
  trivial

section Place

variable {g : Gap} (hg : g.lacking = [])

include hg

theorem Gap.closed_anywhere : g.Closed Anywhere where
  inside _ _ := trivial
  clear _ _ := hg

theorem Gap.not_misses (name : String) : ¬ g.Misses name := fun h => by
  rw [Gap.Misses, hg] at h
  cases h.1

theorem Gap.boundWithin_everywhere (source : List Char) (ns : List Node) :
    ∀ n ∈ ns, n.Everywhere (g.BoundWithin source) :=
  fun n _ => everywhere_of_forall (fun _ _ _ _ => g.not_misses hg _) n

end Place

/-- A table has all that the first pass has entered, and its types go by the full names that their
    owners and their names make. -/
structure Settled (declared : DeclaredTypes) (packagePrefix : String) (ds : DeclaredTypes) :
    Prop where
  keeps : ∀ {o x fqn : String}, declared.find? o x = some fqn → ds.find? o x = some fqn
  spelled : ∀ {o x fqn : String}, ds.find? o x = some fqn →
    fqn = o ++ "." ++ x ∨ o = "" ∧ fqn = packagePrefix ++ x

/-- What a table has beside the entries of the first pass: the types in the types `before`, as far
    as these are closed, the types in those that are open, which have the full names `enclosing`,
    and those at the top level. -/
structure Traced (declared : DeclaredTypes) (before : List TypeDecl) (enclosing : List String)
    (ds : DeclaredTypes) : Prop where
  traced : ∀ {o x : String}, (ds.find? o x).isSome → (declared.find? o x).isSome ∨
    (o = "" ∨ o ∈ enclosing) ∨ ∃ t ∈ before, t.fqn = o ∧ x ∈ innerNames t.members
  entered : ∀ t ∈ before, t.fqn ∉ enclosing → ∀ x ∈ innerNames t.members,
    (ds.find? t.fqn x).isSome

/-- A place in the members of a type. -/
structure Station where
  /-- The table that the walk has come to the type with. -/
  known : DeclaredTypes
  /-- The members in front. -/
  front : List Member
  scope : Scope
  recordParams : List Param
  walk : Walk

namespace Station

/-- The members of the type that are read from the nodes. -/
def read (p : Station) (d : TypeDecl) (ns : List Node) : List Member :=
  ((lowerMembers p.scope d.fqn d.head.name p.recordParams ns).run p.walk).1

/-- Where the walk is behind the nodes. -/
def after (p : Station) (d : TypeDecl) (ns : List Node) : Station :=
  { p with
    front := p.front ++ p.read d ns
    walk := ((lowerMembers p.scope d.fqn d.head.name p.recordParams ns).run p.walk).2 }

/-- Where the walk is when it has opened a type. -/
def opened (ds : DeclaredTypes) (s : Scope) (recordParams : List Param) : Station :=
  ⟨ds, [], s, recordParams, ⟨ds, 0⟩⟩

end Station

/-- The walk through the members of the type is at the nodes. Since it has come to the type it has
    entered the types in the members in front. -/
structure TypeDecl.Reaches (d : TypeDecl) (p : Station) (ns : List Node) : Prop where
  inside : p.scope.enclosing.head? = some d.fqn
  members : ∃ back, d.members = p.front ++ (p.read d ns ++ back)
  enters : Enters d.fqn (innerNames p.front) p.known p.walk.declared

section Definitions

variable (g : Gap) (source source' : List Char) (declared : DeclaredTypes)

/-- Two places of the walks with the same around them, in a type with the full name `owner`. The
    first walk has been at the types `before`. -/
structure SamePlace (before : List TypeDecl) (owner : String) (s s' : Scope) (w w' : Walk) :
    Prop where
  scopes : g.Scopes Anywhere source source' s s'
  walks : g.Walks Anywhere w w'
  within : ∀ o ∈ s.enclosing, o = owner ∨ o.length < owner.length
  longer : g.packagePrefix.length ≤ owner.length
  settled : Settled declared g.packagePrefix w.declared
  settled' : Settled declared g.packagePrefix w'.declared
  traced : Traced declared before s.enclosing w.declared

/-- The walks are at the nodes in the same type. In front of it stand the types `before`. -/
structure InSameType (before : List TypeDecl) (d d' : TypeDecl) (p p' : Station)
    (ns ns' : List Node) : Prop where
  fqn : d.fqn = d'.fqn
  name : d.head.name = d'.head.name
  place : SamePlace g source source' declared
    (before ++ d :: allOfTypes (typesOfMembers p.front)) d.fqn p.scope p'.scope p.walk p'.walk
  recordParams : List.Forall₂ (Param.Alike g.Seen) p.recordParams p'.recordParams
  known : g.Tables Anywhere p.known p'.known
  settled : Settled declared g.packagePrefix p.known
  known_iff : d.fqn ≠ "" → ∀ x : String, (p.known.find? d.fqn x).isSome ↔
    (declared.find? d.fqn x).isSome ∨ ∃ t ∈ before, t.fqn = d.fqn ∧ x ∈ innerNames t.members
  reaches : d.Reaches p ns
  reaches' : d'.Reaches p' ns'

/-- Among the types are two such that the walks are at the nodes in the same type. -/
def Matched (before : List TypeDecl) (ns ns' : List Node) (ds ds' : List TypeDecl) : Prop :=
  ∃ front d back, ds = front ++ d :: back ∧ ∃ d' ∈ ds', ∃ p p',
    InSameType g source source' declared (before ++ front) d d' p p' ns ns'

/-- Wherever the walks come to the rows, they find such types. -/
def Finds (ns ns' : List Node) : RowKind → List Node → List Node → Prop
  | .top, ms, ms' => ∀ {before : List TypeDecl} {owner : String} {s s' : Scope} {w w' : Walk},
    s.enclosing = [] → SamePlace g source source' declared before owner s s' w w' →
    Matched g source source' declared before ns ns' (allOfTypes ((lowerTypes s ms).run w).1)
      (allOfTypes ((lowerTypes s' ms').run w').1)
  | .inside, ms, ms' => ∀ {before : List TypeDecl} {owner : String} {s s' : Scope} {w w' : Walk},
    owner ∈ s.enclosing → SamePlace g source source' declared before owner s s' w w' →
    Matched g source source' declared before ns ns' (allOfTypes ((lowerInside s owner ms).run w).1)
      (allOfTypes ((lowerInside s' owner ms').run w').1)
  | .members, ms, ms' => ∀ {before : List TypeDecl} {d d' : TypeDecl} {p p' : Station},
    InSameType g source source' declared before d d' p p' ms ms' →
    Matched g source source' declared before ns ns' d.all d'.all

end Definitions

namespace Settled

variable {declared ds ds' : DeclaredTypes} {packagePrefix owner : String}

theorem enters (h : Settled declared packagePrefix ds) {names : List String}
    (henters : Enters owner names ds ds') : Settled declared packagePrefix ds' where
  keeps hfound := henters.keeps (h.keeps hfound)
  spelled hfound := by
    rcases henters.spelled hfound with hfound | hfqn
    · exact h.spelled hfound
    · exact .inl hfqn

theorem declare (h : Settled declared packagePrefix ds) {name fqn : String}
    (hfqn : fqn = owner ++ "." ++ name ∨ owner = "" ∧ fqn = packagePrefix ++ name) :
    Settled declared packagePrefix (ds.declare owner name fqn) where
  keeps hfound := DeclaredTypes.find?_declare_of_some (h.keeps hfound) _ _ _
  spelled {o x found} hfound := by
    rw [DeclaredTypes.find?_declare] at hfound
    split at hfound
    · next heq =>
      obtain ⟨rfl, rfl⟩ := heq
      cases hbefore : ds.find? o x with
      | some before =>
        rw [hbefore, Option.getD_some] at hfound
        exact h.spelled (hbefore.trans hfound)
      | none =>
        rw [hbefore, Option.getD_none] at hfound
        exact Option.some.inj hfound ▸ hfqn
    · exact h.spelled hfound

/-- A type is declared by the full name that is made for it. -/
theorem declare_qualify (h : Settled declared packagePrefix ds) {s : Scope}
    (hs : s.packagePrefix = packagePrefix) (parent : Option String) (name : String) :
    Settled declared packagePrefix
      (ds.declare (parent.getD "") name (s.qualify parent name)) := by
  refine h.declare ?_
  cases parent with
  | none => exact .inr ⟨rfl, congrArg (· ++ name) hs⟩
  | some owner => exact .inl rfl

end Settled

namespace Traced

variable {declared ds ds' : DeclaredTypes} {before : List TypeDecl} {enclosing : List String}
  {owner : String}

/-- What the first pass has entered. -/
theorem nil (declared : DeclaredTypes) (enclosing : List String) :
    Traced declared [] enclosing declared :=
  ⟨.inl, nofun⟩

theorem enters (h : Traced declared before enclosing ds) (howner : owner = "" ∨ owner ∈ enclosing)
    {ts : List TypeDecl} (henters : EntersTypes owner ts ds ds') :
    Traced declared (before ++ allOfTypes ts) enclosing ds' where
  traced hfound := by
    rcases henters.traced hfound with hfound | ⟨rfl, -⟩ | ⟨t, ht, hinner⟩
    · refine (h.traced hfound).imp_right (Or.imp_right ?_)
      rintro ⟨t, ht, hinner⟩
      exact ⟨t, List.mem_append_left _ ht, hinner⟩
    · exact .inr (.inl howner)
    · exact .inr (.inr ⟨t, List.mem_append_right _ ht, hinner⟩)
  entered t ht hout x hx := by
    rcases List.mem_append.1 ht with ht | ht
    · obtain ⟨fqn, hfound⟩ := Option.isSome_iff_exists.1 (h.entered t ht hout x hx)
      rw [henters.keeps hfound, Option.isSome_some]
    · exact henters.entered t ht x hx

theorem declare (h : Traced declared before enclosing ds)
    (howner : owner = "" ∨ owner ∈ enclosing) (name fqn : String) :
    Traced declared before enclosing (ds.declare owner name fqn) where
  traced hfound := by
    rw [DeclaredTypes.find?_declare] at hfound
    split at hfound
    · next heq => exact .inr (.inl (heq.1 ▸ howner))
    · exact h.traced hfound
  entered t ht hout x hx := by
    obtain ⟨found, hfound⟩ := Option.isSome_iff_exists.1 (h.entered t ht hout x hx)
    rw [DeclaredTypes.find?_declare_of_some hfound, Option.isSome_some]

/-- A type is opened. -/
theorem enter (h : Traced declared before enclosing ds) (d : TypeDecl) :
    Traced declared (before ++ [d]) (d.fqn :: enclosing) ds where
  traced hfound := by
    rcases h.traced hfound with hdeclared | hopen | ⟨t, ht, hinner⟩
    · exact .inl hdeclared
    · exact .inr (.inl (hopen.imp_right (List.mem_cons_of_mem d.fqn)))
    · exact .inr (.inr ⟨t, List.mem_append_left _ ht, hinner⟩)
  entered t ht hout x hx := by
    rw [List.mem_cons, not_or] at hout
    rcases List.mem_append.1 ht with ht | ht
    · exact h.entered t ht hout.2 x hx
    · exact absurd (congrArg TypeDecl.fqn (List.mem_singleton.1 ht)) hout.1

/-- A type at the top level is walked through. -/
theorem top (h : Traced declared before enclosing ds) {t : TypeDecl}
    (hinner : EntersTypes t.fqn (typesOfMembers t.members) ds ds') :
    Traced declared (before ++ allOfTypes [t]) enclosing ds' where
  traced hfound := by
    rcases hinner.opened.1 hfound with hfound | ⟨t', ht', hx⟩
    · refine (h.traced hfound).imp_right (Or.imp_right ?_)
      rintro ⟨t', ht', hx⟩
      exact ⟨t', List.mem_append_left _ ht', hx⟩
    · exact .inr (.inr ⟨t', List.mem_append_right _ ht', hx⟩)
  entered t' ht' hout x hx := by
    rcases List.mem_append.1 ht' with ht' | ht'
    · obtain ⟨fqn, hfound⟩ := Option.isSome_iff_exists.1 (h.entered t' ht' hout x hx)
      rw [hinner.keeps hfound, Option.isSome_some]
    · exact hinner.opened.2 t' ht' x hx

/-- What is known of a type that is opened: what the first pass has entered, and what types of the
    same full name have in them that stand in front. -/
theorem known_iff (h : Traced declared before enclosing ds) {packagePrefix fqn : String}
    (hsettled : Settled declared packagePrefix ds) (hout : fqn ∉ enclosing) (hfqn : fqn ≠ "")
    (x : String) :
    (ds.find? fqn x).isSome ↔ (declared.find? fqn x).isSome ∨
      ∃ t ∈ before, t.fqn = fqn ∧ x ∈ innerNames t.members := by
  constructor
  · intro hfound
    exact (h.traced hfound).imp_right fun hother => hother.resolve_left fun hopen =>
      hopen.elim hfqn hout
  · rintro (hdeclared | ⟨t, ht, rfl, hx⟩)
    · obtain ⟨found, hfound⟩ := Option.isSome_iff_exists.1 hdeclared
      rw [hsettled.keeps hfound, Option.isSome_some]
    · exact h.entered t ht hout x hx

end Traced

section Walk

variable {g : Gap} {source source' : List Char} {declared : DeclaredTypes}
  {before : List TypeDecl} {ns ns' : List Node}

theorem Matched.mono {as ds ds' es es' : List TypeDecl}
    (h : Matched g source source' declared (before ++ as) ns ns' ds ds') (bs : List TypeDecl)
    (hes : es = as ++ (ds ++ bs)) (hds' : ds' ⊆ es') :
    Matched g source source' declared before ns ns' es es' := by
  obtain ⟨front, d, back, rfl, d', hd', p, p', htype⟩ := h
  rw [List.append_assoc] at htype
  refine ⟨as ++ front, d, back ++ bs, ?_, d', hds' hd', p, p', htype⟩
  rw [hes, List.append_assoc, List.append_assoc, List.cons_append]

/-! ## The walks side by side -/

theorem allOfTypes_one (d : TypeDecl) : allOfTypes [d] = d.all :=
  List.append_nil d.all

theorem TypeDecl.all_eq (d : TypeDecl) : d.all = d :: allOfTypes (typesOfMembers d.members) :=
  (allOfTypes_one d).symm.trans (allOfTypes_singleton d)

/-! ### Where the walk is in a type -/

namespace TypeDecl.Reaches

variable {d : TypeDecl} {p : Station} {n : Node} {ms : List Node}

/-- The types in members of a type. -/
theorem types (h : d.Reaches p ms) :
    ∃ rest, d.all = (d :: allOfTypes (typesOfMembers p.front)) ++
      (allOfTypes (typesOfMembers (p.read d ms)) ++ rest) := by
  obtain ⟨back, hmembers⟩ := h.members
  refine ⟨allOfTypes (typesOfMembers back), ?_⟩
  rw [TypeDecl.all_eq, hmembers, typesOfMembers_append, typesOfMembers_append, allOfTypes_append,
    allOfTypes_append, List.cons_append]

theorem types_subset (h : d.Reaches p ms) :
    allOfTypes (typesOfMembers (p.read d ms)) ⊆ d.all := by
  obtain ⟨rest, hall⟩ := h.types
  rw [hall]
  exact fun t ht => List.mem_append_right _ (List.mem_append_left _ ht)

theorem head (h : d.Reaches p (n :: ms)) : d.Reaches p [n] := by
  obtain ⟨back, hmembers⟩ := h.members
  rw [Station.read, ← List.singleton_append, run_lowerMembers_append, List.append_assoc]
    at hmembers
  exact ⟨h.inside, ⟨_, hmembers⟩, h.enters⟩

theorem next (h : d.Reaches p (n :: ms)) : d.Reaches (p.after d [n]) ms := by
  obtain ⟨back, hmembers⟩ := h.members
  have hhere := lowerMembers_enters p.scope d.fqn d.head.name p.recordParams [n] p.walk
  rw [Station.read, ← List.singleton_append, run_lowerMembers_append, List.append_assoc,
    ← List.append_assoc] at hmembers
  refine ⟨h.inside, ⟨back, hmembers⟩, ?_⟩
  rw [Station.after, innerNames, typesOfMembers_append, siblingNames_append]
  exact h.enters.trans hhere.toEnters

/-- A type that has just been opened. -/
theorem opened {s : Scope} {recordParams : List Param} {ds : DeclaredTypes}
    (hinside : s.enclosing.head? = some d.fqn)
    (hmembers : d.members = ((lowerMembers s d.fqn d.head.name recordParams ms).run ⟨ds, 0⟩).1) :
    d.Reaches (.opened ds s recordParams) ms :=
  ⟨hinside, ⟨[], hmembers.trans (List.append_nil _).symm⟩, .refl _ _⟩

end TypeDecl.Reaches

theorem lowerBody_of_find? {isWanted : Node → Bool} {body : Node} {children : List Node}
    (h : children.find? isWanted = some body) (s : Scope) (owner ownerName : String)
    (recordParams : List Param) :
    lowerBody s owner ownerName recordParams isWanted children =
      lowerMembers s owner ownerName recordParams (memberNodes body.children) := by
  rw [lowerMembers_memberNodes]
  induction children with
  | nil => cases h
  | cons c cs ih =>
    obtain ⟨kind, field, named, span, children⟩ := c
    rw [List.find?_cons] at h
    rw [lowerBody]
    split at h
    · next hbody =>
      obtain rfl := Option.some.inj h
      exact if_pos hbody
    · next hbody => rw [hbody, if_neg Bool.false_ne_true, ih h]

theorem lowerLocals_eq (s : Scope) (owner : String) (isWanted : Node → Bool) (ms : List Node) :
    lowerLocals s owner isWanted ms = match ms.find? isWanted with
      | some n => lowerInside s owner n.children
      | none => pure [] := by
  induction ms with
  | nil => rw [lowerLocals]; rfl
  | cons c cs ih =>
    obtain ⟨kind, field, named, span, children⟩ := c
    rw [lowerLocals, List.find?_cons, ih]
    cases isWanted ⟨kind, field, named, span, children⟩ <;> rfl

/-! ### The same place -/

namespace SamePlace

variable {owner : String} {s s' : Scope} {w w' : Walk}

/-- After two runs that go the same way the places are the same again. -/
theorem run {α β : Type} {results : α → β → Prop} {x : WalkM α} {y : WalkM β}
    (h : SamePlace g source source' declared before owner s s' w w') (howner : owner ∈ s.enclosing)
    (hruns : RunsAlike (g.Walks Anywhere) results x y) {ts ts' : List TypeDecl}
    (hx : EntersTypes owner ts w.declared (x.run w).2.declared)
    (hy : EntersTypes owner ts' w'.declared (y.run w').2.declared) :
    SamePlace g source source' declared (before ++ allOfTypes ts) owner s s' (x.run w).2
      (y.run w').2 :=
  { h with
    walks := (hruns w w' h.walks).2
    settled := h.settled.enters hx.toEnters
    settled' := h.settled'.enters hy.toEnters
    traced := h.traced.enters (.inr howner) hx }

theorem header (h : SamePlace g source source' declared before owner s s' w w')
    (hg : g.lacking = []) {n n' : Node} (hn : SameHeader source source' n n') :
    g.Scopes Anywhere source source' (s.withTypeVars (s.typeParams w.declared n))
      (s'.withTypeVars (s'.typeParams w'.declared n')) :=
  (h.scopes.typeParams h.walks.declared hn fun _ _ _ _ => g.not_misses hg _).2

/-- The places in the bodies of methods with the same header. -/
theorem method (h : SamePlace g source source' declared before owner s s' w w')
    (hg : g.lacking = []) {n n' : Node} (hn : SameHeader source source' n n') :
    SamePlace g source source' declared before owner
      (s.withTypeVars (s.typeParams w.declared n)) (s'.withTypeVars (s'.typeParams w'.declared n'))
      w w' :=
  { h with scopes := h.header hg hn }

/-- The full name of an anonymous class is not that of a type around it. -/
theorem enclosing_lt_anonymous (h : SamePlace g source source' declared before owner s s' w w')
    (number : Nat) : ∀ o ∈ s.enclosing, o.length < s!"{owner}${number}".length := by
  have hlt := length_lt_anonymous owner number
  intro o ho
  rcases h.within o ho with rfl | hlonger
  · exact hlt
  · exact hlonger.trans hlt

/-- The places in the bodies of anonymous classes with the same number. -/
theorem anonymous (h : SamePlace g source source' declared before owner s s' w w') {d : TypeDecl}
    {number : Nat} (hd : d.fqn = s!"{owner}${number}") :
    SamePlace g source source' declared (before ++ [d]) d.fqn (s.enter d.fqn) (s'.enter d.fqn)
      ⟨w.declared, 0⟩ ⟨w'.declared, 0⟩ :=
  have hlonger : ∀ o ∈ s.enclosing, o.length < d.fqn.length :=
    hd ▸ h.enclosing_lt_anonymous number
  { h with
    scopes := h.scopes.enter trivial
    walks := ⟨h.walks.declared, rfl⟩
    within := List.forall_mem_cons.2 ⟨.inl rfl, fun o ho => .inr (hlonger o ho)⟩
    longer := h.longer.trans (hd ▸ length_lt_anonymous owner number).le
    traced := h.traced.enter d }

/-- Right inside of which types a type may be declared at the place. -/
def Opens (owner : String) (s : Scope) (parent : Option String) : Prop :=
  parent = none ∧ s.enclosing = [] ∨ parent = some owner ∧ owner ∈ s.enclosing

theorem enclosing_lt (h : SamePlace g source source' declared before owner s s' w w')
    {parent : Option String} (hparent : Opens owner s parent) (name : String) :
    ∀ o ∈ s.enclosing, o.length < (s.qualify parent name).length := by
  intro o ho
  rcases hparent with ⟨-, hnil⟩ | ⟨rfl, -⟩
  · rw [hnil] at ho
    cases ho
  · have hlt := length_lt_member owner name
    rcases h.within o ho with rfl | hlonger
    · exact hlt
    · exact hlonger.trans hlt

theorem packagePrefix_le (h : SamePlace g source source' declared before owner s s' w w')
    {parent : Option String} (hparent : Opens owner s parent) (name : String) :
    g.packagePrefix.length ≤ (s.qualify parent name).length := by
  rcases hparent with ⟨rfl, -⟩ | ⟨rfl, -⟩
  · rw [Scope.qualify, h.scopes.packagePrefix, String.length_append]
    exact Nat.le_add_right _ _
  · exact h.longer.trans (length_lt_member owner name).le

/-- The places behind the declaration of a type. -/
theorem declare (h : SamePlace g source source' declared before owner s s' w w')
    (hg : g.lacking = []) {parent : Option String} (hparent : Opens owner s parent)
    {name fqn : String} (hfqn : s.qualify parent name = fqn) :
    SamePlace g source source' declared before owner s s'
      ⟨w.declared.declare (parent.getD "") name fqn, w.anonymous⟩
      ⟨w'.declared.declare (parent.getD "") name fqn, w'.anonymous⟩ := by
  subst hfqn
  have hopen : parent.getD "" = "" ∨ parent.getD "" ∈ s.enclosing := by
    rcases hparent with ⟨rfl, -⟩ | ⟨rfl, howner⟩
    · exact .inl rfl
    · exact .inr howner
  have htables := h.walks.declared.declare (g.closed_anywhere hg) (anywhere (parent.getD "")) name
    (s.qualify parent name)
  exact
    { h with
      walks := ⟨htables, h.walks.anonymous⟩
      settled := h.settled.declare_qualify h.scopes.packagePrefix parent name
      settled' := h.settled'.declare_qualify h.scopes.packagePrefix parent name
      traced := h.traced.declare hopen _ _ }

/-- The places in the bodies of types with the same header. -/
theorem type (h : SamePlace g source source' declared before owner s s' w w')
    (hg : g.lacking = []) {n n' : Node} (hn : SameHeader source source' n n') {d : TypeDecl}
    (hlonger : ∀ o ∈ s.enclosing, o.length < d.fqn.length)
    (hpackage : g.packagePrefix.length ≤ d.fqn.length) :
    SamePlace g source source' declared (before ++ [d]) d.fqn
      ((s.withTypeVars (s.typeParams w.declared n)).enter d.fqn)
      ((s'.withTypeVars (s'.typeParams w'.declared n')).enter d.fqn) ⟨w.declared, 0⟩
      ⟨w'.declared, 0⟩ :=
  { h with
    scopes := (h.header hg hn).enter trivial
    walks := ⟨h.walks.declared, rfl⟩
    within := List.forall_mem_cons.2 ⟨.inl rfl, fun o ho => .inr (hlonger o ho)⟩
    longer := hpackage
    traced := h.traced.enter d }

end SamePlace

namespace InSameType

variable {d d' : TypeDecl} {p p' : Station} {n n' : Node} {ms ms' : List Node}

theorem owner_mem (h : InSameType g source source' declared before d d' p p' ms ms') :
    d.fqn ∈ p.scope.enclosing :=
  List.mem_of_mem_head? h.reaches.inside

/-- What is found among the types in the members is found among those of the type. -/
theorem matched (h : InSameType g source source' declared before d d' p p' ms ms')
    (hfound : Matched g source source' declared
      (before ++ d :: allOfTypes (typesOfMembers p.front)) ns ns'
      (allOfTypes (typesOfMembers (p.read d ms))) (allOfTypes (typesOfMembers (p'.read d' ms')))) :
    Matched g source source' declared before ns ns' d.all d'.all := by
  obtain ⟨rest, hall⟩ := h.reaches.types
  exact hfound.mono rest hall h.reaches'.types_subset

theorem head (h : InSameType g source source' declared before d d' p p' (n :: ms) (n' :: ms')) :
    InSameType g source source' declared before d d' p p' [n] [n'] :=
  { h with
    reaches := h.reaches.head
    reaches' := h.reaches'.head }

theorem next (hg : g.lacking = []) (hcopy : Copy source source' n n')
    (h : InSameType g source source' declared before d d' p p' (n :: ms) (n' :: ms')) :
    InSameType g source source' declared before d d' (p.after d [n]) (p'.after d' [n']) ms ms' := by
  have hlowers : g.Lowers Anywhere source source' [n] [n'] :=
    (copies_cons_iff.2 ⟨hcopy, .nil⟩).lowered (g.closed_anywhere hg)
      (g.boundWithin_everywhere hg source' _)
  have hruns := hlowers.members h.place.scopes (anywhere d.fqn) d.head.name h.recordParams
  have hplace := h.place.run h.owner_mem hruns (lowerMembers_enters _ _ _ _ _ _)
    (lowerMembers_enters _ _ _ _ _ _)
  rw [List.append_assoc, List.cons_append, ← allOfTypes_append, ← typesOfMembers_append] at hplace
  have hreaches' := h.reaches'.next
  refine { h with place := ?_, reaches := h.reaches.next, reaches' := hreaches' }
  rw [Station.after, Station.after, ← h.fqn, ← h.name]
  exact hplace

/-- Types that have just been opened. -/
theorem opened {s s' : Scope} {ds ds' : DeclaredTypes} {recordParams recordParams' : List Param}
    (hfqn : d.fqn = d'.fqn) (hname : d.head.name = d'.head.name)
    (hplace : SamePlace g source source' declared (before ++ [d]) d.fqn s s' ⟨ds, 0⟩ ⟨ds', 0⟩)
    (hrecord : List.Forall₂ (Param.Alike g.Seen) recordParams recordParams')
    {enclosing : List String} (htraced : Traced declared before enclosing ds)
    (hout : ∀ o ∈ enclosing, o.length < d.fqn.length)
    (h : d.Reaches (.opened ds s recordParams) ms)
    (h' : d'.Reaches (.opened ds' s' recordParams') ms') :
    InSameType g source source' declared before d d' (.opened ds s recordParams)
      (.opened ds' s' recordParams') ms ms' where
  fqn := hfqn
  name := hname
  place := hplace
  recordParams := hrecord
  known := hplace.walks.declared
  settled := hplace.settled
  known_iff hne x :=
    htraced.known_iff hplace.settled (fun hmem => absurd (hout _ hmem) (Nat.lt_irrefl _)) hne x
  reaches := h
  reaches' := h'

end InSameType

/-- A type is opened in a scope of its own. -/
theorem lowerType_reaches {n body : Node} (hbody : n.children.find? isBody = some body)
    (s : Scope) (parent : Option String) (w : Walk) {fqn : String} {ds : DeclaredTypes}
    {inner : Scope} (hfqn : s.qualify parent (s.nameOf n) = fqn)
    (hds : w.declared.declare (parent.getD "") (s.nameOf n) fqn = ds)
    (hinner : (s.withTypeVars (s.typeParams ds n)).enter fqn = inner) :
    ((lowerType s parent n).run w).1.fqn = fqn ∧
      ((lowerType s parent n).run w).1.head.name = s.nameOf n ∧
      ((lowerType s parent n).run w).1.Reaches
        (.opened ds inner (if n.kind == "record_declaration" then inner.params ds n else []))
        (memberNodes body.children) := by
  subst hfqn hds hinner
  obtain ⟨kind, field, named, span, children⟩ := n
  rw [lowerType]
  refine ⟨rfl, rfl, .opened rfl ?_⟩
  rw [← lowerBody_of_find? hbody]
  rfl

/-- **Types in the same place with the same header**, if the walks find what they look for in the
    bodies. -/
theorem Finds.type (hg : g.lacking = []) {n n' body body' : Node}
    (hn : SameHeader source source' n n') (hbody : n.children.find? isBody = some body)
    (hbody' : n'.children.find? isBody = some body')
    (hfinds : Finds g source source' declared ns ns' .members (memberNodes body.children)
      (memberNodes body'.children))
    {owner : String} {s s' : Scope} {w w' : Walk}
    (h : SamePlace g source source' declared before owner s s' w w') {parent : Option String}
    (hparent : SamePlace.Opens owner s parent) :
    Matched g source source' declared before ns ns' ((lowerType s parent n).run w).1.all
      ((lowerType s' parent n').run w').1.all := by
  have hname : s.nameOf n = s'.nameOf n' := (h.scopes.header hn).nameOf
  have hqualify : s.qualify parent (s.nameOf n) = s'.qualify parent (s'.nameOf n') := by
    rw [h.scopes.qualify, hname]
  obtain ⟨hfqn, hname₁, hreaches⟩ := lowerType_reaches hbody s parent w rfl rfl rfl
  obtain ⟨hfqn', hname₁', hreaches'⟩ :=
    lowerType_reaches hbody' s' parent w' hqualify.symm rfl rfl
  rw [← hname] at hname₁' hreaches'
  have hdeclared := h.declare hg hparent (rfl : s.qualify parent (s.nameOf n) = _)
  have hlonger := h.enclosing_lt hparent (s.nameOf n)
  rw [← hfqn] at hlonger
  have hplace := hdeclared.type hg hn hlonger (hfqn ▸ h.packagePrefix_le hparent (s.nameOf n))
  rw [hfqn] at hplace
  have hparams := (hplace.scopes.header hn).params (hplace.scopes.typeRef hplace.walks.declared)
    Gap.Seen.withDimensions
  refine hfinds (.opened (hfqn.trans hfqn'.symm) (hname₁.trans hname₁'.symm) ?_ ?_
    hdeclared.traced hlonger hreaches hreaches')
  · rw [hfqn]
    exact hplace
  · rw [← hn.kind]
    split
    · exact hparams
    · exact .nil

/-! ### Along the rows -/

theorem lowerTypes_cons (s : Scope) (n : Node) (ms : List Node) (w : Walk) :
    ((lowerTypes s (n :: ms)).run w).1 =
      ((lowerTypes s [n]).run w).1 ++
        ((lowerTypes s ms).run ((lowerTypes s [n]).run w).2).1 := by
  rw [lowerTypes, lowerTypes, lowerTypes]
  split <;> rfl

theorem lowerTypes_type (s : Scope) {n : Node} (h : n.named ∧ isTypeNode n.kind) (w : Walk) :
    ((lowerTypes s [n]).run w).1 = [((lowerType s none n).run w).1] := by
  rw [lowerTypes, lowerTypes, if_pos (Bool.and_eq_true_iff.2 h)]
  rfl

theorem run_lowerInside_cons (s : Scope) (owner : String) (n : Node) (ms : List Node) (w : Walk) :
    ((lowerInside s owner (n :: ms)).run w).1 =
      ((lowerInside s owner [n]).run w).1 ++
        ((lowerInside s owner ms).run ((lowerInside s owner [n]).run w).2).1 := by
  rw [lowerInside_cons]
  rfl

theorem Settled.lowerTypes {packagePrefix : String} {s : Scope}
    (hs : s.packagePrefix = packagePrefix) (ms : List Node) {w : Walk}
    (h : Settled declared packagePrefix w.declared) :
    Settled declared packagePrefix ((lowerTypes s ms).run w).2.declared := by
  induction ms generalizing w with
  | nil => exact h
  | cons n ms ih =>
    rw [JavaThrows.lowerTypes]
    split
    · have hinner := (lowerType_enters s none n).inner w
      exact ih ((h.declare_qualify hs none (s.nameOf n)).enters hinner.toEnters)
    · exact ih h

theorem Traced.lowerTypes {enclosing : List String} (s : Scope) (ms : List Node) {w : Walk}
    (h : Traced declared before enclosing w.declared) :
    Traced declared (before ++ allOfTypes ((lowerTypes s ms).run w).1) enclosing
      ((lowerTypes s ms).run w).2.declared := by
  induction ms generalizing w before with
  | nil =>
    rw [JavaThrows.lowerTypes]
    exact (List.append_nil before).symm ▸ h
  | cons n ms ih =>
    rw [JavaThrows.lowerTypes]
    split
    · have htype := lowerType_enters s none n
      have hinner := htype.inner w
      rw [← htype.qualified w] at hinner
      have hrest := ih ((h.declare (.inl rfl) (s.nameOf n) _).top hinner)
      rw [List.append_assoc, ← allOfTypes_append, List.singleton_append] at hrest
      exact hrest
    · exact ih h

/-- A copied type at the top level leaves the same behind. -/
theorem lowerTypes_apart (hg : g.lacking = []) {s s' : Scope}
    (hs : g.Scopes Anywhere source source' s s') {n n' : Node} (h : Copy source source' n n') :
    RunsAlike (g.Walks Anywhere) (fun _ _ => True) (lowerTypes s [n]) (lowerTypes s' [n']) := by
  have hclosed := g.closed_anywhere hg
  have hchildren := h.children.lowered hclosed (g.boundWithin_everywhere hg source' _)
  have hbounds := g.boundWithin_everywhere hg source' [n'] n' List.mem_cons_self
  rw [lowerTypes, lowerTypes, lowerTypes, lowerTypes, h.kind, h.named]
  split
  · simp only [pure_bind]
    exact .bind (lowerType_apart hs none h hbounds hchildren trivial fun _ _ hds =>
      hds.declare hclosed trivial _ _) fun _ _ _ => .pure trivial
  · exact .pure trivial

/-- What is found in the first nodes is found in the rows. -/
theorem Finds.head {row : RowKind} {n n' : Node} (ms ms' : List Node)
    (h : Finds g source source' declared ns ns' row [n] [n']) :
    Finds g source source' declared ns ns' row (n :: ms) (n' :: ms') := by
  cases row with
  | top =>
    intro before owner s s' w w' henclosing hplace
    have hfound := h henclosing hplace
    rw [← List.append_nil before] at hfound
    rw [lowerTypes_cons s n, lowerTypes_cons s' n', allOfTypes_append, allOfTypes_append]
    exact hfound.mono _ rfl (List.subset_append_left _ _)
  | members =>
    intro before d d' p p' htype
    exact h htype.head
  | inside =>
    intro before owner s s' w w' howner hplace
    have hfound := h howner hplace
    rw [← List.append_nil before] at hfound
    rw [run_lowerInside_cons s _ n, run_lowerInside_cons s' _ n', allOfTypes_append,
      allOfTypes_append]
    exact hfound.mono _ rfl (List.subset_append_left _ _)

/-- What is found behind copies is found in the rows. -/
theorem Finds.next (hg : g.lacking = []) {row : RowKind} {n n' : Node} {ms ms' : List Node}
    (hcopy : Copy source source' n n') (h : Finds g source source' declared ns ns' row ms ms') :
    Finds g source source' declared ns ns' row (n :: ms) (n' :: ms') := by
  cases row with
  | top =>
    intro before owner s s' w w' henclosing hplace
    have hruns := lowerTypes_apart hg hplace.scopes hcopy
    have hafter : SamePlace g source source' declared
        (before ++ allOfTypes ((lowerTypes s [n]).run w).1) owner s s'
        ((lowerTypes s [n]).run w).2 ((lowerTypes s' [n']).run w').2 :=
      { hplace with
        walks := (hruns w w' hplace.walks).2
        settled := hplace.settled.lowerTypes hplace.scopes.packagePrefix _
        settled' := hplace.settled'.lowerTypes hplace.scopes.packagePrefix' _
        traced := hplace.traced.lowerTypes s [n] }
    rw [lowerTypes_cons s n, lowerTypes_cons s' n', allOfTypes_append, allOfTypes_append]
    refine (h henclosing hafter).mono [] ?_ (List.subset_append_right _ _)
    rw [List.append_nil]
  | members =>
    intro before d d' p p' htype
    exact h (htype.next hg hcopy)
  | inside =>
    intro before owner s s' w w' howner hplace
    have hlowers : g.Lowers Anywhere source source' [n] [n'] :=
      (copies_cons_iff.2 ⟨hcopy, .nil⟩).lowered (g.closed_anywhere hg)
        (g.boundWithin_everywhere hg source' _)
    have hafter := hplace.run howner (hlowers.inside hplace.scopes (anywhere owner))
      (lowerInside_enters s owner [n] w) (lowerInside_enters s' owner [n'] w')
    rw [run_lowerInside_cons s _ n, run_lowerInside_cons s' _ n', allOfTypes_append,
      allOfTypes_append]
    refine (h howner hafter).mono [] ?_ (List.subset_append_right _ _)
    rw [id, List.append_nil]

/-! ### Below a node -/

theorem Finds.of_type (hg : g.lacking = []) (row : RowKind) {n n' body body' : Node}
    (hnamed : n.named) (hnamed' : n'.named) (htype : isTypeNode n.kind)
    (hn : SameHeader source source' n n') (hbody : n.children.find? isBody = some body)
    (hbody' : n'.children.find? isBody = some body')
    (hfinds : Finds g source source' declared ns ns' .members (memberNodes body.children)
      (memberNodes body'.children)) :
    Finds g source source' declared ns ns' row [n] [n'] := by
  have htype' : isTypeNode n'.kind := hn.kind ▸ htype
  cases row with
  | top =>
    intro before owner s s' w w' henclosing hplace
    rw [lowerTypes_type s ⟨hnamed, htype⟩, lowerTypes_type s' ⟨hnamed', htype'⟩,
      allOfTypes_one, allOfTypes_one]
    exact Finds.type hg hn hbody hbody' hfinds hplace (.inl ⟨rfl, henclosing⟩)
  | members =>
    intro before d d' p p' h
    refine h.matched ?_
    rw [Station.read, Station.read, lowerMembers_type _ _ _ _ ⟨hnamed, htype⟩,
      lowerMembers_type _ _ _ _ ⟨hnamed', htype'⟩, ← h.fqn]
    exact (allOfTypes_one _).symm ▸ (allOfTypes_one _).symm ▸
      Finds.type hg hn hbody hbody' hfinds h.place (.inr ⟨rfl, h.owner_mem⟩)
  | inside =>
    intro before owner s s' w w' howner hplace
    rw [lowerInside_type _ _ htype, lowerInside_type _ _ htype', allOfTypes_one,
      allOfTypes_one]
    exact Finds.type hg hn hbody hbody' hfinds hplace (.inr ⟨rfl, howner⟩)

theorem Finds.of_method (hg : g.lacking = []) {n n' body body' : Node}
    (hnamed : n.named) (hnamed' : n'.named) (hmethod : isMethodNode n.kind)
    (hn : SameHeader source source' n n') (hbody : n.children.find? isBody = some body)
    (hbody' : n'.children.find? isBody = some body')
    (hfinds : Finds g source source' declared ns ns' .inside body.children body'.children) :
    Finds g source source' declared ns ns' .members [n] [n'] := by
  intro before d d' p p' h
  have hlocals (m : Method) (ts : List TypeDecl) : typesOfMembers [.method m ts] = ts := by
    rw [typesOfMembers, List.flatMap_singleton]
    rfl
  refine h.matched ?_
  rw [Station.read, Station.read, lowerMembers_method _ _ _ _ ⟨hnamed, hmethod⟩,
    lowerMembers_method _ _ _ _ ⟨hnamed', hn.kind ▸ hmethod⟩, hlocals, hlocals, lowerLocals_eq,
    lowerLocals_eq, hbody, hbody', ← h.fqn]
  refine hfinds ?_ (h.place.method hg hn)
  exact h.owner_mem

/-! ### Arguments and anonymous classes -/

theorem typesOfMembers_types_append (ts : List TypeDecl) (ms : List Member) :
    typesOfMembers (ts.map .type ++ ms) = ts ++ typesOfMembers ms := by
  rw [typesOfMembers_append, typesOfMembers_map_type]

theorem lowerMembers_arguments (s : Scope) (owner ownerName : String) (recordParams : List Param)
    {n : Node} (h : n.named ∧ n.kind = "enum_constant") (w : Walk) :
    ∃ rest, typesOfMembers ((lowerMembers s owner ownerName recordParams [n]).run w).1 =
      ((lowerLocals s owner isArguments n.children).run w).1 ++ rest := by
  obtain ⟨kind, field, named, span, children⟩ := n
  obtain ⟨rfl, rfl⟩ : named = true ∧ kind = "enum_constant" := h
  rw [lowerMembers, lowerMembers, if_neg (by decide), if_neg (by decide), if_neg (by decide),
    if_neg (by decide), if_pos (by decide)]
  cases Node.childOfKind ⟨"enum_constant", field, true, span, children⟩ "class_body" with
  | none =>
    simp only [pure_bind, List.append_nil]
    exact ⟨[], (typesOfMembers_map_type _).trans (List.append_nil _).symm⟩
  | some body =>
    simp only [pure_bind, List.append_nil]
    exact ⟨_, typesOfMembers_types_append _ _⟩

/-- The type is the next anonymous class of its owner, and has the members of the body. -/
structure TypeDecl.IsNext (d : TypeDecl) (s : Scope) (owner : String) (w : Walk) (body : Node) :
    Prop where
  fqn : d.fqn = s!"{owner}${w.anonymous + 1}"
  name : d.head.name = toString (w.anonymous + 1)
  reaches : d.Reaches (.opened w.declared (s.enter d.fqn) []) (memberNodes body.children)

theorem isNext_mk {n body : Node} (hbody : n.childOfKind "class_body" = some body) (s : Scope)
    (owner : String) (w : Walk) (span : Span) (supertype : TypeRef)
    (references : List NameRef) :
    (TypeDecl.mk (anonymousHead (w.anonymous + 1) s!"{owner}${w.anonymous + 1}" span supertype
        references)
      ((lowerBody (s.enter s!"{owner}${w.anonymous + 1}") s!"{owner}${w.anonymous + 1}"
        (toString (w.anonymous + 1)) [] (fun c => c.kind == "class_body") n.children).run
          ⟨w.declared, 0⟩).1).IsNext s owner w body := by
  refine ⟨rfl, rfl, .opened rfl ?_⟩
  rw [← lowerBody_of_find? hbody]
  rfl

theorem lowerMembers_classBody (s : Scope) (owner ownerName : String) (recordParams : List Param)
    {n body : Node} (h : n.named ∧ n.kind = "enum_constant")
    (hbody : n.childOfKind "class_body" = some body) (w : Walk) :
    ∃ d : TypeDecl, typesOfMembers ((lowerMembers s owner ownerName recordParams [n]).run w).1 =
        ((lowerLocals s owner isArguments n.children).run w).1 ++ [d] ∧
      d.IsNext s owner ((lowerLocals s owner isArguments n.children).run w).2 body := by
  have hnext := isNext_mk hbody s owner ((lowerLocals s owner isArguments n.children).run w).2
    n.span ⟨ownerName, ownerName, n.span, some owner, true, false⟩ (typeReferences s.source body)
  obtain ⟨kind, field, named, span, children⟩ := n
  obtain ⟨rfl, rfl⟩ : named = true ∧ kind = "enum_constant" := h
  rw [lowerMembers, lowerMembers, if_neg (by decide), if_neg (by decide), if_neg (by decide),
    if_neg (by decide), if_pos (by decide)]
  simp only [hbody, pure_bind, List.append_nil]
  exact ⟨_, typesOfMembers_types_append _ _, hnext⟩

theorem lowerInside_arguments (s : Scope) (owner : String) {n : Node}
    (h : n.kind = "object_creation_expression") (w : Walk) :
    ∃ rest, ((lowerInside s owner [n]).run w).1 =
      ((lowerLocals s owner isArguments n.children).run w).1 ++ rest := by
  obtain ⟨kind, field, named, span, children⟩ := n
  obtain rfl : kind = "object_creation_expression" := h
  rw [lowerInside, lowerInside, if_neg (by decide), if_pos (by decide)]
  simp only [pure_bind, List.append_nil]
  rw [StateT.run_bind]
  split
  · exact ⟨_, rfl⟩
  · exact ⟨[], (List.append_nil _).symm⟩

theorem lowerInside_classBody (s : Scope) (owner : String) {n body : Node}
    (h : n.kind = "object_creation_expression") (htype : (n.childByField "type").isSome)
    (hbody : n.childOfKind "class_body" = some body) (w : Walk) :
    ∃ d : TypeDecl, ((lowerInside s owner [n]).run w).1 =
        ((lowerLocals s owner isArguments n.children).run w).1 ++ [d] ∧
      d.IsNext s owner ((lowerLocals s owner isArguments n.children).run w).2 body := by
  obtain ⟨type, htype⟩ := Option.isSome_iff_exists.1 htype
  have hnext := isNext_mk hbody s owner ((lowerLocals s owner isArguments n.children).run w).2
    n.span (s.typeRef ((lowerLocals s owner isArguments n.children).run w).2.declared type)
    (typeReferences s.source body)
  obtain ⟨kind, field, named, span, children⟩ := n
  obtain rfl : kind = "object_creation_expression" := h
  rw [lowerInside, lowerInside, if_neg (by decide), if_pos (by decide)]
  simp only [hbody, htype, pure_bind, List.append_nil]
  exact ⟨_, rfl, hnext⟩

theorem Finds.of_arguments {row : RowKind} {n n' args args' : Node} (hnamed : n.named)
    (hnamed' : n'.named) (hcreation : row.creation = some n.kind) (hkind : n.kind = n'.kind)
    (hargs : n.children.find? isArguments = some args)
    (hargs' : n'.children.find? isArguments = some args')
    (hfinds : Finds g source source' declared ns ns' .inside args.children args'.children) :
    Finds g source source' declared ns ns' row [n] [n'] := by
  have hlocals (s : Scope) (owner : String) {n args : Node}
      (hargs : n.children.find? isArguments = some args) :
      lowerLocals s owner isArguments n.children = lowerInside s owner args.children := by
    rw [lowerLocals_eq, hargs]
  cases row with
  | top => cases hcreation
  | members =>
    have hconstant : n.kind = "enum_constant" := (Option.some.inj hcreation).symm
    intro before d d' p p' h
    obtain ⟨rest, hread⟩ := lowerMembers_arguments p.scope d.fqn d.head.name p.recordParams
      ⟨hnamed, hconstant⟩ p.walk
    obtain ⟨rest', hread'⟩ := lowerMembers_arguments p'.scope d'.fqn d'.head.name p'.recordParams
      ⟨hnamed', hkind ▸ hconstant⟩ p'.walk
    have hfound := hfinds h.owner_mem h.place
    rw [← List.append_nil (before ++ _)] at hfound
    rw [hlocals _ _ hargs, ← Station.read] at hread
    rw [hlocals _ _ hargs', ← Station.read] at hread'
    refine h.matched (hfound.mono (allOfTypes rest) ?_ ?_)
    · rw [hread, allOfTypes_append, List.nil_append]
    · rw [hread', allOfTypes_append, h.fqn]
      exact List.subset_append_left _ _
  | inside =>
    have hnew : n.kind = "object_creation_expression" := (Option.some.inj hcreation).symm
    intro before owner s s' w w' howner hplace
    obtain ⟨rest, hread⟩ := lowerInside_arguments s owner hnew w
    obtain ⟨rest', hread'⟩ := lowerInside_arguments s' owner (hkind ▸ hnew) w'
    have hfound := hfinds howner hplace
    rw [← List.append_nil before] at hfound
    rw [hread, hread', hlocals _ _ hargs, hlocals _ _ hargs', allOfTypes_append, allOfTypes_append]
    exact hfound.mono _ rfl (List.subset_append_left _ _)

/-- Copied arguments leave the same behind. -/
theorem SamePlace.arguments (hg : g.lacking = []) {owner : String} {s s' : Scope} {w w' : Walk}
    (h : SamePlace g source source' declared before owner s s' w w') (howner : owner ∈ s.enclosing)
    {ms ms' : List Node}
    (hargs : Option.Rel (Copy source source') (ms.find? isArguments) (ms'.find? isArguments)) :
    SamePlace g source source' declared
      (before ++ allOfTypes ((lowerLocals s owner isArguments ms).run w).1) owner s s'
      ((lowerLocals s owner isArguments ms).run w).2
      ((lowerLocals s' owner isArguments ms').run w').2 := by
  rw [lowerLocals_eq, lowerLocals_eq]
  generalize ms.find? isArguments = first, ms'.find? isArguments = first' at hargs ⊢
  cases hargs with
  | none => exact (List.append_nil before).symm ▸ h
  | @some args args' hargs =>
    have hlowers := hargs.children.lowered (g.closed_anywhere hg)
      (g.boundWithin_everywhere hg source' _)
    exact h.run howner (hlowers.inside h.scopes (anywhere owner)) (lowerInside_enters _ _ _ _)
      (lowerInside_enters _ _ _ _)

/-- The anonymous classes that are next at the same place. -/
theorem SamePlace.isNext {owner : String} {s s' : Scope} {w w' : Walk}
    (h : SamePlace g source source' declared before owner s s' w w') {d d' : TypeDecl}
    {body body' : Node} (hd : d.IsNext s owner w body) (hd' : d'.IsNext s' owner w' body') :
    InSameType g source source' declared before d d' (.opened w.declared (s.enter d.fqn) [])
      (.opened w'.declared (s'.enter d'.fqn) []) (memberNodes body.children)
      (memberNodes body'.children) := by
  have hfqn : d.fqn = d'.fqn := by rw [hd.fqn, hd'.fqn, h.walks.anonymous]
  have hname : d.head.name = d'.head.name := by rw [hd.name, hd'.name, h.walks.anonymous]
  have hout : ∀ o ∈ s.enclosing, o.length < d.fqn.length :=
    hd.fqn ▸ h.enclosing_lt_anonymous (w.anonymous + 1)
  refine .opened hfqn hname ?_ .nil h.traced hout hd.reaches hd'.reaches
  rw [← hfqn]
  exact h.anonymous hd.fqn

theorem Finds.of_classBody (hg : g.lacking = []) {row : RowKind} {n n' body body' : Node}
    (hnamed : n.named) (hnamed' : n'.named) (hcreation : row.creation = some n.kind)
    (hkind : n.kind = n'.kind)
    (hargs : Option.Rel (Copy source source') (n.children.find? isArguments)
      (n'.children.find? isArguments))
    (htype : row = .inside → (n.childByField "type").isSome ∧ (n'.childByField "type").isSome)
    (hbody : n.childOfKind "class_body" = some body)
    (hbody' : n'.childOfKind "class_body" = some body')
    (hfinds : Finds g source source' declared ns ns' .members (memberNodes body.children)
      (memberNodes body'.children)) :
    Finds g source source' declared ns ns' row [n] [n'] := by
  cases row with
  | top => cases hcreation
  | members =>
    have hconstant : n.kind = "enum_constant" := (Option.some.inj hcreation).symm
    intro before d d' p p' h
    obtain ⟨e, hread, hnext⟩ := lowerMembers_classBody p.scope d.fqn d.head.name p.recordParams
      ⟨hnamed, hconstant⟩ hbody p.walk
    obtain ⟨e', hread', hnext'⟩ := lowerMembers_classBody p'.scope d'.fqn d'.head.name
      p'.recordParams ⟨hnamed', hkind ▸ hconstant⟩ hbody' p'.walk
    rw [← h.fqn] at hnext'
    have hfound := hfinds ((h.place.arguments hg h.owner_mem hargs).isNext hnext hnext')
    refine h.matched (hfound.mono [] ?_ ?_)
    · rw [Station.read, hread, allOfTypes_append, allOfTypes_one, List.append_nil]
    · rw [Station.read, hread', allOfTypes_append, allOfTypes_one]
      exact List.subset_append_right _ _
  | inside =>
    have hnew : n.kind = "object_creation_expression" := (Option.some.inj hcreation).symm
    obtain ⟨htype, htype'⟩ := htype rfl
    intro before owner s s' w w' howner hplace
    obtain ⟨e, hread, hnext⟩ := lowerInside_classBody s owner hnew htype hbody w
    obtain ⟨e', hread', hnext'⟩ := lowerInside_classBody s' owner (hkind ▸ hnew) htype' hbody' w'
    have hfound := hfinds ((hplace.arguments hg howner hargs).isNext hnext hnext')
    rw [hread, hread', allOfTypes_append, allOfTypes_append, allOfTypes_one,
      allOfTypes_one]
    refine hfound.mono [] ?_ (List.subset_append_right _ _)
    rw [List.append_nil]

/-! ### Other nodes -/

theorem lowerMembers_plain (s : Scope) (owner ownerName : String) (recordParams : List Param)
    {n : Node} (hnamed : n.named) (h : RowKind.members.Plain n.kind) (w : Walk) :
    typesOfMembers ((lowerMembers s owner ownerName recordParams [n]).run w).1 =
      ((lowerInside s owner n.children).run w).1 := by
  obtain ⟨kind, field, named, span, children⟩ := n
  obtain ⟨-, hmethod, htype, hdeclarations, hconstant⟩ := h
  obtain rfl : named = true := hnamed
  have hdeclarations : ¬ (kind == "enum_body_declarations") := by simpa using hdeclarations
  have hconstant : ¬ (kind == "enum_constant") := fun h => hconstant (by rw [eq_of_beq h]; rfl)
  rw [lowerMembers, lowerMembers, if_neg (by decide), if_neg (hmethod rfl), if_neg htype,
    if_neg hdeclarations, if_neg hconstant]
  simp only [pure_bind, List.append_nil]
  exact typesOfMembers_map_type _

theorem lowerInside_plain (s : Scope) (owner : String) {n : Node}
    (h : RowKind.inside.Plain n.kind) (w : Walk) :
    ((lowerInside s owner [n]).run w).1 = ((lowerInside s owner n.children).run w).1 := by
  obtain ⟨kind, field, named, span, children⟩ := n
  obtain ⟨-, -, htype, -, hnew⟩ := h
  have hnew : ¬ (kind == "object_creation_expression") := fun h => hnew (by rw [eq_of_beq h]; rfl)
  rw [lowerInside, lowerInside, if_neg htype, if_neg hnew]
  simp only [bind_pure, pure_bind, List.append_nil]

theorem Finds.of_plain {row : RowKind} {n n' : Node} (hnamed : n.named) (hnamed' : n'.named)
    (hplain : row.Plain n.kind) (hkind : n.kind = n'.kind)
    (hfinds : Finds g source source' declared ns ns' .inside n.children n'.children) :
    Finds g source source' declared ns ns' row [n] [n'] := by
  cases row with
  | top => exact absurd rfl hplain.1
  | members =>
    intro before d d' p p' h
    refine h.matched ?_
    rw [Station.read, Station.read, lowerMembers_plain _ _ _ _ hnamed hplain,
      lowerMembers_plain _ _ _ _ hnamed' (hkind ▸ hplain), ← h.fqn]
    exact hfinds h.owner_mem h.place
  | inside =>
    intro before owner s s' w w' howner hplace
    rw [lowerInside_plain s owner hplain, lowerInside_plain s' owner (hkind ▸ hplain)]
    exact hfinds howner hplace

/-- **The walks come to the members that differ** in two types in the same place. -/
theorem DifferIn.finds (hg : g.lacking = []) {row : RowKind} {ms ms' : List Node}
    (h : DifferIn source source' ns ns' row ms ms') :
    Finds g source source' declared ns ns' row ms ms' := by
  induction h with
  | here =>
    intro before d d' p p' h
    rw [← List.append_nil before] at h
    have hmem : d' ∈ d'.all := d'.all_eq ▸ List.mem_cons_self
    exact ⟨[], d, _, d.all_eq, d', hmem, p, p', h⟩
  | next hcopy _ ih => exact .next hg hcopy ih
  | @type row _ _ _ _ ms ms' hnamed hnamed' htype hheader hbody hbody' _ _ ih =>
    exact Finds.head ms ms' (.of_type hg row hnamed hnamed' htype hheader hbody hbody' ih)
  | @method _ _ _ _ ms ms' hnamed hnamed' hmethod hheader hbody hbody' _ _ ih =>
    refine @Finds.head g source source' declared ns ns' .members _ _ ms ms' ?_
    exact Finds.of_method hg hnamed hnamed' hmethod hheader hbody hbody' ih
  | @arguments _ _ _ _ _ ms ms' hnamed hnamed' hcreation hkind hargs hargs' _ _ ih =>
    exact Finds.head ms ms' (.of_arguments hnamed hnamed' hcreation hkind hargs hargs' ih)
  | @classBody _ _ _ _ _ ms ms' hnamed hnamed' hcreation hkind hargs htype hbody hbody' _ _ ih =>
    exact Finds.head ms ms'
      (.of_classBody hg hnamed hnamed' hcreation hkind hargs htype hbody hbody' ih)
  | @plain _ _ _ ms ms' hnamed hnamed' hplain hkind _ _ ih =>
    exact Finds.head ms ms' (.of_plain hnamed hnamed' hplain hkind ih)

end Walk

/-! ## Files -/

/-- What is declared at the top level goes by the package and its name. -/
theorem spelled_of_declareMembers {s : Scope} {ns : List Node} {o x fqn : String}
    (h : (declareMembers s none [] ns).find? o x = some fqn) :
    fqn = o ++ "." ++ x ∨ o = "" ∧ fqn = s.packagePrefix ++ x := by
  match ns with
  | [] =>
    rw [declareMembers] at h
    cases h
  | ⟨kind, field, named, span, children⟩ :: ns =>
    rw [declareMembers, find?_declareMembers, Option.or_eq_some_iff] at h
    rcases h with h | ⟨-, h⟩
    · split at h
      · exact spelled_of_declareMembers h
      · rw [declareType] at h
        dsimp only at h
        split at h
        · rw [find?_declareBody, DeclaredTypes.find?_declare] at h
          split at h
          · next heq =>
            rw [heq.1, heq.2]
            exact .inr (by simpa [DeclaredTypes.find?, Scope.qualify] using h.symm)
          · exact .inl (eq_member_of_declareBody h)
        · cases h
    · exact spelled_of_declareMembers h

/-- Nothing is lacking in a file. -/
def ParsedFile.noGap (f : ParsedFile) : Gap where
  packagePrefix := f.scope.packagePrefix
  imports := f.scope.imports
  lacking := []
  imported := nofun

namespace Rearranged

variable {f f' : ParsedFile} {ns ns' : List Node}

/-- The scopes at the top level of both files. -/
theorem scopes (h : Rearranged f f' ns ns') :
    f.noGap.Scopes Anywhere f.source f'.source f.scope f'.scope where
  source := rfl
  source' := rfl
  packagePrefix := rfl
  packagePrefix' := (congrArg Scope.packagePrefix h.sameScope.same).symm
  imports := rfl
  imports' := (congrArg Scope.imports h.sameScope.same).symm
  enclosing := rfl
  inside := by simp [ParsedFile.scope, fileScope]
  typeVars := .nil

theorem samePlace (h : Rearranged f f' ns ns') :
    SamePlace f.noGap f.source f'.source f.declared [] f.scope.packagePrefix f.scope f'.scope
      ⟨f.declared, 0⟩ ⟨f'.declared, 0⟩ where
  scopes := h.scopes
  walks := ⟨⟨fun _ x => h.declared _ x, fun _ => h.declared "" _, nofun⟩, rfl⟩
  within := by simp [ParsedFile.scope, fileScope]
  longer := le_rfl
  settled := ⟨id, spelled_of_declareMembers⟩
  settled' := by
    refine ⟨fun hfound => (h.declared _ _).symm.trans hfound, fun hfound => ?_⟩
    rw [← h.declared] at hfound
    exact spelled_of_declareMembers hfound
  traced := .nil _ _

/-- **The members that differ are those of two types in the same place.** -/
theorem matched (h : Rearranged f f' ns ns') :
    Matched f.noGap f.source f'.source f.declared [] ns ns' f.unit.allTypes f'.unit.allTypes := by
  have hfinds : Finds f.noGap f.source f'.source f.declared ns ns' .top f.typeNodes f'.typeNodes :=
    h.differ.finds rfl
  rw [CompilationUnit.allTypes, CompilationUnit.allTypes, f.types_eq, f'.types_eq]
  exact hfinds rfl h.samePlace

end Rearranged

end JavaThrows
