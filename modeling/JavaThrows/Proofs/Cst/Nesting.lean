import JavaThrows.Decl.OfNode
import JavaThrows.Proofs.Cst.Everywhere
import JavaThrows.Proofs.Cst.Fields

set_option autoImplicit false

/-!
# Which nodes stand in which

Bodies of types stand in declarations, in `new` expressions and in constants of enums, methods and
constants stand in bodies of types, and what fills the body of a declaration is a body of its kind.
All of this is read off the rules: `Rule.labels` tells the kinds of the nodes that a rule yields,
`Rule.fieldLabels` the kinds of those that fill a field, and both become facts about every node of a
tree by way of `Enforces`.
-/

namespace JavaThrows.Cst

variable {σ : Type}

/-- The kind of a named node; nothing for the nodes of keywords and signs. -/
def Node.label (n : Node) : Option String :=
  if n.named then some n.kind else none

/-- A comment, or a node whose label has the property. -/
def Node.LabelIs (p : Option String → Bool) (n : Node) : Prop :=
  n.isComment ∨ p n.label

/-- A label that is none of the kinds. -/
def labelNotIn (kinds : List String) (label : Option String) : Bool :=
  !label.any kinds.contains

/-- A label that is one of the kinds. -/
def labelIn (kinds : List String) (label : Option String) : Bool :=
  label.any kinds.contains

/-! ## Nodes in a row -/

theorem forall_mem_tokenNodes {Q : Node → Prop} {token : Token} {kind : Option String}
    (hcomment : ∀ n : Node, n.isComment → Q n)
    (htoken : Q ⟨kind.getD token.text, none, kind.isSome, token.span, []⟩) :
    ∀ n ∈ token.nodes kind, Q n := by
  unfold Token.nodes
  rw [List.forall_mem_append, List.forall_mem_singleton]
  refine ⟨fun n hn => ?_, htoken⟩
  obtain ⟨c, -, rfl⟩ := List.mem_map.1 hn
  exact hcomment _ (isComment_node c)

theorem forall_mem_enclose {Q : Node → Prop} {kind : String} {ns : List Node}
    (hcomment : ∀ n : Node, n.isComment → Q n)
    (hnode : ∀ span children, Q ⟨kind, none, true, span, children⟩) :
    ∀ n ∈ enclose kind ns, Q n := by
  rcases enclose_cases kind ns with
    ⟨hcomments, heq⟩ | ⟨comments, first, others, -, hcomments, -, heq⟩
  · rw [heq]
    exact fun n hn => hcomment n (hcomments n hn)
  · rw [heq, List.forall_mem_append, List.forall_mem_singleton]
    exact ⟨fun n hn => hcomment n (hcomments n hn), hnode _ _⟩

/-- The last node of a row takes in the nodes before it and the last node before the row. -/
theorem forall_mem_extend {Q R : Node → Prop} {before more : List Node}
    (hQ : ∀ n ∈ before, Q n) (hR : ∀ n ∈ more, R n) (hRQ : ∀ n, R n → Q n)
    (hextend : ∀ inner outer front span, Q inner → R outer → (∀ n ∈ front, R n) →
      Q { outer with span := span, children := inner :: front ++ outer.children }) :
    ∀ n ∈ extend before more, Q n := by
  unfold extend
  split
  · next inner front outer comments hinner houter =>
    rw [List.reverse_eq_cons_iff] at hinner houter
    subst hinner houter
    rw [List.forall_mem_append, List.forall_mem_singleton] at hQ hR ⊢
    refine ⟨hQ.1, ?_⟩
    exact hextend inner outer comments.reverse _ hQ.2 hR.2 hR.1
  · exact List.forall_mem_append.2 ⟨hQ, fun n hn => hRQ n (hR n hn)⟩

/-- A chain keeps a property of single nodes if a node that takes in the one before it keeps it. -/
theorem chain_of_nodes {P Q R : Node → Prop} {first rest : List Token → Outcome}
    (hfirst : AlwaysYields (fun ns => ∀ n ∈ ns, Q n) first)
    (hrest : AlwaysYields (fun ns => ∀ n ∈ ns, R n) rest) (hRQ : ∀ n, R n → Q n)
    (hextend : ∀ inner outer front span, Q inner → R outer → (∀ n ∈ front, R n) → P outer →
      Q { outer with span := span, children := inner :: front ++ outer.children } ∧
        P { outer with span := span, children := inner :: front ++ outer.children }) :
    ∃ Q : List Node → Prop, AlwaysYields Q first ∧
      AlwaysYields (fun more => ∀ before, Q before → AllEverywhere P before →
        AllEverywhere P more → Q (extend before more) ∧ AllEverywhere P (extend before more))
        rest := by
  refine ⟨fun ns => ∀ n ∈ ns, Q n, hfirst, ?_⟩
  intro ts more left hread before hbefore hall hmore
  rw [allEverywhere_iff] at *
  have hinner : ∀ n ∈ before, Q n ∧ n.Everywhere P := fun n hn => ⟨hbefore n hn, hall n hn⟩
  have houter : ∀ n ∈ more, R n ∧ n.Everywhere P := fun n hn => ⟨hrest hread n hn, hmore n hn⟩
  rw [← forall₂_and]
  refine forall_mem_extend hinner houter (fun n hn => ⟨hRQ n hn.1, hn.2⟩) ?_
  intro inner outer front span hinner houter hfront
  obtain ⟨hQ, hP⟩ :=
    hextend inner outer front span hinner.1 houter.1 (fun n hn => (hfront n hn).1) houter.2.here
  refine ⟨hQ, Node.everywhere_iff.2 ⟨hP, ?_⟩⟩
  exact List.forall_mem_cons.2 ⟨hinner.2, List.forall_mem_append.2
    ⟨fun n hn => (hfront n hn).2, houter.2.children⟩⟩

/-! ## Labels of the nodes that a rule yields -/

/-- The label of each node that the rule yields has the property, comments apart. -/
def Rule.labels (p : Option String → Bool) (phraseOk : σ → Bool) : Rule σ → Bool
  | .leaf _ kind => p kind
  | .phrase s => phraseOk s
  | .empty => true
  | .both a b => a.labels p phraseOk && b.labels p phraseOk
  | .either a b => a.labels p phraseOk && b.labels p phraseOk
  | .many a => a.labels p phraseOk
  | .node kind _ => p (some kind)
  | .field _ a => a.labels p phraseOk
  | .chain a b => a.labels p phraseOk && b.labels p phraseOk
  | .ahead _ => true
  | .notAhead _ => true

/-- Each node that the rule yields and that fills the field has a label with the property. The
    phrases are taken to yield such nodes. -/
def Rule.fieldLabels (name : String) (p : Option String → Bool) (phraseOk : σ → Bool) :
    Rule σ → Bool
  | .leaf _ _ => true
  | .phrase _ => true
  | .empty => true
  | .both a b => a.fieldLabels name p phraseOk && b.fieldLabels name p phraseOk
  | .either a b => a.fieldLabels name p phraseOk && b.fieldLabels name p phraseOk
  | .many a => a.fieldLabels name p phraseOk
  | .node _ _ => true
  | .field f a => f != name || a.labels p phraseOk
  | .chain a b => a.fieldLabels name p phraseOk && b.fieldLabels name p phraseOk
  | .ahead _ => true
  | .notAhead _ => true

/-- A comment, or a node that fills the field only if its label has the property. -/
def Node.FillsWith (name : String) (p : Option String → Bool) (n : Node) : Prop :=
  n.isComment ∨ (n.field = some name → p n.label)

section Labels

variable {p : Option String → Bool} {phraseOk : σ → Bool} {phrase : σ → List Token → Outcome}

theorem Rule.obeys_of_labels
    (hphrase : ∀ s, phraseOk s → AlwaysYields (fun ns => ∀ n ∈ ns, n.LabelIs p) (phrase s))
    {r : Rule σ} (h : r.labels p phraseOk) :
    r.Obeys phrase fun ns => ∀ n ∈ ns, n.LabelIs p := by
  have happend : ∀ xs ys : List Node, (∀ n ∈ xs, n.LabelIs p) → (∀ n ∈ ys, n.LabelIs p) →
      ∀ n ∈ xs ++ ys, n.LabelIs p := fun _ _ hx hy => List.forall_mem_append.2 ⟨hx, hy⟩
  induction r with
  | leaf t kind =>
    refine fun token _ => forall_mem_tokenNodes (fun _ => .inl) (.inr ?_)
    cases kind <;> exact h
  | phrase s => exact @hphrase s h
  | empty => trivial
  | both a b iha ihb =>
    simp only [Rule.labels, Bool.and_eq_true] at h
    exact ⟨iha h.1, ihb h.2⟩
  | either a b iha ihb =>
    simp only [Rule.labels, Bool.and_eq_true] at h
    exact ⟨iha h.1, ihb h.2⟩
  | many a ih => exact ih h
  | node kind a ih =>
    intro _ _ _ _
    exact forall_mem_enclose (fun _ => .inl) fun _ _ => .inr h
  | field name a ih =>
    intro _ _ _ hread n hn
    obtain ⟨m, hm, rfl⟩ := List.mem_map.1 hn
    have hlabel := (ih h).alwaysYields (by simp) happend hread m hm
    split
    · exact hlabel
    · exact hlabel
  | chain a b iha ihb =>
    simp only [Rule.labels, Bool.and_eq_true] at h
    refine ⟨iha h.1, fun hread before hbefore => ?_⟩
    exact forall_mem_extend hbefore ((ihb h.2).alwaysYields (by simp) happend hread)
      (fun _ => id) fun _ _ _ _ _ houter _ => houter
  | ahead a ih => trivial
  | notAhead a ih => trivial

theorem Rule.labels_sound
    (hphrase : ∀ s, phraseOk s → AlwaysYields (fun ns => ∀ n ∈ ns, n.LabelIs p) (phrase s))
    {r : Rule σ} (h : r.labels p phraseOk) :
    AlwaysYields (fun ns => ∀ n ∈ ns, n.LabelIs p) (r.readWith phrase) :=
  (Rule.obeys_of_labels hphrase h).alwaysYields (by simp)
    fun _ _ hx hy => List.forall_mem_append.2 ⟨hx, hy⟩

/-- A rule that refers to no phrase that could yield another label. -/
theorem Rule.labels_closed {r : Rule σ} (h : r.labels p fun _ => false) :
    AlwaysYields (fun ns => ∀ n ∈ ns, n.LabelIs p) (r.readWith phrase) :=
  Rule.labels_sound (by simp) h

theorem Grammar.labels_sound {g : Grammar σ} (h : ∀ s, phraseOk s → (g s).labels p phraseOk)
    (bound : Nat) (s : σ) (hs : phraseOk s) :
    AlwaysYields (fun ns => ∀ n ∈ ns, n.LabelIs p) (g.read bound s) := by
  induction bound generalizing s with
  | zero =>
    intro _ _ _ hread
    simp [Grammar.read] at hread
  | succ bound ih => exact Rule.labels_sound ih (h s hs)

variable {name : String}

theorem Rule.obeys_of_fieldLabels
    (hlabels : ∀ s, phraseOk s → AlwaysYields (fun ns => ∀ n ∈ ns, n.LabelIs p) (phrase s))
    (hphrase : ∀ s, AlwaysYields (fun ns => ∀ n ∈ ns, n.FillsWith name p) (phrase s))
    {r : Rule σ} (h : r.fieldLabels name p phraseOk) :
    r.Obeys phrase fun ns => ∀ n ∈ ns, n.FillsWith name p := by
  have happend : ∀ xs ys : List Node, (∀ n ∈ xs, n.FillsWith name p) →
      (∀ n ∈ ys, n.FillsWith name p) → ∀ n ∈ xs ++ ys, n.FillsWith name p :=
    fun _ _ hx hy => List.forall_mem_append.2 ⟨hx, hy⟩
  induction r with
  | leaf t kind =>
    exact fun token _ => forall_mem_tokenNodes (fun _ => .inl) (.inr (by simp))
  | phrase s => exact @hphrase s
  | empty => trivial
  | both a b iha ihb =>
    simp only [Rule.fieldLabels, Bool.and_eq_true] at h
    exact ⟨iha h.1, ihb h.2⟩
  | either a b iha ihb =>
    simp only [Rule.fieldLabels, Bool.and_eq_true] at h
    exact ⟨iha h.1, ihb h.2⟩
  | many a ih => exact ih h
  | node kind a ih =>
    intro _ _ _ _
    exact forall_mem_enclose (fun _ => .inl) fun _ _ => .inr (by simp)
  | field f a ih =>
    intro _ _ _ hread n hn
    simp only [Rule.fieldLabels, Bool.or_eq_true, bne_iff_ne, ne_eq] at h
    obtain ⟨m, hm, rfl⟩ := List.mem_map.1 hn
    split
    · next hcomment => exact .inl hcomment
    · next hnode =>
      -- What fills another field is of no account.
      refine .inr fun hfield => ?_
      have hlabel := Rule.labels_sound hlabels (h.resolve_left fun hne => hne
        (Option.some.inj hfield)) hread m hm
      exact hlabel.resolve_left hnode
  | chain a b iha ihb =>
    simp only [Rule.fieldLabels, Bool.and_eq_true] at h
    refine ⟨iha h.1, fun hread before hbefore => ?_⟩
    exact forall_mem_extend hbefore ((ihb h.2).alwaysYields (by simp) happend hread)
      (fun _ => id) fun _ _ _ _ _ houter _ => houter
  | ahead a ih => trivial
  | notAhead a ih => trivial

theorem Grammar.fieldLabels_sound {g : Grammar σ}
    (hlabels : ∀ s, phraseOk s → (g s).labels p phraseOk)
    (h : ∀ s, (g s).fieldLabels name p phraseOk) (bound : Nat) {r : Rule σ}
    (hr : r.fieldLabels name p phraseOk) :
    AlwaysYields (fun ns => ∀ n ∈ ns, n.FillsWith name p) (r.readWith (g.read bound)) := by
  have hgrammar := Grammar.labels_sound hlabels
  have happend : ∀ xs ys : List Node, (∀ n ∈ xs, n.FillsWith name p) →
      (∀ n ∈ ys, n.FillsWith name p) → ∀ n ∈ xs ++ ys, n.FillsWith name p :=
    fun _ _ hx hy => List.forall_mem_append.2 ⟨hx, hy⟩
  suffices hphrase : ∀ s, AlwaysYields (fun ns => ∀ n ∈ ns, n.FillsWith name p) (g.read bound s) by
    intro _ _ _ hread
    exact (Rule.obeys_of_fieldLabels (hgrammar bound) hphrase hr).alwaysYields (by simp) happend hread
  induction bound with
  | zero =>
    intro s _ _ _ hread
    simp [Grammar.read] at hread
  | succ bound ih =>
    intro s
    exact (Rule.obeys_of_fieldLabels (hgrammar bound) ih (h s)).alwaysYields (by simp) happend

end Labels

/-! ## Kinds that stand in few kinds only -/

/-- In a node whose kind is strict, no node is of one of the kinds. -/
def Node.StrictOn (strict : String → Bool) (kinds : List String) (n : Node) : Prop :=
  n.label.any strict → ∀ c ∈ n.children, c.LabelIs (labelNotIn kinds)

/-- In nodes of strict kinds, the rules yield none of the kinds. A chain yields none of them
    either, or comes to no node of a strict kind. -/
def strictChecks (strict : String → Bool) (kinds : List String) (phraseOk : σ → Bool) :
    LocalChecks σ where
  node kind a := !strict kind || a.labels (labelNotIn kinds) phraseOk
  chain a b :=
    (a.labels (labelNotIn kinds) phraseOk && b.labels (labelNotIn kinds) phraseOk) ||
      (!strict "block_comment" && !strict "line_comment" &&
        b.labels (fun label => !label.any strict) fun _ => false)

theorem not_strict_of_labelIs {strict : String → Bool} {n : Node}
    (hblock : strict "block_comment" = false) (hline : strict "line_comment" = false)
    (h : n.LabelIs fun label => !label.any strict) : ¬ n.label.any strict := by
  rcases h with h | h
  · simp only [Node.isComment, Bool.or_eq_true, beq_iff_eq] at h
    unfold Node.label
    rcases h with h | h <;> split <;> simp [h, hblock, hline]
  · simpa using h

theorem enforces_strictOn {g : Grammar σ} {strict : String → Bool} {kinds : List String}
    (phraseOk : σ → Bool) (h : ∀ s, phraseOk s → (g s).labels (labelNotIn kinds) phraseOk)
    (bound : Nat) :
    Enforces (strictChecks strict kinds phraseOk) (fun _ => True) (g.read bound)
      (Node.StrictOn strict kinds) where
  field _ _ hn := hn
  comment c := fun _ => by simp [Comment.node]
  leaf _ _ _ := fun _ => by simp
  node := by
    intro kind a hcheck ts ns rest hread span children henclosed hstrict
    simp only [strictChecks, Bool.or_eq_true, Bool.not_eq_true'] at hcheck
    have havoids := hcheck.resolve_left (by simpa [Node.label] using hstrict)
    exact fun c hc => Rule.labels_sound (Grammar.labels_sound h bound) havoids hread c
      (henclosed.suffix.subset hc)
  chain := by
    intro a b hcheck
    simp only [strictChecks, Bool.or_eq_true, Bool.and_eq_true, Bool.not_eq_true'] at hcheck
    rcases hcheck with ⟨ha, hb⟩ | ⟨⟨hblock, hline⟩, hb⟩
    · -- Nothing in the chain is of one of the kinds.
      refine chain_of_nodes (Rule.labels_sound (Grammar.labels_sound h bound) ha)
        (Rule.labels_sound (Grammar.labels_sound h bound) hb) (fun _ => id) ?_
      intro inner outer front span hinner houter hfront hn
      refine ⟨houter, fun hstrict => List.forall_mem_cons.2 ⟨hinner, ?_⟩⟩
      exact List.forall_mem_append.2 ⟨hfront, hn hstrict⟩
    · -- The larger nodes are of kinds that are not strict.
      refine chain_of_nodes (Q := fun _ => True) (fun _ _ _ => trivial)
        (Rule.labels_closed hb) (fun _ _ => trivial) ?_
      intro inner outer front span _ houter _ _
      exact ⟨trivial, fun hstrict => absurd hstrict (not_strict_of_labelIs hblock hline houter)⟩

/-! ## Kinds that fill a field of few kinds -/

/-- In a node of one of the kinds, the field is filled by nodes whose labels have the property. -/
def Node.FilledWith (parents : List String) (name : String) (p : Option String → Bool) (n : Node) :
    Prop :=
  n.label.any parents.contains → ∀ c ∈ n.children, c.FillsWith name p

/-- In nodes of the kinds, the rules fill the field as wanted, and no chain comes to such nodes. -/
def filledChecks (parents : List String) (name : String) (p : Option String → Bool)
    (phraseOk : σ → Bool) : LocalChecks σ where
  node kind a := !parents.contains kind || a.fieldLabels name p phraseOk
  chain _ b :=
    !parents.contains "block_comment" && !parents.contains "line_comment" &&
      b.labels (fun label => !label.any parents.contains) fun _ => false

theorem enforces_filledWith {g : Grammar σ} {parents : List String} {name : String}
    {p : Option String → Bool} (phraseOk : σ → Bool)
    (hlabels : ∀ s, phraseOk s → (g s).labels p phraseOk)
    (h : ∀ s, (g s).fieldLabels name p phraseOk) (bound : Nat) :
    Enforces (filledChecks parents name p phraseOk) (fun _ => True) (g.read bound)
      (Node.FilledWith parents name p) where
  field _ _ hn := hn
  comment c := fun _ => by simp [Comment.node]
  leaf _ _ _ := fun _ => by simp
  node := by
    intro kind a hcheck ts ns rest hread span children henclosed hparent
    simp only [filledChecks, Bool.or_eq_true, Bool.not_eq_true'] at hcheck
    have hfield := hcheck.resolve_left (by simpa [Node.label] using hparent)
    exact fun c hc => Grammar.fieldLabels_sound hlabels h bound hfield hread c
      (henclosed.suffix.subset hc)
  chain := by
    intro a b hcheck
    simp only [filledChecks, Bool.and_eq_true, Bool.not_eq_true'] at hcheck
    obtain ⟨⟨hblock, hline⟩, hb⟩ := hcheck
    refine chain_of_nodes (Q := fun _ => True) (fun _ _ _ => trivial)
      (Rule.labels_closed hb) (fun _ _ => trivial) ?_
    intro inner outer front span _ houter _ _
    exact ⟨trivial, fun hparent => absurd hparent (not_strict_of_labelIs hblock hline houter)⟩

/-! ## Keywords and signs -/

/-- The rule yields a node that is no comment. -/
def Rule.solid (phraseSolid : σ → Bool) : Rule σ → Bool
  | .leaf t none => t.avoids ["block_comment", "line_comment"]
  | .leaf _ (some kind) => kind != "block_comment" && kind != "line_comment"
  | .phrase s => phraseSolid s
  | .both a b => a.solid phraseSolid || b.solid phraseSolid
  | .either a b => a.solid phraseSolid && b.solid phraseSolid
  | .node kind a => kind != "block_comment" && kind != "line_comment" && a.solid phraseSolid
  | .field _ a => a.solid phraseSolid
  | _ => false

/-- The rule puts one node around a part of what it reads. -/
def Rule.wraps (phraseSolid : σ → Bool) : Rule σ → Bool
  | .node _ a => a.solid phraseSolid
  | .either a b => a.wraps phraseSolid && b.wraps phraseSolid
  | _ => false

section Solid

variable {phraseSolid : σ → Bool} {phrase : σ → List Token → Outcome}

theorem Rule.solid_sound (hphrase : ∀ s, phraseSolid s → AlwaysYields HasNode (phrase s))
    {r : Rule σ} (h : r.solid phraseSolid) : AlwaysYields HasNode (r.readWith phrase) := by
  induction r with
  | leaf t kind =>
    intro ts nodes rest hread
    cases ts with
    | nil => simp [Rule.readWith] at hread
    | cons token ts =>
      rw [Rule.readWith] at hread
      split at hread
      · next haccepts =>
        cases hread
        refine ⟨_, List.mem_append_right _ (List.mem_singleton_self _), ?_⟩
        cases kind with
        | none => simpa [Node.isComment] using Terminal.avoids_sound h haccepts
        | some kind => simpa [Node.isComment, Rule.solid] using h
      · simp at hread
  | phrase s => exact @hphrase s h
  | both a b iha ihb =>
    intro ts nodes rest hread
    rw [Rule.readWith, Outcome.andThen_eq_matched] at hread
    obtain ⟨xs, mid, ys, ha, hb, rfl⟩ := hread
    simp only [Rule.solid, Bool.or_eq_true] at h
    rcases h with h | h
    · obtain ⟨n, hn, hnode⟩ := iha h ha
      exact ⟨n, List.mem_append_left _ hn, hnode⟩
    · obtain ⟨n, hn, hnode⟩ := ihb h hb
      exact ⟨n, List.mem_append_right _ hn, hnode⟩
  | either a b iha ihb =>
    intro ts nodes rest hread
    rw [Rule.readWith, Outcome.orElse_eq_matched] at hread
    simp only [Rule.solid, Bool.and_eq_true] at h
    rcases hread with ha | ⟨-, hb⟩
    · exact iha h.1 ha
    · exact ihb h.2 hb
  | node kind a ih =>
    intro ts nodes rest hread
    rw [Rule.readWith, Outcome.mapNodes_eq_matched] at hread
    obtain ⟨xs, ha, rfl⟩ := hread
    simp only [Rule.solid, Bool.and_eq_true, bne_iff_ne, ne_eq] at h
    exact hasNode_enclose h.1.1 h.1.2 (ih h.2 ha)
  | field name a ih =>
    intro ts nodes rest hread
    rw [Rule.readWith, Outcome.mapNodes_eq_matched] at hread
    obtain ⟨xs, ha, rfl⟩ := hread
    exact hasNode_fill (ih h ha)
  | empty | many _ | chain _ _ | ahead _ | notAhead _ => simp [Rule.solid] at h

theorem Grammar.solid_sound {g : Grammar σ} (h : ∀ s, phraseSolid s → (g s).solid phraseSolid)
    (bound : Nat) (s : σ) (hs : phraseSolid s) : AlwaysYields HasNode (g.read bound s) := by
  induction bound generalizing s with
  | zero =>
    intro _ _ _ hread
    simp [Grammar.read] at hread
  | succ bound ih => exact Rule.solid_sound ih (h s hs)

/-- What a wrapping rule yields ends in a node of its own, with something in it. -/
theorem Rule.wraps_sound (hphrase : ∀ s, phraseSolid s → AlwaysYields HasNode (phrase s))
    {r : Rule σ} (h : r.wraps phraseSolid) :
    AlwaysYields (fun ns => ∃ front last, ns = front ++ [last] ∧ last.named ∧ last.children ≠ [])
      (r.readWith phrase) := by
  induction r with
  | node kind a ih =>
    intro ts nodes rest hread
    rw [Rule.readWith, Outcome.mapNodes_eq_matched] at hread
    obtain ⟨xs, ha, rfl⟩ := hread
    obtain ⟨n, hn, hnode⟩ := Rule.solid_sound hphrase h ha
    rcases enclose_cases kind xs with ⟨hcomments, -⟩ | ⟨comments, first, others, -, -, -, heq⟩
    · exact absurd (hcomments n hn) hnode
    · exact ⟨comments, _, heq, rfl, by simp⟩
  | either a b iha ihb =>
    intro ts nodes rest hread
    rw [Rule.readWith, Outcome.orElse_eq_matched] at hread
    simp only [Rule.wraps, Bool.and_eq_true] at h
    rcases hread with ha | ⟨-, hb⟩
    · exact iha h.1 ha
    · exact ihb h.2 hb
  | leaf _ _ | phrase _ | empty | both _ _ | many _ | field _ _ | chain _ _ | ahead _
  | notAhead _ => exact absurd h (by simp [Rule.wraps])

end Solid

/-- A node that is not named has nothing in it. -/
def Node.UnnamedLeaf (n : Node) : Prop :=
  n.named = false → n.children = []

/-- A node with something in it is named. -/
theorem Node.UnnamedLeaf.label_of_mem {n c : Node} (h : n.UnnamedLeaf) (hc : c ∈ n.children) :
    n.label = some n.kind := by
  unfold Node.label
  cases hnamed : n.named with
  | true => rfl
  | false =>
    rw [h hnamed] at hc
    simp at hc

/-- What goes on with a chain is a node of its own. -/
def wrapChecks (phraseSolid : σ → Bool) : LocalChecks σ where
  node _ _ := true
  chain _ b := b.wraps phraseSolid

theorem enforces_unnamedLeaf {g : Grammar σ} (phraseSolid : σ → Bool)
    (h : ∀ s, phraseSolid s → (g s).solid phraseSolid) (bound : Nat) :
    Enforces (wrapChecks phraseSolid) (fun _ => True) (g.read bound) Node.UnnamedLeaf where
  field _ _ hn := hn
  comment _ := fun _ => rfl
  leaf _ _ _ := fun _ => rfl
  node _ := fun _ _ _ _ => by simp [Node.UnnamedLeaf]
  chain := by
    intro a b hcheck
    refine ⟨fun _ => True, fun _ => trivial, ?_⟩
    intro ts more rest hread before _ hbefore hmore
    obtain ⟨front, last, rfl, hnamed, -⟩ :=
      Rule.wraps_sound (Grammar.solid_sound h bound) hcheck hread
    refine ⟨trivial, ?_⟩
    rcases List.eq_nil_or_concat before with rfl | ⟨init, inner, rfl⟩
    · simpa [extend] using hmore
    · rw [List.concat_eq_append] at *
      rw [allEverywhere_iff, List.forall_mem_append, List.forall_mem_singleton] at hbefore hmore
      simp only [extend, List.reverse_append, List.reverse_singleton, List.singleton_append,
        List.reverse_reverse]
      refine AllEverywhere.append (allEverywhere_iff.2 hbefore.1) ⟨Node.everywhere_iff.2 ⟨?_, ?_⟩,
        trivial⟩
      · simp [Node.UnnamedLeaf, hnamed]
      · exact List.forall_mem_cons.2 ⟨hbefore.2, List.forall_mem_append.2
          ⟨hmore.1, hmore.2.children⟩⟩

/-- A comment fills no field. -/
def Node.CommentFree (n : Node) : Prop :=
  n.isComment → n.field = none

theorem enforces_commentFree {g : Grammar σ} (bound : Nat) :
    Enforces ⟨fun _ _ => true, fun _ _ => true, fun _ _ => true⟩ (fun _ => True) (g.read bound)
      Node.CommentFree where
  field _ hnode _ := fun hcomment => absurd hcomment hnode
  comment _ := fun _ => rfl
  leaf _ _ _ := fun _ => rfl
  node _ := fun _ _ _ _ => fun _ => rfl
  chain _ := chain_of_nodes (Q := fun _ => True) (R := fun _ => True) (fun _ _ _ => trivial)
    (fun _ _ _ => trivial) (fun _ _ => trivial) fun _ _ _ _ _ _ _ houter => ⟨trivial, houter⟩

/-! ## The grammar of Java -/

/-- The kinds of the declarations of types. -/
def typeKinds : List String :=
  ["class_declaration", "interface_declaration", "enum_declaration", "record_declaration",
    "annotation_type_declaration"]

theorem isTypeNode_iff {kind : String} : isTypeNode kind ↔ kind ∈ typeKinds := by
  rw [isTypeNode, typeKinds, List.contains_iff_mem]

/-- The kinds of the bodies of types. -/
def bodyKinds : List String :=
  ["class_body", "interface_body", "enum_body", "annotation_type_body"]

/-- The kinds of the nodes in which members stand. -/
def memberParents : List String :=
  "enum_body_declarations" :: bodyKinds

/-- The kinds of the nodes in which bodies of types stand. -/
def bodyParents : List String :=
  "object_creation_expression" :: "enum_constant" :: typeKinds

section Java

variable {source : List Char} {root : Node} (h : javaTree source = some root)

include h

theorem javaTree_unnamedLeaf : ∀ c ∈ root.children, c.Everywhere Node.UnnamedLeaf := by
  refine everywhere_of_javaTree (enforces_unnamedLeaf
    (fun s => s == .typeArguments || s == .dimensions) fun s hs => ?_)
    (fun s => ?_) (by decide) (fun _ _ _ _ => trivial) h
  · cases s <;> first | decide | exact absurd hs (by decide)
  · cases s <;> decide

theorem javaTree_commentFree : ∀ c ∈ root.children, c.Everywhere Node.CommentFree := by
  refine everywhere_of_javaTree enforces_commentFree (fun s => ?_) (by decide)
    (fun _ _ _ _ => trivial) h
  cases s <;> decide

/-- **Methods and constants of enums stand in bodies of types.** -/
theorem javaTree_members_in_bodies : ∀ c ∈ root.children,
    c.Everywhere (Node.StrictOn (fun k => !memberParents.contains k)
      ("enum_constant" :: methodKinds)) := by
  refine everywhere_of_javaTree (enforces_strictOn ((· != .classMember))
    fun s hs => ?_) (fun s => ?_) (by decide) (fun _ _ _ _ => trivial) h
  · cases s <;> first | decide | exact absurd hs (by decide)
  · cases s <;> decide

/-- **Bodies of types stand in declarations of types, `new` expressions and constants of enums.** -/
theorem javaTree_bodies_in_parents : ∀ c ∈ root.children,
    c.Everywhere (Node.StrictOn (fun k => !bodyParents.contains k) bodyKinds) := by
  refine everywhere_of_javaTree (enforces_strictOn (avoidsClassBody)
    fun s hs => ?_) (fun s => ?_) (by decide) (fun _ _ _ _ => trivial) h
  · cases s <;> first | decide | exact absurd hs (by decide)
  · cases s <;> decide

/-- The declarations behind the constants of an enum stand in its body. -/
theorem javaTree_declarations_in_enums : ∀ c ∈ root.children,
    c.Everywhere (Node.StrictOn (· != "enum_body") ["enum_body_declarations"]) := by
  refine everywhere_of_javaTree (enforces_strictOn (fun _ => true)
    fun s hs => ?_) (fun s => ?_) (by decide) (fun _ _ _ _ => trivial) h
  · cases s <;> decide
  · cases s <;> decide

/-- No `new` expression is a member. -/
theorem javaTree_creations_not_members : ∀ c ∈ root.children,
    c.Everywhere (Node.StrictOn memberParents.contains ["object_creation_expression"]) := by
  refine everywhere_of_javaTree (enforces_strictOn
    ([.classMember, .typeDeclaration, .block].contains) fun s hs => ?_) (fun s => ?_)
    (by decide) (fun _ _ _ _ => trivial) h
  · cases s <;> first | decide | exact absurd hs (by decide)
  · cases s <;> decide

/-- **The body of a declaration of a type is a body of a type.** -/
theorem javaTree_type_body : ∀ c ∈ root.children,
    c.Everywhere (Node.FilledWith typeKinds "body" (labelIn bodyKinds)) := by
  refine everywhere_of_javaTree (enforces_filledWith ((· == .classBody))
    (fun s hs => ?_) (fun s => ?_)) (fun s => ?_) (by decide) (fun _ _ _ _ => trivial) h
  · cases s <;> first | decide | exact absurd hs (by decide)
  · cases s <;> decide
  · cases s <;> decide

/-- **The body of a method is a block.** -/
theorem javaTree_method_body : ∀ c ∈ root.children,
    c.Everywhere (Node.FilledWith methodKinds "body" (labelIn ["block", "constructor_body"])) := by
  refine everywhere_of_javaTree (enforces_filledWith ((· == .block))
    (fun s hs => ?_) (fun s => ?_)) (fun s => ?_) (by decide) (fun _ _ _ _ => trivial) h
  · cases s <;> first | decide | exact absurd hs (by decide)
  · cases s <;> decide
  · cases s <;> decide

end Java

end JavaThrows.Cst
