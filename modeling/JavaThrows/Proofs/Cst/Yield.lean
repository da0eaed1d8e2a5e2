import Mathlib.Data.List.TakeDrop
import Mathlib.Data.List.TakeWhile
import JavaThrows.Cst.Grammar

set_option autoImplicit false

/-!
# What rules yield

A property of lists of nodes holds of all that a rule yields if it holds of nothing, of two parts
together, and of what the smallest parts of the rule come to (`Rule.Obeys.alwaysYields`). The first
use of it are the kinds of nodes that a rule does not yield, which can be computed from the rule.
Where the property is also one of the tokens that are read, and every rule keeps it, it passes from
the tokens of a source to its tree (`Rule.readWith_yieldsFrom`).
-/

namespace JavaThrows.Cst

variable {σ : Type}

/-! ## Enclosed nodes -/

theorem isComment_node (c : Comment) : c.node.isComment := by
  cases hblock : c.block <;> simp [Comment.node, Comment.kind, Node.isComment, hblock]

/-- Enclosing leaves comments alone, and puts a node around all that follows them. -/
theorem enclose_cases (kind : String) (ns : List Node) :
    ((∀ n ∈ ns, n.isComment) ∧ enclose kind ns = ns) ∨
      ∃ comments first others, ns = comments ++ first :: others ∧
        (∀ n ∈ comments, n.isComment) ∧ ¬ first.isComment ∧
        enclose kind ns = comments ++ [⟨kind, none, true,
          ⟨first.span.start, ((first :: others).getLastD first).span.stop⟩, first :: others⟩] := by
  have hparts := List.takeWhile_append_dropWhile (p := Node.isComment) (l := ns)
  have hcomments : ∀ n ∈ ns.takeWhile Node.isComment, n.isComment :=
    fun n hn => List.mem_takeWhile_imp hn
  rw [enclose, List.span_eq_takeWhile_dropWhile]
  cases hrest : ns.dropWhile Node.isComment with
  | nil =>
    rw [hrest, List.append_nil] at hparts
    exact .inl ⟨hparts ▸ hcomments, rfl⟩
  | cons first others =>
    refine .inr ⟨_, first, others, by rw [← hrest, hparts], hcomments, ?_, rfl⟩
    have hfirst := List.head_dropWhile_not Node.isComment (by rw [hrest]; simp)
    simpa [hrest] using hfirst

/-! ## Matches of compound rules -/

namespace Outcome

variable {o : Outcome} {nodes : List Node} {rest : List Token}

theorem andThen_eq_matched {next : List Token → Outcome} :
    o.andThen next = .matched nodes rest ↔
      ∃ xs mid ys, o = .matched xs mid ∧ next mid = .matched ys rest ∧ xs ++ ys = nodes := by
  unfold andThen
  cases o with
  | matched xs mid =>
    cases hnext : next mid with
    | matched ys rest' =>
      simp only [hnext, matched.injEq]
      constructor
      · rintro ⟨rfl, rfl⟩
        exact ⟨xs, mid, ys, ⟨rfl, rfl⟩, hnext, rfl⟩
      · rintro ⟨_, _, zs, ⟨rfl, rfl⟩, hzs, rfl⟩
        rw [hnext] at hzs
        cases hzs
        exact ⟨rfl, rfl⟩
    | mismatch => simp [hnext]
    | exhausted => simp [hnext]
  | mismatch => simp
  | exhausted => simp

theorem orElse_eq_matched {other : Unit → Outcome} :
    o.orElse other = .matched nodes rest ↔
      o = .matched nodes rest ∨ o = .mismatch ∧ other () = .matched nodes rest := by
  cases o <;> simp [orElse]

theorem mapNodes_eq_matched {f : List Node → List Node} :
    o.mapNodes f = .matched nodes rest ↔ ∃ xs, o = .matched xs rest ∧ f xs = nodes := by
  cases o <;> simp [mapNodes, and_comm]

end Outcome

/-! ## What a rule yields -/

/-- What a reader yields has the property. -/
def AlwaysYields (good : List Node → Prop) (read : List Token → Outcome) : Prop :=
  ∀ {ts nodes rest}, read ts = .matched nodes rest → good nodes

/-- What has to be known of the parts of a rule so that what it yields has a property. -/
def Rule.Obeys (phrase : σ → List Token → Outcome) (good : List Node → Prop) : Rule σ → Prop
  | .leaf t kind => ∀ token, t.accepts token → good (token.nodes kind)
  | .phrase s => AlwaysYields good (phrase s)
  | .empty => True
  | .both a b => a.Obeys phrase good ∧ b.Obeys phrase good
  | .either a b => a.Obeys phrase good ∧ b.Obeys phrase good
  | .many a => a.Obeys phrase good
  | .node kind a => AlwaysYields (fun ns => good (enclose kind ns)) (a.readWith phrase)
  | .field name a => AlwaysYields (fun ns => good (fill name ns)) (a.readWith phrase)
  | .chain a b =>
    a.Obeys phrase good ∧
      AlwaysYields (fun more => ∀ before, good before → good (extend before more))
        (b.readWith phrase)
  | .ahead _ => True
  | .notAhead _ => True

section Obeys

variable {phrase : σ → List Token → Outcome} {good : List Node → Prop}

theorem alwaysYields_readMany {one : List Token → Outcome} (hnil : good [])
    (happend : ∀ xs ys, good xs → good ys → good (xs ++ ys)) (hone : AlwaysYields good one)
    (rounds : List Token) : AlwaysYields good (readMany one rounds) := by
  induction rounds with
  | nil =>
    intro ts nodes rest h
    cases h
    exact hnil
  | cons _ rounds ih =>
    intro ts nodes rest h
    rw [readMany] at h
    cases hread : one ts with
    | matched xs rest' =>
      simp only [hread, Outcome.mapNodes_eq_matched] at h
      obtain ⟨ys, hmany, rfl⟩ := h
      exact happend xs ys (hone hread) (ih hmany)
    | mismatch =>
      simp only [hread] at h
      cases h
      exact hnil
    | exhausted => simp [hread] at h

theorem good_of_readChain {one : List Token → Outcome}
    (hone : AlwaysYields (fun more => ∀ before, good before → good (extend before more)) one)
    (rounds : List Token) {before : List Node} (hbefore : good before) :
    AlwaysYields good (readChain one rounds before) := by
  induction rounds generalizing before with
  | nil =>
    intro ts nodes rest h
    cases h
    exact hbefore
  | cons _ rounds ih =>
    intro ts nodes rest h
    rw [readChain] at h
    cases hread : one ts with
    | matched xs rest' =>
      simp only [hread] at h
      exact ih (hone hread before hbefore) h
    | mismatch =>
      simp only [hread] at h
      cases h
      exact hbefore
    | exhausted => simp [hread] at h

/-- **What a rule yields has a property** that holds of nothing, of two parts together, and of all
    that the parts of the rule come to. -/
theorem Rule.Obeys.alwaysYields {r : Rule σ} (h : r.Obeys phrase good) (hnil : good [])
    (happend : ∀ xs ys, good xs → good ys → good (xs ++ ys)) :
    AlwaysYields good (r.readWith phrase) := by
  induction r with
  | leaf t kind =>
    intro ts nodes rest hread
    cases ts with
    | nil => simp [Rule.readWith] at hread
    | cons token ts =>
      rw [Rule.readWith] at hread
      split at hread
      · next haccepts =>
        cases hread
        exact h token haccepts
      · simp at hread
  | phrase s => exact h
  | empty =>
    intro ts nodes rest hread
    cases hread
    exact hnil
  | both a b iha ihb =>
    intro ts nodes rest hread
    rw [Rule.readWith, Outcome.andThen_eq_matched] at hread
    obtain ⟨xs, mid, ys, ha, hb, rfl⟩ := hread
    exact happend xs ys (iha h.1 ha) (ihb h.2 hb)
  | either a b iha ihb =>
    intro ts nodes rest hread
    rw [Rule.readWith, Outcome.orElse_eq_matched] at hread
    rcases hread with ha | ⟨-, hb⟩
    · exact iha h.1 ha
    · exact ihb h.2 hb
  | many a ih =>
    intro ts nodes rest hread
    exact alwaysYields_readMany hnil happend (ih h) ts hread
  | node kind a ih =>
    intro ts nodes rest hread
    rw [Rule.readWith, Outcome.mapNodes_eq_matched] at hread
    obtain ⟨xs, ha, rfl⟩ := hread
    exact h ha
  | field name a ih =>
    intro ts nodes rest hread
    rw [Rule.readWith, Outcome.mapNodes_eq_matched] at hread
    obtain ⟨xs, ha, rfl⟩ := hread
    exact h ha
  | chain a b iha ihb =>
    intro ts nodes rest hread
    rw [Rule.readWith] at hread
    cases ha : a.readWith phrase ts with
    | matched xs rest' =>
      -- The chain grows from what its first rule has yielded.
      simp only [ha] at hread
      exact good_of_readChain h.2 rest' (iha h.1 ha) hread
    | mismatch => simp [ha] at hread
    | exhausted => simp [ha] at hread
  | ahead a ih =>
    intro ts nodes rest hread
    rw [Rule.readWith] at hread
    cases ha : a.readWith phrase ts with
    | matched xs rest' =>
      -- What is only looked at is not yielded.
      simp only [ha] at hread
      cases hread
      exact hnil
    | mismatch => simp [ha] at hread
    | exhausted => simp [ha] at hread
  | notAhead a ih =>
    intro ts nodes rest hread
    rw [Rule.readWith] at hread
    cases ha : a.readWith phrase ts with
    | matched xs rest' => simp [ha] at hread
    | mismatch =>
      simp only [ha] at hread
      cases hread
      exact hnil
    | exhausted => simp [ha] at hread

end Obeys

/-! ## What a rule yields from the tokens that it reads -/

section Yields

variable {τ : Type}

/-- From tokens that fit a state, reading yields nodes on the way to a state that the tokens left
    fit. -/
def YieldsFrom (fits : τ → List Token → Prop) (good : τ → τ → List Node → Prop)
    (read : List Token → Outcome) : Prop :=
  ∀ {s ts nodes rest}, fits s ts → read ts = .matched nodes rest →
    ∃ t, good s t nodes ∧ fits t rest

/-- A property of nodes between two states that is kept by all that reading does with them. -/
structure KeptByReading (fits : τ → List Token → Prop) (good : τ → τ → List Node → Prop) :
    Prop where
  nil : ∀ s, good s s []
  append : ∀ {s t u xs ys}, good s t xs → good t u ys → good s u (xs ++ ys)
  leaf : ∀ {s token ts} (kind : Option String), fits s (token :: ts) →
    ∃ t, good s t (token.nodes kind) ∧ fits t ts
  enclose : ∀ {s t ns} (kind : String), good s t ns → good s t (enclose kind ns)
  fill : ∀ {s t ns} (name : String), good s t ns → good s t (fill name ns)
  extend : ∀ {s t u before more}, good s t before → good t u more → good s u (extend before more)

variable {fits : τ → List Token → Prop} {good : τ → τ → List Node → Prop}

theorem readMany_yieldsFrom (kept : KeptByReading fits good) {one : List Token → Outcome}
    (hone : YieldsFrom fits good one) (rounds : List Token) :
    YieldsFrom fits good (readMany one rounds) := by
  induction rounds with
  | nil =>
    intro s ts nodes rest hts h
    cases h
    exact ⟨s, kept.nil s, hts⟩
  | cons _ rounds ih =>
    intro s ts nodes rest hts h
    rw [readMany] at h
    cases hread : one ts with
    | matched xs mid =>
      simp only [hread, Outcome.mapNodes_eq_matched] at h
      obtain ⟨ys, hmany, rfl⟩ := h
      obtain ⟨t, hxs, hmid⟩ := hone hts hread
      obtain ⟨u, hys, hrest⟩ := ih hmid hmany
      exact ⟨u, kept.append hxs hys, hrest⟩
    | mismatch =>
      simp only [hread] at h
      cases h
      exact ⟨s, kept.nil s, hts⟩
    | exhausted => simp [hread] at h

theorem readChain_yieldsFrom (kept : KeptByReading fits good) {one : List Token → Outcome}
    (hone : YieldsFrom fits good one) (rounds : List Token) {s t : τ} {before : List Node}
    (hbefore : good s t before) {ts rest : List Token} {nodes : List Node} (hts : fits t ts)
    (h : readChain one rounds before ts = .matched nodes rest) :
    ∃ u, good s u nodes ∧ fits u rest := by
  induction rounds generalizing t before ts with
  | nil =>
    cases h
    exact ⟨t, hbefore, hts⟩
  | cons _ rounds ih =>
    rw [readChain] at h
    cases hread : one ts with
    | matched xs mid =>
      simp only [hread] at h
      obtain ⟨u, hxs, hmid⟩ := hone hts hread
      exact ih (kept.extend hbefore hxs) hmid h
    | mismatch =>
      simp only [hread] at h
      cases h
      exact ⟨t, hbefore, hts⟩
    | exhausted => simp [hread] at h

/-- **What reading keeps holds of all that a rule yields**, if it holds of what the phrases yield
    that the rule refers to. -/
theorem Rule.readWith_yieldsFrom (kept : KeptByReading fits good)
    {phrase : σ → List Token → Outcome} (hphrase : ∀ s, YieldsFrom fits good (phrase s))
    (r : Rule σ) : YieldsFrom fits good (r.readWith phrase) := by
  induction r with
  | leaf t kind =>
    intro s ts nodes rest hts hread
    cases ts with
    | nil => simp [Rule.readWith] at hread
    | cons token ts =>
      rw [Rule.readWith] at hread
      split at hread
      · cases hread
        exact kept.leaf kind hts
      · simp at hread
  | phrase s => exact @hphrase s
  | empty =>
    intro s ts nodes rest hts hread
    cases hread
    exact ⟨s, kept.nil s, hts⟩
  | both a b iha ihb =>
    intro s ts nodes rest hts hread
    rw [Rule.readWith, Outcome.andThen_eq_matched] at hread
    obtain ⟨xs, mid, ys, ha, hb, rfl⟩ := hread
    obtain ⟨t, hxs, hmid⟩ := iha hts ha
    obtain ⟨u, hys, hrest⟩ := ihb hmid hb
    exact ⟨u, kept.append hxs hys, hrest⟩
  | either a b iha ihb =>
    intro s ts nodes rest hts hread
    rw [Rule.readWith, Outcome.orElse_eq_matched] at hread
    rcases hread with ha | ⟨-, hb⟩
    · exact iha hts ha
    · exact ihb hts hb
  | many a ih =>
    intro s ts nodes rest hts hread
    exact readMany_yieldsFrom kept ih ts hts hread
  | node kind a ih =>
    intro s ts nodes rest hts hread
    rw [Rule.readWith, Outcome.mapNodes_eq_matched] at hread
    obtain ⟨xs, ha, rfl⟩ := hread
    obtain ⟨t, hxs, hrest⟩ := ih hts ha
    exact ⟨t, kept.enclose kind hxs, hrest⟩
  | field name a ih =>
    intro s ts nodes rest hts hread
    rw [Rule.readWith, Outcome.mapNodes_eq_matched] at hread
    obtain ⟨xs, ha, rfl⟩ := hread
    obtain ⟨t, hxs, hrest⟩ := ih hts ha
    exact ⟨t, kept.fill name hxs, hrest⟩
  | chain a b iha ihb =>
    intro s ts nodes rest hts hread
    rw [Rule.readWith] at hread
    cases ha : a.readWith phrase ts with
    | matched xs mid =>
      simp only [ha] at hread
      obtain ⟨t, hxs, hmid⟩ := iha hts ha
      exact readChain_yieldsFrom kept ihb mid hxs hmid hread
    | mismatch => simp [ha] at hread
    | exhausted => simp [ha] at hread
  | ahead a ih =>
    intro s ts nodes rest hts hread
    rw [Rule.readWith] at hread
    cases ha : a.readWith phrase ts with
    | matched xs mid =>
      -- What is only looked at is still to be read.
      simp only [ha] at hread
      cases hread
      exact ⟨s, kept.nil s, hts⟩
    | mismatch => simp [ha] at hread
    | exhausted => simp [ha] at hread
  | notAhead a ih =>
    intro s ts nodes rest hts hread
    rw [Rule.readWith] at hread
    cases ha : a.readWith phrase ts with
    | matched xs mid => simp [ha] at hread
    | mismatch =>
      simp only [ha] at hread
      cases hread
      exact ⟨s, kept.nil s, hts⟩
    | exhausted => simp [ha] at hread

theorem Grammar.read_yieldsFrom (kept : KeptByReading fits good) (g : Grammar σ) (bound : Nat)
    (s : σ) : YieldsFrom fits good (g.read bound s) := by
  induction bound generalizing s with
  | zero =>
    intro _ _ _ _ _ hread
    simp [Grammar.read] at hread
  | succ bound ih => exact Rule.readWith_yieldsFrom kept ih (g s)

end Yields

/-! ## Kinds that a rule does not yield -/

section Kinds

variable (kinds : List String) (phraseAvoids : σ → Bool)

/-- The text of an accepted token is none of the kinds. -/
def Terminal.avoids : Terminal → Bool
  | .exact text => !kinds.contains text
  | .glued text => !kinds.contains text
  | .wordExcept reserved => kinds.all reserved.contains
  | .wordAmong words => words.all fun w => !kinds.contains w
  | .ofKind _ => false

/-- No node that the rule yields is of one of the kinds, comments apart. -/
def Rule.avoids : Rule σ → Bool
  | .leaf t none => t.avoids kinds
  | .leaf _ (some kind) => !kinds.contains kind
  | .phrase s => phraseAvoids s
  | .empty => true
  | .both a b => a.avoids && b.avoids
  | .either a b => a.avoids && b.avoids
  | .many a => a.avoids
  | .node kind _ => !kinds.contains kind
  | .field _ a => a.avoids
  | .chain a b => a.avoids && b.avoids
  | .ahead _ => true
  | .notAhead _ => true

/-- None of the nodes is of one of the kinds, comments apart. -/
def AvoidsKinds (ns : List Node) : Prop :=
  ∀ n ∈ ns, n.isComment ∨ n.kind ∉ kinds

variable {kinds} {phraseAvoids}

theorem AvoidsKinds.append {xs ys : List Node} (hxs : AvoidsKinds kinds xs)
    (hys : AvoidsKinds kinds ys) : AvoidsKinds kinds (xs ++ ys) :=
  List.forall_mem_append.2 ⟨hxs, hys⟩

theorem Terminal.avoids_sound {t : Terminal} {token : Token} (h : t.avoids kinds)
    (haccepts : t.accepts token) : token.text ∉ kinds := by
  cases t with
  | exact text =>
    simp only [Terminal.accepts, Bool.and_eq_true, beq_iff_eq] at haccepts
    rw [haccepts.2]
    simpa [Terminal.avoids] using h
  | glued text =>
    simp only [Terminal.accepts, Bool.and_eq_true, beq_iff_eq] at haccepts
    rw [haccepts.2]
    simpa [Terminal.avoids] using h
  | wordExcept reserved =>
    simp only [Terminal.accepts, Bool.and_eq_true, Bool.not_eq_true', List.contains_eq_mem,
      decide_eq_false_iff_not] at haccepts
    simp only [Terminal.avoids, List.all_eq_true, List.contains_eq_mem, decide_eq_true_eq] at h
    exact fun hmem => haccepts.2 (h _ hmem)
  | wordAmong words =>
    simp only [Terminal.accepts, Bool.and_eq_true, List.contains_eq_mem,
      decide_eq_true_eq] at haccepts
    simp only [Terminal.avoids, List.all_eq_true, Bool.not_eq_true', List.contains_eq_mem,
      decide_eq_false_iff_not] at h
    exact h _ haccepts.2
  | ofKind kind => simp [Terminal.avoids] at h

theorem avoidsKinds_tokenNodes {token : Token} {kind : Option String}
    (h : kind.getD token.text ∉ kinds) : AvoidsKinds kinds (token.nodes kind) := by
  unfold Token.nodes
  refine AvoidsKinds.append ?_ ?_
  · rintro n hn
    obtain ⟨c, -, rfl⟩ := List.mem_map.1 hn
    exact .inl (isComment_node c)
  · rintro n hn
    rw [List.mem_singleton.1 hn]
    exact .inr h

theorem avoidsKinds_enclose {kind : String} {ns : List Node} (hkind : kind ∉ kinds) :
    AvoidsKinds kinds (enclose kind ns) := by
  rcases enclose_cases kind ns with
    ⟨hcomments, heq⟩ | ⟨comments, first, others, -, hcomments, -, heq⟩
  · rw [heq]
    exact fun n hn => .inl (hcomments n hn)
  · rw [heq]
    refine AvoidsKinds.append (fun n hn => .inl (hcomments n hn)) ?_
    rintro n hn
    rw [List.mem_singleton.1 hn]
    exact .inr hkind

theorem avoidsKinds_fill {name : String} {ns : List Node} (h : AvoidsKinds kinds ns) :
    AvoidsKinds kinds (fill name ns) := by
  rintro n hn
  obtain ⟨m, hm, rfl⟩ := List.mem_map.1 hn
  split
  · exact h m hm
  · exact h m hm

theorem avoidsKinds_extend {before more : List Node} (hbefore : AvoidsKinds kinds before)
    (hmore : AvoidsKinds kinds more) : AvoidsKinds kinds (extend before more) := by
  unfold extend
  split
  · next inner front outer comments hinner houter =>
    rw [List.reverse_eq_cons_iff] at hinner houter
    subst hinner houter
    refine AvoidsKinds.append (fun n hn => hbefore n (List.mem_append_left _ hn)) ?_
    rintro n hn
    rw [List.mem_singleton.1 hn]
    exact hmore outer (List.mem_append_right _ (List.mem_singleton_self _))
  · exact hbefore.append hmore

theorem avoidsKinds_nil : AvoidsKinds kinds [] := by
  simp [AvoidsKinds]

theorem Rule.obeys_of_avoids {phrase : σ → List Token → Outcome}
    (hphrase : ∀ s, phraseAvoids s → AlwaysYields (AvoidsKinds kinds) (phrase s)) {r : Rule σ}
    (h : r.avoids kinds phraseAvoids) : r.Obeys phrase (AvoidsKinds kinds) := by
  induction r with
  | leaf t kind =>
    intro token haccepts
    cases kind with
    | none => exact avoidsKinds_tokenNodes (Terminal.avoids_sound h haccepts)
    | some kind => exact avoidsKinds_tokenNodes (by simpa [Rule.avoids] using h)
  | phrase s => exact hphrase s h
  | empty => trivial
  | both a b iha ihb =>
    simp only [Rule.avoids, Bool.and_eq_true] at h
    exact ⟨iha h.1, ihb h.2⟩
  | either a b iha ihb =>
    simp only [Rule.avoids, Bool.and_eq_true] at h
    exact ⟨iha h.1, ihb h.2⟩
  | many a ih => exact ih h
  | node kind a ih =>
    intro _ _ _ _
    exact avoidsKinds_enclose (by simpa [Rule.avoids] using h)
  | field name a ih =>
    intro _ _ _ hread
    exact avoidsKinds_fill
      ((ih h).alwaysYields avoidsKinds_nil (fun _ _ hx hy => hx.append hy) hread)
  | chain a b iha ihb =>
    simp only [Rule.avoids, Bool.and_eq_true] at h
    refine ⟨iha h.1, fun hread before hbefore => avoidsKinds_extend hbefore ?_⟩
    exact (ihb h.2).alwaysYields avoidsKinds_nil (fun _ _ hx hy => hx.append hy) hread
  | ahead a ih => trivial
  | notAhead a ih => trivial

/-- **A rule yields no node of the kinds that it avoids.** -/
theorem Rule.avoids_sound {phrase : σ → List Token → Outcome}
    (hphrase : ∀ s, phraseAvoids s → AlwaysYields (AvoidsKinds kinds) (phrase s)) {r : Rule σ}
    (h : r.avoids kinds phraseAvoids) : AlwaysYields (AvoidsKinds kinds) (r.readWith phrase) :=
  (Rule.obeys_of_avoids hphrase h).alwaysYields avoidsKinds_nil fun _ _ hx hy => hx.append hy

/-- The phrases of a grammar avoid kinds if each of their rules does, given that the others do. -/
theorem Grammar.avoids_sound {g : Grammar σ}
    (h : ∀ s, phraseAvoids s → (g s).avoids kinds phraseAvoids) (bound : Nat) (s : σ)
    (hs : phraseAvoids s) : AlwaysYields (AvoidsKinds kinds) (g.read bound s) := by
  induction bound generalizing s with
  | zero =>
    intro _ _ _ hread
    simp [Grammar.read] at hread
  | succ bound ih => exact Rule.avoids_sound ih (h s hs)

end Kinds

/-! ## The tree of a source -/

/-- The tree of a source comes from reading all of its tokens, with the comments behind them at the
    end. -/
theorem exists_read_of_javaTree {source : List Char} {root : Node}
    (h : javaTree source = some root) :
    ∃ s nodes, scan source = .ok s ∧ root.children = nodes ++ s.trailing.map Comment.node ∧
      (Rule.many Java.topLevel).readWith (javaGrammar.read (referenceBound s.tokens)) s.tokens =
        .matched nodes [] := by
  unfold javaTree at h
  cases hscan : scan source with
  | error e => simp [hscan, Except.toOption] at h
  | ok s =>
    simp only [hscan, Except.toOption, Option.bind_some, Option.map_eq_some_iff] at h
    obtain ⟨nodes, hnodes, rfl⟩ := h
    unfold Rule.readAll at hnodes
    split at hnodes
    · next nodes' hread =>
      cases hnodes
      exact ⟨s, nodes, rfl, rfl, hread⟩
    · simp at hnodes

end JavaThrows.Cst
