import JavaThrows.Proofs.Cst.Yield

set_option autoImplicit false

/-!
# Facts about every node of a tree

A node of a tree is a comment, a token, what a rule has put around the nodes that it read, or such a
node after it has taken in the node in front of it. A property of nodes therefore holds of all of
them if each of these four has it, and for the last two the rules tell why: `LocalChecks` are tests
of single rules, and `Enforces` says that a property follows wherever they are passed. Main
statement: `everywhere_of_javaTree`.
-/

namespace JavaThrows.Cst

variable {σ : Type}

mutual
/-- The node and all nodes below it have the property. -/
def Node.Everywhere (P : Node → Prop) : Node → Prop
  | ⟨kind, field, named, span, children⟩ =>
    P ⟨kind, field, named, span, children⟩ ∧ AllEverywhere P children

def AllEverywhere (P : Node → Prop) : List Node → Prop
  | [] => True
  | n :: ns => n.Everywhere P ∧ AllEverywhere P ns
end

variable {P : Node → Prop}

theorem allEverywhere_iff {ns : List Node} : AllEverywhere P ns ↔ ∀ n ∈ ns, n.Everywhere P := by
  induction ns with
  | nil => simp [AllEverywhere]
  | cons n ns ih => rw [AllEverywhere, ih, List.forall_mem_cons]

theorem Node.everywhere_iff {n : Node} :
    n.Everywhere P ↔ P n ∧ ∀ c ∈ n.children, c.Everywhere P := by
  cases n
  rw [Node.Everywhere, allEverywhere_iff]

namespace Node.Everywhere

theorem here {n : Node} (h : n.Everywhere P) : P n :=
  (Node.everywhere_iff.1 h).1

theorem children {n : Node} (h : n.Everywhere P) : ∀ c ∈ n.children, c.Everywhere P :=
  (Node.everywhere_iff.1 h).2

end Node.Everywhere

mutual
def decidableEverywhere [DecidablePred P] : (n : Node) → Decidable (n.Everywhere P)
  | ⟨kind, field, named, span, children⟩ =>
    have := decidableAllEverywhere children
    inferInstanceAs (Decidable (P ⟨kind, field, named, span, children⟩ ∧ AllEverywhere P children))

def decidableAllEverywhere [DecidablePred P] : (ns : List Node) → Decidable (AllEverywhere P ns)
  | [] => inferInstanceAs (Decidable True)
  | n :: ns =>
    have := decidableEverywhere n
    have := decidableAllEverywhere ns
    inferInstanceAs (Decidable (n.Everywhere P ∧ AllEverywhere P ns))
end

instance [DecidablePred P] (n : Node) : Decidable (n.Everywhere P) :=
  decidableEverywhere n

theorem AllEverywhere.append {xs ys : List Node} (hxs : AllEverywhere P xs)
    (hys : AllEverywhere P ys) : AllEverywhere P (xs ++ ys) := by
  rw [allEverywhere_iff] at *
  exact List.forall_mem_append.2 ⟨hxs, hys⟩

/-! ## Reading from good tokens -/

/-- What a reader yields from tokens that are all good has the property, and what it leaves is good
    as well. -/
def YieldsFromGood (ok : Token → Prop) (good : List Node → Prop) (read : List Token → Outcome) :
    Prop :=
  ∀ {ts nodes rest}, (∀ t ∈ ts, ok t) → read ts = .matched nodes rest →
    good nodes ∧ ∀ t ∈ rest, ok t

section Readers

variable {ok : Token → Prop} {good : List Node → Prop} {one : List Token → Outcome}

theorem readMany_yieldsFromGood (hnil : good [])
    (happend : ∀ xs ys, good xs → good ys → good (xs ++ ys)) (hone : YieldsFromGood ok good one)
    (rounds : List Token) : YieldsFromGood ok good (readMany one rounds) := by
  induction rounds with
  | nil =>
    intro ts nodes rest hts h
    cases h
    exact ⟨hnil, hts⟩
  | cons _ rounds ih =>
    intro ts nodes rest hts h
    rw [readMany] at h
    cases hread : one ts with
    | matched xs mid =>
      simp only [hread, Outcome.mapNodes_eq_matched] at h
      obtain ⟨ys, hmany, rfl⟩ := h
      obtain ⟨hxs, hmid⟩ := hone hts hread
      obtain ⟨hys, hrest⟩ := ih hmid hmany
      exact ⟨happend xs ys hxs hys, hrest⟩
    | mismatch =>
      simp only [hread] at h
      cases h
      exact ⟨hnil, hts⟩
    | exhausted => simp [hread] at h

theorem readChain_yieldsFromGood
    (hone : YieldsFromGood ok (fun more => ∀ before, good before → good (extend before more)) one)
    (rounds : List Token) {before : List Node} (hbefore : good before) :
    YieldsFromGood ok good (readChain one rounds before) := by
  induction rounds generalizing before with
  | nil =>
    intro ts nodes rest hts h
    cases h
    exact ⟨hbefore, hts⟩
  | cons _ rounds ih =>
    intro ts nodes rest hts h
    rw [readChain] at h
    cases hread : one ts with
    | matched xs mid =>
      simp only [hread] at h
      obtain ⟨hxs, hmid⟩ := hone hts hread
      exact ih (hxs before hbefore) hmid h
    | mismatch =>
      simp only [hread] at h
      cases h
      exact ⟨hbefore, hts⟩
    | exhausted => simp [hread] at h

end Readers

/-! ## Checks of single rules -/

/-- Tests of the parts of a rule that come to nodes. -/
structure LocalChecks (σ : Type) where
  leaf : Terminal → Option String → Bool := fun _ _ => true
  /-- The kind of a node and the rule for all that stands in it. -/
  node : String → Rule σ → Bool
  /-- The rule that starts a chain, and the one that goes on with it. -/
  chain : Rule σ → Rule σ → Bool

/-- All parts of the rule pass the checks, up to the phrases that it refers to. -/
def Rule.passes (checks : LocalChecks σ) : Rule σ → Bool
  | .leaf t kind => checks.leaf t kind
  | .phrase _ => true
  | .empty => true
  | .both a b => a.passes checks && b.passes checks
  | .either a b => a.passes checks && b.passes checks
  | .many a => a.passes checks
  | .node kind a => checks.node kind a && a.passes checks
  | .field _ a => a.passes checks
  | .chain a b => checks.chain a b && a.passes checks && b.passes checks
  | .ahead _ => true
  | .notAhead _ => true

/-- A node with the span and the children is put around the nodes: comments in front stay outside. -/
structure Enclosed (ns : List Node) (span : Span) (children : List Node) : Prop where
  suffix : children <:+ ns
  first : ∃ first others, children = first :: others ∧
    (ns.find? fun n => !n.isComment) = some first ∧ span.start = first.span.start

/-- Where a part of a rule passes the checks, the nodes that it comes to have the property. -/
structure Enforces (checks : LocalChecks σ) (ok : Token → Prop)
    (phrase : σ → List Token → Outcome) (P : Node → Prop) : Prop where
  field : ∀ {n : Node} (name : String), ¬ n.isComment → P n → P { n with field := some name }
  comment : ∀ c : Comment, P c.node
  leaf : ∀ {t kind token}, checks.leaf t kind → ok token → t.accepts token →
    P ⟨kind.getD token.text, none, kind.isSome, token.span, []⟩
  node : ∀ {kind a}, checks.node kind a →
    AlwaysYields (fun ns => ∀ span children, Enclosed ns span children →
      P ⟨kind, none, true, span, children⟩) (a.readWith phrase)
  /-- The property may be shown along with another one of all that the chain has come to. -/
  chain : ∀ {a b}, checks.chain a b → ∃ Q : List Node → Prop, AlwaysYields Q (a.readWith phrase) ∧
    AlwaysYields (fun more => ∀ before, Q before → AllEverywhere P before → AllEverywhere P more →
      Q (extend before more) ∧ AllEverywhere P (extend before more)) (b.readWith phrase)

section Enforces

variable {checks : LocalChecks σ} {ok : Token → Prop} {phrase : σ → List Token → Outcome}

theorem Enforces.tokenNodes (h : Enforces checks ok phrase P) {t : Terminal} {kind : Option String}
    {token : Token} (hcheck : checks.leaf t kind) (hok : ok token) (haccepts : t.accepts token) :
    AllEverywhere P (token.nodes kind) := by
  refine AllEverywhere.append (allEverywhere_iff.2 fun n hn => ?_)
    ⟨⟨h.leaf hcheck hok haccepts, trivial⟩, trivial⟩
  obtain ⟨c, -, rfl⟩ := List.mem_map.1 hn
  exact ⟨h.comment c, trivial⟩

theorem Enforces.fill (h : Enforces checks ok phrase P) (name : String) {ns : List Node}
    (hns : AllEverywhere P ns) : AllEverywhere P (fill name ns) := by
  rw [allEverywhere_iff] at *
  intro n hn
  obtain ⟨m, hm, rfl⟩ := List.mem_map.1 hn
  split
  · exact hns m hm
  · next hnode =>
    exact Node.everywhere_iff.2 ⟨h.field name hnode (hns m hm).here, (hns m hm).children⟩

theorem allEverywhere_enclose {kind : String} {ns : List Node} (hns : AllEverywhere P ns)
    (h : ∀ span children, Enclosed ns span children → P ⟨kind, none, true, span, children⟩) :
    AllEverywhere P (enclose kind ns) := by
  rcases enclose_cases kind ns with
    ⟨-, heq⟩ | ⟨comments, first, others, rfl, hcomments, hfirst, heq⟩
  · rwa [heq]
  · have hlead : ((comments ++ first :: others).find? fun n => !n.isComment) = some first := by
      rw [List.find?_append, List.find?_eq_none.2 (by simpa using hcomments), Option.none_or,
        List.find?_cons_of_pos (by simpa using hfirst)]
    rw [heq]
    rw [allEverywhere_iff, List.forall_mem_append] at hns
    exact (allEverywhere_iff.2 hns.1).append
      ⟨⟨h _ _ ⟨List.suffix_append _ _, first, others, rfl, hlead, rfl⟩,
        allEverywhere_iff.2 hns.2⟩, trivial⟩

/-- **Rules that pass the checks yield trees that have the property everywhere.** -/
theorem Rule.everywhere_of_passes (h : Enforces checks ok phrase P)
    (hphrase : ∀ s, YieldsFromGood ok (AllEverywhere P) (phrase s)) {r : Rule σ}
    (hr : r.passes checks) : YieldsFromGood ok (AllEverywhere P) (r.readWith phrase) := by
  induction r with
  | leaf t kind =>
    intro ts nodes rest hts hread
    cases ts with
    | nil => simp [Rule.readWith] at hread
    | cons token ts =>
      rw [List.forall_mem_cons] at hts
      rw [Rule.readWith] at hread
      split at hread
      · next haccepts =>
        cases hread
        exact ⟨h.tokenNodes hr hts.1 haccepts, hts.2⟩
      · simp at hread
  | phrase s => exact hphrase s
  | empty =>
    intro ts nodes rest hts hread
    cases hread
    exact ⟨trivial, hts⟩
  | both a b iha ihb =>
    intro ts nodes rest hts hread
    simp only [Rule.passes, Bool.and_eq_true] at hr
    rw [Rule.readWith, Outcome.andThen_eq_matched] at hread
    obtain ⟨xs, mid, ys, ha, hb, rfl⟩ := hread
    obtain ⟨hxs, hmid⟩ := iha hr.1 hts ha
    obtain ⟨hys, hrest⟩ := ihb hr.2 hmid hb
    exact ⟨hxs.append hys, hrest⟩
  | either a b iha ihb =>
    intro ts nodes rest hts hread
    simp only [Rule.passes, Bool.and_eq_true] at hr
    rw [Rule.readWith, Outcome.orElse_eq_matched] at hread
    rcases hread with ha | ⟨-, hb⟩
    · exact iha hr.1 hts ha
    · exact ihb hr.2 hts hb
  | many a ih =>
    intro ts nodes rest hts hread
    exact readMany_yieldsFromGood trivial (fun _ _ => .append) (ih hr) ts hts hread
  | node kind a ih =>
    intro ts nodes rest hts hread
    simp only [Rule.passes, Bool.and_eq_true] at hr
    rw [Rule.readWith, Outcome.mapNodes_eq_matched] at hread
    obtain ⟨xs, ha, rfl⟩ := hread
    obtain ⟨hxs, hrest⟩ := ih hr.2 hts ha
    exact ⟨allEverywhere_enclose hxs (h.node hr.1 ha), hrest⟩
  | field name a ih =>
    intro ts nodes rest hts hread
    rw [Rule.readWith, Outcome.mapNodes_eq_matched] at hread
    obtain ⟨xs, ha, rfl⟩ := hread
    obtain ⟨hxs, hrest⟩ := ih hr hts ha
    exact ⟨h.fill name hxs, hrest⟩
  | chain a b iha ihb =>
    intro ts nodes rest hts hread
    simp only [Rule.passes, Bool.and_eq_true] at hr
    rw [Rule.readWith] at hread
    cases ha : a.readWith phrase ts with
    | matched xs mid =>
      simp only [ha] at hread
      obtain ⟨Q, hstart, hextend⟩ := h.chain hr.1.1
      obtain ⟨hxs, hmid⟩ := iha hr.1.2 hts ha
      -- The chain keeps its own property beside the one in question.
      have hone : YieldsFromGood ok (fun more => ∀ before, Q before ∧ AllEverywhere P before →
          Q (extend before more) ∧ AllEverywhere P (extend before more)) (b.readWith phrase) :=
        fun hts hread => ⟨fun before hbefore =>
          hextend hread before hbefore.1 hbefore.2 (ihb hr.2 hts hread).1, (ihb hr.2 hts hread).2⟩
      obtain ⟨hnodes, hrest⟩ :=
        readChain_yieldsFromGood hone mid ⟨hstart ha, hxs⟩ hmid hread
      exact ⟨hnodes.2, hrest⟩
    | mismatch => simp [ha] at hread
    | exhausted => simp [ha] at hread
  | ahead a ih =>
    intro ts nodes rest hts hread
    rw [Rule.readWith] at hread
    cases ha : a.readWith phrase ts with
    | matched xs mid =>
      simp only [ha] at hread
      cases hread
      exact ⟨trivial, hts⟩
    | mismatch => simp [ha] at hread
    | exhausted => simp [ha] at hread
  | notAhead a ih =>
    intro ts nodes rest hts hread
    rw [Rule.readWith] at hread
    cases ha : a.readWith phrase ts with
    | matched xs mid => simp [ha] at hread
    | mismatch =>
      simp only [ha] at hread
      cases hread
      exact ⟨trivial, hts⟩
    | exhausted => simp [ha] at hread

/-- The phrases of a grammar have the property if each of their rules passes the checks. -/
theorem Grammar.everywhere_of_passes {g : Grammar σ}
    (h : ∀ bound, Enforces checks ok (g.read bound) P) (hg : ∀ s, (g s).passes checks)
    (bound : Nat) (s : σ) : YieldsFromGood ok (AllEverywhere P) (g.read bound s) := by
  induction bound generalizing s with
  | zero =>
    intro _ _ _ _ hread
    simp [Grammar.read] at hread
  | succ bound ih => exact Rule.everywhere_of_passes (h bound) ih (hg s)

end Enforces

/-- **What the rules of the grammar enforce holds everywhere in the tree of a source.** -/
theorem everywhere_of_javaTree {checks : LocalChecks Phrase} {ok : Token → Prop}
    (h : ∀ bound, Enforces checks ok (javaGrammar.read bound) P)
    (hgrammar : ∀ s, (javaGrammar s).passes checks)
    (htop : (Rule.many Java.topLevel).passes checks) {source : List Char} {root : Node}
    (hok : ∀ s, scan source = .ok s → ∀ t ∈ s.tokens, ok t) (hroot : javaTree source = some root) :
    ∀ c ∈ root.children, c.Everywhere P := by
  obtain ⟨s, nodes, hscan, hchildren, hread⟩ := exists_read_of_javaTree hroot
  have hphrase := Grammar.everywhere_of_passes h hgrammar (referenceBound s.tokens)
  obtain ⟨hnodes, -⟩ := Rule.everywhere_of_passes (h _) hphrase htop (hok s hscan) hread
  rw [hchildren, ← allEverywhere_iff]
  refine hnodes.append (allEverywhere_iff.2 fun n hn => ?_)
  obtain ⟨c, -, rfl⟩ := List.mem_map.1 hn
  exact ⟨(h 0).comment c, trivial⟩

end JavaThrows.Cst
