import JavaThrows.Decl.OfNode
import JavaThrows.Proofs.Cst.Yield

set_option autoImplicit false

/-!
# What methods start with

In a tree of the grammar something stands in front of the throws clause of every method. That is
read off the rule for each kind of method: it yields a node, and the first one is no throws clause.
Main statement: `javaTree_headed`.
-/

namespace JavaThrows.Cst

variable {σ : Type}

/-! ## The first node of a rule -/

/-- The rule yields a node beside comments. -/
def Rule.yieldsNode : Rule σ → Bool
  | .leaf _ (some kind) => kind != "block_comment" && kind != "line_comment"
  | .both a b => a.yieldsNode || b.yieldsNode
  | .either a b => a.yieldsNode && b.yieldsNode
  | .node kind a => kind != "block_comment" && kind != "line_comment" && a.yieldsNode
  | .field _ a => a.yieldsNode
  | _ => false

/-- The rule yields a node beside comments, and the first one is of none of the kinds. -/
def Rule.leads (kinds : List String) (phraseAvoids : σ → Bool) : Rule σ → Bool
  | .both a b =>
    a.avoids kinds phraseAvoids && (a.yieldsNode || b.leads kinds phraseAvoids)
  | r => r.avoids kinds phraseAvoids && r.yieldsNode

/-- One of the nodes is no comment. -/
def HasNode (ns : List Node) : Prop :=
  ∃ n ∈ ns, ¬ n.isComment

/-- The first of the nodes that is no comment is of none of the kinds. -/
def LeadsWithout (kinds : List String) (ns : List Node) : Prop :=
  ∃ first, ns.find? (fun n => !n.isComment) = some first ∧ first.kind ∉ kinds

variable {kinds : List String} {phraseAvoids : σ → Bool} {phrase : σ → List Token → Outcome}

theorem hasNode_enclose {kind : String} {ns : List Node} (hkind : kind ≠ "block_comment")
    (hkind' : kind ≠ "line_comment") (h : HasNode ns) : HasNode (enclose kind ns) := by
  obtain ⟨n, hn, hnode⟩ := h
  rcases enclose_cases kind ns with ⟨hcomments, -⟩ | ⟨comments, first, others, -, -, -, heq⟩
  · exact absurd (hcomments n hn) hnode
  · rw [heq]
    refine ⟨_, List.mem_append_right _ (List.mem_singleton_self _), ?_⟩
    simp [Node.isComment, hkind, hkind']

theorem hasNode_fill {name : String} {ns : List Node} (h : HasNode ns) :
    HasNode (fill name ns) := by
  obtain ⟨n, hn, hnode⟩ := h
  exact ⟨_, List.mem_map_of_mem hn, by rwa [if_neg hnode]⟩

theorem Rule.yieldsNode_sound {r : Rule σ} (h : r.yieldsNode) :
    AlwaysYields HasNode (r.readWith phrase) := by
  induction r with
  | leaf t kind =>
    intro ts nodes rest hread
    cases kind with
    | none => simp [Rule.yieldsNode] at h
    | some kind =>
      simp only [Rule.yieldsNode, Bool.and_eq_true, bne_iff_ne, ne_eq] at h
      cases ts with
      | nil => simp [Rule.readWith] at hread
      | cons token ts =>
        rw [Rule.readWith] at hread
        split at hread
        · cases hread
          refine ⟨_, List.mem_append_right _ (List.mem_singleton_self _), ?_⟩
          simp [Node.isComment, h]
        · simp at hread
  | both a b iha ihb =>
    intro ts nodes rest hread
    rw [Rule.readWith, Outcome.andThen_eq_matched] at hread
    obtain ⟨xs, mid, ys, ha, hb, rfl⟩ := hread
    simp only [Rule.yieldsNode, Bool.or_eq_true] at h
    rcases h with h | h
    · obtain ⟨n, hn, hnode⟩ := iha h ha
      exact ⟨n, List.mem_append_left _ hn, hnode⟩
    · obtain ⟨n, hn, hnode⟩ := ihb h hb
      exact ⟨n, List.mem_append_right _ hn, hnode⟩
  | either a b iha ihb =>
    intro ts nodes rest hread
    rw [Rule.readWith, Outcome.orElse_eq_matched] at hread
    simp only [Rule.yieldsNode, Bool.and_eq_true] at h
    rcases hread with ha | ⟨-, hb⟩
    · exact iha h.1 ha
    · exact ihb h.2 hb
  | node kind a ih =>
    intro ts nodes rest hread
    rw [Rule.readWith, Outcome.mapNodes_eq_matched] at hread
    obtain ⟨xs, ha, rfl⟩ := hread
    simp only [Rule.yieldsNode, Bool.and_eq_true, bne_iff_ne, ne_eq] at h
    exact hasNode_enclose h.1.1 h.1.2 (ih h.2 ha)
  | field name a ih =>
    intro ts nodes rest hread
    rw [Rule.readWith, Outcome.mapNodes_eq_matched] at hread
    obtain ⟨xs, ha, rfl⟩ := hread
    exact hasNode_fill (ih h ha)
  | phrase _ | empty | many _ | chain _ _ | ahead _ | notAhead _ => simp [Rule.yieldsNode] at h

theorem leadsWithout_of_hasNode {ns : List Node} (h : HasNode ns) (havoids : AvoidsKinds kinds ns) :
    LeadsWithout kinds ns := by
  obtain ⟨n, hn, hnode⟩ := h
  have hsome : (ns.find? fun n => !n.isComment).isSome :=
    List.find?_isSome.2 ⟨n, hn, by simpa using hnode⟩
  obtain ⟨first, hfirst⟩ := Option.isSome_iff_exists.1 hsome
  have hno := List.find?_some hfirst
  have hkind := havoids first (List.mem_of_find?_eq_some hfirst)
  exact ⟨first, hfirst, hkind.resolve_left (by simpa using hno)⟩

theorem Rule.leads_of_avoids
    (hphrase : ∀ s, phraseAvoids s → AlwaysYields (AvoidsKinds kinds) (phrase s)) {r : Rule σ}
    (havoids : r.avoids kinds phraseAvoids) (hnode : r.yieldsNode) :
    AlwaysYields (LeadsWithout kinds) (r.readWith phrase) := fun hread =>
  leadsWithout_of_hasNode (Rule.yieldsNode_sound hnode hread)
    (Rule.avoids_sound hphrase havoids hread)

theorem Rule.leads_sound
    (hphrase : ∀ s, phraseAvoids s → AlwaysYields (AvoidsKinds kinds) (phrase s)) {r : Rule σ}
    (h : r.leads kinds phraseAvoids) : AlwaysYields (LeadsWithout kinds) (r.readWith phrase) := by
  induction r with
  | both a b iha ihb =>
    intro ts nodes rest hread
    simp only [Rule.leads, Bool.and_eq_true, Bool.or_eq_true] at h
    obtain ⟨havoids, hleads⟩ := h
    rw [Rule.readWith, Outcome.andThen_eq_matched] at hread
    obtain ⟨xs, mid, ys, ha, hb, rfl⟩ := hread
    have hxs := Rule.avoids_sound hphrase havoids ha
    by_cases hnode : HasNode xs
    · obtain ⟨first, hfirst, hkind⟩ := leadsWithout_of_hasNode hnode hxs
      exact ⟨first, by rw [List.find?_append, hfirst, Option.some_or], hkind⟩
    · -- The first rule has yielded comments only.
      have hnone : (xs.find? fun n => !n.isComment) = none := by
        simpa [HasNode] using hnode
      have hb' : b.leads kinds phraseAvoids :=
        hleads.resolve_left fun hyields => hnode (Rule.yieldsNode_sound hyields ha)
      obtain ⟨first, hfirst, hkind⟩ := ihb hb' hb
      exact ⟨first, by rw [List.find?_append, hnone, Option.none_or, hfirst], hkind⟩
  | leaf _ _ | phrase _ | empty | either _ _ | many _ | node _ _ | field _ _ | chain _ _ | ahead _
  | notAhead _ =>
    simp only [Rule.leads, Bool.and_eq_true] at h
    exact Rule.leads_of_avoids hphrase h.1 h.2

/-! ## Methods -/

mutual
/-- Every method in the tree has a first child, which is no throws clause. -/
def Node.Headed : Node → Prop
  | ⟨kind, _, named, _, children⟩ =>
    (named → isMethodNode kind →
      ∃ first others, children = first :: others ∧ first.kind ≠ "throws") ∧ AllHeaded children

def AllHeaded : List Node → Prop
  | [] => True
  | n :: ns => n.Headed ∧ AllHeaded ns
end

theorem allHeaded_iff {ns : List Node} : AllHeaded ns ↔ ∀ n ∈ ns, n.Headed := by
  induction ns with
  | nil => simp [AllHeaded]
  | cons n ns ih => rw [AllHeaded, ih, List.forall_mem_cons]

theorem allHeaded_append {xs ys : List Node} (hxs : AllHeaded xs) (hys : AllHeaded ys) :
    AllHeaded (xs ++ ys) := by
  rw [allHeaded_iff] at *
  exact List.forall_mem_append.2 ⟨hxs, hys⟩

def methodKinds : List String :=
  ["method_declaration", "constructor_declaration", "compact_constructor_declaration"]

/-- The rules for methods lead without a throws clause, and no other node becomes a method. -/
def Rule.keepsHeads (methodAvoids throwsAvoids : σ → Bool) : Rule σ → Bool
  | .leaf _ none => true
  | .leaf _ (some kind) => !methodKinds.contains kind
  | .phrase _ => true
  | .empty => true
  | .both a b => a.keepsHeads methodAvoids throwsAvoids && b.keepsHeads methodAvoids throwsAvoids
  | .either a b =>
    a.keepsHeads methodAvoids throwsAvoids && b.keepsHeads methodAvoids throwsAvoids
  | .many a => a.keepsHeads methodAvoids throwsAvoids
  | .node kind a =>
    (!methodKinds.contains kind || a.leads ["throws"] throwsAvoids) &&
      a.keepsHeads methodAvoids throwsAvoids
  | .field _ a => a.keepsHeads methodAvoids throwsAvoids
  | .chain a b =>
    a.keepsHeads methodAvoids throwsAvoids && b.keepsHeads methodAvoids throwsAvoids &&
      b.avoids methodKinds methodAvoids
  | .ahead _ => true
  | .notAhead _ => true

theorem isMethodNode_iff {kind : String} : isMethodNode kind ↔ kind ∈ methodKinds := by
  rw [isMethodNode, methodKinds, List.contains_iff_mem]

theorem not_isMethodNode_of_avoids {n : Node} (h : n.isComment ∨ n.kind ∉ methodKinds) :
    ¬ isMethodNode n.kind := by
  rw [isMethodNode_iff]
  rcases h with h | h
  · simp only [Node.isComment, Bool.or_eq_true, beq_iff_eq] at h
    rcases h with h | h <;> rw [h] <;> decide
  · exact h

theorem headed_leaf {kind : String} {field : Option String} {named : Bool} {span : Span}
    (h : named → ¬ isMethodNode kind) : Node.Headed ⟨kind, field, named, span, []⟩ :=
  ⟨fun hnamed hmethod => absurd hmethod (h hnamed), trivial⟩

theorem headed_comment (c : Comment) : c.node.Headed := by
  refine headed_leaf fun _ => ?_
  rw [isMethodNode_iff, Comment.kind]
  split <;> decide

theorem allHeaded_tokenNodes {token : Token} {kind : Option String}
    (h : ∀ k ∈ kind, k ∉ methodKinds) : AllHeaded (token.nodes kind) := by
  unfold Token.nodes
  refine allHeaded_append (allHeaded_iff.2 fun n hn => ?_) ⟨headed_leaf fun hnamed => ?_, trivial⟩
  · obtain ⟨c, -, rfl⟩ := List.mem_map.1 hn
    exact headed_comment c
  · obtain ⟨k, rfl⟩ := Option.isSome_iff_exists.1 hnamed
    rw [isMethodNode_iff]
    exact h k rfl

theorem allHeaded_enclose {kind : String} {ns : List Node} (h : AllHeaded ns)
    (hleads : isMethodNode kind → LeadsWithout ["throws"] ns) : AllHeaded (enclose kind ns) := by
  rcases enclose_cases kind ns with
    ⟨-, heq⟩ | ⟨comments, first, others, rfl, hcomments, hfirst, heq⟩
  · rwa [heq]
  · rw [heq]
    rw [allHeaded_iff, List.forall_mem_append] at h
    -- The comments in front stay outside, so the first child is the leading node.
    refine allHeaded_append (allHeaded_iff.2 h.1) ⟨⟨fun _ hmethod => ?_, ?_⟩, trivial⟩
    · obtain ⟨lead, hlead, hkind⟩ := hleads hmethod
      have hnone : (comments.find? fun n => !n.isComment) = none := by
        simpa using hcomments
      rw [List.find?_append, hnone, Option.none_or, List.find?_cons_of_pos (by simpa using hfirst),
        Option.some.injEq] at hlead
      exact ⟨first, others, rfl, by simpa [hlead] using hkind⟩
    · exact allHeaded_iff.2 h.2

theorem allHeaded_fill {name : String} {ns : List Node} (h : AllHeaded ns) :
    AllHeaded (fill name ns) := by
  rw [allHeaded_iff] at *
  rintro n hn
  obtain ⟨⟨kind, field, named, span, children⟩, hm, rfl⟩ := List.mem_map.1 hn
  have hheaded := h _ hm
  split
  · exact hheaded
  · exact hheaded

theorem allHeaded_extend {before more : List Node} (hbefore : AllHeaded before)
    (hmore : AllHeaded more) (havoids : AvoidsKinds methodKinds more) :
    AllHeaded (extend before more) := by
  unfold extend
  split
  · next inner front outer comments hinner houter =>
    rw [List.reverse_eq_cons_iff] at hinner houter
    subst hinner houter
    rw [allHeaded_iff, List.forall_mem_append] at hbefore hmore
    have hinner := hbefore.2 inner (List.mem_singleton_self _)
    have houter := hmore.2 outer (List.mem_singleton_self _)
    -- A node that is extended gets a new first child, but it is no method.
    have hkind := not_isMethodNode_of_avoids
      (havoids outer (List.mem_append_right _ (List.mem_singleton_self _)))
    refine allHeaded_append (allHeaded_iff.2 hbefore.1) ⟨⟨fun _ hmethod => absurd hmethod hkind, ?_⟩,
      trivial⟩
    cases outer with
    | mk kind field named span children =>
      exact ⟨hinner, allHeaded_append (allHeaded_iff.2 hmore.1) houter.2⟩
  · exact allHeaded_append hbefore hmore

section Phrases

variable {methodAvoids throwsAvoids : σ → Bool}

theorem Rule.obeys_of_keepsHeads
    (hmethods : ∀ s, methodAvoids s → AlwaysYields (AvoidsKinds methodKinds) (phrase s))
    (hthrows : ∀ s, throwsAvoids s → AlwaysYields (AvoidsKinds ["throws"]) (phrase s))
    (hphrase : ∀ s, AlwaysYields AllHeaded (phrase s)) {r : Rule σ}
    (h : r.keepsHeads methodAvoids throwsAvoids) : r.Obeys phrase AllHeaded := by
  induction r with
  | leaf t kind =>
    intro token _
    cases kind with
    | none => exact allHeaded_tokenNodes (by simp)
    | some kind => exact allHeaded_tokenNodes (by simpa [Rule.keepsHeads] using h)
  | phrase s => exact hphrase s
  | empty => trivial
  | both a b iha ihb =>
    simp only [Rule.keepsHeads, Bool.and_eq_true] at h
    exact ⟨iha h.1, ihb h.2⟩
  | either a b iha ihb =>
    simp only [Rule.keepsHeads, Bool.and_eq_true] at h
    exact ⟨iha h.1, ihb h.2⟩
  | many a ih => exact ih h
  | node kind a ih =>
    intro _ _ _ hread
    simp only [Rule.keepsHeads, Bool.and_eq_true, Bool.or_eq_true, Bool.not_eq_true',
      List.contains_eq_mem, decide_eq_false_iff_not] at h
    refine allHeaded_enclose ((ih h.2).alwaysYields trivial (fun _ _ => allHeaded_append) hread)
      fun hmethod => ?_
    rw [isMethodNode_iff] at hmethod
    exact Rule.leads_sound hthrows (h.1.resolve_left (fun hnot => hnot hmethod)) hread
  | field name a ih =>
    intro _ _ _ hread
    exact allHeaded_fill ((ih h).alwaysYields trivial (fun _ _ => allHeaded_append) hread)
  | chain a b iha ihb =>
    simp only [Rule.keepsHeads, Bool.and_eq_true] at h
    refine ⟨iha h.1.1, fun hread before hbefore => allHeaded_extend hbefore ?_ ?_⟩
    · exact (ihb h.1.2).alwaysYields trivial (fun _ _ => allHeaded_append) hread
    · exact Rule.avoids_sound hmethods h.2 hread
  | ahead a ih => trivial
  | notAhead a ih => trivial

end Phrases

/-! ## The grammar of Java -/

theorem javaGrammar_avoids_throws (s : Phrase) :
    (javaGrammar s).avoids ["throws"] fun _ => true := by
  cases s <;> decide

/-- Of the phrases, only the members of classes can be methods. -/
theorem javaGrammar_avoids_methods (s : Phrase) (hs : s != .classMember) :
    (javaGrammar s).avoids methodKinds (· != .classMember) := by
  cases s <;> first | decide | exact absurd hs (by decide)

theorem javaGrammar_keepsHeads (s : Phrase) :
    (javaGrammar s).keepsHeads (· != .classMember) fun _ => true := by
  cases s <;> decide

theorem Rule.headed {bound : Nat}
    (hphrase : ∀ s, AlwaysYields AllHeaded (javaGrammar.read bound s)) {r : Rule Phrase}
    (h : r.keepsHeads (· != .classMember) fun _ => true) :
    AlwaysYields AllHeaded (r.readWith (javaGrammar.read bound)) := by
  refine (Rule.obeys_of_keepsHeads (fun s hs => ?_) (fun s _ => ?_) hphrase h).alwaysYields
    trivial fun _ _ => allHeaded_append
  · exact Grammar.avoids_sound javaGrammar_avoids_methods bound s hs
  · exact Grammar.avoids_sound (fun s _ => javaGrammar_avoids_throws s) bound s rfl

theorem javaGrammar_headed (bound : Nat) (s : Phrase) :
    AlwaysYields AllHeaded (javaGrammar.read bound s) := by
  induction bound generalizing s with
  | zero =>
    intro _ _ _ hread
    simp [Grammar.read] at hread
  | succ bound ih => exact Rule.headed ih (javaGrammar_keepsHeads s)

/-- **Something stands in front of the throws clause of every method** in the tree of a source. -/
theorem javaTree_headed {source : List Char} {root : Node} (h : javaTree source = some root) :
    AllHeaded root.children := by
  obtain ⟨s, nodes, -, hchildren, hread⟩ := exists_read_of_javaTree h
  have hkeeps : (Rule.many Java.topLevel).keepsHeads (· != .classMember) fun _ => true := by
    decide
  rw [hchildren]
  refine allHeaded_append (Rule.headed (javaGrammar_headed _) hkeeps hread) ?_
  refine allHeaded_iff.2 fun n hn => ?_
  obtain ⟨c, -, rfl⟩ := List.mem_map.1 hn
  exact headed_comment c

end JavaThrows.Cst
