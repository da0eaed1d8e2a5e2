import JavaThrows.Proofs.Cst.Spelling

set_option autoImplicit false

/-!
# Keywords in their places

A node that a keyword gives its kind to starts with that keyword: the first token that its rule
reads is the keyword, and the node is put around what was read from that token on. Main statement:
`standsAt_of_throws`, a throws clause starts with the word `throws`.
-/

namespace JavaThrows.Cst

open Text

/-- The text goes on with the word from the offset on. -/
def StandsAt (source : List Char) (word : String) (offset : Nat) : Prop :=
  ∃ front rest, source = front ++ (word.toList ++ rest) ∧ byteLength front = offset

variable {source : List Char}

theorem standsAt_of_slice {s : Span} {word : String} (h : slice source s = word)
    (hne : word ≠ "") : StandsAt source word s.start := by
  rw [slice] at h
  cases hcut : slice? source s with
  | none =>
    rw [hcut] at h
    exact absurd h.symm hne
  | some piece =>
    have hword : word.toList = piece := by
      rw [← h, hcut, Option.getD_some, String.toList_ofList]
    obtain ⟨-, hcut⟩ : s.start ≤ s.stop ∧ _ = some piece := by
      simpa only [slice?, Option.ite_none_right_eq_some] using hcut
    obtain ⟨⟨front, tail⟩, hfront, hpiece⟩ := Option.bind_eq_some_iff.1 hcut
    obtain ⟨⟨piece', rest⟩, hrest, rfl⟩ := Option.map_eq_some_iff.1 hpiece
    obtain ⟨rfl, hstart⟩ := splitAt?_eq_some_iff.1 hfront
    obtain ⟨rfl, -⟩ := splitAt?_eq_some_iff.1 hrest
    exact ⟨front, rest, by rw [hword], hstart⟩

/-! ## What a node starts with -/

/-- A token without a kind of its own is spelled like its kind, and a named node of the kind starts
    with a token of that spelling. -/
structure Node.Keyworded (source : List Char) (kind : String) (n : Node) : Prop where
  spelled : ¬ n.named → n.children = [] → slice source n.span = n.kind
  leading : n.label = some kind → ∃ first others, n.children = first :: others ∧ ¬ first.named ∧
    first.kind = kind ∧ n.span.start = first.span.start

variable {σ : Type} {kind : String}

/-- The rule reads the word before all else. -/
def Rule.opensWith (word : String) : Rule σ → Bool
  | .both (.leaf t none) _ => t == .exact word
  | _ => false

theorem Rule.opensWith_sound {phrase : σ → List Token → Outcome} {r : Rule σ}
    (h : r.opensWith kind) (hkind : kind ≠ "block_comment" ∧ kind ≠ "line_comment") :
    AlwaysYields (fun ns => ∃ first, (ns.find? fun n => !n.isComment) = some first ∧
      ¬ first.named ∧ first.kind = kind) (r.readWith phrase) := by
  intro ts ns rest hread
  unfold opensWith at h
  split at h
  · next t b =>
    obtain rfl : t = .exact kind := by simpa using h
    rw [Rule.readWith, Outcome.andThen_eq_matched] at hread
    obtain ⟨xs, mid, ys, hleaf, -, rfl⟩ := hread
    cases ts with
    | nil => simp [Rule.readWith] at hleaf
    | cons token ts =>
      rw [Rule.readWith] at hleaf
      split at hleaf
      · next haccepts =>
        cases hleaf
        have htext : token.text = kind := by
          simp only [Terminal.accepts, Bool.and_eq_true, beq_iff_eq] at haccepts
          exact haccepts.2
        refine ⟨⟨token.text, none, false, token.span, []⟩, ?_, by simp, htext⟩
        -- The comments in front of the token are passed over.
        have hcomments :
            (token.comments.map Comment.node).find? (fun n => !n.isComment) = none := by
          refine List.find?_eq_none.2 fun n hn => ?_
          obtain ⟨c, -, rfl⟩ := List.mem_map.1 hn
          simp [isComment_node]
        rw [Token.nodes, List.append_assoc, List.find?_append, hcomments, Option.none_or]
        exact List.find?_cons_of_pos (by simp [Node.isComment, htext, hkind])
      · simp at hleaf
  · simp at h

/-- Nodes of the kind start with its keyword; they are no tokens, and no larger nodes of a chain. -/
def keywordChecks (kind : String) : LocalChecks σ where
  leaf _ k := k != some kind
  node k a := k != kind || a.opensWith kind
  chain _ b := b.labels (fun label => !label.any (· == kind)) fun _ => false

theorem enforces_keyworded {g : Grammar σ}
    (hkind : kind ≠ "block_comment" ∧ kind ≠ "line_comment") (bound : Nat) :
    Enforces (keywordChecks kind) (Token.Spelled source) (g.read bound)
      (Node.Keyworded source kind) where
  field _ _ hn := ⟨hn.spelled, hn.leading⟩
  comment c := by
    obtain ⟨block, span⟩ := c
    refine ⟨fun h => by simp [Comment.node] at h, fun hlabel => ?_⟩
    cases block <;> simp [Comment.node, Comment.kind, Node.label] at hlabel
    · exact absurd hlabel.symm hkind.2
    · exact absurd hlabel.symm hkind.1
  leaf := by
    intro t k token hcheck hspelled _
    cases k with
    | none => exact ⟨fun _ _ => hspelled.text, fun hlabel => by simp [Node.label] at hlabel⟩
    | some k =>
      refine ⟨fun h => by simp at h, fun hlabel => ?_⟩
      obtain rfl : k = kind := by simpa [Node.label] using hlabel
      simp [keywordChecks] at hcheck
  node := by
    intro k a hcheck ts ns rest hread span children henclosed
    refine ⟨fun h => by simp at h, fun hlabel => ?_⟩
    obtain rfl : k = kind := by simpa [Node.label] using hlabel
    have hopens : a.opensWith k := by simpa [keywordChecks] using hcheck
    obtain ⟨first, hfirst, hnamed, hfirstKind⟩ := Rule.opensWith_sound hopens hkind hread
    obtain ⟨first', others, hchildren, hfirst', hstart⟩ := henclosed.first
    obtain rfl : first = first' := Option.some.inj (hfirst.symm.trans hfirst')
    exact ⟨first, others, hchildren, hnamed, hfirstKind, hstart⟩
  chain := by
    intro a b hcheck
    refine chain_of_nodes (Q := fun _ => True) (fun _ _ _ => trivial) (Rule.labels_closed hcheck)
      (fun _ _ => trivial) fun inner outer front span _ houter _ _ =>
        ⟨trivial, fun _ hchildren => by simp at hchildren, fun hlabel => ?_⟩
    have hlabel : outer.label = some kind := hlabel
    exact absurd (by simp [hlabel]) (not_strict_of_labelIs (by simpa using hkind.1.symm)
      (by simpa using hkind.2.symm) houter)

/-! ## Throws clauses -/

section Java

variable {root : Node} (h : javaTree source = some root)

include h

theorem javaTree_throws_keyworded :
    ∀ c ∈ root.children, c.Everywhere (Node.Keyworded source "throws") := by
  refine everywhere_of_javaTree (enforces_keyworded (by decide)) (fun s => ?_) (by decide)
    (fun s hs => scan_spelled hs) h
  cases s <;> decide

end Java

/-- **A throws clause starts with its keyword.** -/
theorem standsAt_of_throws {clause : Node} (hkind : clause.kind = "throws")
    (hleaf : clause.Everywhere Node.UnnamedLeaf)
    (hword : clause.Everywhere (Node.Keyworded source "throws")) :
    StandsAt source "throws" clause.span.start := by
  have hunnamed : ∀ n : Node, n.kind = "throws" → ¬ n.named → n.Everywhere Node.UnnamedLeaf →
      n.Everywhere (Node.Keyworded source "throws") → StandsAt source "throws" n.span.start := by
    intro n hn hnamed hleaf hword
    refine standsAt_of_slice ?_ (by decide)
    rw [hword.here.spelled hnamed (hleaf.here (by simpa using hnamed)), hn]
  by_cases hnamed : clause.named
  · obtain ⟨first, others, hchildren, hfirst, hfirstKind, hstart⟩ :=
      hword.here.leading (by simp [Node.label, hnamed, hkind])
    have hmem : first ∈ clause.children := by simp [hchildren]
    rw [hstart]
    exact hunnamed first hfirstKind hfirst (hleaf.children first hmem) (hword.children first hmem)
  · exact hunnamed clause hkind hnamed hleaf hword

end JavaThrows.Cst
