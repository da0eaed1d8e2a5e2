import JavaThrows.Proofs.Cst.Heads

set_option autoImplicit false

/-!
# Kinds that never fill a field

A node that fills a given field comes from one of the few rules for that field, so its kind is one
that these rules yield. The walk to the declarations relies on it: the body of a method is not its
throws clause, and the arguments of a `new` expression are not the body of its anonymous class. Main
statements: `javaTree_body_ne_throws`, `javaTree_arguments_ne_class_body`.
-/

namespace JavaThrows.Cst

variable {σ : Type}

mutual
/-- No node in the tree that fills the field is of one of the kinds. -/
def Node.FieldAvoids (name : String) (kinds : List String) : Node → Prop
  | ⟨kind, field, _, _, children⟩ =>
    (field = some name → kind ∉ kinds) ∧ AllFieldsAvoid name kinds children

def AllFieldsAvoid (name : String) (kinds : List String) : List Node → Prop
  | [] => True
  | n :: ns => n.FieldAvoids name kinds ∧ AllFieldsAvoid name kinds ns
end

variable {name : String} {kinds : List String}

theorem allFieldsAvoid_iff {ns : List Node} :
    AllFieldsAvoid name kinds ns ↔ ∀ n ∈ ns, n.FieldAvoids name kinds := by
  induction ns with
  | nil => simp [AllFieldsAvoid]
  | cons n ns ih => rw [AllFieldsAvoid, ih, List.forall_mem_cons]

theorem AllFieldsAvoid.append {xs ys : List Node} (hxs : AllFieldsAvoid name kinds xs)
    (hys : AllFieldsAvoid name kinds ys) : AllFieldsAvoid name kinds (xs ++ ys) := by
  rw [allFieldsAvoid_iff] at *
  exact List.forall_mem_append.2 ⟨hxs, hys⟩

namespace Node.FieldAvoids

theorem kind {n : Node} (h : n.FieldAvoids name kinds) (hfield : n.field = some name) :
    n.kind ∉ kinds := by
  cases n
  exact h.1 hfield

theorem children {n : Node} (h : n.FieldAvoids name kinds) :
    ∀ c ∈ n.children, c.FieldAvoids name kinds := by
  cases n
  exact allFieldsAvoid_iff.1 h.2

/-- A node without children that fills no field. -/
theorem leaf {kind : String} {named : Bool} {span : Span} :
    Node.FieldAvoids name kinds ⟨kind, none, named, span, []⟩ :=
  ⟨by simp, trivial⟩

end Node.FieldAvoids

/-! ## What rules yield -/

/-- The rules for the field avoid the kinds. -/
def Rule.fieldAvoids (name : String) (kinds : List String) (phraseAvoids : σ → Bool) :
    Rule σ → Bool
  | .leaf _ _ => true
  | .phrase _ => true
  | .empty => true
  | .both a b => a.fieldAvoids name kinds phraseAvoids && b.fieldAvoids name kinds phraseAvoids
  | .either a b => a.fieldAvoids name kinds phraseAvoids && b.fieldAvoids name kinds phraseAvoids
  | .many a => a.fieldAvoids name kinds phraseAvoids
  | .node _ a => a.fieldAvoids name kinds phraseAvoids
  | .field f a =>
    (f != name || a.avoids kinds phraseAvoids) && a.fieldAvoids name kinds phraseAvoids
  | .chain a b => a.fieldAvoids name kinds phraseAvoids && b.fieldAvoids name kinds phraseAvoids
  | .ahead _ => true
  | .notAhead _ => true

theorem allFieldsAvoid_tokenNodes (token : Token) (kind : Option String) :
    AllFieldsAvoid name kinds (token.nodes kind) := by
  refine AllFieldsAvoid.append (allFieldsAvoid_iff.2 fun n hn => ?_) ⟨.leaf, trivial⟩
  obtain ⟨c, -, rfl⟩ := List.mem_map.1 hn
  exact .leaf

theorem allFieldsAvoid_enclose {kind : String} {ns : List Node} (h : AllFieldsAvoid name kinds ns) :
    AllFieldsAvoid name kinds (enclose kind ns) := by
  rcases enclose_cases kind ns with
    ⟨-, heq⟩ | ⟨comments, first, others, rfl, -, -, heq⟩
  · rwa [heq]
  · rw [heq]
    rw [allFieldsAvoid_iff, List.forall_mem_append] at h
    exact (allFieldsAvoid_iff.2 h.1).append ⟨⟨by simp, allFieldsAvoid_iff.2 h.2⟩, trivial⟩

/-- Filling the field needs nodes of other kinds; filling another one changes nothing. -/
theorem allFieldsAvoid_fill {f : String} {ns : List Node} (h : AllFieldsAvoid name kinds ns)
    (hkinds : f = name → AvoidsKinds kinds ns) : AllFieldsAvoid name kinds (fill f ns) := by
  rw [allFieldsAvoid_iff] at *
  intro n hn
  obtain ⟨m, hm, rfl⟩ := List.mem_map.1 hn
  have hfield := h m hm
  split
  · exact hfield
  · next hcomment =>
    cases m with
    | mk kind field named span children =>
      refine ⟨fun heq => ?_, hfield.2⟩
      exact (hkinds (Option.some.inj heq) _ hm).resolve_left hcomment

theorem allFieldsAvoid_extend {before more : List Node}
    (hbefore : AllFieldsAvoid name kinds before) (hmore : AllFieldsAvoid name kinds more) :
    AllFieldsAvoid name kinds (extend before more) := by
  unfold extend
  split
  · next inner front outer comments hinner houter =>
    rw [List.reverse_eq_cons_iff] at hinner houter
    subst hinner houter
    rw [allFieldsAvoid_iff, List.forall_mem_append] at hbefore hmore
    have hinner := hbefore.2 inner (List.mem_singleton_self _)
    have houter := hmore.2 outer (List.mem_singleton_self _)
    cases outer with
    | mk kind field named span children =>
      refine (allFieldsAvoid_iff.2 hbefore.1).append ⟨⟨houter.1, ?_⟩, trivial⟩
      exact ⟨hinner, (allFieldsAvoid_iff.2 hmore.1).append houter.2⟩
  · exact hbefore.append hmore

section Phrases

variable {phraseAvoids : σ → Bool} {phrase : σ → List Token → Outcome}

theorem Rule.obeys_of_fieldAvoids
    (havoids : ∀ s, phraseAvoids s → AlwaysYields (AvoidsKinds kinds) (phrase s))
    (hphrase : ∀ s, AlwaysYields (AllFieldsAvoid name kinds) (phrase s)) {r : Rule σ}
    (h : r.fieldAvoids name kinds phraseAvoids) :
    r.Obeys phrase (AllFieldsAvoid name kinds) := by
  have happend : ∀ xs ys, AllFieldsAvoid name kinds xs → AllFieldsAvoid name kinds ys →
      AllFieldsAvoid name kinds (xs ++ ys) := fun _ _ => .append
  induction r with
  | leaf t kind => exact fun token _ => allFieldsAvoid_tokenNodes token kind
  | phrase s => exact @hphrase s
  | empty => trivial
  | both a b iha ihb =>
    simp only [Rule.fieldAvoids, Bool.and_eq_true] at h
    exact ⟨iha h.1, ihb h.2⟩
  | either a b iha ihb =>
    simp only [Rule.fieldAvoids, Bool.and_eq_true] at h
    exact ⟨iha h.1, ihb h.2⟩
  | many a ih => exact ih h
  | node kind a ih =>
    intro _ _ _ hread
    exact allFieldsAvoid_enclose ((ih h).alwaysYields trivial happend hread)
  | field f a ih =>
    intro _ _ _ hread
    simp only [Rule.fieldAvoids, Bool.and_eq_true, Bool.or_eq_true, bne_iff_ne, ne_eq] at h
    refine allFieldsAvoid_fill ((ih h.2).alwaysYields trivial happend hread) fun hf => ?_
    exact Rule.avoids_sound havoids (h.1.resolve_left (fun hne => hne hf)) hread
  | chain a b iha ihb =>
    simp only [Rule.fieldAvoids, Bool.and_eq_true] at h
    refine ⟨iha h.1, fun hread before hbefore => allFieldsAvoid_extend hbefore ?_⟩
    exact (ihb h.2).alwaysYields trivial happend hread
  | ahead a ih => trivial
  | notAhead a ih => trivial

/-- The rules of a grammar that each avoid kinds in a field yield trees that do. -/
theorem Grammar.fieldAvoids_sound {g : Grammar σ}
    (havoids : ∀ s, phraseAvoids s → (g s).avoids kinds phraseAvoids)
    (h : ∀ s, (g s).fieldAvoids name kinds phraseAvoids) (bound : Nat) {r : Rule σ}
    (hr : r.fieldAvoids name kinds phraseAvoids) :
    AlwaysYields (AllFieldsAvoid name kinds) (r.readWith (g.read bound)) := by
  have hkinds := Grammar.avoids_sound havoids
  suffices hphrase : ∀ s, AlwaysYields (AllFieldsAvoid name kinds) (g.read bound s) by
    intro _ _ _ hread
    exact (Rule.obeys_of_fieldAvoids (hkinds bound) hphrase hr).alwaysYields trivial
      (fun _ _ => .append) hread
  induction bound with
  | zero =>
    intro s _ _ _ hread
    simp [Grammar.read] at hread
  | succ bound ih =>
    intro s
    exact (Rule.obeys_of_fieldAvoids (hkinds bound) ih (h s)).alwaysYields trivial
      fun _ _ => .append

end Phrases

/-! ## The grammar of Java -/

/-- Of the phrases, only class bodies and what follows `new` can be class bodies. -/
def avoidsClassBody (s : Phrase) : Bool :=
  s != .classBody && s != .creation

theorem javaGrammar_avoids_class_body (s : Phrase) (hs : avoidsClassBody s) :
    (javaGrammar s).avoids ["class_body"] avoidsClassBody := by
  cases s <;> first | decide | exact absurd hs (by decide)

theorem javaGrammar_body_avoids_throws (s : Phrase) :
    (javaGrammar s).fieldAvoids "body" ["throws"] fun _ => true := by
  cases s <;> decide

theorem javaGrammar_arguments_avoids_class_body (s : Phrase) :
    (javaGrammar s).fieldAvoids "arguments" ["class_body"] avoidsClassBody := by
  cases s <;> decide

/-- What is read for a whole source, with the comments at its end. -/
theorem fieldAvoids_of_javaTree {phraseAvoids : Phrase → Bool} {source : List Char} {root : Node}
    (h : javaTree source = some root)
    (havoids : ∀ s, phraseAvoids s → (javaGrammar s).avoids kinds phraseAvoids)
    (hgrammar : ∀ s, (javaGrammar s).fieldAvoids name kinds phraseAvoids)
    (htop : (Rule.many Java.topLevel).fieldAvoids name kinds phraseAvoids) :
    ∀ c ∈ root.children, c.FieldAvoids name kinds := by
  obtain ⟨s, nodes, -, hchildren, hread⟩ := exists_read_of_javaTree h
  rw [hchildren]
  refine allFieldsAvoid_iff.1 (AllFieldsAvoid.append ?_ (allFieldsAvoid_iff.2 fun n hn => ?_))
  · exact Grammar.fieldAvoids_sound havoids hgrammar _ htop hread
  · obtain ⟨c, -, rfl⟩ := List.mem_map.1 hn
    exact .leaf

/-- **No throws clause is a body.** -/
theorem javaTree_body_ne_throws {source : List Char} {root : Node}
    (h : javaTree source = some root) :
    ∀ c ∈ root.children, c.FieldAvoids "body" ["throws"] :=
  fieldAvoids_of_javaTree h (fun s _ => javaGrammar_avoids_throws s) javaGrammar_body_avoids_throws
    (by decide)

/-- **No class body is an argument list.** -/
theorem javaTree_arguments_ne_class_body {source : List Char} {root : Node}
    (h : javaTree source = some root) :
    ∀ c ∈ root.children, c.FieldAvoids "arguments" ["class_body"] :=
  fieldAvoids_of_javaTree h javaGrammar_avoids_class_body javaGrammar_arguments_avoids_class_body
    (by decide)

end JavaThrows.Cst
