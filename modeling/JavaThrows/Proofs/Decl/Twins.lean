import JavaThrows.Decl.OfNode
import JavaThrows.Proofs.Cst.Reread
import JavaThrows.Proofs.Decl.Erasure
import JavaThrows.Proofs.Related

set_option autoImplicit false

/-!
# Trees of calm sources

Types, names and dimensions are read off the text under their nodes, and some of them are looked for
without regard to comments. A source is `Calm` where this makes no difference: no comment stands in
the text of a type that is read, and none is taken for one. `Twins` are rows of nodes of two calm
sources that differ in layout only. What the walk looks up in one of them it finds in the other, and
the types and names that are found are spelled the same. Main statements: `Twins.find?`,
`Twins.filter`, `Twin.erase_eq` and `Twin.text_eq`.
-/

namespace JavaThrows

open Cst Text Unicode

/-! ## Calm sources -/

/-- No comment stands in the node, and it is none. -/
def Cst.Node.Uncommented (n : Node) : Prop :=
  n.Everywhere fun m => ¬ m.isComment

/-- Whether a child of a parameter for a variable number of arguments is taken for its type. -/
def isSpreadType (n : Node) : Bool :=
  !(["modifiers", "variable_declarator", "annotation", "marker_annotation"].contains n.kind)

/-- The children of a node that are read as types. -/
def typesRead (n : Node) : List Node :=
  if n.kind == "superclass" || n.kind == "type_bound" then n.namedChildren.head?.toList
  else if n.kind == "type_list" then n.namedChildren
  else if n.kind == "throws" then n.namedChildren.filter fun c => !c.isComment
  else if n.kind == "formal_parameter" || n.kind == "object_creation_expression" then
    (n.childByField "type").toList
  else if n.kind == "spread_parameter" then (n.namedChildren.find? isSpreadType).toList
  else []

/-- The dimensions of a node whose brackets are counted. -/
def dimensionsRead (n : Node) : List Node :=
  if n.kind == "formal_parameter" then (n.childByField "dimensions").toList else []

/-- The qualified names of a node that are read: of the package, an import or an annotation. -/
def namesRead (n : Node) : List Node :=
  if n.kind == "package_declaration" || n.kind == "import_declaration" then
    (n.namedChildren.find? isQualifiedName).toList
  else if n.kind == "annotation" || n.kind == "marker_annotation" then
    (n.childByField "name").toList
  else []

/-- No comment is in or stands for a type, dimensions or a qualified name that is read; no type has
    an annotation, and no qualified name white space in it. -/
structure Calm (source : List Char) (n : Node) : Prop where
  types : ∀ t ∈ typesRead n, t.Uncommented ∧ '@' ∉ (slice source t.span).toList
  dimensions : ∀ d ∈ dimensionsRead n, d.Uncommented
  names : ∀ q ∈ namesRead n, q.Uncommented ∧ ∀ c ∈ (slice source q.span).toList, ¬ isSpace c

/-- A source with such nodes only. -/
def CalmSource (source : List Char) : Prop :=
  ∀ root ∈ javaTree source, ∀ n ∈ root.children, n.Everywhere (Calm source)

instance : DecidablePred Node.Uncommented :=
  fun n => inferInstanceAs (Decidable (n.Everywhere fun m => ¬ m.isComment))

instance (source : List Char) : DecidablePred (Calm source) :=
  fun n =>
  -- The characters of the text are looked at, not all that there are.
  have (text : List Char) : Decidable (∀ c ∈ text, ¬ isSpace c) :=
    List.decidableBAll _ text
  decidable_of_iff
    ((∀ t ∈ typesRead n, t.Uncommented ∧ '@' ∉ (slice source t.span).toList) ∧
      (∀ d ∈ dimensionsRead n, d.Uncommented) ∧
      ∀ q ∈ namesRead n, q.Uncommented ∧ ∀ c ∈ (slice source q.span).toList, ¬ isSpace c)
    ⟨fun ⟨h₁, h₂, h₃⟩ => ⟨h₁, h₂, h₃⟩, fun ⟨h₁, h₂, h₃⟩ => ⟨h₁, h₂, h₃⟩⟩

instance : DecidablePred CalmSource :=
  fun source => inferInstanceAs
    (Decidable (∀ root ∈ javaTree source, ∀ n ∈ root.children, n.Everywhere (Calm source)))

/-! ## Names are leaves -/

def nameKinds : List String := ["identifier", "type_identifier", "underscore_pattern"]

/-- The kinds of nodes whose name is read. -/
def namedKinds : List String :=
  "formal_parameter" :: "variable_declarator" :: typeKinds ++ methodKinds

/-- Nothing stands in a simple name. -/
def Cst.Node.NameLeaf (n : Node) : Prop :=
  n.label.any nameKinds.contains → n.children = []

/-- Names are neither larger nodes nor the larger nodes of a chain. -/
def leafChecks {σ : Type} : LocalChecks σ where
  node kind _ := !nameKinds.contains kind
  chain _ b := b.labels (fun label => !label.any nameKinds.contains) fun _ => false

theorem enforces_nameLeaf {σ : Type} {g : Grammar σ} (bound : Nat) :
    Enforces leafChecks (fun _ => True) (g.read bound) Node.NameLeaf where
  field _ _ hn := hn
  comment _ := fun _ => rfl
  leaf _ _ _ := fun _ => rfl
  node := by
    intro kind a hcheck _ _ _ _ _ _ _ hlabel
    simp only [leafChecks, Bool.not_eq_true'] at hcheck
    simp [Node.label, -List.contains_eq_mem, hcheck] at hlabel
  chain := by
    intro a b hcheck
    refine chain_of_nodes (Q := fun _ => True) (fun _ _ _ => trivial) (Rule.labels_closed hcheck)
      (fun _ _ => trivial) fun inner outer front span _ houter _ _ => ⟨trivial, fun hlabel => ?_⟩
    exact absurd hlabel (not_strict_of_labelIs (by decide) (by decide) houter)

section Java

variable {source : List Char} {root : Node} (h : javaTree source = some root)

include h

theorem javaTree_nameLeaf : ∀ c ∈ root.children, c.Everywhere Node.NameLeaf := by
  refine everywhere_of_javaTree enforces_nameLeaf (fun s => ?_) (by decide)
    (fun _ _ _ _ => trivial) h
  cases s <;> decide

/-- **The names of types, methods and parameters are simple.** -/
theorem javaTree_simpleNames : ∀ c ∈ root.children,
    c.Everywhere (Node.FilledWith namedKinds "name" (labelIn nameKinds)) := by
  refine everywhere_of_javaTree (enforces_filledWith (fun _ => false)
    (fun s hs => ?_) (fun s => ?_)) (fun s => ?_) (by decide) (fun _ _ _ _ => trivial) h
  · exact absurd hs (by decide)
  · cases s <;> decide
  · cases s <;> decide

end Java

/-- What is known of a node of a calm source and of all nodes below it. -/
structure Fit (source : List Char) (n : Node) : Prop where
  calm : n.Everywhere (Calm source)
  unnamed : n.Everywhere Node.UnnamedLeaf
  leaves : n.Everywhere Node.NameLeaf
  names : n.Everywhere (Node.FilledWith namedKinds "name" (labelIn nameKinds))

theorem Fit.children {source : List Char} {n : Node} (h : Fit source n) :
    ∀ c ∈ n.children, Fit source c :=
  fun c hc => ⟨h.calm.children c hc, h.unnamed.children c hc, h.leaves.children c hc,
    h.names.children c hc⟩

theorem fit_of_javaTree {source : List Char} {root : Node} (h : javaTree source = some root)
    (hcalm : CalmSource source) : ∀ n ∈ root.children, Fit source n :=
  fun n hn => ⟨hcalm root h n hn, javaTree_unnamedLeaf h n hn, javaTree_nameLeaf h n hn,
    javaTree_simpleNames h n hn⟩

/-! ## Rows of nodes in two layouts -/

/-- Rows of nodes of two calm sources that differ in layout only. -/
inductive Twins (source source' : List Char) : List Node → List Node → Prop
  | nil : Twins source source' [] []
  | comment_left (c : Comment) {ns ns' : List Node} :
    Twins source source' ns ns' → Twins source source' (c.node :: ns) ns'
  | comment_right (c : Comment) {ns ns' : List Node} :
    Twins source source' ns ns' → Twins source source' ns (c.node :: ns')
  | node {kind : String} {field : Option String} {named : Bool} {span span' : Span}
    {children children' ns ns' : List Node} :
    SameNode source source' ⟨kind, field, named, span, children⟩
      ⟨kind, field, named, span', children'⟩ →
    Fit source ⟨kind, field, named, span, children⟩ →
    Fit source' ⟨kind, field, named, span', children'⟩ →
    Twins source source' children children' → Twins source source' ns ns' →
    Twins source source' (⟨kind, field, named, span, children⟩ :: ns)
      (⟨kind, field, named, span', children'⟩ :: ns')

/-- Two such nodes. -/
structure Twin (source source' : List Char) (n n' : Node) : Prop where
  same : SameNode source source' n n'
  fit : Fit source n
  fit' : Fit source' n'
  children : Twins source source' n.children n'.children

section Lookup

variable {source source' : List Char} {ns ns' : List Node} {n n' : Node}

theorem twins_of_relaid {lo hi lo' hi' : Nat} (h : Relaid source source' lo hi lo' hi' ns ns')
    (hns : ∀ n ∈ ns, Fit source n) (hns' : ∀ n ∈ ns', Fit source' n) :
    Twins source source' ns ns' := by
  induction h with
  | nil => exact .nil
  | comment_left _ _ _ _ ih => exact .comment_left _ (ih (List.forall_mem_cons.1 hns).2 hns')
  | comment_right _ _ _ _ ih => exact .comment_right _ (ih hns (List.forall_mem_cons.1 hns').2)
  | leaf _ _ hsolid hpiece hpiece' htext _ ih =>
    obtain ⟨hn, hns⟩ := List.forall_mem_cons.1 hns
    obtain ⟨hn', hns'⟩ := List.forall_mem_cons.1 hns'
    exact .node ⟨rfl, rfl, rfl, hsolid, .leaf rfl rfl hpiece hpiece' htext⟩ hn hn' .nil
      (ih hns hns')
  | inner _ _ hsolid hne hne' hchildren _ ihchildren ih =>
    obtain ⟨hn, hns⟩ := List.forall_mem_cons.1 hns
    obtain ⟨hn', hns'⟩ := List.forall_mem_cons.1 hns'
    exact .node ⟨rfl, rfl, rfl, hsolid, .inner hne hne' hchildren⟩ hn hn'
      (ihchildren hn.children hn'.children) (ih hns hns')

/-- Comments at the end of the rows do no harm. -/
theorem Twins.append_comments (h : Twins source source' ns ns') (cs cs' : List Comment) :
    Twins source source' (ns ++ cs.map Comment.node) (ns' ++ cs'.map Comment.node) := by
  induction h with
  | nil =>
    induction cs with
    | nil =>
      induction cs' with
      | nil => exact .nil
      | cons c cs' ih => exact .comment_right c ih
    | cons c cs ih => exact .comment_left c ih
  | comment_left c _ ih => exact .comment_left c ih
  | comment_right c _ ih => exact .comment_right c ih
  | node hsame hfit hfit' hchildren _ _ ih => exact .node hsame hfit hfit' hchildren ih

/-- A test of nodes that looks at their heads only, and holds of no comment. -/
structure Shallow (p : Node → Bool) : Prop where
  congr : ∀ {n n' : Node}, n.kind = n'.kind → n.field = n'.field → n.named = n'.named → p n = p n'
  comment : ∀ c : Comment, p c.node = false

/-- Looking for what is no comment finds the same where no comment is found. -/
theorem find?_and_eq {p q : Node → Bool} {ns : List Node} (h : ∀ n ∈ ns.find? p, q n) :
    ns.find? (fun n => p n && q n) = ns.find? p := by
  induction ns with
  | nil => rfl
  | cons n ns ih =>
    rw [List.find?_cons] at h ⊢
    rw [List.find?_cons]
    cases hp : p n with
    | true =>
      simp only [hp] at h ⊢
      simp [h n rfl]
    | false =>
      simp only [hp, Bool.false_and] at h ⊢
      exact ih h

theorem namedChildren_find? (n : Node) (p : Node → Bool) :
    n.namedChildren.find? p = n.children.find? fun c => c.named && p c := by
  rw [Node.namedChildren, List.find?_filter]
  simp

theorem namedChildren_filter (n : Node) (p : Node → Bool) :
    n.namedChildren.filter p = n.children.filter fun c => c.named && p c := by
  rw [Node.namedChildren, List.filter_filter]
  exact List.filter_congr fun c _ => Bool.and_comm _ _

theorem kind_node_mem (c : Comment) : c.node.kind ∈ commentKinds :=
  isComment_iff.1 (isComment_node c)

namespace Shallow

theorem ofField (name : String) : Shallow fun n => n.field == some name where
  congr _ hfield _ := by rw [hfield]
  comment _ := rfl

theorem ofKind {kind : String} (h : kind ∉ commentKinds) : Shallow fun n => n.kind == kind where
  congr hkind _ _ := by rw [hkind]
  comment c := by
    rw [beq_eq_false_iff_ne]
    rintro rfl
    exact h (kind_node_mem c)

theorem ofNamed {p : String → Bool} (h : ∀ kind ∈ commentKinds, p kind = false) :
    Shallow fun n => n.named && p n.kind where
  congr hkind _ hnamed := by rw [hkind, hnamed]
  comment c := by rw [h _ (kind_node_mem c), Bool.and_false]

theorem ofSolid {p : Node → Bool} (hp : ∀ {n n' : Node}, n.kind = n'.kind → n.named = n'.named →
    p n = p n') : Shallow fun n => p n && !n.isComment where
  congr hkind _ hnamed := by rw [hp hkind hnamed, Node.isComment, Node.isComment, hkind]
  comment c := by rw [isComment_node, Bool.not_true, Bool.and_false]

end Shallow

namespace Twins

variable {p : Node → Bool}

theorem filter (h : Twins source source' ns ns') (hp : Shallow p) :
    List.Forall₂ (Twin source source') (ns.filter p) (ns'.filter p) := by
  induction h with
  | nil => exact .nil
  | comment_left c _ ih =>
    rw [List.filter_cons, hp.comment c]
    exact ih
  | comment_right c _ ih =>
    rw [List.filter_cons, hp.comment c]
    exact ih
  | @node kind field named span span' children children' ns ns' hsame hfit hfit' hchildren _ _ ih =>
    have hcongr : p ⟨kind, field, named, span, children⟩ =
        p ⟨kind, field, named, span', children'⟩ := hp.congr rfl rfl rfl
    rw [List.filter_cons, List.filter_cons, ← hcongr]
    split
    · exact .cons ⟨hsame, hfit, hfit', hchildren⟩ ih
    · exact ih

theorem find? (h : Twins source source' ns ns') (hp : Shallow p) :
    Option.Rel (Twin source source') (ns.find? p) (ns'.find? p) := by
  rw [← List.head?_filter, ← List.head?_filter]
  exact rel_head? (h.filter hp)

theorem childOfKind (h : Twins source source' n.children n'.children) {kind : String}
    (hkind : kind ∉ commentKinds) :
    Option.Rel (fun c c' => Twin source source' c c' ∧ c.kind = kind) (n.childOfKind kind)
      (n'.childOfKind kind) := by
  have hfind := h.find? (.ofKind hkind)
  have hfound {c : Node} (hc : n.childOfKind kind = some c) : c.kind = kind := by
    simpa using List.find?_some hc
  unfold Node.childOfKind at hfound ⊢
  generalize n.children.find? _ = found, n'.children.find? _ = found' at hfind hfound ⊢
  cases hfind with
  | none => exact .none
  | some htwin => exact .some ⟨htwin, hfound rfl⟩

theorem any (h : Twins source source' ns ns') (hp : Shallow p) : ns.any p = ns'.any p := by
  have hsome := isSome_eq_of_rel (h.find? hp)
  rw [Bool.eq_iff_iff] at hsome ⊢
  rwa [List.find?_isSome, List.find?_isSome, ← List.any_eq_true, ← List.any_eq_true] at hsome

end Twins

/-! ## Types that are read -/

theorem Cst.Node.Uncommented.solid {n : Node} (h : n.Uncommented) : (!n.isComment) = true := by
  simpa using h.here

namespace Twin

/-- The type behind `extends`, and the first bound of a type variable. -/
theorem firstType (h : Twin source source' n n')
    (hkind : n.kind = "superclass" ∨ n.kind = "type_bound") :
    Option.Rel (Twin source source') n.namedChildren.head? n'.namedChildren.head? := by
  have hfirst {source : List Char} {n : Node} (hfit : Fit source n)
      (hkind : n.kind = "superclass" ∨ n.kind = "type_bound") :
      n.namedChildren.head? = n.children.find? fun c => c.named && !c.isComment := by
    rw [Node.namedChildren, List.head?_filter, find?_and_eq]
    intro t ht
    refine (hfit.calm.here.types t ?_).1.solid
    rw [typesRead, if_pos (by simpa using hkind), Node.namedChildren, List.head?_filter]
    exact Option.mem_toList.2 ht
  rw [hfirst h.fit hkind, hfirst h.fit' (h.same.kind ▸ hkind)]
  exact h.children.find? (.ofSolid fun _ hnamed => hnamed)

/-- The types of a list of types. -/
theorem listedTypes (h : Twin source source' n n') (hkind : n.kind = "type_list") :
    List.Forall₂ (Twin source source') n.namedChildren n'.namedChildren := by
  have hlisted {source : List Char} {n : Node} (hfit : Fit source n)
      (hkind : n.kind = "type_list") :
      n.namedChildren = n.children.filter fun c => c.named && !c.isComment := by
    refine List.filter_congr fun c hc => ?_
    cases hnamed : c.named with
    | false => rfl
    | true =>
      have hread : c ∈ typesRead n := by simp [typesRead, hkind, Node.namedChildren, hc, hnamed]
      rw [(hfit.calm.here.types c hread).1.solid, Bool.and_self]
  rw [hlisted h.fit hkind, hlisted h.fit' (h.same.kind ▸ hkind)]
  exact h.children.filter (.ofSolid fun _ hnamed => hnamed)

/-- The type of a parameter for a variable number of arguments. -/
theorem spreadType (h : Twin source source' n n') (hkind : n.kind = "spread_parameter") :
    Option.Rel (Twin source source') (n.namedChildren.find? isSpreadType)
      (n'.namedChildren.find? isSpreadType) := by
  have hspread {source : List Char} {n : Node} (hfit : Fit source n)
      (hkind : n.kind = "spread_parameter") :
      n.namedChildren.find? isSpreadType =
        n.children.find? fun c => (c.named && isSpreadType c) && !c.isComment := by
    rw [namedChildren_find?, find?_and_eq (p := fun c => c.named && isSpreadType c)]
    intro t ht
    refine (hfit.calm.here.types t ?_).1.solid
    rw [← namedChildren_find?] at ht
    simpa [typesRead, hkind] using ht
  rw [hspread h.fit hkind, hspread h.fit' (h.same.kind ▸ hkind)]
  refine h.children.find? (.ofSolid fun hkind hnamed => ?_)
  rw [hnamed, isSpreadType, isSpreadType, hkind]

end Twin

/-! ## Texts of nodes -/

theorem Fit.leaf_of_kind (h : Fit source n) (hkind : n.kind ∈ nameKinds) : n.children = [] := by
  cases hnamed : n.named with
  | false => exact h.unnamed.here hnamed
  | true => exact h.leaves.here (by simpa [Node.label, hnamed] using hkind)

namespace Twin

theorem text_of_leaf (h : Twin source source' n n') (hleaf : n.children = []) :
    slice source n.span = slice source' n'.span := by
  cases h.same.inside with
  | leaf _ _ _ _ htext => exact htext
  | inner hne => exact absurd hleaf hne

theorem text_of_name (h : Twin source source' n n') (hkind : n.kind ∈ nameKinds) :
    slice source n.span = slice source' n'.span :=
  h.text_of_leaf (h.fit.leaf_of_kind hkind)

/-- **A name that is read is spelled the same.** -/
theorem name_eq (h : Twin source source' n n') (hkind : n.kind ∈ namedKinds) :
    (n.childByField "name").map (fun c => slice source c.span) =
      (n'.childByField "name").map fun c => slice source' c.span := by
  refine map_eq_of_rel (h.children.find? (.ofField "name")) fun c hc c' _ htwin => ?_
  have hmem := List.mem_of_find?_eq_some hc
  have hfield : c.field = some "name" := by simpa using List.find?_some hc
  have hlabel : n.label.any namedKinds.contains := by
    simpa [h.fit.unnamed.here.label_of_mem hmem] using hkind
  -- What fills the name of such a node is a simple name.
  have hsimple := (h.fit.names.here hlabel c hmem).resolve_left
    (fun hcomment => htwin.same.solid (isComment_iff.1 hcomment)) hfield
  refine htwin.text_of_name ?_
  unfold Node.label at hsimple
  split at hsimple
  · simpa [labelIn] using hsimple
  · simp [labelIn] at hsimple

theorem bare_eq (h : Twin source source' n n') (hn : n.Uncommented) (hn' : n'.Uncommented) :
    (slice source n.span).toList.filter (fun c => !isSpace c) =
      (slice source' n'.span).toList.filter fun c => !isSpace c :=
  h.same.bareText_eq hn hn'

/-- **A qualified name without comments and white space in it is spelled the same.** -/
theorem text_eq (h : Twin source source' n n')
    (hn : n.Uncommented ∧ ∀ c ∈ (slice source n.span).toList, ¬ isSpace c)
    (hn' : n'.Uncommented ∧ ∀ c ∈ (slice source' n'.span).toList, ¬ isSpace c) :
    slice source n.span = slice source' n'.span := by
  have hbare := h.bare_eq hn.1 hn'.1
  rw [List.filter_eq_self.2 fun c hc => by simpa using hn.2 c hc,
    List.filter_eq_self.2 fun c hc => by simpa using hn'.2 c hc] at hbare
  exact String.toList_inj.1 hbare

/-- Dimensions without comments in them have the same number of brackets. -/
theorem count_eq (h : Twin source source' n n') (hn : n.Uncommented) (hn' : n'.Uncommented) :
    (slice source n.span).toList.count '[' = (slice source' n'.span).toList.count '[' := by
  have hcount (cs : List Char) : (cs.filter fun c => !isSpace c).count '[' = cs.count '[' :=
    List.count_filter (by decide)
  rw [← hcount, h.bare_eq hn hn', hcount]

end Twin

end Lookup

/-- White space has no say in the erasure of a type without annotations. -/
theorem eraseFrom_bare {cs : List Char} (h : '@' ∉ cs) (depth : Nat) :
    Erasure.eraseFrom (.text depth) (cs.filter fun c => !isSpace c) =
      Erasure.eraseFrom (.text depth) cs := by
  induction cs generalizing depth with
  | nil => rfl
  | cons c cs ih =>
    rw [List.mem_cons, not_or] at h
    cases hspace : isSpace c with
    | true =>
      rw [List.filter_cons, hspace, Erasure.eraseFrom, Erasure.step,
        Erasure.textStep_of_isSpace hspace]
      exact ih h.2 depth
    | false =>
      -- Without an annotation the erasure stays outside of annotations.
      obtain ⟨depth', hmode⟩ : ∃ depth', (Erasure.textStep depth c).1 = .text depth' := by
        simp only [Erasure.textStep, Ne.symm h.1, false_and, if_false]
        split
        · exact ⟨_, rfl⟩
        split
        · exact ⟨_, rfl⟩
        split <;> exact ⟨_, rfl⟩
      rw [List.filter_cons, hspace, Bool.not_false, if_pos rfl, Erasure.eraseFrom,
        Erasure.eraseFrom, Erasure.step, hmode, ih h.2 depth']

/-- **A type that is read has the same erasure.** -/
theorem Twin.erase_eq {source source' : List Char} {n n' : Node} (h : Twin source source' n n')
    (hn : n.Uncommented ∧ '@' ∉ (slice source n.span).toList)
    (hn' : n'.Uncommented ∧ '@' ∉ (slice source' n'.span).toList) :
    Erasure.erase (slice source n.span) = Erasure.erase (slice source' n'.span) := by
  rw [Erasure.erase, Erasure.erase, ← eraseFrom_bare hn.2, ← eraseFrom_bare hn'.2,
    h.bare_eq hn.1 hn'.1]

end JavaThrows
