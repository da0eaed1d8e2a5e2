import JavaThrows.Proofs.Decl.Distributed
import JavaThrows.Proofs.Decl.Members

set_option autoImplicit false

/-!
# Files with the members of one type rearranged

Two files may be the same but for the members of one type, at any depth: in the second file these
stand in another order, and their bodies are other ones. The first pass enters the same types in
both, since it looks into no body. Main statement: `Rearranged.declared`.
-/

namespace JavaThrows

open Cst

/-! ## Where two files differ -/

/-- The rows of nodes that the walk goes through. -/
inductive RowKind where
  /-- The types at the top level. -/
  | top
  /-- The members of a type. -/
  | members
  /-- What stands in a body or an expression. -/
  | inside

/-- The nodes of a row that have arguments and the body of an anonymous class. -/
def RowKind.creation : RowKind → Option String
  | .top => none
  | .members => some "enum_constant"
  | .inside => some "object_creation_expression"

/-- The nodes of a row that the walk goes through as they are. -/
def RowKind.Plain (row : RowKind) (kind : String) : Prop :=
  row ≠ .top ∧ (row = .members → ¬ isMethodNode kind) ∧ ¬ isTypeNode kind ∧
    kind ≠ "enum_body_declarations" ∧ row.creation ≠ some kind

/-- Two rows of nodes that are copies but for the members of one type somewhere below them, which
    are `ns` in the one row and `ns'` in the other one. What the walk has not come to yet may be
    something else inside of the nodes around this type. -/
inductive DifferIn (source source' : List Char) (ns ns' : List Node) :
    RowKind → List Node → List Node → Prop
  | here : DifferIn source source' ns ns' .members ns ns'
  | next {row : RowKind} {n n' : Node} {ms ms' : List Node} :
    Copy source source' n n' → DifferIn source source' ns ns' row ms ms' →
    DifferIn source source' ns ns' row (n :: ms) (n' :: ms')
  | type {row : RowKind} {n n' body body' : Node} {ms ms' : List Node} :
    n.named → n'.named → isTypeNode n.kind → SameHeader source source' n n' →
    n.children.find? isBody = some body → n'.children.find? isBody = some body' →
    DifferIn source source' ns ns' .members (memberNodes body.children)
      (memberNodes body'.children) →
    Copies source source' ms ms' → DifferIn source source' ns ns' row (n :: ms) (n' :: ms')
  | method {n n' body body' : Node} {ms ms' : List Node} :
    n.named → n'.named → isMethodNode n.kind → SameHeader source source' n n' →
    n.children.find? isBody = some body → n'.children.find? isBody = some body' →
    DifferIn source source' ns ns' .inside body.children body'.children →
    Copies source source' ms ms' → DifferIn source source' ns ns' .members (n :: ms) (n' :: ms')
  | arguments {row : RowKind} {n n' args args' : Node} {ms ms' : List Node} :
    n.named → n'.named → row.creation = some n.kind → n.kind = n'.kind →
    n.children.find? isArguments = some args → n'.children.find? isArguments = some args' →
    DifferIn source source' ns ns' .inside args.children args'.children →
    Copies source source' ms ms' → DifferIn source source' ns ns' row (n :: ms) (n' :: ms')
  | classBody {row : RowKind} {n n' body body' : Node} {ms ms' : List Node} :
    n.named → n'.named → row.creation = some n.kind → n.kind = n'.kind →
    Option.Rel (Copy source source') (n.children.find? isArguments)
      (n'.children.find? isArguments) →
    (row = .inside → (n.childByField "type").isSome ∧ (n'.childByField "type").isSome) →
    n.childOfKind "class_body" = some body → n'.childOfKind "class_body" = some body' →
    DifferIn source source' ns ns' .members (memberNodes body.children)
      (memberNodes body'.children) →
    Copies source source' ms ms' → DifferIn source source' ns ns' row (n :: ms) (n' :: ms')
  | plain {row : RowKind} {n n' : Node} {ms ms' : List Node} :
    n.named → n'.named → row.Plain n.kind → n.kind = n'.kind →
    DifferIn source source' ns ns' .inside n.children n'.children →
    Copies source source' ms ms' → DifferIn source source' ns ns' row (n :: ms) (n' :: ms')

/-- What may become of a member: a method may get another body, and an initialiser, a field or a
    constant another inside. A member type is copied. -/
inductive Edited (source source' : List Char) (n n' : Node) : Prop
  | copy : Copy source source' n n' → Edited source source' n n'
  | method : isMethodNode n.kind → SameHeader source source' n n' → Edited source source' n n'
  | inside : RowKind.members.Plain n.kind ∨ n.kind = "enum_constant" → n.kind = n'.kind →
    Edited source source' n n'

/-- Two files that are the same but for the members of one type: what is `ns` in the first file is
    put in another order and edited in the second one. -/
structure Rearranged (f f' : ParsedFile) (ns ns' : List Node) : Prop where
  package : f'.unit.package = f.unit.package
  imports : f'.unit.imports.map Import.withoutLayout = f.unit.imports.map Import.withoutLayout
  differ : DifferIn f.source f'.source ns ns' .top f.typeNodes f'.typeNodes
  edited : ∃ ms : List Node, ms.Perm ns ∧ List.Forall₂ (Edited f.source f'.source) ms ns'

/-! ## The first pass -/

-- The recursion of the first pass itself.
mutual
/-- A type that is declared inside of another one is entered by the full name that its owner and
    its name make. -/
theorem eq_member_of_declareType {s : Scope} {owner o x fqn : String} {n : Node}
    (h : (declareType s (some owner) [] n).find? o x = some fqn) : fqn = o ++ "." ++ x := by
  match n with
  | ⟨kind, field, named, span, children⟩ =>
    rw [declareType] at h
    dsimp only at h
    split at h
    · next name _ _ =>
      rw [find?_declareBody, DeclaredTypes.find?_declare] at h
      split at h
      · next heq =>
        rw [heq.1, heq.2]
        exact (by simpa [DeclaredTypes.find?, Scope.qualify] using h.symm)
      · exact eq_member_of_declareBody h
    · cases h

theorem eq_member_of_declareBody {s : Scope} {owner o x fqn : String} {ns : List Node}
    (h : (declareBody s owner [] ns).find? o x = some fqn) : fqn = o ++ "." ++ x := by
  match ns with
  | [] =>
    rw [declareBody] at h
    cases h
  | ⟨_, field, _, _, children⟩ :: ns =>
    rw [declareBody] at h
    split at h
    · exact eq_member_of_declareMembers h
    · exact eq_member_of_declareBody h

theorem eq_member_of_declareMembers {s : Scope} {owner o x fqn : String} {ns : List Node}
    (h : (declareMembers s (some owner) [] ns).find? o x = some fqn) : fqn = o ++ "." ++ x := by
  match ns with
  | [] =>
    rw [declareMembers] at h
    cases h
  | ⟨kind, field, named, span, children⟩ :: ns =>
    rw [declareMembers, find?_declareMembers, Option.or_eq_some_iff] at h
    rcases h with h | ⟨-, h⟩
    · split at h
      · exact eq_member_of_declareMembers h
      · exact eq_member_of_declareType h
    · exact eq_member_of_declareMembers h
end

/-- What one node of a row enters. -/
theorem find?_declareMembers_append (s : Scope) (parent : Option String) (n : Node)
    (ns : List Node) (o x : String) :
    (declareMembers s parent [] (n :: ns)).find? o x =
      ((declareMembers s parent [] [n]).find? o x).or
        ((declareMembers s parent [] ns).find? o x) := by
  rw [← find?_declareMembers, ← declareMembers_append, List.singleton_append]

/-- The order of the members does not matter to the first pass. -/
theorem find?_declareMembers_perm (s : Scope) (owner : String) {ns ns' : List Node}
    (h : ns.Perm ns') (o x : String) :
    (declareMembers s (some owner) [] ns).find? o x =
      (declareMembers s (some owner) [] ns').find? o x := by
  have hcomm (n m : Node) : ((declareMembers s (some owner) [] [n]).find? o x).or
      ((declareMembers s (some owner) [] [m]).find? o x) =
      ((declareMembers s (some owner) [] [m]).find? o x).or
        ((declareMembers s (some owner) [] [n]).find? o x) := by
    cases hn : (declareMembers s (some owner) [] [n]).find? o x with
    | none => exact (Option.or_none).symm
    | some fqn =>
      cases hm : (declareMembers s (some owner) [] [m]).find? o x with
      | none => rfl
      | some fqn' =>
        rw [eq_member_of_declareMembers hn, eq_member_of_declareMembers hm]
  induction h with
  | nil => rfl
  | cons n _ ih =>
    rw [find?_declareMembers_append, ih, ← find?_declareMembers_append]
  | swap n m ns =>
    rw [find?_declareMembers_append, find?_declareMembers_append s _ n, ← Option.or_assoc, hcomm,
      Option.or_assoc, ← find?_declareMembers_append, ← find?_declareMembers_append]
  | trans _ _ ih ih' => exact ih.trans ih'

/-- The first pass passes by a member that is no type. -/
theorem declareMembers_skip (s : Scope) (parent : Option String) {n : Node}
    (htype : ¬ isTypeNode n.kind) (hkind : n.kind ≠ "enum_body_declarations") (ns : List Node)
    (ds : DeclaredTypes) :
    declareMembers s parent ds (n :: ns) = declareMembers s parent ds ns := by
  obtain ⟨kind, field, named, span, children⟩ := n
  have hnamed : (named && isTypeNode kind) = false := by simp [htype]
  rw [declareMembers, if_neg (by simpa using hkind), declareType, hnamed]

/-- Members that are no types, edited or not, enter nothing. -/
theorem Edited.entered {s s' : Scope} (hs : s.packagePrefix = s'.packagePrefix)
    {n n' : Node} (h : Edited s.source s'.source n n') (parent : Option String)
    (ds : DeclaredTypes) :
    declareMembers s parent ds [n] = declareMembers s' parent ds [n'] := by
  have hskip (s : Scope) {n : Node} (htype : ¬ isTypeNode n.kind)
      (hkind : n.kind ≠ "enum_body_declarations") : declareMembers s parent ds [n] = ds := by
    rw [declareMembers_skip s parent htype hkind, declareMembers]
  cases h with
  | copy h => exact ((copies_cons_iff.2 ⟨h, .nil⟩).declare hs).1 parent ds
  | method hmethod h =>
    obtain ⟨htype, hkind⟩ := isMethodNode_not_type hmethod
    rw [hskip s htype hkind, hskip s' (h.kind ▸ htype) (h.kind ▸ hkind)]
  | inside hinside h =>
    have hother : ¬ isTypeNode n.kind ∧ n.kind ≠ "enum_body_declarations" := by
      rcases hinside with hplain | hconstant
      · exact ⟨hplain.2.2.1, hplain.2.2.2.1⟩
      · rw [hconstant]
        decide
    rw [hskip s hother.1 hother.2, hskip s' (h ▸ hother.1) (h ▸ hother.2)]

/-- The parents that the first pass goes through such a row for. -/
def RowKind.IsRowOf : RowKind → Option String → Prop
  | .top, none => True
  | .members, some _ => True
  | _, _ => False

theorem RowKind.creation_not_type (row : RowKind) {kind : String} {parent : Option String}
    (h : row.creation = some kind) (hrow : row.IsRowOf parent) :
    ¬ isTypeNode kind ∧ kind ≠ "enum_body_declarations" := by
  cases row with
  | top => cases h
  | members =>
    obtain rfl := Option.some.inj h
    decide
  | inside => cases parent <;> exact hrow.elim

/-- The first pass enters the same for both rows. -/
def SameEntries (s s' : Scope) (row : RowKind) (ms ms' : List Node) : Prop :=
  ∀ parent, row.IsRowOf parent → ∀ o x,
    (declareMembers s parent [] ms).find? o x = (declareMembers s' parent [] ms').find? o x

section FirstPass

variable {s s' : Scope} {ns ns' : List Node}

/-- **Members that are put in another order and edited enter the same.** -/
theorem sameEntries_of_edited (hs : s.packagePrefix = s'.packagePrefix) {ms : List Node}
    (hperm : ms.Perm ns) (hedited : List.Forall₂ (Edited s.source s'.source) ms ns') :
    SameEntries s s' .members ns ns' := by
  rintro (_ | owner) hrow o x
  · exact hrow.elim
  rw [← find?_declareMembers_perm s owner hperm]
  clear hperm
  induction hedited with
  | nil => rw [declareMembers, declareMembers]
  | cons hn _ ih =>
    rw [find?_declareMembers_append, hn.entered hs, ih, ← find?_declareMembers_append]

theorem declareBody_of_find? {body : Node} {children : List Node}
    (h : children.find? isBody = some body) (s : Scope) (fqn : String) (ds : DeclaredTypes) :
    declareBody s fqn ds children = declareMembers s (some fqn) ds (memberNodes body.children) := by
  rw [declareMembers_memberNodes]
  induction children with
  | nil => cases h
  | cons c cs ih =>
    obtain ⟨kind, field, named, span, children⟩ := c
    rw [List.find?_cons] at h
    rw [declareBody]
    split at h
    · next hbody =>
      obtain rfl := Option.some.inj h
      exact if_pos hbody
    · next hbody => rw [if_neg (by simpa [isBody] using hbody), ih h]

/-- A type enters the same if its members do. -/
theorem SameEntries.type (hs : s.packagePrefix = s'.packagePrefix) {n n' body body' : Node}
    (hnamed : n.named) (hnamed' : n'.named) (htype : isTypeNode n.kind)
    (h : SameHeader s.source s'.source n n') (hbody : n.children.find? isBody = some body)
    (hbody' : n'.children.find? isBody = some body')
    (hmembers : SameEntries s s' .members (memberNodes body.children) (memberNodes body'.children))
    (row : RowKind) : SameEntries s s' row [n] [n'] := by
  intro parent _ o x
  have hname := h.byField "name" (by decide)
  have htype' : isTypeNode n'.kind := h.kind ▸ htype
  have hone (s : Scope) {n : Node} (htype : isTypeNode n.kind) :
      declareMembers s parent [] [n] = declareType s parent [] n := by
    obtain ⟨kind, field, named, span, children⟩ := n
    have hkind : ¬ (kind == "enum_body_declarations") := by
      simpa using isTypeNode_ne_declarations htype
    rw [declareMembers, if_neg hkind, declareMembers]
  rw [hone s htype, hone s' htype']
  obtain ⟨kind, field, named, span, children⟩ := n
  obtain ⟨kind', field', named', span', children'⟩ := n'
  have hopen : (named && isTypeNode kind) = true := Bool.and_eq_true_iff.2 ⟨hnamed, htype⟩
  have hopen' : (named' && isTypeNode kind') = true := Bool.and_eq_true_iff.2 ⟨hnamed', htype'⟩
  rw [declareType, declareType, hopen, hopen']
  generalize Node.childByField ⟨kind, field, named, span, children⟩ "name" = name,
    Node.childByField ⟨kind', field', named', span', children'⟩ "name" = name' at hname ⊢
  cases hname with
  | none => rfl
  | @some c c' hc =>
    have htext : s.text c = s'.text c' := hc.text
    have hqualify : s.qualify parent (s.text c) = s'.qualify parent (s'.text c') := by
      rw [htext]
      cases parent <;> simp [Scope.qualify, hs]
    dsimp only
    rw [hqualify, htext, declareBody_of_find? hbody, declareBody_of_find? hbody',
      find?_declareMembers, find?_declareMembers s', hmembers (some _) trivial]

/-- **Rows that differ in the members of one type enter the same** if these members do. -/
theorem DifferIn.sameEntries (hs : s.packagePrefix = s'.packagePrefix) {row : RowKind}
    {ms ms' : List Node} (h : DifferIn s.source s'.source ns ns' row ms ms')
    (hns : SameEntries s s' .members ns ns') : SameEntries s s' row ms ms' := by
  have hskip {n n' : Node} {ms ms' : List Node} {parent : Option String} {o x : String}
      (hn : ¬ isTypeNode n.kind ∧ n.kind ≠ "enum_body_declarations") (hkind : n.kind = n'.kind)
      (hms : Copies s.source s'.source ms ms') :
      (declareMembers s parent [] (n :: ms)).find? o x =
        (declareMembers s' parent [] (n' :: ms')).find? o x := by
    rw [declareMembers_skip s parent hn.1 hn.2,
      declareMembers_skip s' parent (hkind ▸ hn.1) (hkind ▸ hn.2), (hms.declare hs).1]
  induction h with
  | here => exact hns
  | next hcopy _ ih =>
    intro parent hrow o x
    rw [find?_declareMembers_append, ((copies_cons_iff.2 ⟨hcopy, .nil⟩).declare hs).1,
      ih parent hrow, ← find?_declareMembers_append]
  | type hnamed hnamed' htype hheader hbody hbody' _ hms ih =>
    intro parent hrow o x
    rw [find?_declareMembers_append,
      SameEntries.type hs hnamed hnamed' htype hheader hbody hbody' ih _ parent hrow,
      (hms.declare hs).1, ← find?_declareMembers_append]
  | method _ _ hmethod hheader _ _ _ hms _ =>
    exact fun _ _ _ _ => hskip (isMethodNode_not_type hmethod) hheader.kind hms
  | @arguments row _ _ _ _ _ _ _ _ hcreation hkind _ _ _ hms _ =>
    exact fun _ hrow _ _ => hskip (row.creation_not_type hcreation hrow) hkind hms
  | @classBody row _ _ _ _ _ _ _ _ hcreation hkind _ _ _ _ _ hms _ =>
    exact fun _ hrow _ _ => hskip (row.creation_not_type hcreation hrow) hkind hms
  | plain _ _ hplain hkind _ hms _ =>
    exact fun _ _ _ _ => hskip ⟨hplain.2.2.1, hplain.2.2.2.1⟩ hkind hms

end FirstPass

namespace Rearranged

variable {f f' : ParsedFile} {ns ns' : List Node}

theorem sameScope (h : Rearranged f f' ns ns') : SameScope f.source f'.source f.scope f'.scope := by
  rw [ParsedFile.scope, ParsedFile.scope, h.package]
  exact sameScope_fileScope _ h.imports.symm

/-- **The first pass enters the same types in both files.** -/
theorem declared (h : Rearranged f f' ns ns') (o x : String) :
    f.declared.find? o x = f'.declared.find? o x := by
  have hsame := congrArg Scope.packagePrefix h.sameScope.same
  have hprefix : f.scope.packagePrefix = f'.scope.packagePrefix := hsame
  obtain ⟨ms, hperm, hedited⟩ := h.edited
  have hns : SameEntries f.scope f'.scope .members ns ns' :=
    sameEntries_of_edited hprefix hperm hedited
  exact h.differ.sameEntries hprefix hns none trivial o x

end Rearranged

/-! ### Checks -/

/-- The only type of a file, with its body. -/
def ParsedFile.onlyType? (f : ParsedFile) : Option (Node × Node) :=
  match f.typeNodes with
  | [n] => (n.children.find? isBody).map fun body => (n, body)
  | _ => none

/-- The members of the only type of a file. -/
def ParsedFile.onlyMembers (f : ParsedFile) : List Node :=
  (f.onlyType?.map fun t => memberNodes t.2.children).getD []

/-- Both files have one type only, and its members in the order `ms` are copied or get other
    bodies. -/
def ParsedFile.Rearranges (f f' : ParsedFile) (ms : List Node) : Prop :=
  (f'.unit.package = f.unit.package ∧
    f'.unit.imports.map Import.withoutLayout = f.unit.imports.map Import.withoutLayout) ∧
  (f.onlyType?.isSome ∧ Option.Rel (fun t t' => SameHeader f.source f'.source t.1 t'.1)
    f.onlyType? f'.onlyType?) ∧
  List.Forall₂ (fun n n' => Copy f.source f'.source n n' ∨
    isMethodNode n.kind ∧ SameHeader f.source f'.source n n') ms f'.onlyMembers

instance {f f' : ParsedFile} {ms : List Node} : Decidable (f.Rearranges f' ms) :=
  inferInstanceAs (Decidable ((_ ∧ _) ∧ (_ ∧ _) ∧ _))

theorem ParsedFile.onlyType?_eq_some {f : ParsedFile} {n body : Node}
    (h : f.onlyType? = some (n, body)) :
    f.typeNodes = [n] ∧ (n.named ∧ isTypeNode n.kind) ∧ n.children.find? isBody = some body := by
  have htypes := f.typeNodes_type
  rw [onlyType?] at h
  split at h
  · next n' hnodes =>
    obtain ⟨body', hbody, heq⟩ := Option.map_eq_some_iff.1 h
    rw [Prod.mk.injEq] at heq
    obtain ⟨rfl, rfl⟩ := heq
    exact ⟨hnodes, htypes n' (hnodes ▸ List.mem_singleton_self n'), hbody⟩
  · cases h

theorem ParsedFile.Rearranges.rearranged {f f' : ParsedFile} {ms : List Node}
    (h : f.Rearranges f' ms) (hperm : ms.Perm f.onlyMembers) :
    Rearranged f f' f.onlyMembers f'.onlyMembers where
  package := h.1.1
  imports := h.1.2
  differ := by
    obtain ⟨-, ⟨hsome, htype⟩, -⟩ := h
    rw [onlyMembers, onlyMembers]
    generalize honly : f.onlyType? = only, honly' : f'.onlyType? = only' at hsome htype
    cases htype with
    | none => cases hsome
    | some hheader =>
      obtain ⟨hnodes, ⟨hnamed, htype⟩, hbody⟩ := onlyType?_eq_some honly
      obtain ⟨hnodes', ⟨hnamed', -⟩, hbody'⟩ := onlyType?_eq_some honly'
      rw [hnodes, hnodes']
      exact .type hnamed hnamed' htype hheader hbody hbody' .here .nil
  edited := by
    refine ⟨ms, hperm, h.2.2.imp fun n n' hn => ?_⟩
    rcases hn with hcopy | ⟨hmethod, hheader⟩
    · exact .copy hcopy
    · exact .method hmethod hheader

end JavaThrows
