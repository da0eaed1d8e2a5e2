import JavaThrows.Proofs.Decl.Relowered
import JavaThrows.Proofs.Decl.TopLevel

set_option autoImplicit false

/-!
# Types that are distributed over files

The types at the top level of a file may stand in several files of the same package with the same
imports instead. Each of them is read the same then, up to what its types denote: a file by itself
knows the types of the other files by their imports only. Main statement:
`Distribution.exists_rows`.
-/

namespace JavaThrows

open Cst Text

/-! ## Files -/

/-- A well-formed source with its tree. -/
structure ParsedFile where
  source : List Char
  root : Node
  tree : javaTree source = some root

namespace ParsedFile

/-- The file of a source that is well-formed. -/
def ofSource (source : List Char) (h : (javaTree source).isSome) : ParsedFile where
  source := source
  root := (javaTree source).get h
  tree := (Option.some_get h).symm

variable (f : ParsedFile)

def unit : CompilationUnit :=
  .ofTree f.source f.root

/-- The declarations of types at the top level. -/
def typeNodes : List Node :=
  JavaThrows.typeNodes f.root.children

def scope : Scope :=
  fileScope f.source f.unit.package f.unit.imports

/-- What the first pass enters. -/
def declared : DeclaredTypes :=
  declareMembers f.scope none [] f.typeNodes

/-- The names of the types at the top level. -/
def typeNames : List String :=
  f.unit.types.map fun d => d.head.name

end ParsedFile

theorem javaGrammar_avoids_declarations (s : Phrase) :
    (javaGrammar s).avoids ["enum_body_declarations"] fun _ => true := by
  cases s <;> decide

/-- What stands behind the constants of an enum does not stand at the top level. -/
theorem ParsedFile.kind_ne_declarations (f : ParsedFile) :
    ∀ n ∈ f.root.children, n.kind ≠ "enum_body_declarations" := by
  obtain ⟨s, nodes, -, hchildren, hread⟩ := exists_read_of_javaTree f.tree
  have htop : (Rule.many Java.topLevel).avoids ["enum_body_declarations"] fun _ => true := by
    decide
  have hnodes := Rule.avoids_sound
    (fun s _ => Grammar.avoids_sound (fun s _ => javaGrammar_avoids_declarations s) _ s rfl) htop
    hread
  rw [hchildren, List.forall_mem_append]
  refine ⟨fun n hn hkind => ?_, fun n hn => ?_⟩
  · rcases hnodes n hn with hcomment | hother
    · simp [Node.isComment, hkind] at hcomment
    · exact hother (by simp [hkind])
  · obtain ⟨c, -, rfl⟩ := List.mem_map.1 hn
    intro hkind
    have hcomment := kind_node_mem c
    simp [hkind, commentKinds] at hcomment

namespace ParsedFile

variable (f : ParsedFile)

theorem types_eq : f.unit.types = ((lowerTypes f.scope f.typeNodes).run ⟨f.declared, 0⟩).1 := by
  rw [typeNodes, lowerTypes_typeNodes, declared, typeNodes,
    declareMembers_typeNodes _ _ _ _ f.kind_ne_declarations]
  rfl

theorem typeNodes_type : ∀ n ∈ f.typeNodes, n.named ∧ isTypeNode n.kind := fun _ hn =>
  Bool.and_eq_true_iff.1 (List.mem_filter.1 hn).2

end ParsedFile

theorem lowerType_name (s : Scope) (parent : Option String) (n : Node) (w : Walk) :
    ((lowerType s parent n).run w).1.head.name = s.nameOf n := by
  cases n
  rw [lowerType]
  rfl

theorem lowerTypes_names (s : Scope) {ns : List Node} (h : ∀ n ∈ ns, n.named ∧ isTypeNode n.kind)
    (w : Walk) :
    ((lowerTypes s ns).run w).1.map (fun d => d.head.name) = ns.map s.nameOf := by
  induction ns generalizing w with
  | nil => rfl
  | cons n ns ih =>
    rw [List.forall_mem_cons] at h
    rw [lowerTypes, if_pos (Bool.and_eq_true_iff.2 h.1), List.map_cons]
    exact congrArg₂ List.cons (lowerType_name s none n w) (ih h.2 _)

theorem ParsedFile.typeNames_eq (f : ParsedFile) :
    f.typeNames = f.typeNodes.map f.scope.nameOf := by
  rw [typeNames, types_eq, lowerTypes_names _ f.typeNodes_type]

/-! ## Distributions -/

/-- The types at the top level have names by which they are told apart, from each other with all
    that is inside of them, and from imported types. -/
structure ParsedFile.Lawful (f : ParsedFile) : Prop where
  named : ∀ name ∈ f.typeNames, name ≠ ""
  apart : f.typeNames.Pairwise fun a b => ¬ Inside a b ∧ ¬ Inside b a
  imports : ∀ name ∈ f.typeNames, ∀ fqn ∈ f.scope.importedType name,
    fqn = f.unit.packagePrefix ++ name

/-- The types at the top level of a file stand in several files of the same package with the same
    imports. -/
structure Distribution (whole : ParsedFile) (parts : List ParsedFile) : Prop where
  package : ∀ part ∈ parts, part.unit.package = whole.unit.package
  imports : ∀ part ∈ parts, part.unit.imports.map Import.withoutLayout =
    whole.unit.imports.map Import.withoutLayout
  types : ∃ rows : List (List Node), rows.flatten.Perm whole.typeNodes ∧
    List.Forall₂ (fun row part => List.Forall₂ (Copy whole.source part.source) row part.typeNodes)
      rows parts

/-- What one of the files lacks. -/
def ParsedFile.gap (whole : ParsedFile) (h : whole.Lawful) (part : ParsedFile) : Gap where
  packagePrefix := whole.unit.packagePrefix
  imports := whole.scope.imports
  lacking := whole.typeNames.filter fun name => !part.typeNames.contains name
  imported name hname i hi :=
    h.imports name (List.mem_filter.1 hname).1 i.2 (Option.mem_map_of_mem Prod.snd hi)

/-- A name by which another file declares a type, and which is not imported. -/
def ParsedFile.Misses (whole part : ParsedFile) (name : String) : Prop :=
  name ∈ whole.typeNames ∧ name ∉ part.typeNames ∧ whole.scope.importedType name = none

theorem ParsedFile.misses_gap {whole part : ParsedFile} {h : whole.Lawful} {name : String} :
    (whole.gap h part).Misses name ↔ whole.Misses part name := by
  simp [Gap.Misses, ParsedFile.Misses, ParsedFile.gap, Scope.importedType, and_assoc]

/-- No bound of a type variable of the file begins with a name that it misses. -/
def ParsedFile.BoundsWithin (whole part : ParsedFile) : Prop :=
  ∀ n ∈ part.typeNodes, n.Everywhere fun b => b.kind = "type_bound" →
    ∀ c ∈ b.namedChildren.head?,
      ¬ whole.Misses part
        (firstSegment (cutDimensions (Erasure.erase (slice part.source c.span))).1)

theorem ParsedFile.Lawful.separate {f : ParsedFile} (h : f.Lawful) :
    Separate f.scope f.typeNodes := by
  have hspelled := namesSpelled_of_javaTree f.tree
  have hnames : ∀ n ∈ f.typeNodes, f.scope.nameOf n ∈ f.typeNames := fun n hn => by
    rw [f.typeNames_eq]
    exact List.mem_map_of_mem hn
  refine ⟨f.typeNodes_type, fun n hn => h.named _ (hnames n hn), fun n hn hpoint => ?_, ?_⟩
  · have hword := (hspelled n (List.mem_filter.1 hn).1).isWordChar_of_mem_nameOf
      (f.typeNodes_type n hn).2 (s := f.scope) rfl '.' hpoint
    exact absurd hword (by decide +kernel)
  · rw [← List.pairwise_map (R := fun a b => ¬ Inside a b ∧ ¬ Inside b a), ← f.typeNames_eq]
    exact h.apart

/-! ### Checks -/

instance {whole part : ParsedFile} {name : String} : Decidable (whole.Misses part name) :=
  inferInstanceAs (Decidable (_ ∧ _ ∧ _ = none))

instance {whole part : ParsedFile} : Decidable (whole.BoundsWithin part) :=
  inferInstanceAs (Decidable (∀ n ∈ part.typeNodes, n.Everywhere fun b => b.kind = "type_bound" →
    ∀ c ∈ b.namedChildren.head?, ¬ whole.Misses part
      (firstSegment (cutDimensions (Erasure.erase (slice part.source c.span))).1)))

/-- The last types of a file stand in one file, and the first `n` ones in another one. -/
def ParsedFile.SplitsAt (whole : ParsedFile) (n : Nat) (last first : ParsedFile) : Prop :=
  (∀ part ∈ [last, first], part.unit.package = whole.unit.package ∧
    part.unit.imports.map Import.withoutLayout = whole.unit.imports.map Import.withoutLayout) ∧
  Copies whole.source last.source (whole.typeNodes.drop n) last.typeNodes ∧
  Copies whole.source first.source (whole.typeNodes.take n) first.typeNodes

instance {whole last first : ParsedFile} {n : Nat} : Decidable (whole.SplitsAt n last first) :=
  inferInstanceAs (Decidable (_ ∧ _ ∧ _))

theorem ParsedFile.SplitsAt.distribution {whole last first : ParsedFile} {n : Nat}
    (h : whole.SplitsAt n last first) : Distribution whole [last, first] where
  package part hpart := (h.1 part hpart).1
  imports part hpart := (h.1 part hpart).2
  types := by
    refine ⟨[whole.typeNodes.drop n, whole.typeNodes.take n], ?_,
      .cons h.2.1.forall₂ (.cons h.2.2.forall₂ .nil)⟩
    have happend := List.take_append_drop n whole.typeNodes
    rw [List.flatten_cons, List.flatten_singleton]
    exact List.perm_append_comm.trans (.of_eq happend)

/-- Names of which none begins with another one tell the types apart, if none is imported. -/
theorem ParsedFile.lawful_of_typeNames {f : ParsedFile}
    (h : "" ∉ f.typeNames ∧
      f.typeNames.Pairwise (fun a b => ¬ a.toList <+: b.toList ∧ ¬ b.toList <+: a.toList) ∧
      ∀ name ∈ f.typeNames, f.scope.importedType name = none) : f.Lawful where
  named name hname heq := h.1 (heq ▸ hname)
  apart := h.2.1.imp fun h => ⟨fun hin => h.1 hin.isPrefix, fun hin => h.2 hin.isPrefix⟩
  imports name hname fqn hfqn := by
    rw [h.2.2 name hname] at hfqn
    cases hfqn

section Part

variable {whole part : ParsedFile}

/-- What is known of one of the files. -/
structure PartOf (whole part : ParsedFile) : Prop where
  package : part.unit.package = whole.unit.package
  imports : part.unit.imports.map Import.withoutLayout =
    whole.unit.imports.map Import.withoutLayout
  names : ∀ name ∈ part.typeNames, name ∈ whole.typeNames
  apart : part.typeNames.Pairwise fun a b => ¬ Inside a b ∧ ¬ Inside b a

namespace PartOf

theorem packagePrefix (h : PartOf whole part) :
    part.unit.packagePrefix = whole.unit.packagePrefix := by
  rw [CompilationUnit.packagePrefix, CompilationUnit.packagePrefix, h.package]

theorem sameScope (h : PartOf whole part) :
    SameScope whole.source part.source whole.scope part.scope := by
  rw [ParsedFile.scope, ParsedFile.scope, h.package]
  exact sameScope_fileScope _ h.imports.symm

theorem lawful (h : PartOf whole part) (hwhole : whole.Lawful) : part.Lawful where
  named name hname := hwhole.named name (h.names name hname)
  apart := h.apart
  imports name hname fqn hfqn := by
    rw [h.packagePrefix]
    have himports : part.scope.imports = whole.scope.imports :=
      (congrArg Scope.imports h.sameScope.same).symm
    rw [Scope.importedType, himports] at hfqn
    exact hwhole.imports name (h.names name hname) fqn hfqn

/-- The scopes at the top level of both files. -/
theorem scopes (h : PartOf whole part) (hwhole : whole.Lawful) (top : String) :
    (whole.gap hwhole part).Scopes (Inside top) whole.source part.source whole.scope
      part.scope where
  source := rfl
  source' := rfl
  packagePrefix := rfl
  packagePrefix' := h.packagePrefix
  imports := rfl
  imports' := (congrArg Scope.imports h.sameScope.same).symm
  enclosing := rfl
  inside := by simp [ParsedFile.scope, fileScope]
  typeVars := .nil

/-- Two tables that say what the first pass has entered for a type and for the top level. -/
theorem tables (h : PartOf whole part) (hwhole : whole.Lawful) {n n' : Node}
    (hn : n ∈ whole.typeNodes) (hn' : n' ∈ part.typeNodes)
    (hcopy : Copy whole.source part.source n n')
    (htop : whole.scope.topName n = part.scope.topName n') {ds ds' : DeclaredTypes}
    (hds : SameAround (whole.scope.topName n) whole.declared ds)
    (hds' : SameAround (part.scope.topName n') part.declared ds') :
    (whole.gap hwhole part).Tables (Inside (whole.scope.topName n)) ds ds' := by
  have hseparate := hwhole.separate
  have hseparate' := (h.lawful hwhole).separate
  have hprefix : part.scope.packagePrefix = whole.scope.packagePrefix := h.packagePrefix
  have hfound (x : String) : ds.find? "" x =
      if x ∈ whole.typeNames then some (whole.unit.packagePrefix ++ x) else none := by
    rw [← hds.outer, ParsedFile.declared, hseparate.find?_top, whole.typeNames_eq]
    rfl
  have hfound' (x : String) : ds'.find? "" x =
      if x ∈ part.typeNames then some (whole.unit.packagePrefix ++ x) else none := by
    rw [← hds'.outer, ParsedFile.declared, hseparate'.find?_top, part.typeNames_eq, hprefix]
    rfl
  refine ⟨fun {o} ho x => ?_, fun {x} hx => ?_, fun {x} hx => ?_⟩
  · rw [← hds.inner ho, ← hds'.inner (htop ▸ ho), ParsedFile.declared, ParsedFile.declared,
      hseparate.find?_inside hn ho, hseparate'.find?_inside hn' (htop ▸ ho),
      ((h.scopes hwhole "").copy hcopy).declareType hprefix.symm]
  · rw [hfound, hfound']
    by_cases hpart : x ∈ part.typeNames
    · rw [if_pos hpart, if_pos (h.names x hpart)]
    · have hwhole : x ∉ whole.typeNames := fun hmem => hx (by simp [ParsedFile.gap, *])
      rw [if_neg hpart, if_neg hwhole]
  · obtain ⟨hmem, hpart⟩ := List.mem_filter.1 hx
    rw [hfound, hfound', if_pos hmem, if_neg (by simpa using hpart)]
    exact ⟨rfl, rfl⟩

/-- **A type at the top level is read the same** in the whole and in the file that has it. -/
theorem lowerType (h : PartOf whole part) (hwhole : whole.Lawful)
    (hbounds : whole.BoundsWithin part) {n n' : Node} (hn : n ∈ whole.typeNodes)
    (hn' : n' ∈ part.typeNodes) (hcopy : Copy whole.source part.source n n')
    {ds ds' : DeclaredTypes} (hds : SameAround (whole.scope.topName n) whole.declared ds)
    (hds' : SameAround (part.scope.topName n') part.declared ds') (count : Nat) :
    TypesAlike (whole.gap hwhole part).Seen
      [((lowerType whole.scope none n).run ⟨ds, count⟩).1]
      [((lowerType part.scope none n').run ⟨ds', count⟩).1] := by
  have hscopes := h.scopes hwhole (whole.scope.topName n)
  have hname : whole.scope.nameOf n = part.scope.nameOf n' := (hscopes.copy hcopy).nameOf
  have htop : whole.scope.topName n = part.scope.topName n' := by
    rw [Scope.topName, Scope.topName, hname]
    exact congrArg (· ++ _) h.packagePrefix.symm
  have htables := h.tables hwhole hn hn' hcopy htop hds hds'
  have htopName := topName_ne_empty (hwhole.separate.named n hn)
  have hpresent : whole.scope.nameOf n ∉ (whole.gap hwhole part).lacking := fun hlacking => by
    have hmem : part.scope.nameOf n' ∈ part.typeNames := by
      rw [part.typeNames_eq]
      exact List.mem_map_of_mem hn'
    simp [ParsedFile.gap, hname, hmem] at hlacking
  have hwithin : n'.Everywhere ((whole.gap hwhole part).BoundWithin part.source) := by
    have hgap : (whole.gap hwhole part).BoundWithin part.source = fun b => b.kind = "type_bound" →
        ∀ c ∈ b.namedChildren.head?, ¬ whole.Misses part
          (firstSegment (cutDimensions (Erasure.erase (slice part.source c.span))).1) := by
      funext b
      simp only [Gap.BoundWithin, ParsedFile.misses_gap]
    rw [hgap]
    exact hbounds n' hn'
  refine (lowerType_apart hscopes none hcopy hwithin
    (hcopy.children.lowered (.of_name htopName) hwithin.children) (.refl _) (fun ds ds' hds => ?_)
    ⟨ds, count⟩ ⟨ds', count⟩ ⟨htables, rfl⟩).1
  exact hds.declare_top hpresent _

end PartOf

end Part

/-- Each type at the top level is read from the table that the first pass has made. -/
theorem ParsedFile.Lawful.settled {f : ParsedFile} (h : f.Lawful) :
    List.Forall₂ (fun n d => n ∈ f.typeNodes ∧ ∃ ds, SameAround (f.scope.topName n) f.declared ds ∧
        d = ((lowerType f.scope none n).run ⟨ds, 0⟩).1)
      f.typeNodes f.unit.types := by
  have hseparate := h.separate
  have hdeclared : ∀ n ∈ f.typeNodes,
      f.declared.find? "" (f.scope.nameOf n) = some (f.scope.topName n) := fun n hn => by
    rw [ParsedFile.declared, hseparate.find?_top, if_pos (List.mem_map_of_mem hn)]
    rfl
  rw [f.types_eq, List.forall₂_and_left]
  exact ⟨fun n hn => hn, hseparate.lowerTypes_settled (w := ⟨f.declared, 0⟩) hdeclared
    (fun n _ => ⟨fun _ _ => rfl, fun _ => rfl⟩) fun _ => rfl⟩

theorem TypesAlike.of_forall₂ {R : TypeRef → TypeRef → Prop} {ds ds' : List TypeDecl}
    (h : List.Forall₂ (fun d d' => TypesAlike R [d] [d']) ds ds') : TypesAlike R ds ds' := by
  induction h with
  | nil => exact .nil
  | cons hd _ ih => exact TypesAlike.append hd ih

namespace Distribution

variable {whole : ParsedFile} {parts : List ParsedFile}

theorem partOf (h : Distribution whole parts) (hwhole : whole.Lawful) :
    ∀ part ∈ parts, PartOf whole part := by
  intro part hpart
  obtain ⟨rows, hperm, hrows⟩ := h.types
  obtain ⟨row, hrow, hcopies⟩ := exists_mem_of_forall₂ hrows hpart
  have hnames : part.typeNames = row.map whole.scope.nameOf := by
    rw [part.typeNames_eq]
    exact (map_eq_of_forall₂ hcopies fun n _ n' _
      (hcopy : Copy whole.scope.source part.scope.source n n') => hcopy.nameOf).symm
  have hsublist : (row.map whole.scope.nameOf).Sublist (rows.flatten.map whole.scope.nameOf) :=
    (List.sublist_flatten_of_mem hrow).map _
  have hpermNames : (rows.flatten.map whole.scope.nameOf).Perm whole.typeNames := by
    rw [whole.typeNames_eq]
    exact hperm.map _
  refine ⟨h.package part hpart, h.imports part hpart, fun name hname => ?_, ?_⟩
  · exact hpermNames.subset (hsublist.subset (hnames ▸ hname))
  · rw [hnames]
    exact ((hpermNames.pairwise_iff fun h => h.symm).2 hwhole.apart).sublist hsublist

/-- **Each type at the top level is read the same in the file where it stands now.** -/
theorem exists_rows (h : Distribution whole parts) (hwhole : whole.Lawful)
    (hbounds : ∀ part ∈ parts, whole.BoundsWithin part) :
    ∃ rows : List (List TypeDecl), rows.flatten.Perm whole.unit.types ∧
      List.Forall₂ (fun row part =>
          TypesAlike (whole.gap hwhole part).Seen row part.unit.types) rows parts := by
  have hparts := h.partOf hwhole
  obtain ⟨nodes, hperm, hcopies⟩ := h.types
  obtain ⟨types, htypes, hpermTypes⟩ := List.perm_comp_forall₂ hperm hwhole.settled
  obtain ⟨rows, rfl, hrows⟩ := exists_rows_of_forall₂ htypes
  refine ⟨rows, hpermTypes, ?_⟩
  refine .flip (forall₂_comp (forall₂_mem_right hcopies).flip hrows ?_)
  rintro part nodes row ⟨hpart, hcopy⟩ hrow
  have hread := forall₂_comp (T := fun d n' => ∃ n, (n ∈ whole.typeNodes ∧ ∃ ds,
      SameAround (whole.scope.topName n) whole.declared ds ∧
        d = ((lowerType whole.scope none n).run ⟨ds, 0⟩).1) ∧ Copy whole.source part.source n n')
    hrow.flip hcopy fun d n n' hn hcopy => ⟨n, hn, hcopy⟩
  refine .of_forall₂ (forall₂_comp hread ((hparts part hpart).lawful hwhole).settled ?_)
  rintro d n' d' ⟨n, ⟨hn, ds, hds, rfl⟩, hcopy⟩ ⟨hn', ds', hds', rfl⟩
  exact (hparts part hpart).lowerType hwhole (hbounds part hpart) hn hn' hcopy hds hds' 0

end Distribution

end JavaThrows
