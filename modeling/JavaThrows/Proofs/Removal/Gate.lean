import JavaThrows.Proofs.Pattern.Glob
import JavaThrows.Proofs.Removal.Clause
import JavaThrows.Proofs.Removal.Visited
import JavaThrows.Proofs.Text.Split

set_option autoImplicit false

/-!
# The gate changes nothing

Before a file is visited its text is searched for the name that a pattern spells out, and the names
of its methods are compared with the pattern. A file that fails either test is left alone. It would
be left alone by the visit too: each way of matching asks for the name first, and a pattern without
stars matches one name only. All that this needs of a file is that the names of its methods stand in
its text. Main statement: `visitSource_ungated`.
-/

namespace JavaThrows

/-! ## Names in the text -/

/-- The names of the methods occur in the text; a constructor has its name from the class. -/
def CompilationUnit.NamesOccurIn (unit : CompilationUnit) (source : List Char) : Prop :=
  ∀ owned ∈ unit.ownedMethods, owned.2.isConstructor = false →
    Text.contains owned.2.name.toList source

theorem Text.contains_slice (source : List Char) (span : Span) :
    Text.contains (Text.slice source span).toList source := by
  rw [contains_iff_isInfix, slice, String.toList_ofList]
  cases hslice : slice? source span with
  | none => exact List.nil_infix
  | some piece =>
    unfold slice? at hslice
    split at hslice
    · obtain ⟨⟨front, rest⟩, hfront, hrest⟩ := Option.bind_eq_some_iff.1 hslice
      obtain ⟨⟨p, back⟩, hback, rfl⟩ := Option.map_eq_some_iff.1 hrest
      have hsource := (splitAt?_eq_some_iff.1 hfront).1
      have hpiece : rest = p ++ back := (splitAt?_eq_some_iff.1 hback).1
      exact ⟨front, back, by rw [hsource, hpiece, Option.getD_some, List.append_assoc]⟩
    · cases hslice

theorem Scope.contains_nameOf (s : Scope) (n : Cst.Node) :
    Text.contains (s.nameOf n).toList s.source := by
  unfold Scope.nameOf
  cases n.childByField "name" with
  | none => exact Text.contains_iff_isInfix.2 List.nil_infix
  | some name => exact Text.contains_slice s.source name.span

/-- **In a file that has been read the names of the methods occur.** -/
theorem CompilationUnit.namesOccurIn_of_parse {source : List Char} {unit : CompilationUnit}
    (h : CompilationUnit.parse source = .ok unit) : unit.NamesOccurIn source := by
  obtain ⟨root, -, rfl⟩ := CompilationUnit.exists_tree_of_parse h
  have hall : ∀ c ∈ root.children, True := fun _ _ => trivial
  refine forall_ownedMethods_ofTree
    (P := fun m => m.isConstructor = false → Text.contains m.name.toList source)
    (fun _ _ _ => trivial) (fun {n s} ds owner recordParams _ _ _ hs hmethod => ?_) hall
  have hname : (s.method ds owner recordParams n).name =
      (s.withTypeVars (s.typeParams ds n)).nameOf n := by
    unfold Scope.method at hmethod ⊢
    simp only at hmethod ⊢
    rw [hmethod]
    rfl
  rw [hname, ← hs]
  exact Scope.contains_nameOf _ n

namespace Removal

variable (r : Removal) (index : TypeIndex) {source : List Char} {unit : CompilationUnit}

/-! ## What passes the gate -/

theorem nameMatches_of_isMatch {p : MethodPattern} {enclosing : TypeHead} {m : Method}
    (h : p.isMatch index unit enclosing m) : p.nameMatches m := by
  simp only [MethodPattern.isMatch, Bool.and_eq_true] at h
  exact h.1.1

/-- A method that the pattern matches, at whatever depth, is one that the gate looks at. -/
theorem declaresMatch_of_nameMatches {p : MethodPattern} {owned : TypeHead × Method}
    (howned : owned ∈ unit.ownedMethods) (hname : p.nameMatches owned.2) :
    declaresMatch p unit := by
  obtain ⟨d, hd, -, hmethod⟩ := (mem_ownedMethodsOfTypes_iff unit.types).1 howned
  exact List.any_eq_true.2 ⟨d, hd, List.any_eq_true.2 ⟨owned.2, hmethod, hname⟩⟩

/-- A pattern that spells a name out matches methods with this name only. -/
theorem name_eq_of_literalName? {p : MethodPattern} {name : String} {m : Method}
    (hliteral : p.literalName? = some name) (hname : p.nameMatches m) :
    m.isConstructor = false ∧ m.name = name := by
  cases hp : p.name with
  | constructor => simp [MethodPattern.literalName?, hp] at hliteral
  | method glob =>
    simp only [MethodPattern.literalName?, hp] at hliteral
    simp only [MethodPattern.nameMatches, hp, Bool.and_eq_true, Bool.not_eq_true'] at hname
    split at hliteral
    · cases hliteral
    · next hstar =>
      obtain rfl := Option.some.inj hliteral
      exact ⟨hname.1, (Glob.isMatch_iff_eq_text (by simpa using hstar)).1 hname.2⟩

theorem quickReject_eq_false {p : MethodPattern} (hnames : unit.NamesOccurIn source)
    {owned : TypeHead × Method} (howned : owned ∈ unit.ownedMethods)
    (hname : p.nameMatches owned.2) : quickReject p source = false := by
  unfold quickReject
  cases hliteral : p.literalName? with
  | none => rfl
  | some name =>
    obtain ⟨hmethod, rfl⟩ := name_eq_of_literalName? hliteral hname
    simp [hnames owned howned hmethod]

/-- What the gate rejects holds no matching method. -/
theorem not_isMatch_of_rejected (hnames : unit.NamesOccurIn source)
    (hgate : quickReject r.pattern source || !declaresMatch r.pattern unit)
    {owned : TypeHead × Method} (howned : owned ∈ unit.ownedMethods) :
    r.pattern.isMatch index unit owned.1 owned.2 = false := by
  by_contra hmatch
  have hname := nameMatches_of_isMatch index (Bool.not_eq_false _ ▸ hmatch)
  rw [quickReject_eq_false hnames howned hname, declaresMatch_of_nameMatches howned hname] at hgate
  cases hgate

/-- A file without matching methods is left alone. -/
theorem visitUnit_of_forall_not_isMatch
    (h : ∀ owned ∈ unit.ownedMethods, r.pattern.isMatch index unit owned.1 owned.2 = false) :
    r.visitUnit index unit = ⟨none, ⟨[], false⟩⟩ := by
  refine r.visitUnit_eq_untouched index unit ((r.visitUnit_removals_eq_nil_iff index unit).2 ?_)
  intro owned howned
  simp [stripped, h owned howned]

/-- **The gate changes nothing.** A file that the gate rejects has no matching method at any depth,
    by its own type or by a supertype, so the visit alone would have left it as it is. -/
theorem visitSource_ungated (hnames : unit.NamesOccurIn source) :
    r.visitSource index source unit = r.visitUnit index unit ∧
      (quickReject r.pattern source || !declaresMatch r.pattern unit →
        ∀ owned ∈ unit.ownedMethods, r.pattern.isMatch index unit owned.1 owned.2 = false) := by
  refine ⟨?_, fun hgate owned howned => r.not_isMatch_of_rejected index hnames hgate howned⟩
  unfold visitSource
  split
  · next hgate =>
    exact (r.visitUnit_of_forall_not_isMatch index fun owned howned =>
      r.not_isMatch_of_rejected index hnames hgate howned).symm
  · rfl

set_option maxRecDepth 20000 in
/-- A method of an anonymous class in the body of a method passes the gate. The name of the called
    method stands in the text too, but no method has it. -/
theorem visitSource_ungated_anonymous :
    let source :=
      "class A\x7bvoid m()\x7bnew R()\x7bvoid run()throws a.E\x7bgo();\x7d\x7d;\x7d\x7d".toList
    let unit := (CompilationUnit.parse source).toOption.getD default
    let compile (pattern : String) :=
      (Recipe.compile ⟨pattern, "a.E", none⟩).toOption.getD default
    let index := TypeIndex.build [unit]
    unit.NamesOccurIn source ∧
      (((compile "* run()").visitUnit index unit).log.removals.length = 1 ∧
        (compile "* run()").visitSource index source unit =
          (compile "* run()").visitUnit index unit) ∧
      ¬ quickReject (compile "* go()").pattern source ∧
      ¬ declaresMatch (compile "* go()").pattern unit ∧
      ∀ owned ∈ unit.ownedMethods,
        (compile "* go()").pattern.isMatch index unit owned.1 owned.2 = false := by
  intro source unit compile index
  obtain ⟨hparsed, hremovals, hquick, hdeclares⟩ :
      (CompilationUnit.parse source).toOption.isSome ∧
      ((compile "* run()").visitUnit index unit).log.removals.length = 1 ∧
      ¬ quickReject (compile "* go()").pattern source ∧
      ¬ declaresMatch (compile "* go()").pattern unit := by
    decide +kernel
  have hnames : unit.NamesOccurIn source := by
    refine CompilationUnit.namesOccurIn_of_parse ?_
    cases hparse : CompilationUnit.parse source with
    | error e => simp [hparse, Except.toOption] at hparsed
    | ok parsed => simp only [unit, hparse]; rfl
  refine ⟨hnames, ⟨hremovals, ((compile "* run()").visitSource_ungated index hnames).1⟩, hquick,
    hdeclares, ((compile "* go()").visitSource_ungated index hnames).2 ?_⟩
  simp [hdeclares]

end Removal
end JavaThrows
