import JavaThrows.Proofs.Decl.TypeVariables
import JavaThrows.Proofs.TypeIndex
import JavaThrows.Removal.Recipe
import Mathlib.Data.List.Forall2

set_option autoImplicit false

/-!
# What an indexed method accepts

Of a method the index keeps its name and, for each parameter, the erasure, or just a mark where the
type of the parameter names a type variable. So a parameter with the mark takes every reference type
(`TypeIndex.Takes`), whatever dimensions it has been declared with: an array of a type variable is
taken for the variable itself. Main statement: `accepts_depth_iff`.
-/

namespace JavaThrows

/-- A method is accepted if each of its parameters accepts what is passed in its place. -/
theorem MethodSignature.accepts_iff {m : MethodSignature} {name : String} {params : List String} :
    m.accepts name params ↔
      m.name = name ∧ List.Forall₂ (fun p actual => p.accepts actual) m.params params := by
  simp only [accepts, Bool.and_eq_true, beq_iff_eq, List.all_eq_true, List.forall₂_iff_zip]
  constructor
  · rintro ⟨⟨hname, hlength⟩, hall⟩
    exact ⟨hname, hlength, fun {p actual} hmem => hall (p, actual) hmem⟩
  · rintro ⟨hname, hlength, hall⟩
    exact ⟨⟨hname, hlength⟩, fun _ hmem => hall hmem⟩

theorem parsed_singleton {source : List Char} (h : (CompilationUnit.parse source).toOption.isSome) :
    ∀ unit ∈ [(CompilationUnit.parse source).toOption.getD default],
      ∃ source, CompilationUnit.parse source = .ok unit := by
  intro unit hunit
  rw [List.mem_singleton.1 hunit]
  exact ⟨source, eq_ok_getD_of_isSome h⟩

/-- How many dimensions an erased type has. -/
def arrayDepth (type : String) : Nat :=
  (Text.cutDimensions type).2.toList.count '['

namespace TypeIndex

variable {units : List CompilationUnit} {index : TypeIndex} {unit : CompilationUnit} {m : Method}
  {fqn name : String} {params : List String} {summary : TypeSummary} {signature : MethodSignature}

/-! ## The parameters of an indexed method -/

/-- The erased types that are accepted for a parameter: every reference type if the type of the
    parameter names a type variable, and otherwise only its erasure. -/
def Takes (index : TypeIndex) (unit : CompilationUnit) (p : Param) (actual : String) : Prop :=
  if p.type.typeVar then actual ∉ JavaLang.primitives else actual = index.erasure unit p.type

theorem signature_accepts_iff : (index.signature unit m).accepts name params ↔
    m.name = name ∧ List.Forall₂ (index.Takes unit) m.params params := by
  have htakes : ∀ (p : Param) (actual : String),
      ((if p.type.typeVar then .typeVar else .exact (index.erasure unit p.type) : ParamType).accepts
        actual = true) ↔ index.Takes unit p actual := by
    intro p actual
    rw [Takes]
    split
    · rw [ParamType.accepts, Bool.not_eq_true', ← Bool.not_eq_true, List.contains_iff_mem]
    · rw [ParamType.accepts, beq_iff_eq, eq_comm]
  rw [MethodSignature.accepts_iff, signature, List.forall₂_map_left_iff]
  simp only [htakes]

/-- A method accepts, among others, the erasures of its parameters with `actual` in the places of
    type variables. -/
theorem signature_accepts_fill {actual : String} (h : actual ∉ JavaLang.primitives) :
    (index.signature unit m).accepts m.name (m.params.map fun p =>
      if p.type.typeVar then actual else index.erasure unit p.type) := by
  rw [signature_accepts_iff, List.forall₂_map_right_iff, List.forall₂_same]
  refine ⟨rfl, fun p _ => ?_⟩
  rw [Takes]
  split
  · exact h
  · rfl

/-- What the index knows of a type is the summary of one of its declarations. -/
theorem exists_decl_of_get?_build (h : (build units).get? fqn = some summary) :
    ∃ unit ∈ units, ∃ d ∈ unit.allTypes, d.fqn = fqn ∧
      summary = (build units).summarize unit d := by
  have hfqn := (of_get?_eq_some h).2
  rw [get?_build_eq_getLast?] at h
  obtain ⟨hmem, -⟩ := List.mem_filter.1 (List.mem_of_getLast? h)
  obtain ⟨unit, hunit, hmem⟩ := List.mem_flatMap.1 hmem
  obtain ⟨d, hd, rfl⟩ := List.mem_map.1 hmem
  exact ⟨unit, hunit, d, hd, hfqn, rfl⟩

/-- Every indexed signature is that of a method of the type, as its own file sees it. -/
theorem exists_method_of_mem_methods (h : (build units).get? fqn = some summary)
    (hsignature : signature ∈ summary.methods) :
    ∃ unit ∈ units, ∃ d ∈ unit.allTypes, d.fqn = fqn ∧ ∃ m ∈ d.methods,
      signature = (build units).signature unit m := by
  obtain ⟨unit, hunit, d, hd, hfqn, rfl⟩ := exists_decl_of_get?_build h
  obtain ⟨m, hm, rfl⟩ := List.mem_map.1 hsignature
  exact ⟨unit, hunit, d, hd, hfqn, m, hm, rfl⟩

/-- **Which types an indexed method accepts for a type variable.** Where the type of a parameter
    names a variable, what is accepted for it is a reference type; that it always has as many
    dimensions as the parameter is declared with holds for parameters declared without any, and for
    no others. -/
theorem accepts_depth_iff
    (hparsed : ∀ unit ∈ units, ∃ source, CompilationUnit.parse source = .ok unit)
    (hget : (build units).get? fqn = some summary) (hsignature : signature ∈ summary.methods) :
    ∃ unit ∈ units, ∃ d ∈ unit.allTypes, ∃ m ∈ unit.scopedMethods,
      d.fqn = fqn ∧ m.method ∈ d.methods ∧ signature = (build units).signature unit m.method ∧
      ∀ (i : Nat) (p : Param), m.method.params[i]? = some p →
        (p.type.variableIn m.lists).isSome →
        (∀ name params, signature.accepts name params →
          ∃ actual, params[i]? = some actual ∧ actual ∉ JavaLang.primitives) ∧
        ((∀ name params actual, signature.accepts name params → params[i]? = some actual →
            arrayDepth p.type.erased ≤ arrayDepth actual) ↔ arrayDepth p.type.erased = 0) := by
  obtain ⟨unit, hunit, d, hd, hfqn, m, hm, rfl⟩ := exists_method_of_mem_methods hget hsignature
  obtain ⟨source, hparse⟩ := hparsed unit hunit
  obtain ⟨lists, hscoped⟩ := CompilationUnit.exists_scoped hd hm
  have hread := CompilationUnit.read_of_mem_scopedMethods hparse _ hscoped
  refine ⟨unit, hunit, d, hd, ⟨m, lists⟩, hscoped, hfqn, hm, rfl, ?_⟩
  intro i p hp hvariable
  have hvar : p.type.typeVar := by
    rw [(hread.attributedTo (List.mem_of_getElem? hp)).typeVar]
    exact hvariable
  refine ⟨?_, ?_⟩
  · intro name params haccepts
    obtain ⟨-, hall⟩ := signature_accepts_iff.1 haccepts
    obtain ⟨hi, rfl⟩ := List.getElem?_eq_some_iff.1 hp
    have htakes := hall.get hi (hall.length_eq ▸ hi)
    rw [Takes, List.get_eq_getElem, if_pos hvar] at htakes
    exact ⟨_, List.getElem?_eq_getElem _, htakes⟩
  · constructor
    · intro h
      -- A type without dimensions is accepted whatever the variable is declared with.
      have hplain : "A" ∉ JavaLang.primitives := by decide
      refine Nat.le_zero.1 (h m.name _ "A" (signature_accepts_fill hplain) ?_)
      rw [List.getElem?_map, hp, Option.map_some, if_pos hvar]
    · intro h _ _ _ _ _
      rw [h]
      exact Nat.zero_le _

/-- A parameter that is a variable, and one that is an array of it. -/
theorem accepts_depth_iff_two_variables :
    let source := "interface I<T>\x7bvoid f(T t,T[] ts);\x7d".toList
    let unit := (CompilationUnit.parse source).toOption.getD default
    (CompilationUnit.parse source).toOption.isSome ∧
      ∃ summary, (build [unit]).get? "I" = some summary ∧ ∃ signature ∈ summary.methods,
        ¬ ∀ name params actual, signature.accepts name params → params[1]? = some actual →
          1 ≤ arrayDepth actual := by
  intro source unit
  obtain ⟨hparse, ⟨summary, hget, signature, hsignature, -⟩, hparams⟩ :
      (CompilationUnit.parse source).toOption.isSome ∧
      (∃ summary ∈ (build [unit]).get? "I", ∃ signature ∈ summary.methods, signature.name = "f") ∧
      ∀ m ∈ unit.scopedMethods, ∃ p ∈ m.method.params[1]?, (p.type.variableIn m.lists).isSome ∧
        arrayDepth p.type.erased = 1 := by
    decide +kernel
  obtain ⟨u, hu, -, -, m, hm, -, -, -, hdepth⟩ :=
    accepts_depth_iff (parsed_singleton hparse) hget hsignature
  rw [List.mem_singleton.1 hu] at hm
  obtain ⟨p, hp, hvariable, hone⟩ := hparams m hm
  have hexact := (hdepth 1 p hp hvariable).2
  rw [hone] at hexact
  exact ⟨hparse, summary, hget, signature, hsignature, fun h => absurd (hexact.1 h) (by decide)⟩

set_option maxRecDepth 20000 in
/-- A method that takes a text is accepted for one that takes an array, and so it is matched as
    overriding it. -/
theorem accepts_text_for_array_of_variable :
    let source := ("interface I<T>\x7bvoid f(T[] t);\x7dclass A implements I<String>\x7b" ++
      "void f(String s)throws a.E\x7b\x7dpublic void f(String[] t)\x7b\x7d\x7d").toList
    let unit := (CompilationUnit.parse source).toOption.getD default
    let index := build [unit]
    let pattern := ((Recipe.compile ⟨"I f(..)", "a.E", none⟩).toOption.getD default).pattern
    (CompilationUnit.parse source).toOption.isSome ∧
      ∃ summary ∈ index.get? "I", ∃ signature ∈ summary.methods,
        (∃ m ∈ unit.scopedMethods, signature = index.signature unit m.method ∧
          ∃ p ∈ m.method.params[0]?, (p.type.variableIn m.lists).isSome ∧
            arrayDepth p.type.erased = 1) ∧
        signature.accepts "f" ["java.lang.String"] ∧ arrayDepth "java.lang.String" = 0 ∧
        ∃ d ∈ unit.allTypes, d.fqn = "A" ∧ ∃ m ∈ d.methods,
          MethodPattern.erasedParams index unit m = ["java.lang.String"] ∧
          pattern.isMatch index unit d.head m := by
  decide +kernel

end TypeIndex
end JavaThrows
