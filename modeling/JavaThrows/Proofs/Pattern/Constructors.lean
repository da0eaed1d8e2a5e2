import JavaThrows.Proofs.Decl.Constructors
import JavaThrows.Proofs.Pattern.Signatures
import JavaThrows.Proofs.Pattern.Supertypes

set_option autoImplicit false

/-!
# What an overriding method overrides

Where the index has all supertypes of a type, a method of the type is matched as an overriding one
exactly if something above it is declared with its name and parameters. The index does not tell
constructors from methods, so this may be a constructor, if the method is called like the type of
the constructor. Main statement: `isMatch_iff_declaredAbove`.
-/

namespace JavaThrows

variable {units : List CompilationUnit} {unit : CompilationUnit} {enclosing : TypeHead}
  {s : SuperRef}

/-! ## Supertypes that the index has -/

namespace TypeIndex

/-- The supertypes of a type as its file sees them. -/
def superRefs (index : TypeIndex) (unit : CompilationUnit) (enclosing : TypeHead) : List SuperRef :=
  enclosing.supertypes.map (index.superRef unit)

/-- All supertypes of the type are indexed, the direct ones and those above them. -/
def KnowsAbove (index : TypeIndex) (unit : CompilationUnit) (enclosing : TypeHead) : Prop :=
  ∀ s, index.Reachable (index.superRefs unit enclosing) s → s.resolved

theorem isSome_get?_of_superRef {index : TypeIndex} {type : TypeRef}
    (h : (index.superRef unit type).resolved) :
    (index.get? (index.superRef unit type).name).isSome := by
  rw [superRef] at h ⊢
  split at h
  · rwa [← contains_eq_isSome_get?]
  · cases h

theorem KnowsAbove.isSome_get? (h : (build units).KnowsAbove unit enclosing)
    (hs : (build units).Reachable ((build units).superRefs unit enclosing) s) :
    ((build units).get? s.name).isSome := by
  have hresolved := h s hs
  -- Each reference has been made for the index, at the start as well as above.
  cases hs with
  | start hs =>
    obtain ⟨type, -, rfl⟩ := List.mem_map.1 hs
    exact isSome_get?_of_superRef hresolved
  | follow _ hget ht =>
    obtain ⟨other, -, d, -, -, rfl⟩ := exists_decl_of_get?_build hget
    obtain ⟨type, -, rfl⟩ := List.mem_map.1 ht
    exact isSome_get?_of_superRef hresolved

/-- Whether all supertypes are among the given ones: the direct ones, and with each of the given
    ones those above it. -/
def coversAbove (index : TypeIndex) (unit : CompilationUnit) (enclosing : TypeHead)
    (known : List SuperRef) : Bool :=
  (index.superRefs unit enclosing).all known.contains && known.all fun s =>
    s.resolved && ((index.get? s.name).all fun summary => summary.supertypes.all known.contains)

theorem knowsAbove_of_coversAbove {index : TypeIndex} {known : List SuperRef}
    (h : index.coversAbove unit enclosing known) : index.KnowsAbove unit enclosing := by
  simp only [coversAbove, Bool.and_eq_true, List.all_eq_true, List.contains_iff_mem] at h
  obtain ⟨hstarts, hknown⟩ := h
  have hcovers : ∀ s, index.Reachable (index.superRefs unit enclosing) s → s ∈ known := by
    intro s hs
    induction hs with
    | start hs => exact hstarts _ hs
    | follow _ hget ht ih =>
      have habove := (hknown _ ih).2
      rw [hget, Option.all_some, List.all_eq_true] at habove
      exact List.contains_iff_mem.1 (habove _ ht)
  intro s hs
  exact (hknown s (hcovers s hs)).1

end TypeIndex

/-! ## Declarations above a method -/

namespace MethodPattern

variable {p : MethodPattern} {m declared : Method} {d : TypeDecl}

/-- In a supertype that the pattern matches, direct or not, a method or constructor is declared with
    the name of the given method and with parameters that accept its erased ones. -/
structure DeclaredAbove (p : MethodPattern) (units : List CompilationUnit) (unit : CompilationUnit)
    (enclosing : TypeHead) (m : Method) (d : TypeDecl) (declared : Method) : Prop where
  above : ∃ s, (TypeIndex.build units).Reachable
    ((TypeIndex.build units).superRefs unit enclosing) s ∧ s.name = d.fqn
  matched : p.target.isMatch d.fqn
  declares : declared ∈ d.methods
  indexed : ∃ file ∈ units, d ∈ file.allTypes ∧
    (TypeIndex.build units).get? d.fqn = some ((TypeIndex.build units).summarize file d) ∧
    ((TypeIndex.build units).signature file declared).accepts m.name
      (erasedParams (TypeIndex.build units) unit m)

theorem DeclaredAbove.name_eq (h : p.DeclaredAbove units unit enclosing m d declared) :
    declared.name = m.name := by
  obtain ⟨file, -, -, -, haccepts⟩ := h.indexed
  exact (TypeIndex.signature_accepts_iff.1 haccepts).1

/-- A constructor is declared only above a method that is called like the type. -/
theorem DeclaredAbove.head_name_eq
    (hparsed : ∀ file ∈ units, ∃ source, CompilationUnit.parse source = .ok file)
    (h : p.DeclaredAbove units unit enclosing m d declared)
    (hconstructor : declared.isConstructor) : d.head.name = m.name := by
  obtain ⟨file, hfile, hd, -, -⟩ := h.indexed
  obtain ⟨source, hparse⟩ := hparsed file hfile
  rw [← CompilationUnit.name_of_isConstructor hparse hd h.declares hconstructor, h.name_eq]

/-- Among indexed supertypes, one settles the question exactly if something is declared there. -/
theorem exists_overridesAt_iff (hknown : (TypeIndex.build units).KnowsAbove unit enclosing) :
    (∃ s, (TypeIndex.build units).Reachable ((TypeIndex.build units).superRefs unit enclosing) s ∧
      p.OverridesAt (TypeIndex.build units) m (erasedParams (TypeIndex.build units) unit m)
        s.name) ↔
      ∃ d declared, p.DeclaredAbove units unit enclosing m d declared := by
  constructor
  · rintro ⟨s, hs, hmatch, hdeclares | hforeign⟩
    · obtain ⟨summary, hget, hdeclares⟩ := hdeclares
      obtain ⟨file, hfile, d, hd, hfqn, rfl⟩ := TypeIndex.exists_decl_of_get?_build hget
      obtain ⟨signature, hsignature, haccepts⟩ := List.any_eq_true.1 hdeclares
      obtain ⟨declared, hdeclared, rfl⟩ := List.mem_map.1 hsignature
      rw [← hfqn] at hmatch hget
      exact ⟨d, declared, ⟨s, hs, hfqn.symm⟩, hmatch, hdeclared, file, hfile, hd, hget, haccepts⟩
    · have hindexed := hknown.isSome_get? hs
      rw [hforeign.1] at hindexed
      cases hindexed
  · rintro ⟨d, declared, ⟨s, hs, hname⟩, hmatch, hdeclared, file, -, -, hget, haccepts⟩
    rw [← hname] at hmatch hget
    refine ⟨s, hs, hmatch, .inl ⟨_, hget, List.any_eq_true.2 ⟨_, ?_, haccepts⟩⟩⟩
    exact List.mem_map_of_mem hdeclared

/-- **What is above an overriding method.** In a type that the pattern does not match and with all
    supertypes indexed, a method is matched exactly if overriding methods count, its own name and
    parameters fit, and in a supertype that the pattern matches either a method is declared with the
    same name that accepts its parameters, or the supertype is called like the method and has a
    constructor that accepts them. -/
theorem isMatch_iff_declaredAbove
    (hparsed : ∀ file ∈ units, ∃ source, CompilationUnit.parse source = .ok file)
    (hown : ¬ p.target.isMatch enclosing.fqn)
    (hknown : (TypeIndex.build units).KnowsAbove unit enclosing) :
    p.isMatch (TypeIndex.build units) unit enclosing m ↔
      (p.matchOverrides ∧ ¬ m.isConstructor ∧ p.nameMatches m ∧
        argsMatch p.args (erasedParams (TypeIndex.build units) unit m)) ∧
      ((∃ d declared, p.DeclaredAbove units unit enclosing m d declared ∧
          ¬ declared.isConstructor) ∨
        ∃ d declared, p.DeclaredAbove units unit enclosing m d declared ∧
          declared.isConstructor ∧ d.head.name = m.name) := by
  -- No reference is unresolved, so the walk decides by what is reachable.
  have hwalks : p.WalksKnown (TypeIndex.build units) m
      (erasedParams (TypeIndex.build units) unit m)
      ((TypeIndex.build units).superRefs unit enclosing) := by
    intro s hs hunresolved
    have hresolved := hknown s (reachable_of_mem_walked hs)
    simp [hunresolved] at hresolved
  have habove : (∃ d declared, p.DeclaredAbove units unit enclosing m d declared) ↔
      (∃ d declared, p.DeclaredAbove units unit enclosing m d declared ∧
          ¬ declared.isConstructor) ∨
        ∃ d declared, p.DeclaredAbove units unit enclosing m d declared ∧
          declared.isConstructor ∧ d.head.name = m.name := by
    constructor
    · rintro ⟨d, declared, h⟩
      by_cases hconstructor : declared.isConstructor
      · exact .inr ⟨d, declared, h, hconstructor, h.head_name_eq hparsed hconstructor⟩
      · exact .inl ⟨d, declared, h, hconstructor⟩
    · rintro (⟨d, declared, h, -⟩ | ⟨d, declared, h, -, -⟩)
      · exact ⟨d, declared, h⟩
      · exact ⟨d, declared, h⟩
  rw [← habove, ← exists_overridesAt_iff hknown,
    ← p.matchesSupertype_iff (TypeIndex.build units) m _ hwalks]
  simp only [isMatch, hown, TypeIndex.superRefs, Bool.and_eq_true, Bool.false_or,
    Bool.not_eq_true', Bool.not_eq_true]
  tauto

/-- A method that overrides a method. -/
theorem isMatch_iff_declaredAbove_method :
    let source := "class A\x7bvoid f()\x7b\x7d\x7dclass B extends A\x7bvoid f()\x7b\x7d\x7d".toList
    let unit := (CompilationUnit.parse source).toOption.getD default
    let p := ((Recipe.compile ⟨"A f()", "a.E", none⟩).toOption.getD default).pattern
    (CompilationUnit.parse source).toOption.isSome ∧
      ∃ b ∈ unit.allTypes, ∃ m ∈ b.methods, ¬ p.target.isMatch b.head.fqn ∧
        (TypeIndex.build [unit]).KnowsAbove unit b.head ∧
        ∃ d declared, p.DeclaredAbove [unit] unit b.head m d declared ∧
          ¬ declared.isConstructor := by
  intro source unit p
  obtain ⟨hparse, hmethods, b, hb, m, hm, hown, hmatch, hcovers⟩ :
      (CompilationUnit.parse source).toOption.isSome ∧
      (∀ d ∈ unit.allTypes, ∀ m ∈ d.methods, ¬ m.isConstructor) ∧
      ∃ b ∈ unit.allTypes, ∃ m ∈ b.methods, ¬ p.target.isMatch b.head.fqn ∧
        p.isMatch (TypeIndex.build [unit]) unit b.head m ∧
        (TypeIndex.build [unit]).coversAbove unit b.head [⟨"A", true⟩] := by
    decide +kernel
  have hknown := TypeIndex.knowsAbove_of_coversAbove hcovers
  refine ⟨hparse, b, hb, m, hm, hown, hknown, ?_⟩
  rcases ((isMatch_iff_declaredAbove (parsed_singleton hparse) hown hknown).1 hmatch).2 with h | h
  · exact h
  · obtain ⟨d, declared, habove, hconstructor, -⟩ := h
    obtain ⟨file, hfile, hd, -, -⟩ := habove.indexed
    rw [List.mem_singleton.1 hfile] at hd
    exact absurd hconstructor (hmethods d hd declared habove.declares)

/-- A method that is called like its superclass is matched as overriding the constructor. -/
theorem isMatch_over_constructor :
    let source := ("class f\x7bf()\x7b\x7d\x7dclass A extends f\x7b" ++
      "void f()throws a.E\x7b\x7d\x7d").toList
    let unit := (CompilationUnit.parse source).toOption.getD default
    let p := ((Recipe.compile ⟨"f f()", "a.E", none⟩).toOption.getD default).pattern
    (CompilationUnit.parse source).toOption.isSome ∧
      ∃ a ∈ unit.allTypes, ∃ m ∈ a.methods, ¬ p.target.isMatch a.head.fqn ∧
        (TypeIndex.build [unit]).KnowsAbove unit a.head ∧
        p.isMatch (TypeIndex.build [unit]) unit a.head m ∧
        ∀ d declared, p.DeclaredAbove [unit] unit a.head m d declared →
          declared.isConstructor := by
  intro source unit p
  obtain ⟨hparse, hconstructors, a, ha, m, hm, hown, hmatch, hcovers⟩ :
      (CompilationUnit.parse source).toOption.isSome ∧
      (∀ d ∈ unit.allTypes, p.target.isMatch d.fqn → ∀ m ∈ d.methods, m.isConstructor) ∧
      ∃ a ∈ unit.allTypes, ∃ m ∈ a.methods, ¬ p.target.isMatch a.head.fqn ∧
        p.isMatch (TypeIndex.build [unit]) unit a.head m ∧
        (TypeIndex.build [unit]).coversAbove unit a.head [⟨"f", true⟩] := by
    decide +kernel
  have hknown := TypeIndex.knowsAbove_of_coversAbove hcovers
  refine ⟨hparse, a, ha, m, hm, hown, hknown, hmatch, ?_⟩
  intro d declared habove
  obtain ⟨file, hfile, hd, -, -⟩ := habove.indexed
  rw [List.mem_singleton.1 hfile] at hd
  exact hconstructors d hd habove.matched declared habove.declares

end MethodPattern
end JavaThrows
