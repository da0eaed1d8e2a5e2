import JavaThrows.Pattern.MethodPattern
import JavaThrows.TypeIndex

set_option autoImplicit false

/-!
# Which methods a pattern matches

A method matches by its name, its erased parameters and the type that declares it. If overriding
methods count, it also matches where some supertype, direct or not, fits the type pattern and
declares the same signature. A supertype that the index does not have can only be believed: there
the method has to say that it overrides something.
-/

namespace JavaThrows

/-! ## Walking up the supertypes -/

/-- How many supertypes the types hold that have not been visited yet. -/
def unvisitedSupertypes (visited : List String) : List TypeSummary → Nat
  | [] => 0
  | s :: ss =>
    (if visited.contains s.fqn then 0 else s.supertypes.length) + unvisitedSupertypes visited ss

theorem unvisitedSupertypes_cons_le (name : String) (visited : List String)
    (summaries : List TypeSummary) :
    unvisitedSupertypes (name :: visited) summaries ≤ unvisitedSupertypes visited summaries := by
  induction summaries with
  | nil => simp [unvisitedSupertypes]
  | cons s ss ih =>
    simp only [unvisitedSupertypes]
    by_cases h : visited.contains s.fqn
    · simp_all
    · by_cases hn : s.fqn = name
      · simp_all; omega
      · simp_all

theorem unvisitedSupertypes_add_le {s : TypeSummary} {visited : List String}
    {summaries : List TypeSummary} (hs : s ∈ summaries) (hv : visited.contains s.fqn = false) :
    unvisitedSupertypes (s.fqn :: visited) summaries + s.supertypes.length ≤
      unvisitedSupertypes visited summaries := by
  induction summaries with
  | nil => simp at hs
  | cons t ts ih =>
    have hle := unvisitedSupertypes_cons_le s.fqn visited ts
    simp only [unvisitedSupertypes]
    rcases List.mem_cons.1 hs with rfl | hmem
    · simp_all; omega
    · have := ih hmem
      by_cases h : visited.contains t.fqn
      · simp_all
      · by_cases hn : t.fqn = s.fqn
        · simp_all; omega
        · simp_all; omega

/-- Whether a supertype with the wanted property is reached from the waiting ones, following the
    supertypes of indexed types breadth first and each name once. `indexed` decides on a type that
    the index has, and `foreign` on a name that it does not have. -/
def reaches (index : TypeIndex) (indexed : SuperRef → TypeSummary → Bool)
    (foreign : SuperRef → Bool) (visited : List String) : List SuperRef → Bool
  | [] => false
  | s :: waiting =>
    if _hv : visited.contains s.name then reaches index indexed foreign visited waiting
    else
      match _hg : (if s.resolved then index.get? s.name else none) with
      | some summary =>
        indexed s summary ||
          reaches index indexed foreign (s.name :: visited) (waiting ++ summary.supertypes)
      | none => foreign s || reaches index indexed foreign (s.name :: visited) waiting
termination_by waiting => waiting.length + unvisitedSupertypes visited index.summaries
decreasing_by
  · simp
  · have hget : index.get? s.name = some summary := by
      revert _hg; split <;> simp
    obtain ⟨hmem, hfqn⟩ := TypeIndex.of_get?_eq_some hget
    have hfresh : visited.contains summary.fqn = false := by rw [hfqn]; simpa using _hv
    have := unvisitedSupertypes_add_le hmem hfresh
    rw [hfqn] at this
    simp; omega
  · have := unvisitedSupertypes_cons_le s.name visited index.summaries
    simp; omega

/-! ## Matching -/

/-- Whether the pattern of a single argument matches an erased parameter. -/
def ArgPattern.isMatch : ArgPattern → String → Bool
  | .type pattern, param => pattern.isMatch param
  | _, _ => true

namespace MethodPattern

/-- The name alone: constructors by the mark for them, methods by the glob. -/
def nameMatches (p : MethodPattern) (m : Method) : Bool :=
  match p.name with
  | .constructor => m.isConstructor
  | .method glob => !m.isConstructor && glob.isMatch m.name

/-- Whether the patterns of the arguments match erased parameters, in order and with nothing left
    over. -/
def argsMatch : List ArgPattern → List String → Bool :=
  rowMatch (· == .anyRun) ArgPattern.isMatch

/-- The erased parameters of a method as seen from its file. -/
def erasedParams (index : TypeIndex) (unit : CompilationUnit) (m : Method) : List String :=
  m.params.map fun p => index.erasure unit p.type

/-- Whether a method of a type with these supertypes overrides one that the pattern matches. -/
def matchesSupertype (p : MethodPattern) (index : TypeIndex) (m : Method) (params : List String)
    (supertypes : List SuperRef) : Bool :=
  reaches index
    (fun s summary => p.target.isMatch s.name && summary.declares m.name params)
    (fun s => p.target.isMatch s.name && m.hasAnnotation "Override") [] supertypes

/-- Whether the pattern matches a method that the type declares itself. -/
def isMatch (p : MethodPattern) (index : TypeIndex) (unit : CompilationUnit)
    (enclosing : TypeHead) (m : Method) : Bool :=
  let params := erasedParams index unit m
  p.nameMatches m && argsMatch p.args params &&
    (p.target.isMatch enclosing.fqn ||
      (p.matchOverrides && !m.isConstructor &&
        p.matchesSupertype index m params (enclosing.supertypes.map (index.superRef unit))))

end MethodPattern
end JavaThrows
