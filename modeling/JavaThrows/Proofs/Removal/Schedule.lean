import Mathlib.Data.List.Forall2
import JavaThrows.Proofs.Removal.Visited
import JavaThrows.Proofs.TypeIndex
import JavaThrows.Removal.Recipe

set_option autoImplicit false

/-!
# The order of the files does not matter

Many files are visited at the same time, all of them against the index of the files as they were
read. They might as well be visited one after another, in any order and each against the index of
the files as they are by then: a visit takes entries of throws clauses and imports of single types
away, and the summary of a type depends on neither. Main statement: `visitInOrder_eq_map`.
-/

namespace JavaThrows.Removal

variable (r : Removal)

/-! ## The index of visited files -/

theorem signature_visited (named index : TypeIndex) (unit : CompilationUnit) (enclosing : TypeHead)
    (m : Method) :
    named.signature (r.visited index unit) (r.stripped index unit enclosing m) =
      named.signature unit m := by
  have hname : (r.stripped index unit enclosing m).name = m.name := by
    unfold stripped
    split <;> rfl
  have hparams : (r.stripped index unit enclosing m).params = m.params := by
    unfold stripped
    split <;> rfl
  simp only [TypeIndex.signature, hname, hparams, erasure_visited]

theorem summarize_visited (named index : TypeIndex) (unit : CompilationUnit) (d : TypeDecl) :
    named.summarize (r.visited index unit) (d.mapMethods (r.stripped index unit)) =
      named.summarize unit d := by
  have hsupertypes := funext (r.superRef_visited index unit named)
  have hmethods : (d.mapMethods (r.stripped index unit)).methods.map
      (named.signature (r.visited index unit)) = d.methods.map (named.signature unit) := by
    rw [TypeDecl.methods_mapMethods, List.map_map]
    exact List.map_congr_left fun m _ => r.signature_visited named index unit d.head m
  rw [TypeIndex.summarize, TypeIndex.summarize, TypeDecl.fqn, TypeDecl.head_mapMethods, hsupertypes,
    hmethods]
  rfl

/-- Any of the files, maybe none and maybe all, are replaced by what a visit leaves of them. -/
def PartlyVisited (units mixed : List CompilationUnit) : Prop :=
  List.Forall₂ (fun before now => now = before ∨ ∃ index, now = r.visited index before) units mixed

/-- Replacing files by their visited versions does not change the index. -/
theorem PartlyVisited.build_eq {units mixed : List CompilationUnit}
    (h : r.PartlyVisited units mixed) : TypeIndex.build mixed = TypeIndex.build units := by
  refine TypeIndex.build_congr fun named => ?_
  induction h with
  | nil => rfl
  | @cons before now _ _ hnow _ ih =>
    rw [List.flatMap_cons, List.flatMap_cons, ih]
    obtain rfl | ⟨index, rfl⟩ := hnow
    · rfl
    · rw [visited_allTypes, List.map_map]
      congr 1
      exact List.map_congr_left fun d _ => r.summarize_visited named index before d

/-! ## One file after another -/

/-- Visit the file at a place in the list, against the index of the files as they are now. -/
def visitAt (units : List CompilationUnit) (place : Nat) : List CompilationUnit :=
  units.modify place (r.visited (.build units))

/-- Visit the files at the given places, one after another. -/
def visitInOrder (units : List CompilationUnit) (order : List Nat) : List CompilationUnit :=
  order.foldl r.visitAt units

/-- The files of which those at the given places have been visited against the index of all files
    as they were at first. -/
def visitedAt (units : List CompilationUnit) (places : List Nat) : List CompilationUnit :=
  units.mapIdx fun place unit =>
    if place ∈ places then r.visited (.build units) unit else unit

theorem getElem?_visitedAt (units : List CompilationUnit) (places : List Nat) (i : Nat) :
    (r.visitedAt units places)[i]? =
      units[i]?.map fun unit => if i ∈ places then r.visited (.build units) unit else unit := by
  rw [visitedAt, List.getElem?_mapIdx]

theorem visitedAt_nil (units : List CompilationUnit) : r.visitedAt units [] = units := by
  refine List.ext_getElem? fun i => ?_
  simp [getElem?_visitedAt]

theorem partlyVisited_visitedAt (units : List CompilationUnit) (places : List Nat) :
    r.PartlyVisited units (r.visitedAt units places) := by
  refine List.forall₂_of_length_eq_of_get (by simp [visitedAt]) fun i hi _ => ?_
  simp only [visitedAt, List.get_eq_getElem, List.getElem_mapIdx]
  split
  · exact .inr ⟨_, rfl⟩
  · exact .inl rfl

/-- One more visit, whether the file has been visited before or not. -/
theorem visitAt_visitedAt (units : List CompilationUnit) (places : List Nat) (place : Nat) :
    r.visitAt (r.visitedAt units places) place = r.visitedAt units (place :: places) := by
  rw [visitAt, (r.partlyVisited_visitedAt units places).build_eq]
  refine List.ext_getElem? fun i => ?_
  rw [List.getElem?_modify, getElem?_visitedAt, getElem?_visitedAt]
  by_cases hplace : place = i
  · by_cases hvisited : i ∈ places
    · simp [hplace, hvisited, Function.comp_def, visited_visited]
    · simp [hplace, hvisited]
  · simp [hplace, Ne.symm hplace]

/-- **Visits one after another** come to the same as visits of the same files at once. -/
theorem visitInOrder_visitedAt (units : List CompilationUnit) (places order : List Nat) :
    r.visitInOrder (r.visitedAt units places) order =
      r.visitedAt units (order.reverse ++ places) := by
  induction order generalizing places with
  | nil => rfl
  | cons place order ih =>
    rw [visitInOrder, List.foldl_cons, visitAt_visitedAt, ← visitInOrder, ih, List.reverse_cons,
      List.append_assoc, List.singleton_append]

theorem visitedAt_of_forall_mem {units : List CompilationUnit} {places : List Nat}
    (h : ∀ place < units.length, place ∈ places) :
    r.visitedAt units places = units.map (r.visited (.build units)) := by
  refine List.ext_getElem (by simp [visitedAt]) fun i hi _ => ?_
  have hmem : i ∈ places := h i (by simpa [visitedAt] using hi)
  simp [visitedAt, hmem]

/-- **The order of the files does not matter.** Whichever of the files are replaced by their visited
    versions, the index of all files stays the same, and a name in a visited file denotes what it
    has denoted before. So visits one after another, in any order in which each file has its turn,
    and with a new index of the files before each of them, leave the same files as visits of all
    files against the first index. -/
theorem visitInOrder_eq_map (units : List CompilationUnit) :
    (∀ mixed, r.PartlyVisited units mixed →
      TypeIndex.build mixed = TypeIndex.build units ∧
        ∀ index unit type, (TypeIndex.build mixed).resolve (r.visited index unit) type =
          (TypeIndex.build units).resolve unit type) ∧
      ∀ order, (∀ place < units.length, place ∈ order) →
        r.visitInOrder units order = units.map (r.visited (.build units)) := by
  constructor
  · intro mixed hmixed
    rw [hmixed.build_eq]
    exact ⟨rfl, fun index unit type => r.resolve_visited index unit _ type⟩
  · intro order hall
    have hrun := r.visitInOrder_visitedAt units [] order
    rw [visitedAt_nil, List.append_nil] at hrun
    rw [hrun, r.visitedAt_of_forall_mem fun place hplace => List.mem_reverse.2 (hall place hplace)]

set_option maxRecDepth 20000 in
/-- An interface and a class that implements it, the class first: both lose the exception. -/
theorem visitInOrder_eq_map_two_files :
    let parse (source : String) := (CompilationUnit.parse source.toList).toOption.getD default
    let units := [parse "interface T\x7bvoid f()throws a.E;\x7d",
      parse "import a.E;class S implements T\x7bpublic void f()throws E\x7b\x7d\x7d"]
    let r := (Recipe.compile ⟨"T f()", "a.E", none⟩).toOption.getD default
    let index := TypeIndex.build units
    let mixed := [units[0], r.visited index units[1]]
    (∀ unit ∈ units, (r.visitUnit index unit).log.removals.length = 1) ∧
      r.PartlyVisited units mixed ∧ TypeIndex.build mixed = index ∧
      r.visitInOrder units [1, 0] = units.map (r.visited index) := by
  intro parse units r index mixed
  have hchanged : ∀ unit ∈ units, (r.visitUnit index unit).log.removals.length = 1 := by
    decide +kernel
  have hmixed : r.PartlyVisited units mixed :=
    .cons (.inl rfl) (.cons (.inr ⟨index, rfl⟩) .nil)
  exact ⟨hchanged, hmixed, ((r.visitInOrder_eq_map units).1 mixed hmixed).1,
    (r.visitInOrder_eq_map units).2 [1, 0] (by decide)⟩

end JavaThrows.Removal
