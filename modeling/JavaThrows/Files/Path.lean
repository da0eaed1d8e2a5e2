import JavaThrows.Text.Split

set_option autoImplicit false

/-!
# Paths as text

A path is text, and slashes separate its pieces. What a path denotes is up to the file tree; here
are only the operations that look at nothing but the text. Empty pieces and points inside a path
say nothing and are idle; a point at the front counts, and so does the root.

Main statement: `length_of_parent?_eq_some`, cutting the last component off makes a path shorter, so
going from a path to its parent again and again comes to an end.
-/

namespace JavaThrows.Path

/-- A part of a path that says something. -/
inductive Component where
  | root
  /-- A point at the front. -/
  | here
  /-- Two points. -/
  | up
  | name (text : String)
deriving DecidableEq, Repr

/-! ## Components -/

/-- The component that a piece inside a path is; none for an idle one. -/
def componentOf (piece : List Char) : Option Component :=
  if piece = [] ∨ piece = ['.'] then none
  else if piece = ['.', '.'] then some .up
  else some (.name (String.ofList piece))

def isAbsolute (path : String) : Bool :=
  path.toList.head? == some '/'

def components (path : String) : List Component :=
  let pieces := Text.splitOn '/' path.toList
  let front := match pieces with
    | [] :: _ :: _ => [Component.root]
    | ['.'] :: _ => [Component.here]
    | _ => []
  front ++ pieces.filterMap componentOf

/-- The last component, where it is a name. -/
def fileName? (path : String) : Option String :=
  match (components path).getLast? with
  | some (.name text) => some text
  | _ => none

/-- What stands behind the last point of the file name; a point at the front does not count. -/
def fileExtension? (path : String) : Option String :=
  match (fileName? path).bind fun name => Text.cutLast '.' name.toList with
  | some (_ :: _, ending) => some (String.ofList ending)
  | _ => none

/-! ## Joining and cutting -/

/-- The path `tail` as seen from the directory `path`. -/
def join (path tail : String) : String :=
  if isAbsolute tail || path.isEmpty then tail
  else if path.toList.getLast? = some '/' then path ++ tail
  else path ++ "/" ++ tail

/-- Drop the idle pieces from the end of a path, given as its pieces in reverse. -/
def dropIdle : List (List Char) → List (List Char)
  | [] => []
  | [piece] => if piece = [] then [] else [piece]
  | piece :: pieces =>
    if piece = [] ∨ piece = ['.'] then dropIdle pieces else piece :: pieces

/-- The path without its last component; none where there is no component but the root. -/
def parent? (path : String) : Option String :=
  match dropIdle (Text.splitOn '/' path.toList).reverse with
  | [] => none
  | _ :: front =>
    match dropIdle front with
    | [] => some (if isAbsolute path then "/" else "")
    | kept => some (String.ofList (List.intercalate ['/'] kept.reverse))

theorem dropIdle_suffix (pieces : List (List Char)) : dropIdle pieces <:+ pieces := by
  fun_induction dropIdle pieces with
  | case1 => exact List.suffix_refl _
  | case2 => exact List.nil_suffix
  | case3 => exact List.suffix_refl _
  | case4 piece pieces _ _ ih => exact ih.trans (List.suffix_cons piece pieces)
  | case5 => exact List.suffix_refl _

theorem ne_nil_of_dropIdle_eq_cons {pieces front : List (List Char)} {piece : List Char}
    (h : dropIdle pieces = piece :: front) : piece ≠ [] := by
  fun_induction dropIdle pieces with
  | case1 => simp at h
  | case2 => simp at h
  | case3 p hp => simp at h; exact h.1 ▸ hp
  | case4 _ _ _ _ ih => exact ih h
  | case5 p ps _ hp => simp at h; exact h.1 ▸ fun hnil => hp (.inl hnil)

theorem length_intercalate_append {xs ys : List (List Char)} (hxs : xs ≠ []) (hys : ys ≠ []) :
    (List.intercalate ['/'] (xs ++ ys)).length =
      (List.intercalate ['/'] xs).length + 1 + (List.intercalate ['/'] ys).length := by
  induction xs with
  | nil => exact absurd rfl hxs
  | cons x xs ih =>
    cases xs with
    | nil =>
      cases ys with
      | nil => exact absurd rfl hys
      | cons y ys => simp [List.intercalate, List.intersperse]; omega
    | cons x' xs =>
      have := ih (by simp)
      simp [List.intercalate, List.intersperse] at this ⊢
      omega

theorem length_le_intercalate (x : List Char) (xs : List (List Char)) :
    x.length ≤ (List.intercalate ['/'] (x :: xs)).length := by
  cases xs <;> simp [List.intercalate, List.intersperse]

/-- **The parent of a path is shorter than the path.** -/
theorem length_of_parent?_eq_some {path parent : String} (h : parent? path = some parent) :
    parent.length < path.length := by
  rw [parent?] at h
  split at h
  · simp at h
  next piece front hcut =>
    obtain ⟨idle, hidle⟩ := dropIdle_suffix (Text.splitOn '/' path.toList).reverse
    rw [hcut] at hidle
    have hpieces : Text.splitOn '/' path.toList = front.reverse ++ piece :: idle.reverse := by
      rw [← List.reverse_reverse (Text.splitOn '/' path.toList), ← hidle]
      simp
    have hpath := Text.intercalate_splitOn '/' path.toList
    rw [hpieces] at hpath
    have hlen : path.length = path.toList.length := String.length_toList.symm
    rw [← hpath] at hlen
    have hpiece : 0 < piece.length := List.length_pos_iff.2 (ne_nil_of_dropIdle_eq_cons hcut)
    have hend := length_le_intercalate piece idle.reverse
    split at h
    · simp only [Option.some.injEq] at h
      subst h
      by_cases hfront : front = []
      · subst hfront
        have habs : isAbsolute path = false := by
          cases hc : path.toList with
          | nil => simp [isAbsolute, hc]
          | cons c cs =>
            by_cases hslash : c = '/'
            · simp [hslash, hc, Text.splitOn] at hpieces
              rw [hpieces.1] at hpiece
              simp at hpiece
            · simp [isAbsolute, hc, hslash]
        simp only [List.reverse_nil, List.nil_append] at hlen
        simp [habs]
        omega
      · rw [length_intercalate_append (by simpa using hfront) (by simp)] at hlen
        have : "/".length = 1 := rfl
        have : "".length = 0 := rfl
        split <;> omega
    next hkept =>
      simp only [Option.some.injEq] at h
      subst h
      obtain ⟨gone, hgone⟩ := dropIdle_suffix front
      have hfront : front.reverse = (dropIdle front).reverse ++ gone.reverse := by
        rw [← List.reverse_append, hgone]
      rw [hfront, List.append_assoc,
        length_intercalate_append (by simpa using hkept) (by simp)] at hlen
      simp only [String.length_ofList]
      omega

/-! ## Showing -/

/-- Drop all copies of a piece that a text starts with. -/
def dropCopies (piece : List Char) : Nat → List Char → List Char
  | 0, cs => cs
  | n + 1, cs =>
    match Text.afterStart? piece cs with
    | some rest => dropCopies piece n rest
    | none => cs

/-- A path as it is shown to the user: slashes only, and no leading mark of a long path or of the
    current directory. -/
def display (path : String) : String :=
  let text := dropCopies "\\\\?\\".toList path.length path.toList
  let text := text.map fun c => if c = '\\' then '/' else c
  String.ofList ((Text.afterStart? "./".toList text).getD text)

end JavaThrows.Path
