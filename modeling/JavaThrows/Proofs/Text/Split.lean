import JavaThrows.Text.Split

set_option autoImplicit false

/-!
# Text put together and cut apart again

Splitting at a separator undoes joining with it, as long as no piece holds the separator, and the
pieces of a split never do.
-/

namespace JavaThrows.Text

variable {sep : Char}

theorem splitOn_eq_listSplitOn (sep : Char) (cs : List Char) :
    splitOn sep cs = cs.splitOn sep := by
  induction cs with
  | nil => rfl
  | cons c cs ih =>
    rw [List.splitOn_cons_eq_if_modifyHead, splitOn, ih]
    by_cases hc : c = sep
    · simp [hc]
    · rw [if_neg hc, if_neg (by simpa using hc)]
      cases hsplit : cs.splitOn sep with
      | nil => exact absurd hsplit (List.splitOn_ne_nil sep cs)
      | cons piece pieces => rfl

theorem splitOn_of_notMem {cs : List Char} (h : sep ∉ cs) : splitOn sep cs = [cs] := by
  rw [splitOn_eq_listSplitOn, List.splitOn_eq_singleton h]

theorem splitOn_append_cons {piece : List Char} (h : sep ∉ piece) (cs : List Char) :
    splitOn sep (piece ++ sep :: cs) = piece :: splitOn sep cs := by
  rw [splitOn_eq_listSplitOn, List.splitOn_append_cons_self_of_not_mem h, splitOn_eq_listSplitOn]

theorem splitOn_cons_self (cs : List Char) : splitOn sep (sep :: cs) = [] :: splitOn sep cs :=
  splitOn_append_cons List.not_mem_nil cs

/-- A text with a separator in it has the pieces of what is before it and then those of what is
    after it. -/
theorem splitOn_append_sep_cons (front back : List Char) :
    splitOn sep (front ++ sep :: back) = splitOn sep front ++ splitOn sep back := by
  induction front with
  | nil => exact splitOn_cons_self back
  | cons c front ih =>
    rw [List.cons_append, splitOn, splitOn, ih]
    split
    · rfl
    · cases hfront : splitOn sep front with
      | nil => exact absurd hfront (splitOn_ne_nil sep front)
      | cons piece pieces => rfl

/-- Pieces that are joined by a separator and a filler come apart with the filler in front. -/
theorem splitOn_intercalate_cons {filler : List Char} (hfiller : sep ∉ filler)
    {piece : List Char} {pieces : List (List Char)} (h : ∀ p ∈ piece :: pieces, sep ∉ p) :
    splitOn sep (List.intercalate (sep :: filler) (piece :: pieces)) =
      piece :: pieces.map (filler ++ ·) := by
  induction pieces generalizing piece with
  | nil =>
    rw [List.intercalate_singleton, splitOn_of_notMem (h piece List.mem_cons_self)]
    rfl
  | cons next pieces ih =>
    obtain ⟨hpiece, hnext, hrest⟩ := by simpa only [List.forall_mem_cons] using h
    have hfilled : sep ∉ filler ++ next := by simp [hfiller, hnext]
    have hjoined : List.intercalate (sep :: filler) (piece :: next :: pieces) =
        piece ++ sep :: List.intercalate (sep :: filler) ((filler ++ next) :: pieces) := by
      cases pieces <;> simp [List.intercalate_cons_cons]
    rw [hjoined, splitOn_append_cons hpiece, ih (List.forall_mem_cons.2 ⟨hfilled, hrest⟩)]
    rfl

theorem splitOn_intercalate {pieces : List (List Char)} (hne : pieces ≠ [])
    (h : ∀ p ∈ pieces, sep ∉ p) : splitOn sep (List.intercalate [sep] pieces) = pieces := by
  obtain ⟨piece, pieces, rfl⟩ := List.exists_cons_of_ne_nil hne
  rw [splitOn_intercalate_cons List.not_mem_nil h]
  exact congrArg _ (List.map_id pieces)

/-- A character behind the text goes to its last piece. -/
theorem exists_splitOn_concat {c : Char} (hc : c ≠ sep) (cs : List Char) :
    ∃ front last, splitOn sep cs = front ++ [last] ∧
      splitOn sep (cs ++ [c]) = front ++ [last ++ [c]] := by
  induction cs with
  | nil => exact ⟨[], [], rfl, by simp [splitOn, hc]⟩
  | cons d cs ih =>
    obtain ⟨front, last, hsplit, hlonger⟩ := ih
    by_cases hd : d = sep
    · exact ⟨[] :: front, last, by simp [splitOn, hd, hsplit], by simp [splitOn, hd, hlonger]⟩
    · cases front with
      | nil => exact ⟨[], d :: last, by simp [splitOn, hd, hsplit], by simp [splitOn, hd, hlonger]⟩
      | cons piece front =>
        exact ⟨(d :: piece) :: front, last, by simp [splitOn, hd, hsplit],
          by simp [splitOn, hd, hlonger]⟩

theorem mem_intercalate {joint : List Char} {pieces : List (List Char)} {c : Char}
    (h : c ∈ List.intercalate joint pieces) : c ∈ joint ∨ ∃ piece ∈ pieces, c ∈ piece := by
  induction pieces with
  | nil => simp at h
  | cons piece pieces ih =>
    cases pieces with
    | nil => exact .inr ⟨piece, List.mem_cons_self, by simpa using h⟩
    | cons next pieces =>
      rw [List.intercalate_cons_cons, List.mem_append, List.mem_append] at h
      rcases h with (h | h) | h
      · exact .inr ⟨piece, List.mem_cons_self, h⟩
      · exact .inl h
      · refine (ih h).imp_right ?_
        rintro ⟨p, hp, hc⟩
        exact ⟨p, List.mem_cons_of_mem piece hp, hc⟩

theorem intercalate_cons_ne_nil (joint : List Char) {piece : List Char} (h : piece ≠ [])
    (pieces : List (List Char)) : List.intercalate joint (piece :: pieces) ≠ [] := by
  cases pieces <;> simp [h]

theorem intercalate_concat (joint : List Char) {pieces : List (List Char)} (h : pieces ≠ [])
    (last : List Char) :
    List.intercalate joint (pieces ++ [last]) = List.intercalate joint pieces ++ joint ++ last := by
  induction pieces with
  | nil => contradiction
  | cons piece pieces ih =>
    cases pieces with
    | nil => simp [List.intercalate_cons_cons]
    | cons next pieces =>
      have htail := ih (List.cons_ne_nil next pieces)
      simp only [List.cons_append, List.intercalate_cons_cons] at htail ⊢
      rw [htail]
      simp only [List.append_assoc]

theorem mem_head?_intercalate {joint : List Char} {pieces : List (List Char)} {c : Char}
    (hne : ∀ piece ∈ pieces, piece ≠ []) (h : c ∈ (List.intercalate joint pieces).head?) :
    ∃ piece ∈ pieces, c ∈ piece := by
  cases pieces with
  | nil => simp at h
  | cons piece pieces =>
    refine ⟨piece, List.mem_cons_self, List.mem_of_mem_head? (?_ : c ∈ piece.head?)⟩
    obtain ⟨d, ds, rfl⟩ := List.exists_cons_of_ne_nil (hne piece List.mem_cons_self)
    cases pieces with
    | nil => simpa using h
    | cons next pieces => simpa [List.intercalate_cons_cons] using h

theorem mem_getLast?_intercalate {joint : List Char} {pieces : List (List Char)} {c : Char}
    (hne : ∀ piece ∈ pieces, piece ≠ []) (h : c ∈ (List.intercalate joint pieces).getLast?) :
    ∃ piece ∈ pieces, c ∈ piece := by
  induction pieces with
  | nil => simp at h
  | cons piece pieces ih =>
    cases pieces with
    | nil => exact ⟨piece, List.mem_cons_self, List.mem_of_mem_getLast? (by simpa using h)⟩
    | cons next pieces =>
      rw [List.forall_mem_cons] at hne
      have hrest := intercalate_cons_ne_nil joint (hne.2 next List.mem_cons_self) pieces
      rw [List.intercalate_cons_cons, List.getLast?_append, List.getLast?_eq_some_getLast hrest,
        Option.some_or, ← List.getLast?_eq_some_getLast hrest] at h
      obtain ⟨p, hp, hc⟩ := ih hne.2 h
      exact ⟨p, List.mem_cons_of_mem piece hp, hc⟩

/-- The pieces hold no separator, and nothing that the text does not hold. -/
theorem mem_of_mem_splitOn {cs piece : List Char} (hpiece : piece ∈ splitOn sep cs) {c : Char}
    (hc : c ∈ piece) : c ∈ cs ∧ c ≠ sep := by
  induction cs generalizing piece with
  | nil =>
    rw [splitOn, List.mem_singleton] at hpiece
    simp [hpiece] at hc
  | cons d cs ih =>
    rw [splitOn] at hpiece
    split at hpiece
    · rcases List.mem_cons.1 hpiece with rfl | hpiece
      · cases hc
      · exact ⟨List.mem_cons_of_mem d (ih hpiece hc).1, (ih hpiece hc).2⟩
    · next hd =>
      split at hpiece
      · next hsplit => exact absurd hsplit (splitOn_ne_nil sep cs)
      · next first rest hsplit =>
        rw [hsplit] at ih
        rcases List.mem_cons.1 hpiece with rfl | hpiece
        · rcases List.mem_cons.1 hc with rfl | hc
          · exact ⟨List.mem_cons_self, hd⟩
          · have hmem := ih List.mem_cons_self hc
            exact ⟨List.mem_cons_of_mem d hmem.1, hmem.2⟩
        · have hmem := ih (List.mem_cons_of_mem first hpiece) hc
          exact ⟨List.mem_cons_of_mem d hmem.1, hmem.2⟩

theorem cutFirst_of_notMem {cs : List Char} (h : sep ∉ cs) : cutFirst sep cs = none := by
  induction cs with
  | nil => rfl
  | cons c cs ih =>
    rw [List.mem_cons, not_or] at h
    rw [cutFirst, if_neg (Ne.symm h.1), ih h.2, Option.map_none]

theorem cutFirst_append_cons {front : List Char} (h : sep ∉ front) (cs : List Char) :
    cutFirst sep (front ++ sep :: cs) = some (front, cs) := by
  induction front with
  | nil => rw [List.nil_append, cutFirst, if_pos rfl]
  | cons c front ih =>
    rw [List.mem_cons, not_or] at h
    rw [List.cons_append, cutFirst, if_neg (Ne.symm h.1), ih h.2, Option.map_some]

theorem cutLast_of_notMem {cs : List Char} (h : sep ∉ cs) : cutLast sep cs = none := by
  rw [cutLast, cutFirst_of_notMem (by simpa using h), Option.map_none]

theorem eq_append_of_cutFirst {cs front back : List Char}
    (h : cutFirst sep cs = some (front, back)) : cs = front ++ sep :: back := by
  induction cs generalizing front with
  | nil => cases h
  | cons c cs ih =>
    rw [cutFirst] at h
    split at h
    · next hc =>
      simp only [Option.some.injEq, Prod.mk.injEq] at h
      obtain ⟨rfl, rfl⟩ := h
      rw [hc, List.nil_append]
    · obtain ⟨⟨rest, _⟩, hrest, heq⟩ := Option.map_eq_some_iff.1 h
      simp only [Prod.mk.injEq] at heq
      obtain ⟨rfl, rfl⟩ := heq
      rw [ih hrest, List.cons_append]

theorem notMem_of_cutFirst_eq_none {cs : List Char} (h : cutFirst sep cs = none) : sep ∉ cs := by
  intro hmem
  obtain ⟨front, back, rfl, hfront⟩ := List.eq_append_cons_of_mem hmem
  rw [cutFirst_append_cons hfront] at h
  cases h

theorem notMem_of_cutFirst {cs front back : List Char} (h : cutFirst sep cs = some (front, back)) :
    sep ∉ front := by
  have hmem : sep ∈ cs := by simp [eq_append_of_cutFirst h]
  obtain ⟨front', back', rfl, hfront'⟩ := List.eq_append_cons_of_mem hmem
  rw [cutFirst_append_cons hfront'] at h
  rwa [← (Prod.mk.inj (Option.some.inj h)).1]

theorem eq_append_of_cutLast {cs front back : List Char}
    (h : cutLast sep cs = some (front, back)) : cs = front ++ sep :: back := by
  obtain ⟨⟨last, rest⟩, hcut, heq⟩ := Option.map_eq_some_iff.1 h
  simp only [Prod.mk.injEq] at heq
  obtain ⟨rfl, rfl⟩ := heq
  rw [← List.reverse_inj, eq_append_of_cutFirst hcut]
  simp

theorem cutLast_append_cons {back : List Char} (h : sep ∉ back) (front : List Char) :
    cutLast sep (front ++ sep :: back) = some (front, back) := by
  have hreverse : (front ++ sep :: back).reverse = back.reverse ++ sep :: front.reverse := by
    simp
  rw [cutLast, hreverse, cutFirst_append_cons (by simpa using h), Option.map_some,
    List.reverse_reverse, List.reverse_reverse]

theorem afterStart?_append (piece cs : List Char) : afterStart? piece (piece ++ cs) = some cs := by
  induction piece with
  | nil => rfl
  | cons c piece ih => rw [List.cons_append, afterStart?, if_pos rfl, ih]

theorem eq_append_of_afterStart? {piece cs rest : List Char}
    (h : afterStart? piece cs = some rest) : cs = piece ++ rest := by
  fun_induction afterStart? piece cs with
  | case1 cs => exact Option.some.inj h
  | case2 => cases h
  | case3 ps c cs ih => rw [ih h, List.cons_append]
  | case4 => cases h

theorem beforeEnd?_append (piece cs : List Char) : beforeEnd? piece (cs ++ piece) = some cs := by
  rw [beforeEnd?, List.reverse_append, afterStart?_append, Option.map_some, List.reverse_reverse]

theorem eq_append_of_beforeEnd? {piece cs rest : List Char}
    (h : beforeEnd? piece cs = some rest) : cs = rest ++ piece := by
  obtain ⟨reversed, hstart, rfl⟩ := Option.map_eq_some_iff.1 h
  rw [← List.reverse_inj, eq_append_of_afterStart? hstart, List.reverse_append,
    List.reverse_reverse]

/-- A text that ends in another character does not end with the piece. -/
theorem beforeEnd?_concat_of_ne {c d : Char} (h : d ≠ c) (piece cs : List Char) :
    beforeEnd? (piece ++ [d]) (cs ++ [c]) = none := by
  simp [beforeEnd?, afterStart?, h]

theorem contains_iff_isInfix {piece cs : List Char} : contains piece cs ↔ piece <:+: cs := by
  induction cs with
  | nil => rw [contains, List.isEmpty_iff, List.infix_nil]
  | cons c cs ih =>
    rw [contains, Bool.or_eq_true, List.isPrefixOf_iff_prefix, ih, List.infix_cons_iff]

/-! ## Array dimensions -/

theorem brackets_succ (n : Nat) : brackets (n + 1) = brackets n ++ ['[', ']'] := by
  induction n with
  | zero => rfl
  | succ n ih => exact congrArg (fun cs => '[' :: ']' :: cs) ih

theorem mem_brackets {n : Nat} {c : Char} (h : c ∈ brackets n) : c = '[' ∨ c = ']' := by
  induction n with
  | zero => cases h
  | succ n ih =>
    rw [brackets, List.mem_cons, List.mem_cons] at h
    rcases h with h | h | h
    · exact .inl h
    · exact .inr h
    · exact ih h

theorem brackets_add (m n : Nat) : brackets (m + n) = brackets m ++ brackets n := by
  induction m with
  | zero => simp [brackets]
  | succ m ih =>
    rw [Nat.add_right_comm, brackets, brackets, ih]
    rfl

theorem count_brackets (n : Nat) : (brackets n).count '[' = n := by
  induction n with
  | zero => rfl
  | succ n ih => simp [brackets, ih]

theorem brackets_inj {m n : Nat} : brackets m = brackets n ↔ m = n := by
  refine ⟨fun heq => ?_, congrArg brackets⟩
  rw [← count_brackets m, heq, count_brackets]

theorem cutDimensions_append (type : String) :
    (cutDimensions type).1 ++ (cutDimensions type).2 = type := by
  rw [← String.toList_inj, String.toList_append, cutDimensions, String.toList_ofList,
    String.toList_ofList, List.takeWhile_append_dropWhile]

/-- Dimensions that are added do not change what is before the first of them. -/
theorem cutDimensions_append_brackets (type : String) (n : Nat) :
    (cutDimensions (type ++ String.ofList (brackets n))).1 = (cutDimensions type).1 := by
  have hbrackets : (brackets n).takeWhile (· != '[') = [] := by
    cases n <;> simp [brackets]
  rw [cutDimensions, cutDimensions, String.toList_append, String.toList_ofList,
    List.takeWhile_append, hbrackets, List.append_nil]
  split
  · next hlength => rw [(List.takeWhile_prefix _).eq_of_length hlength]
  · rfl

theorem snd_cutDimensions_append_brackets (type : String) (n : Nat) :
    (cutDimensions (type ++ String.ofList (brackets n))).2 =
      (cutDimensions type).2 ++ String.ofList (brackets n) := by
  rw [← String.append_right_inj (cutDimensions type).1, ← String.append_assoc,
    cutDimensions_append, ← cutDimensions_append_brackets type n, cutDimensions_append]

/-! ## Segments of names -/

theorem firstSegment_of_notMem {name : String} (h : '.' ∉ name.toList) :
    firstSegment name = name := by
  rw [firstSegment, splitOn_of_notMem h]
  exact String.ofList_toList

theorem firstSegment_of_eq_append {name : String} {front back : List Char} (h : '.' ∉ front)
    (hname : name.toList = front ++ '.' :: back) : firstSegment name = String.ofList front := by
  rw [firstSegment, hname, splitOn_append_cons h]
  rfl

theorem isSimple_append_brackets (name : String) (n : Nat) :
    isSimple (name ++ String.ofList (brackets n)) = isSimple name := by
  have hbrackets : '.' ∉ brackets n := fun h => by simpa using mem_brackets h
  simp [isSimple, hbrackets]

end JavaThrows.Text
