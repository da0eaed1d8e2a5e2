import JavaThrows.Proofs.Decl.TopLevel

set_option autoImplicit false

/-!
# The members of a type one by one

The walk takes the members of a type in the order of the source, and what it meets in the body of
one of them it has entered in the table before it comes to the next one. So the header of a method
is read from a table that has grown since the type was opened, by members of this type and by what
is inside of them. Main statement: `exists_table_of_mem`.
-/

namespace JavaThrows

open Cst

/-! ## Rows of members -/

/-- The members in a row of nodes. Those behind the constants of an enum stand one level deeper. -/
def memberNodes (ns : List Node) : List Node :=
  ns.flatMap fun n =>
    if n.named && n.kind == "enum_body_declarations" then n.children else [n]

theorem memberNodes_cons (n : Node) (ns : List Node) :
    memberNodes (n :: ns) =
      (if n.named && n.kind == "enum_body_declarations" then n.children else [n]) ++
        memberNodes ns :=
  List.flatMap_cons

section Rows

variable (s : Scope) (owner ownerName : String) (recordParams : List Param)

theorem lowerMembers_cons (n : Node) (ns : List Node) :
    lowerMembers s owner ownerName recordParams (n :: ns) = do
      let here ← lowerMembers s owner ownerName recordParams [n]
      let others ← lowerMembers s owner ownerName recordParams ns
      return here ++ others := by
  obtain ⟨kind, field, named, span, children⟩ := n
  rw [lowerMembers, lowerMembers, lowerMembers]
  split_ifs
  · simp only [pure_bind, List.append_nil]
  · simp only [bind_assoc, pure_bind, List.append_nil]
  · simp only [bind_assoc, pure_bind, List.append_nil]
  · simp only [bind_assoc, pure_bind, List.append_nil]
  · rw [bind_assoc]
    refine bind_congr fun created => ?_
    split
    · simp only [pure_bind, List.append_nil]
    · simp only [bind_assoc, pure_bind, List.append_nil]
  · simp only [bind_assoc, pure_bind, List.append_nil]

theorem lowerMembers_append (as bs : List Node) :
    lowerMembers s owner ownerName recordParams (as ++ bs) = do
      let front ← lowerMembers s owner ownerName recordParams as
      let back ← lowerMembers s owner ownerName recordParams bs
      return front ++ back := by
  induction as with
  | nil => simp [lowerMembers]
  | cons n as ih =>
    rw [List.cons_append, lowerMembers_cons, ih, lowerMembers_cons s owner ownerName _ n as]
    simp only [bind_assoc, pure_bind, List.append_assoc]

theorem run_lowerMembers_append (as bs : List Node) (w : Walk) :
    let front := (lowerMembers s owner ownerName recordParams as).run w
    let back := (lowerMembers s owner ownerName recordParams bs).run front.2
    (lowerMembers s owner ownerName recordParams (as ++ bs)).run w =
      (front.1 ++ back.1, back.2) := by
  rw [lowerMembers_append]
  rfl

theorem lowerMembers_declarations {n : Node} (h : n.named ∧ n.kind = "enum_body_declarations") :
    lowerMembers s owner ownerName recordParams [n] =
      lowerMembers s owner ownerName recordParams n.children := by
  obtain ⟨kind, field, named, span, children⟩ := n
  obtain ⟨rfl, rfl⟩ : named = true ∧ kind = "enum_body_declarations" := h
  rw [lowerMembers, lowerMembers]
  simp [isMethodNode, isTypeNode]

/-- The walk does not see the level between. -/
theorem lowerMembers_memberNodes (ns : List Node) :
    lowerMembers s owner ownerName recordParams (memberNodes ns) =
      lowerMembers s owner ownerName recordParams ns := by
  induction ns with
  | nil => rfl
  | cons n ns ih =>
    rw [memberNodes_cons, lowerMembers_append, ih, lowerMembers_cons s owner ownerName _ n ns]
    split
    · next h =>
      simp only [Bool.and_eq_true, beq_iff_eq] at h
      rw [lowerMembers_declarations s owner ownerName recordParams h]
    · rfl

/-! ### What one node yields -/

/-- A method is read from the table that the walk has come to it with. -/
theorem lowerMembers_method {n : Node} (h : n.named ∧ isMethodNode n.kind) (w : Walk) :
    ((lowerMembers s owner ownerName recordParams [n]).run w).1 =
      [.method (s.method w.declared ownerName recordParams n)
        ((lowerLocals (s.withTypeVars (s.typeParams w.declared n)) owner isBody n.children).run
          w).1] := by
  obtain ⟨kind, field, named, span, children⟩ := n
  obtain ⟨rfl, hmethod⟩ : named = true ∧ isMethodNode kind := h
  rw [lowerMembers, lowerMembers, if_neg (by decide), if_pos hmethod]
  rfl

theorem isMethodNode_not_type {kind : String} (h : isMethodNode kind) :
    ¬ isTypeNode kind ∧ kind ≠ "enum_body_declarations" := by
  simp only [isMethodNode, List.contains_iff_mem, List.mem_cons, List.not_mem_nil, or_false] at h
  rcases h with rfl | rfl | rfl <;> decide

theorem lowerMembers_type {n : Node} (h : n.named ∧ isTypeNode n.kind) (w : Walk) :
    ((lowerMembers s owner ownerName recordParams [n]).run w).1 =
      [.type ((lowerType s (some owner) n).run w).1] := by
  obtain ⟨kind, field, named, span, children⟩ := n
  obtain ⟨rfl, htype⟩ : named = true ∧ isTypeNode kind := h
  have hmethod : ¬ isMethodNode kind := fun h => (isMethodNode_not_type h).1 htype
  rw [lowerMembers, lowerMembers, if_neg (by decide), if_neg hmethod, if_pos htype]
  rfl

theorem lowerInside_type {n : Node} (h : isTypeNode n.kind) (w : Walk) :
    ((lowerInside s owner [n]).run w).1 = [((lowerType s (some owner) n).run w).1] := by
  obtain ⟨kind, field, named, span, children⟩ := n
  rw [lowerInside, lowerInside, if_pos h]
  rfl

end Rows

theorem declareMembers_append (s : Scope) (parent : Option String) (ds : DeclaredTypes)
    (as bs : List Node) :
    declareMembers s parent ds (as ++ bs) =
      declareMembers s parent (declareMembers s parent ds as) bs := by
  induction as generalizing ds with
  | nil => rw [List.nil_append, declareMembers]
  | cons n as ih =>
    obtain ⟨kind, field, named, span, children⟩ := n
    rw [List.cons_append, declareMembers, declareMembers, ih]

/-- Nor does the first pass. -/
theorem declareMembers_memberNodes (s : Scope) (parent : Option String) (ds : DeclaredTypes)
    (ns : List Node) :
    declareMembers s parent ds (memberNodes ns) = declareMembers s parent ds ns := by
  induction ns generalizing ds with
  | nil => rfl
  | cons n ns ih =>
    have hcons := declareMembers_append s parent ds [n] ns
    rw [List.singleton_append] at hcons
    rw [memberNodes_cons, declareMembers_append, ih, hcons]
    split
    · next h =>
      obtain ⟨kind, field, named, span, children⟩ := n
      rw [declareMembers, if_pos (Bool.and_eq_true_iff.1 h).2, declareMembers]
    · rfl

theorem lowerInside_cons (s : Scope) (owner : String) (n : Node) (ns : List Node) :
    lowerInside s owner (n :: ns) = do
      let here ← lowerInside s owner [n]
      let others ← lowerInside s owner ns
      return here ++ others := by
  obtain ⟨kind, field, named, span, children⟩ := n
  rw [lowerInside, lowerInside, lowerInside]
  split_ifs
  · simp only [bind_assoc, pure_bind, List.append_nil]
  · rw [bind_assoc]
    refine bind_congr fun created => ?_
    split
    · simp only [bind_assoc, pure_bind, List.append_nil]
    · simp only [pure_bind, List.append_nil]
  · simp only [bind_assoc, pure_bind, List.append_nil]

/-! ## The table at a member -/

/-- **The table from which the header of a method is read** has got the types in the members in
    front of it, and what is inside of them. -/
theorem exists_table_of_mem (s : Scope) (owner ownerName : String) (recordParams : List Param)
    {ns : List Node} {n : Node} (hmem : n ∈ ns) (hmethod : n.named ∧ isMethodNode n.kind)
    (w : Walk) :
    ∃ ds front locals back,
      ((lowerMembers s owner ownerName recordParams ns).run w).1 =
        front ++ .method (s.method ds ownerName recordParams n) locals :: back ∧
      EntersTypes owner (typesOfMembers front) w.declared ds := by
  obtain ⟨before, after, rfl⟩ := List.append_of_mem hmem
  have henters := lowerMembers_enters s owner ownerName recordParams before w
  have hhere := lowerMembers_method s owner ownerName recordParams hmethod
    ((lowerMembers s owner ownerName recordParams before).run w).2
  rw [List.append_cons, List.append_assoc, run_lowerMembers_append, run_lowerMembers_append, hhere]
  exact ⟨_, _, _, _, rfl, henters⟩

end JavaThrows
