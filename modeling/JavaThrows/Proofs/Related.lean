import Mathlib.Data.List.Forall2

set_option autoImplicit false

/-!
# Related rows

What is looked up in two rows whose items are related one by one is related too.
-/

namespace JavaThrows

variable {α β γ δ : Type} {R : α → β → Prop} {S : γ → δ → Prop}

instance decidableOptionRel [∀ a b, Decidable (R a b)] : ∀ a b, Decidable (Option.Rel R a b)
  | none, none => isTrue .none
  | some a, some b => decidable_of_iff (R a b) ⟨.some, fun | .some h => h⟩
  | none, some _ => isFalse nofun
  | some _, none => isFalse nofun

theorem rel_head? {as : List α} {bs : List β} (h : List.Forall₂ R as bs) :
    Option.Rel R as.head? bs.head? := by
  cases h with
  | nil => exact .none
  | cons hab => exact .some hab

theorem isSome_eq_of_rel {a : Option α} {b : Option β} (h : Option.Rel R a b) :
    a.isSome = b.isSome := by
  cases h <;> rfl

theorem map_eq_of_rel {a : Option α} {b : Option β} {f : α → γ} {g : β → γ}
    (h : Option.Rel R a b) (hfg : ∀ x ∈ a, ∀ y ∈ b, R x y → f x = g y) : a.map f = b.map g := by
  cases h with
  | none => rfl
  | some hab => exact congrArg some (hfg _ rfl _ rfl hab)

theorem bind_eq_of_rel {a : Option α} {b : Option β} {f : α → Option γ} {g : β → Option γ}
    (h : Option.Rel R a b) (hfg : ∀ x ∈ a, ∀ y ∈ b, R x y → f x = g y) : a.bind f = b.bind g := by
  cases h with
  | none => rfl
  | some hab => exact hfg _ rfl _ rfl hab

theorem filterMap_eq_of_forall₂ {as : List α} {bs : List β} {f : α → Option γ} {g : β → Option γ}
    (h : List.Forall₂ R as bs) (hfg : ∀ a ∈ as, ∀ b ∈ bs, R a b → f a = g b) :
    as.filterMap f = bs.filterMap g := by
  induction h with
  | nil => rfl
  | cons hab _ ih =>
    rw [List.filterMap_cons, List.filterMap_cons, hfg _ List.mem_cons_self _ List.mem_cons_self hab,
      ih fun a ha b hb => hfg a (List.mem_cons_of_mem _ ha) b (List.mem_cons_of_mem _ hb)]

theorem map_eq_of_forall₂ {as : List α} {bs : List β} {f : α → γ} {g : β → γ}
    (h : List.Forall₂ R as bs) (hfg : ∀ a ∈ as, ∀ b ∈ bs, R a b → f a = g b) :
    as.map f = bs.map g := by
  rw [← List.filterMap_eq_map, ← List.filterMap_eq_map]
  exact filterMap_eq_of_forall₂ h fun a ha b hb hab => congrArg some (hfg a ha b hb hab)

theorem forall₂_filter {as : List α} {bs : List β} (h : List.Forall₂ R as bs) {p : α → Bool}
    {q : β → Bool} (hpq : ∀ a b, R a b → p a = q b) :
    List.Forall₂ R (as.filter p) (bs.filter q) :=
  List.rel_filter (fun a b hab => iff_of_eq (congrArg (· = true) (hpq a b hab))) h

theorem rel_find? {as : List α} {bs : List β} (h : List.Forall₂ R as bs) {p : α → Bool}
    {q : β → Bool} (hpq : ∀ a b, R a b → p a = q b) : Option.Rel R (as.find? p) (bs.find? q) := by
  rw [← List.head?_filter, ← List.head?_filter]
  exact rel_head? (forall₂_filter h hpq)

theorem rel_map? {a : Option α} {b : Option β} {f : α → γ} {g : β → δ} (h : Option.Rel R a b)
    (hfg : ∀ x y, R x y → S (f x) (g y)) : Option.Rel S (a.map f) (b.map g) := by
  cases h with
  | none => exact .none
  | some hab => exact .some (hfg _ _ hab)

theorem rel_imp? {T : α → β → Prop} {a : Option α} {b : Option β} (h : Option.Rel R a b)
    (hRT : ∀ x y, R x y → T x y) : Option.Rel T a b := by
  cases h with
  | none => exact .none
  | some hab => exact .some (hRT _ _ hab)

theorem rel_bind? {a : Option α} {b : Option β} {f : α → Option γ} {g : β → Option δ}
    (h : Option.Rel R a b) (hfg : ∀ x y, R x y → Option.Rel S (f x) (g y)) :
    Option.Rel S (a.bind f) (b.bind g) := by
  cases h with
  | none => exact .none
  | some hab => exact hfg _ _ hab

theorem rel_toList {a : Option α} {b : Option β} (h : Option.Rel R a b) :
    List.Forall₂ R a.toList b.toList := by
  cases h with
  | none => exact .nil
  | some hab => exact .cons hab .nil

theorem exists_mem_of_forall₂ {as : List α} {bs : List β} (h : List.Forall₂ R as bs) {b : β}
    (hb : b ∈ bs) : ∃ a ∈ as, R a b := by
  induction h with
  | nil => cases hb
  | cons hab _ ih =>
    rcases List.mem_cons.1 hb with rfl | hb
    · exact ⟨_, List.mem_cons_self, hab⟩
    · obtain ⟨a, ha, hr⟩ := ih hb
      exact ⟨a, List.mem_cons_of_mem _ ha, hr⟩

theorem forall₂_mem_right {as : List α} {bs : List β} (h : List.Forall₂ R as bs) :
    List.Forall₂ (fun a b => b ∈ bs ∧ R a b) as bs :=
  .flip ((List.forall₂_and_left _ _).2 ⟨fun _ hb => hb, h.flip⟩)

theorem forall₂_comp {T : α → γ → Prop} {S : β → γ → Prop} {as : List α} {bs : List β}
    {cs : List γ} (hab : List.Forall₂ R as bs) (hbc : List.Forall₂ S bs cs)
    (h : ∀ a b c, R a b → S b c → T a c) : List.Forall₂ T as cs := by
  induction hab generalizing cs with
  | nil =>
    cases hbc
    exact .nil
  | cons hr _ ih =>
    cases hbc with
    | cons hs hbc => exact .cons (h _ _ _ hr hs) (ih hbc)

/-- Rows that are related as a whole are related row by row. -/
theorem exists_rows_of_forall₂ {rows : List (List α)} {bs : List β}
    (h : List.Forall₂ R rows.flatten bs) :
    ∃ rows', rows'.flatten = bs ∧ List.Forall₂ (List.Forall₂ R) rows rows' := by
  induction rows generalizing bs with
  | nil =>
    cases h
    exact ⟨[], rfl, .nil⟩
  | cons row rows ih =>
    have hrow := List.forall₂_take row.length h
    have hrest := List.forall₂_drop row.length h
    rw [List.flatten_cons, List.take_left] at hrow
    rw [List.flatten_cons, List.drop_left] at hrest
    obtain ⟨rows', hrows, hrelated⟩ := ih hrest
    refine ⟨bs.take row.length :: rows', ?_, .cons hrow hrelated⟩
    rw [List.flatten_cons, hrows, List.take_append_drop]

end JavaThrows
