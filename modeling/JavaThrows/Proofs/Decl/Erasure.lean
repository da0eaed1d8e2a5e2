import JavaThrows.Decl.Erasure
import JavaThrows.Proofs.Text.Split
import JavaThrows.Proofs.Unicode.Space

set_option autoImplicit false

/-!
# How the erasure of a type reads its text

The erasure goes through the text once, so what it makes of a text that is put together is what it
makes of the parts, each from the mode that the part before has led to. In type arguments and in the
arguments of an annotation it keeps nothing and counts brackets, and so passes over a text whose
brackets are in pairs. Main statement: `reads_angled`.
-/

namespace JavaThrows.Erasure

open JavaThrows.Unicode

/-! ## Brackets in pairs -/

/-- How many brackets are open after a text that starts with that many open ones; none if a bracket
    is closed that is not open. -/
def depthAfter (opening closing : Char) : Nat → List Char → Option Nat
  | depth, [] => some depth
  | depth, c :: cs =>
    if c = opening then depthAfter opening closing (depth + 1) cs
    else if c = closing then
      if depth = 0 then none else depthAfter opening closing (depth - 1) cs
    else depthAfter opening closing depth cs

/-- The brackets of the text are in pairs. -/
def Balanced (opening closing : Char) (cs : List Char) : Prop :=
  depthAfter opening closing 0 cs = some 0

instance (opening closing : Char) : DecidablePred (Balanced opening closing) :=
  fun cs => inferInstanceAs (Decidable (depthAfter opening closing 0 cs = some 0))

section Balanced

variable {opening closing : Char} {depth stop : Nat} {as bs cs : List Char}

theorem depthAfter_append (opening closing : Char) (depth : Nat) (as bs : List Char) :
    depthAfter opening closing depth (as ++ bs) =
      (depthAfter opening closing depth as).bind fun d => depthAfter opening closing d bs := by
  induction as generalizing depth with
  | nil => rfl
  | cons c as ih =>
    rw [List.cons_append, depthAfter, depthAfter]
    split
    · exact ih _
    split
    · split
      · rfl
      · exact ih _
    · exact ih _

/-- Brackets that are open around a text change nothing for the brackets in it. -/
theorem depthAfter_add (h : depthAfter opening closing depth cs = some stop) (outer : Nat) :
    depthAfter opening closing (depth + outer) cs = some (stop + outer) := by
  induction cs generalizing depth with
  | nil =>
    rw [depthAfter, Option.some.injEq] at h
    rw [depthAfter, h]
  | cons c cs ih =>
    rw [depthAfter] at h ⊢
    split at h
    · rw [if_pos ‹_›, Nat.add_right_comm]
      exact ih h
    rw [if_neg ‹_›]
    split at h
    · rw [if_pos ‹_›]
      split at h
      · cases h
      · rw [if_neg (by omega), Nat.sub_add_comm (by omega)]
        exact ih h
    · rw [if_neg ‹_›]
      exact ih h

theorem Balanced.nil : Balanced opening closing [] := rfl

theorem Balanced.append (ha : Balanced opening closing as) (hb : Balanced opening closing bs) :
    Balanced opening closing (as ++ bs) := by
  rw [Balanced, depthAfter_append, ha, Option.bind_some, hb]

theorem balanced_of_notMem (hopening : opening ∉ cs) (hclosing : closing ∉ cs) :
    Balanced opening closing cs := by
  induction cs with
  | nil => rfl
  | cons c cs ih =>
    rw [List.mem_cons, not_or] at hopening hclosing
    rw [Balanced, depthAfter, if_neg (Ne.symm hopening.1), if_neg (Ne.symm hclosing.1)]
    exact ih hopening.2 hclosing.2

/-- A pair of brackets around a text. -/
theorem Balanced.nested (h : Balanced opening closing cs) (hne : closing ≠ opening) :
    Balanced opening closing (opening :: (cs ++ [closing])) := by
  have hinner : depthAfter opening closing (0 + 1) cs = some (0 + 1) := depthAfter_add h 1
  rw [Balanced, depthAfter, if_pos rfl, depthAfter_append, hinner, Option.bind_some, depthAfter,
    if_neg hne, if_pos rfl]
  rfl

theorem Balanced.flatMap {α : Type} {xs : List α} {f : α → List Char}
    (h : ∀ x ∈ xs, Balanced opening closing (f x)) : Balanced opening closing (xs.flatMap f) := by
  induction xs with
  | nil => rfl
  | cons x xs ih =>
    rw [List.forall_mem_cons] at h
    exact h.1.append (ih h.2)

theorem Balanced.intercalate {joint : List Char} {pieces : List (List Char)}
    (hjoint : Balanced opening closing joint)
    (h : ∀ piece ∈ pieces, Balanced opening closing piece) :
    Balanced opening closing (List.intercalate joint pieces) := by
  induction pieces with
  | nil => rfl
  | cons piece pieces ih =>
    rw [List.forall_mem_cons] at h
    cases pieces with
    | nil =>
      rw [List.intercalate_singleton]
      exact h.1
    | cons next pieces =>
      rw [List.intercalate_cons_cons]
      exact (h.1.append hjoint).append (ih h.2)

end Balanced

/-! ## Reading a text in parts -/

/-- Where the character after a text stands. -/
def modeAfter (mode : Mode) (cs : List Char) : Mode :=
  cs.foldl (fun mode c => (step mode c).1) mode

/-- Reading the text from one mode leads to another one and keeps these characters. -/
structure Reads (mode : Mode) (cs : List Char) (after : Mode) (kept : List Char) : Prop where
  after : modeAfter mode cs = after
  kept : eraseFrom mode cs = kept

section Reads

variable {mode mid stop : Mode} {as bs cs kept kept' : List Char} {c : Char} {depth : Nat}

theorem Reads.nil (mode : Mode) : Reads mode [] mode [] :=
  ⟨rfl, rfl⟩

theorem Reads.cons (hstep : step mode c = (mid, kept)) (h : Reads mid cs stop kept') :
    Reads mode (c :: cs) stop (kept ++ kept') := by
  obtain ⟨hafter, hkept⟩ := h
  refine ⟨?_, ?_⟩
  · rw [modeAfter, List.foldl_cons, hstep]
    exact hafter
  · rw [eraseFrom, hstep, hkept]

/-- A character of which nothing is kept. -/
theorem Reads.pass (hstep : step mode c = (mid, [])) (h : Reads mid cs stop kept) :
    Reads mode (c :: cs) stop kept :=
  h.cons hstep

theorem Reads.append (ha : Reads mode as mid kept) (hb : Reads mid bs stop kept') :
    Reads mode (as ++ bs) stop (kept ++ kept') := by
  induction as generalizing mode kept with
  | nil =>
    obtain ⟨rfl, rfl⟩ := ha
    exact hb
  | cons c as ih =>
    obtain ⟨rfl, rfl⟩ := ha
    rw [eraseFrom, List.append_assoc]
    exact (ih ⟨rfl, rfl⟩).cons rfl

/-- Reading one character. -/
theorem Reads.single (hstep : step mode c = (mid, kept)) : Reads mode [c] mid kept := by
  simpa using (Reads.nil mid).cons hstep

theorem reads_self (mode : Mode) (cs : List Char) :
    Reads mode cs (modeAfter mode cs) (eraseFrom mode cs) :=
  ⟨rfl, rfl⟩

/-! ## What is passed over -/

/-- Type arguments whose brackets are in pairs are passed over. -/
theorem reads_text_of_depthAfter {start : Nat}
    (h : depthAfter '<' '>' start cs = some depth) :
    Reads (.text (start + 1)) cs (.text (depth + 1)) [] := by
  induction cs generalizing start with
  | nil =>
    obtain rfl : start = depth := Option.some.inj h
    exact .nil _
  | cons c cs ih =>
    rw [depthAfter] at h
    split at h
    · next hc =>
      refine (ih h).pass ?_
      rw [step, textStep, if_pos hc]
    · next hopen =>
      split at h
      · next hc =>
        split at h
        · cases h
        · next hdepth =>
          refine (ih h).pass ?_
          rw [step, textStep, if_neg hopen, if_pos hc, Nat.sub_add_comm (by omega)]
      · next hclose =>
        refine (ih h).pass ?_
        simp [step, textStep, hopen, hclose]

/-- **Type arguments are passed over** if the brackets in them are in pairs. -/
theorem reads_angled (h : Balanced '<' '>' cs) :
    Reads (.text 0) ('<' :: (cs ++ ['>'])) (.text 0) [] := by
  have hclose : Reads (.text 1) ['>'] (.text 0) [] := .single rfl
  have hopen : step (.text 0) '<' = (.text 1, []) := rfl
  exact ((reads_text_of_depthAfter h).append hclose).cons hopen

/-- The arguments of an annotation are passed over as long as their parentheses are in pairs, be
    they in literals or not. -/
theorem reads_args_of_depthAfter {start : Nat}
    (h : depthAfter '(' ')' start cs = some depth) :
    Reads (.args (start + 1)) cs (.args (depth + 1)) [] := by
  induction cs generalizing start with
  | nil =>
    obtain rfl : start = depth := Option.some.inj h
    exact .nil _
  | cons c cs ih =>
    rw [depthAfter] at h
    split at h
    · next hc =>
      refine (ih h).pass ?_
      rw [step, if_pos hc]
    · next hopen =>
      split at h
      · next hc =>
        split at h
        · cases h
        · next hdepth =>
          refine (ih h).pass ?_
          rw [step, if_neg hopen, if_pos hc, if_neg (by omega), Nat.sub_add_comm (by omega)]
      · next hclose =>
        refine (ih h).pass ?_
        rw [step, if_neg hopen, if_neg hclose]

theorem reads_parenthesized (h : Balanced '(' ')' cs) :
    Reads (.args 1) (cs ++ [')']) (.text 0) [] :=
  (reads_args_of_depthAfter h).append (.single rfl)

/-! ## Outside of type arguments and annotation arguments -/

/-- What comes next is kept, or belongs to the name of an annotation or to the blanks after it. -/
def Mode.isOutside : Mode → Bool
  | .text 0 | .name | .gap => true
  | _ => false

theorem textStep_of_isSpace (h : isSpace c) (depth : Nat) :
    textStep depth c = (.text depth, []) := by
  have hne {d : Char} (hd : isSpace d = false) : c ≠ d := by
    rintro rfl
    simp [hd] at h
  have hopen : c ≠ '<' := hne rfl
  have hclose : c ≠ '>' := hne rfl
  have hat : c ≠ '@' := hne rfl
  simp [textStep, hopen, hclose, hat, h]

theorem textStep_of_kept (hspace : isSpace c = false) (hother : c ∉ ['<', '>', '@']) :
    textStep 0 c = (.text 0, [c]) := by
  simp only [List.mem_cons, List.not_mem_nil, or_false, not_or] at hother
  simp [textStep, hother, hspace]

theorem reads_kept (h : ∀ c ∈ cs, isSpace c = false ∧ c ∉ ['<', '>', '@']) :
    Reads (.text 0) cs (.text 0) cs := by
  induction cs with
  | nil => exact .nil _
  | cons c cs ih =>
    rw [List.forall_mem_cons] at h
    have hstep : step (.text 0) c = (.text 0, [c]) := textStep_of_kept h.1.1 h.1.2
    exact (ih h.2).cons hstep

theorem isNamePart_of_isSpace (h : isSpace c) : isNamePart c = false := by
  cases hpart : isNamePart c with
  | false => rfl
  | true => simp [isSpace_eq_false (p := isNamePart) (by decide +kernel) hpart] at h

/-- The characters with a meaning of their own behind the name of an annotation. -/
theorem isNamePart_of_mem_marks (h : c ∈ ['@', '(', '[', ']']) : isNamePart c = false := by
  have hall : ['@', '(', '[', ']'].all fun d => !isNamePart d := by decide +kernel
  simpa using List.all_eq_true.1 hall c h

theorem isOutside_iff : mode.isOutside ↔ mode = .text 0 ∨ mode = .name ∨ mode = .gap := by
  cases mode with
  | text depth => cases depth <;> simp [Mode.isOutside]
  | name => simp [Mode.isOutside]
  | gap => simp [Mode.isOutside]
  | args depth => simp [Mode.isOutside]

/-- Outside, a character is read as if there had been no annotation, unless it belongs to one. -/
theorem step_of_isOutside (hmode : mode.isOutside) (hspace : isSpace c = false) (hc : c ≠ '(')
    (hname : mode = .name → isNamePart c = false) : step mode c = textStep 0 c := by
  rcases isOutside_iff.1 hmode with rfl | rfl | rfl
  · rfl
  · simp [step, hname rfl, hspace, hc]
  · simp [step, hspace, hc]

/-- Blanks are passed over wherever they mean nothing. -/
theorem reads_blanks (hstep : ∀ c, isSpace c → step mode c = (mode, [])) (h : isBlank cs) :
    Reads mode cs mode [] := by
  induction cs with
  | nil => exact .nil mode
  | cons c cs ih =>
    rw [isBlank_cons] at h
    exact (ih h.2).cons (hstep c h.1)

theorem reads_text_blanks (depth : Nat) (h : isBlank cs) :
    Reads (.text depth) cs (.text depth) [] :=
  reads_blanks (fun _ hc => textStep_of_isSpace hc depth) h

/-- The name of an annotation is over after blanks. -/
theorem reads_name_blanks (h : isBlank cs) :
    Reads .name cs (if cs = [] then .name else .gap) [] := by
  cases cs with
  | nil => exact .nil _
  | cons c cs =>
    rw [isBlank_cons] at h
    have hrest : Reads .gap cs .gap [] := reads_blanks (fun d hd => by simp [step, hd]) h.2
    have hstep : step .name c = (.gap, []) := by simp [step, isNamePart_of_isSpace h.1, h.1]
    rw [if_neg (List.cons_ne_nil c cs)]
    exact hrest.cons hstep

end Reads

/-! ## A variable number of arguments -/

theorem dotsToBrackets_append {front back : List Char} (h : back.head? ≠ some '.') :
    dotsToBrackets (front ++ back) = dotsToBrackets front ++ dotsToBrackets back := by
  fun_induction dotsToBrackets front with
  | case1 cs ih =>
    rw [List.cons_append, List.cons_append, List.cons_append, dotsToBrackets, ih]
    rfl
  | case2 c cs hdots ih =>
    rw [List.cons_append, dotsToBrackets, ih, List.cons_append]
    -- Three points that start in the front would have to go on behind it.
    intro rest hc heq
    match cs, heq with
    | [], heq =>
      obtain rfl : back = '.' :: '.' :: rest := heq
      exact h rfl
    | [d], heq =>
      obtain ⟨-, rfl⟩ : d = '.' ∧ back = '.' :: rest := by simpa using heq
      exact h rfl
    | d :: e :: cs, heq =>
      obtain ⟨rfl, rfl, -⟩ : d = '.' ∧ e = '.' ∧ cs ++ back = rest := by simpa using heq
      exact hdots cs hc rfl
  | case3 => rfl

theorem dotsToBrackets_append_of_notMem {front : List Char} (h : '.' ∉ front)
    (back : List Char) : dotsToBrackets (front ++ back) = front ++ dotsToBrackets back := by
  induction front with
  | nil => rfl
  | cons c cs ih =>
    rw [List.mem_cons, not_or] at h
    rw [List.cons_append, dotsToBrackets, ih h.2, List.cons_append]
    exact fun _ hc _ => h.1 hc.symm

theorem dotsToBrackets_brackets (n : Nat) :
    dotsToBrackets (Text.brackets n) = Text.brackets n := by
  have hpoint : '.' ∉ Text.brackets n := fun h => by simpa using Text.mem_brackets h
  simpa [dotsToBrackets] using dotsToBrackets_append_of_notMem hpoint []

end JavaThrows.Erasure
