import JavaThrows.Cst.Token
import JavaThrows.Proofs.Cst.TokenEnds
import JavaThrows.Proofs.Decl.Erasure
import JavaThrows.Proofs.Text.Split

set_option autoImplicit false

/-!
# How types are written, and what their erasure is

A type is a row of identifiers with points between them, in which annotations may stand before each
identifier and before each pair of brackets, and type arguments behind each identifier; type
arguments are types again, or wildcards with a type as bound. Blanks may stand between any two of
these. The erasure is the row of identifiers outside of type arguments, joined by points, and the
pairs of brackets.

It is read off the text by counting brackets, and literals are not told apart: a parenthesis in a
string literal counts as one of the annotation's own. So the statement needs the brackets in
annotations to be in pairs, those in literals included. Main statement: `erase_typeText`.
-/

namespace JavaThrows.TypeSyntax

open JavaThrows.Unicode JavaThrows.Cst JavaThrows.Erasure

/-! ## Identifiers and annotations -/

def isWord : List Char → Bool
  | [] => false
  | c :: cs => isWordStart c && cs.all isWordPart

/-- Identifiers with points between them, and blanks around the points. -/
inductive QualifiedName : List Char → Prop where
  | word {w : List Char} : isWord w → QualifiedName w
  | member {q before behind w : List Char} : QualifiedName q → isBlank before → isBlank behind →
      isWord w → QualifiedName (q ++ before ++ '.' :: (behind ++ w))

/-- A string, text block or character literal. -/
def IsLiteral (cs : List Char) : Prop :=
  piece [] cs = some (.token .text cs.length []) ∨
    piece [] cs = some (.token .character cs.length [])

instance : DecidablePred IsLiteral :=
  fun _ => inferInstanceAs (Decidable (_ ∨ _))

/-- What stands between the parentheses of an annotation, and the literals in it: parentheses that
    are not in literals are in pairs. -/
inductive ArgumentList : List Char → List (List Char) → Prop where
  | nil : ArgumentList [] []
  | char {c : Char} {cs : List Char} {literals : List (List Char)} : c ∉ ['(', ')', '"', '\''] →
      ArgumentList cs literals → ArgumentList (c :: cs) literals
  | literal {literal cs : List Char} {literals : List (List Char)} : IsLiteral literal →
      ArgumentList cs literals → ArgumentList (literal ++ cs) (literal :: literals)
  | nested {inner cs : List Char} {literals literals' : List (List Char)} :
      ArgumentList inner literals → ArgumentList cs literals' →
      ArgumentList ('(' :: (inner ++ [')']) ++ cs) (literals ++ literals')

/-- An annotation. -/
structure Note where
  /-- The blanks between the `@` and the name. -/
  gap : List Char
  name : List Char
  /-- The blanks before the parentheses, and what stands between these. -/
  arguments : Option (List Char × List Char)

namespace Note

def argumentsText (n : Note) : List Char :=
  match n.arguments with
  | none => []
  | some (gap, inner) => gap ++ '(' :: (inner ++ [')'])

def text (n : Note) : List Char :=
  '@' :: (n.gap ++ n.name ++ n.argumentsText)

/-- The annotation is one of the language. -/
structure WellWritten (n : Note) : Prop where
  gap : isBlank n.gap
  name : QualifiedName n.name
  arguments : ∀ a ∈ n.arguments, isBlank a.1 ∧ ∃ literals, ArgumentList a.2 literals

end Note

/-- Where a part of a type stands. -/
inductive Place where
  | outside
  | inArguments

/-- The annotation can be told by its brackets: outside of type arguments it has a name in one piece
    and parentheses in pairs, and in type arguments its angle brackets are in pairs. -/
def Note.IsPlain : Place → Note → Prop
  | .outside, n => n.gap = [] ∧ n.name.all isNamePart ∧
      ∀ a ∈ n.arguments, isBlank a.1 ∧ Balanced '(' ')' a.2
  | .inArguments, n => Balanced '<' '>' n.text

instance (place : Place) (n : Note) : Decidable (n.IsPlain place) :=
  match place with
  | .outside => inferInstanceAs (Decidable (_ ∧ _ ∧ _))
  | .inArguments => inferInstanceAs (Decidable (Balanced _ _ _))

/-- Annotations, each with the blanks behind it. -/
def notesText (ns : List (Note × List Char)) : List Char :=
  ns.flatMap fun n => n.1.text ++ n.2

def Allowed (ok : Note → Prop) (ns : List (Note × List Char)) : Prop :=
  ∀ n ∈ ns, ok n.1 ∧ isBlank n.2

instance (ok : Note → Prop) [DecidablePred ok] : DecidablePred (Allowed ok) :=
  fun _ => inferInstanceAs (Decidable (∀ _ ∈ _, _))

/-- A word right behind the annotations is no part of the last one's name. -/
def LetWordFollow (ns : List (Note × List Char)) : Prop :=
  ∀ n ∈ ns.getLast?, n.2 ≠ [] ∨ n.1.arguments.isSome

instance : DecidablePred LetWordFollow :=
  fun _ => inferInstanceAs (Decidable (∀ _ ∈ _, _))

/-! ## Types -/

/-- A type argument: what stands before the type in it, the type, and the blanks behind. A wildcard
    without a bound has no type in it. -/
structure Argument where
  lead : List Char
  type : Option (List Char)
  after : List Char

def Argument.text (a : Argument) : List Char :=
  a.lead ++ a.type.getD [] ++ a.after

/-- What stands before the type in a type argument. -/
inductive Lead (ok : Note → Prop) : Option (List Char) → List Char → Prop where
  | type {before t : List Char} : isBlank before → Lead ok (some t) before
  | wildcard {before : List Char} {ns : List (Note × List Char)} : isBlank before →
      Allowed ok ns → Lead ok none (before ++ notesText ns ++ ['?'])
  | bound {before gap behind t keyword : List Char} {ns : List (Note × List Char)} :
      isBlank before → Allowed ok ns → isBlank gap → isBlank behind →
      keyword ∈ ["extends".toList, "super".toList] → (behind ≠ [] ∨ t.head? = some '@') →
      Lead ok (some t) (before ++ notesText ns ++ '?' :: (gap ++ keyword ++ behind))

/-- The text of a type without comments at some place, the identifiers of it that stand outside of
    its type arguments, and the number of its dimensions; `ok` tells which annotations may stand
    where. -/
inductive TypeText (ok : Place → Note → Prop) :
    Place → List Char → List (List Char) → Nat → Prop where
  | name {place : Place} {ns : List (Note × List Char)} {w : List Char} :
      Allowed (ok place) ns → LetWordFollow ns → isWord w →
      TypeText ok place (notesText ns ++ w) [w] 0
  | member {place : Place} {t before behind w : List Char} {names : List (List Char)}
      {ns : List (Note × List Char)} : TypeText ok place t names 0 →
      isBlank before → isBlank behind → Allowed (ok place) ns → LetWordFollow ns → isWord w →
      TypeText ok place (t ++ before ++ '.' :: (behind ++ notesText ns ++ w)) (names ++ [w]) 0
  | arguments {place : Place} {t before : List Char} {names : List (List Char)}
      {args : List Argument} (inner : Argument → List (List Char)) (dims : Argument → Nat) :
      TypeText ok place t names 0 → isBlank before →
      (∀ a ∈ args, Lead (ok .inArguments) a.type a.lead ∧ isBlank a.after) →
      (∀ a ∈ args, ∀ u ∈ a.type, TypeText ok .inArguments u (inner a) (dims a)) →
      TypeText ok place
        (t ++ before ++ '<' :: (List.intercalate [','] (args.map Argument.text) ++ ['>'])) names 0
  | array {place : Place} {t before gap : List Char} {names : List (List Char)} {dims : Nat}
      {ns : List (Note × List Char)} : TypeText ok place t names dims →
      isBlank before → Allowed (ok place) ns → isBlank gap →
      TypeText ok place (t ++ before ++ notesText ns ++ '[' :: (gap ++ [']'])) names (dims + 1)

/-- The identifiers of a type joined by points, with its dimensions. -/
def structural (names : List (List Char)) (dims : Nat) : List Char :=
  List.intercalate ['.'] names ++ Text.brackets dims

/-! ## Identifiers as they are read -/

theorem isWordStart_or_isWordPart_of_mem {w : List Char} (h : isWord w) {c : Char} (hc : c ∈ w) :
    isWordStart c ∨ isWordPart c := by
  cases w with
  | nil => cases hc
  | cons first rest =>
    rw [isWord, Bool.and_eq_true, List.all_eq_true] at h
    rcases List.mem_cons.1 hc with rfl | hmem
    · exact .inl h.1
    · exact .inr (h.2 c hmem)

/-- No white space is in an identifier. -/
theorem isSpace_of_mem_isWord {w : List Char} (h : isWord w) {c : Char} (hc : c ∈ w) :
    isSpace c = false := by
  rcases isWordStart_or_isWordPart_of_mem h hc with hstart | hpart
  · exact isSpace_of_isWordStart hstart
  · exact isSpace_of_isWordPart hpart

/-- No character with a meaning of its own in a type is in an identifier. -/
theorem notMem_of_isWord {w : List Char} (h : isWord w) {c : Char}
    (hc : c ∈ ['<', '>', '@', '(', '.']) : c ∉ w := by
  have hall : ['<', '>', '@', '(', '.'].all fun d => !isWordStart d && !isWordPart d := by
    decide +kernel
  have hnone := List.all_eq_true.1 hall c hc
  intro hmem
  have hchar := isWordStart_or_isWordPart_of_mem h hmem
  simp only [Bool.and_eq_true, Bool.not_eq_true'] at hnone
  simp [hnone] at hchar

/-! ## Reading a type outside of type arguments -/

theorem isKept_of_mem_isWord {w : List Char} (h : isWord w) :
    ∀ c ∈ w, isSpace c = false ∧ c ∉ ['<', '>', '@'] := by
  refine fun c hc => ⟨isSpace_of_mem_isWord h hc, fun hother => ?_⟩
  exact notMem_of_isWord h (List.mem_append_left ['(', '.'] hother) hc

/-- An identifier is kept, if it does not stand right behind the name of an annotation. -/
theorem reads_word {mode : Mode} {w : List Char} (hmode : mode.isOutside) (hname : mode ≠ .name)
    (h : isWord w) : Reads mode w (.text 0) w := by
  have hread := reads_kept (isKept_of_mem_isWord h)
  have hparen : '(' ∉ w := notMem_of_isWord h (by simp)
  have hkept := isKept_of_mem_isWord h
  cases w with
  | nil => cases h
  | cons c cs =>
    rw [List.forall_mem_cons] at hkept
    have hc : c ≠ '(' := fun heq => hparen (by simp [heq])
    have hstep : step mode c = (.text 0, [c]) :=
      (step_of_isOutside hmode hkept.1.1 hc fun heq => absurd heq hname).trans
        (textStep_of_kept hkept.1.1 hkept.1.2)
    exact (reads_kept hkept.2).cons hstep

/-- Where the character behind an annotation stands. -/
def modeBehind (n : Note) : Mode :=
  if n.arguments.isSome then .text 0 else .name

theorem reads_name {cs : List Char} (h : cs.all isNamePart) : Reads .name cs .name [] := by
  induction cs with
  | nil => exact .nil _
  | cons c cs ih =>
    rw [List.all_cons, Bool.and_eq_true] at h
    have hstep : step .name c = (.name, []) := if_pos h.1
    exact (ih h.2).pass hstep

/-- **A plain annotation is passed over.** -/
theorem reads_note {mode : Mode} {n : Note} (hmode : mode.isOutside) (h : n.IsPlain .outside) :
    Reads mode n.text (modeBehind n) [] := by
  obtain ⟨hgap, hname, harguments⟩ := h
  have hat : step mode '@' = (.name, []) :=
    step_of_isOutside hmode (by decide) (by decide) fun _ => isNamePart_of_mem_marks (by decide)
  have hbehind : Reads .name n.argumentsText (modeBehind n) [] := by
    rw [Note.argumentsText, modeBehind]
    cases hargs : n.arguments with
    | none => exact .nil _
    | some a =>
      obtain ⟨hblank, hbalanced⟩ := harguments a hargs
      have hparen : isNamePart '(' = false := isNamePart_of_mem_marks (by decide)
      have hspace : isSpace '(' = false := by decide
      have hopen : Reads (if a.1 = [] then .name else .gap) ['('] (.args 1) [] := by
        refine .single ?_
        split
        · simp [step, hparen, hspace]
        · simp [step, hspace]
      simpa using ((reads_name_blanks hblank).append hopen).append (reads_parenthesized hbalanced)
  rw [Note.text, hgap]
  simpa using ((reads_name hname).append hbehind).cons hat

/-- Plain annotations are passed over, with the blanks behind each. -/
theorem reads_notes {mode : Mode} {ns : List (Note × List Char)} (hmode : mode.isOutside)
    (h : Allowed (Note.IsPlain .outside) ns) :
    ∃ after, Reads mode (notesText ns) after [] ∧ after.isOutside ∧
      (LetWordFollow ns → (ns = [] → mode ≠ .name) → after ≠ .name) := by
  induction ns generalizing mode with
  | nil => exact ⟨mode, .nil mode, hmode, fun _ hname => hname rfl⟩
  | cons n ns ih =>
    obtain ⟨⟨hplain, hblank⟩, hrest⟩ := List.forall_mem_cons.1 h
    obtain ⟨next, hread, hnext, hname⟩ : ∃ next, Reads (modeBehind n.1) n.2 next [] ∧
        next.isOutside ∧ (n.2 ≠ [] ∨ n.1.arguments.isSome → next ≠ .name) := by
      rw [modeBehind]
      split
      · exact ⟨_, reads_text_blanks 0 hblank, rfl, fun _ => by simp⟩
      · next hnone =>
        refine ⟨_, reads_name_blanks hblank, by split <;> rfl, fun hseparate => ?_⟩
        rw [if_neg (hseparate.resolve_right hnone)]
        simp
    obtain ⟨after, hreads, hafter, hlast⟩ := ih hnext hrest
    have hall := ((reads_note hmode hplain).append hread).append hreads
    refine ⟨after, hall, hafter, fun hfollow _ => ?_⟩
    refine hlast (fun m hm => hfollow m ?_) fun hnil => hname (hfollow n ?_)
    · rw [Option.mem_def] at hm
      simp [List.getLast?_cons, hm]
    · simp [hnil]

/-- A word with annotations before it. -/
theorem reads_noted_word {ns : List (Note × List Char)} {w : List Char}
    (h : Allowed (Note.IsPlain .outside) ns) (hfollow : LetWordFollow ns) (hw : isWord w) :
    Reads (.text 0) (notesText ns ++ w) (.text 0) w := by
  have hmode : (Mode.text 0).isOutside := rfl
  obtain ⟨after, hreads, hafter, hname⟩ := reads_notes hmode h
  exact hreads.append (reads_word hafter (hname hfollow fun _ => by simp) hw)

/-- A pair of brackets with annotations before it. -/
theorem reads_noted_dimension {ns : List (Note × List Char)} {gap : List Char}
    (h : Allowed (Note.IsPlain .outside) ns) (hgap : isBlank gap) :
    Reads (.text 0) (notesText ns ++ '[' :: (gap ++ [']'])) (.text 0) ['[', ']'] := by
  have hmode : (Mode.text 0).isOutside := rfl
  obtain ⟨after, hreads, hafter, -⟩ := reads_notes hmode h
  have hopen : step after '[' = (.text 0, ['[']) :=
    step_of_isOutside hafter (by decide) (by decide) fun _ => isNamePart_of_mem_marks (by decide)
  have hclose : Reads (.text 0) [']'] (.text 0) [']'] := .single rfl
  exact hreads.append (((reads_text_blanks 0 hgap).append hclose).cons hopen)

/-! ## What is passed over in type arguments -/

theorem balanced_of_isBlank {cs : List Char} (h : isBlank cs) : Balanced '<' '>' cs := by
  rw [isBlank_iff] at h
  exact balanced_of_notMem (fun hmem => absurd (h _ hmem) (by decide))
    fun hmem => absurd (h _ hmem) (by decide)

theorem balanced_of_isWord {w : List Char} (h : isWord w) : Balanced '<' '>' w :=
  balanced_of_notMem (notMem_of_isWord h (by simp)) (notMem_of_isWord h (by simp))

theorem balanced_notes {ns : List (Note × List Char)} (h : Allowed (Note.IsPlain .inArguments) ns) :
    Balanced '<' '>' (notesText ns) :=
  .flatMap fun n hn => Balanced.append (h n hn).1 (balanced_of_isBlank (h n hn).2)

theorem balanced_lead {type : Option (List Char)} {lead : List Char}
    (h : Lead (Note.IsPlain .inArguments) type lead) : Balanced '<' '>' lead := by
  cases h with
  | type hbefore => exact balanced_of_isBlank hbefore
  | wildcard hbefore hns =>
    have hmark : Balanced '<' '>' ['?'] := by decide
    exact ((balanced_of_isBlank hbefore).append (balanced_notes hns)).append hmark
  | bound hbefore hns hgap hbehind hkeyword =>
    have hmark : Balanced '<' '>' ['?'] := by decide
    have hword : ∀ w ∈ ["extends".toList, "super".toList], Balanced '<' '>' w := by decide
    have hback := ((balanced_of_isBlank hgap).append (hword _ hkeyword)).append
      (balanced_of_isBlank hbehind)
    exact ((balanced_of_isBlank hbefore).append (balanced_notes hns)).append
      (hmark.append hback)

/-- The brackets of type arguments are in pairs if those of each type in them are. -/
theorem balanced_arguments {args : List Argument}
    (hargs : ∀ a ∈ args, Lead (Note.IsPlain .inArguments) a.type a.lead ∧ isBlank a.after)
    (htypes : ∀ a ∈ args, ∀ u ∈ a.type, Balanced '<' '>' u) :
    Balanced '<' '>' (List.intercalate [','] (args.map Argument.text)) := by
  have hargument : ∀ a ∈ args, Balanced '<' '>' a.text := by
    intro a ha
    have htype : Balanced '<' '>' (a.type.getD []) := by
      cases hu : a.type with
      | none => exact .nil
      | some u => exact htypes a ha u hu
    exact ((balanced_lead (hargs a ha).1).append htype).append
      (balanced_of_isBlank (hargs a ha).2)
  have hcomma : Balanced '<' '>' [','] := by decide
  exact hcomma.intercalate (List.forall_mem_map.2 hargument)

/-- **The angle brackets of a type in type arguments are in pairs.** -/
theorem balanced_typeText {t : List Char} {names : List (List Char)} {dims : Nat}
    (h : TypeText Note.IsPlain .inArguments t names dims) : Balanced '<' '>' t := by
  generalize hplace : Place.inArguments = place at h
  induction h with
  | name hns hfollow hw =>
    subst hplace
    exact (balanced_notes hns).append (balanced_of_isWord hw)
  | member h hbefore hbehind hns hfollow hw ih =>
    subst hplace
    have hpoint : Balanced '<' '>' ['.'] := by decide
    have hback := ((balanced_of_isBlank hbehind).append (balanced_notes hns)).append
      (balanced_of_isWord hw)
    exact ((ih rfl).append (balanced_of_isBlank hbefore)).append (hpoint.append hback)
  | arguments inner dims h hbefore hargs htypes ih iharg =>
    subst hplace
    have hinner := balanced_arguments hargs fun a ha u hu => iharg a ha u hu rfl
    exact ((ih rfl).append (balanced_of_isBlank hbefore)).append (hinner.nested (by decide))
  | array h hbefore hns hgap ih =>
    subst hplace
    have hopen : Balanced '<' '>' ['['] := by decide
    have hclose : Balanced '<' '>' [']'] := by decide
    exact (((ih rfl).append (balanced_of_isBlank hbefore)).append (balanced_notes hns)).append
      (hopen.append ((balanced_of_isBlank hgap).append hclose))

/-! ## The erasure of a type -/

/-- The identifiers of a type outside of its type arguments. -/
theorem isWord_of_typeText {ok : Place → Note → Prop} {place : Place} {t : List Char}
    {names : List (List Char)} {dims : Nat} (h : TypeText ok place t names dims) :
    names ≠ [] ∧ ∀ w ∈ names, isWord w := by
  induction h with
  | name _ _ hw => simpa using hw
  | member _ _ _ _ _ hw ih => exact ⟨by simp, List.forall_mem_append.2 ⟨ih.2, by simpa using hw⟩⟩
  | arguments _ _ _ _ _ _ ih _ => exact ih
  | array _ _ _ _ ih => exact ih

/-- **What is kept of a type** is what stands outside of its type arguments and annotations. -/
theorem reads_typeText {t : List Char} {names : List (List Char)} {dims : Nat}
    (h : TypeText Note.IsPlain .outside t names dims) :
    Reads (.text 0) t (.text 0) (structural names dims) := by
  generalize hplace : Place.outside = place at h
  induction h with
  | name hns hfollow hw =>
    subst hplace
    simpa [structural, Text.brackets] using reads_noted_word hns hfollow hw
  | member h hbefore hbehind hns hfollow hw ih =>
    subst hplace
    have hpoint : Reads (.text 0) ['.'] (.text 0) ['.'] := .single rfl
    have hmember := (reads_text_blanks 0 hbehind).append (reads_noted_word hns hfollow hw)
    have hread := ((ih rfl).append (reads_text_blanks 0 hbefore)).append (hpoint.append hmember)
    simpa [structural, Text.brackets, Text.intercalate_concat _ (isWord_of_typeText h).1] using hread
  | arguments inner dims h hbefore hargs htypes ih _ =>
    subst hplace
    have hinner := balanced_arguments hargs fun a ha u hu => balanced_typeText (htypes a ha u hu)
    simpa using ((ih rfl).append (reads_text_blanks 0 hbefore)).append (reads_angled hinner)
  | array h hbefore hns hgap ih =>
    subst hplace
    have hread := ((ih rfl).append (reads_text_blanks 0 hbefore)).append
      (reads_noted_dimension hns hgap)
    simpa [structural, Text.brackets_succ] using hread

theorem isWord_ne_nil {w : List Char} (h : isWord w) : w ≠ [] := by
  rintro rfl
  cases h

theorem dotsToBrackets_intercalate {names : List (List Char)} (h : ∀ w ∈ names, isWord w) :
    dotsToBrackets (List.intercalate ['.'] names) = List.intercalate ['.'] names := by
  have hpoint : ∀ w ∈ names, '.' ∉ w := fun w hw => notMem_of_isWord (h w hw) (by simp)
  induction names with
  | nil => rfl
  | cons w names ih =>
    rw [List.forall_mem_cons] at h hpoint
    cases names with
    | nil => simpa [dotsToBrackets] using dotsToBrackets_append_of_notMem hpoint.1 []
    | cons next names =>
      have hfront : dotsToBrackets (w ++ ['.']) = w ++ ['.'] :=
        dotsToBrackets_append_of_notMem hpoint.1 ['.']
      have hnext : (List.intercalate ['.'] (next :: names)).head? ≠ some '.' := by
        intro hhead
        obtain ⟨v, hv, hmem⟩ :=
          Text.mem_head?_intercalate (fun v hv => isWord_ne_nil (h.2 v hv)) hhead
        exact hpoint.2 v hv hmem
      rw [List.intercalate_cons_cons, dotsToBrackets_append hnext, hfront, ih h.2 hpoint.2]

/-- No two points are next to each other in an erasure. -/
theorem dotsToBrackets_structural {names : List (List Char)} (h : ∀ w ∈ names, isWord w)
    (dims : Nat) : dotsToBrackets (structural names dims) = structural names dims := by
  have hback : (Text.brackets dims).head? ≠ some '.' := by cases dims <;> simp [Text.brackets]
  rw [structural, dotsToBrackets_append hback, dotsToBrackets_intercalate h,
    dotsToBrackets_brackets]

/-- An erasure has nothing in it that would be erased. -/
theorem reads_structural {names : List (List Char)} (h : ∀ w ∈ names, isWord w) (dims : Nat) :
    Reads (.text 0) (structural names dims) (.text 0) (structural names dims) := by
  refine reads_kept fun c hc => ?_
  rcases List.mem_append.1 hc with hname | hbracket
  · rcases Text.mem_intercalate hname with hpoint | ⟨w, hw, hmem⟩
    · rw [List.mem_singleton.1 hpoint]
      decide
    · exact isKept_of_mem_isWord (h w hw) c hmem
  · rcases Text.mem_brackets hbracket with rfl | rfl
    · decide
    · decide

theorem erase_of_reads {t : List Char} {names : List (List Char)} {dims : Nat} {after : Mode}
    (hnames : ∀ w ∈ names, isWord w) (h : Reads (.text 0) t after (structural names dims)) :
    erase (String.ofList t) = String.ofList (structural names dims) := by
  rw [erase, String.toList_ofList, h.kept, dotsToBrackets_structural hnames]

/-- **The erasure of a type** whose annotations are plain is the row of its identifiers outside of
    type arguments, joined by points, with its dimensions; and an erasure is its own erasure. -/
theorem erase_typeText {t : List Char} {names : List (List Char)} {dims : Nat}
    (h : TypeText Note.IsPlain .outside t names dims) :
    erase (String.ofList t) = String.ofList (structural names dims) ∧
      erase (String.ofList (structural names dims)) = String.ofList (structural names dims) := by
  have hnames := (isWord_of_typeText h).2
  exact ⟨erase_of_reads hnames (reads_typeText h),
    erase_of_reads hnames (reads_structural hnames dims)⟩

theorem erase_typeText_nested :
    TypeText Note.IsPlain .outside "a.@A(x = '<') List<? super @B(\"(\") T[]> @C []".toList
        [['a'], "List".toList] 1 ∧
      erase "a.@A(x = '<') List<? super @B(\"(\") T[]> @C []" = "a.List[]" ∧
      erase "a.List[]" = "a.List[]" := by
  let noteA : Note := ⟨[], ['A'], some ([], "x = '<'".toList)⟩
  let noteB : Note := ⟨[], ['B'], some ([], "\"(\"".toList)⟩
  let noteC : Note := ⟨[], ['C'], none⟩
  have hpackage : TypeText Note.IsPlain .outside ['a'] [['a']] 0 :=
    @TypeText.name _ _ [] ['a'] (by decide) (by decide) (by decide +kernel)
  have hname : TypeText Note.IsPlain .outside "a.@A(x = '<') List".toList
      [['a'], "List".toList] 0 :=
    @TypeText.member _ _ ['a'] [] [] "List".toList [['a']] [(noteA, [' '])] hpackage (by decide)
      (by decide) (by decide +kernel) (by decide) (by decide +kernel)
  have hbound : TypeText Note.IsPlain .inArguments "@B(\"(\") T".toList [['T']] 0 :=
    @TypeText.name _ _ [(noteB, [' '])] ['T'] (by decide +kernel) (by decide) (by decide +kernel)
  have htype : TypeText Note.IsPlain .inArguments "@B(\"(\") T[]".toList [['T']] 1 :=
    @TypeText.array _ _ "@B(\"(\") T".toList [] [] [['T']] 0 [] hbound (by decide) (by decide)
      (by decide)
  have hlead : Lead (Note.IsPlain .inArguments) (some "@B(\"(\") T[]".toList) "? super ".toList :=
    @Lead.bound _ [] [' '] [' '] _ "super".toList [] (by decide) (by decide) (by decide) (by decide)
      (by decide) (by decide)
  let argument : Argument := ⟨"? super ".toList, some "@B(\"(\") T[]".toList, []⟩
  have hlist : TypeText Note.IsPlain .outside
      "a.@A(x = '<') List<? super @B(\"(\") T[]>".toList [['a'], "List".toList] 0 :=
    @TypeText.arguments _ _ "a.@A(x = '<') List".toList [] _ [argument] (fun _ => [['T']])
      (fun _ => 1) hname (by decide) (List.forall_mem_singleton.2 ⟨hlead, by decide⟩)
      (List.forall_mem_singleton.2 fun u hu => Option.some.inj hu ▸ htype)
  have harray : TypeText Note.IsPlain .outside
      "a.@A(x = '<') List<? super @B(\"(\") T[]> @C []".toList [['a'], "List".toList] 1 :=
    @TypeText.array _ _ "a.@A(x = '<') List<? super @B(\"(\") T[]>".toList [' '] [] _ _
      [(noteC, [' '])] hlist (by decide) (by decide +kernel) (by decide)
  exact ⟨harray, erase_typeText harray⟩

/-! ## Literals in annotations -/

/-- The parentheses of an argument list are in pairs if those of each literal in it are. -/
theorem ArgumentList.balanced {cs : List Char} {literals : List (List Char)}
    (h : ArgumentList cs literals) (hliterals : ∀ l ∈ literals, Balanced '(' ')' l) :
    Balanced '(' ')' cs := by
  induction h with
  | nil => exact .nil
  | @char c cs literals hc h ih =>
    have hsingle : Balanced '(' ')' [c] := by
      simp only [List.mem_cons, not_or] at hc
      exact balanced_of_notMem (by simpa using Ne.symm hc.1) (by simpa using Ne.symm hc.2.1)
    exact hsingle.append (ih hliterals)
  | literal hliteral h ih =>
    rw [List.forall_mem_cons] at hliterals
    exact hliterals.1.append (ih hliterals.2)
  | nested h h' ih ih' =>
    rw [List.forall_mem_append] at hliterals
    exact ((ih hliterals.1).nested (by decide)).append (ih' hliterals.2)

/-- An annotation of the language is plain outside of type arguments if its name is in one piece
    and the parentheses of each literal in it are in pairs. -/
theorem Note.WellWritten.isPlain {n : Note} (h : n.WellWritten) (hgap : n.gap = [])
    (hname : n.name.all isNamePart)
    (hliterals : ∀ a ∈ n.arguments, ∀ literals, ArgumentList a.2 literals →
      ∀ l ∈ literals, Balanced '(' ')' l) : n.IsPlain .outside := by
  refine ⟨hgap, hname, fun a ha => ?_⟩
  obtain ⟨hblank, literals, hlist⟩ := h.arguments a ha
  exact ⟨hblank, hlist.balanced (hliterals a ha literals hlist)⟩

/-- A parenthesis in a literal ends the annotation for the erasure. -/
theorem erase_parenthesis_in_literal :
    TypeText (fun _ => Note.WellWritten) .outside "@B(\")\") a.E".toList [['a'], ['E']] 0 ∧
      structural [['a'], ['E']] 0 = "a.E".toList ∧ erase "@B(\")\") a.E" = "\")a.E" := by
  have hliteral : IsLiteral "\")\"".toList := by decide +kernel
  have hlist : ArgumentList "\")\"".toList ["\")\"".toList] := .literal hliteral .nil
  have hnote : Note.WellWritten ⟨[], ['B'], some ([], "\")\"".toList)⟩ :=
    ⟨by decide, .word (by decide +kernel), fun a ha => Option.some.inj ha ▸ ⟨by decide, _, hlist⟩⟩
  have hpackage : TypeText (fun _ => Note.WellWritten) .outside "@B(\")\") a".toList [['a']] 0 :=
    @TypeText.name _ _ [(⟨[], ['B'], some ([], "\")\"".toList)⟩, [' '])] ['a']
      (List.forall_mem_singleton.2 ⟨hnote, by decide⟩) (by decide) (by decide +kernel)
  have htype : TypeText (fun _ => Note.WellWritten) .outside "@B(\")\") a.E".toList
      [['a'], ['E']] 0 :=
    @TypeText.member _ _ _ [] [] ['E'] _ [] hpackage (by decide) (by decide) (by simp [Allowed])
      (by decide) (by decide +kernel)
  exact ⟨htype, by decide, by decide +kernel⟩

end JavaThrows.TypeSyntax
