import JavaThrows.Proofs.Decl.Apart
import JavaThrows.Proofs.Decl.TypeSyntax
import JavaThrows.TypeIndex

set_option autoImplicit false

/-!
# The spellings of an array type

The dimensions of a parameter's type stand behind the type or behind its name, and the points of a
variable number of arguments are one more of them. Wherever they stand, they come to the end of the
erased text, of the full name and of the name that the index finds, if the erasure has seen the type
to its end: dimensions behind a type whose brackets it has miscounted are lost with the rest. Main
statement: `Scope.spellings_agree_iff`.
-/

namespace JavaThrows

open JavaThrows.Cst JavaThrows.Unicode JavaThrows.Erasure JavaThrows.TypeSyntax

/-! ## Dimensions as the erasure reads them -/

/-- That many pairs of brackets, with blanks anywhere. -/
def IsDims (k : Nat) (cs : List Char) : Prop :=
  cs.filter (!isSpace ·) = Text.brackets k

instance (k : Nat) : DecidablePred (IsDims k) :=
  fun _ => inferInstanceAs (Decidable (_ = _))

section IsDims

variable {k : Nat} {cs : List Char} {mode : Mode}

theorem IsDims.char (h : IsDims k cs) {c : Char} (hc : c ∈ cs) :
    isSpace c ∨ c = '[' ∨ c = ']' := by
  cases hspace : isSpace c with
  | true => exact .inl rfl
  | false =>
    have hmem : c ∈ cs.filter (!isSpace ·) := List.mem_filter.2 ⟨hc, by simp [hspace]⟩
    rw [h] at hmem
    exact .inr (Text.mem_brackets hmem)

theorem IsDims.count (h : IsDims k cs) : cs.count '[' = k := by
  have hbracket : (!isSpace '[') = true := by decide
  rw [← List.count_filter (p := (!isSpace ·)) hbracket, h, Text.count_brackets]

end IsDims

namespace Erasure

variable {mode : Mode} {cs : List Char}

/-- The erasure has come to the end of the text outside of type arguments and of the arguments of
    annotations, as it counts the brackets. -/
def endsOutside (cs : List Char) : Bool :=
  (modeAfter (.text 0) cs).isOutside

/-- Outside, brackets are kept. -/
theorem eraseFrom_of_isOutside (hmode : mode.isOutside)
    (h : ∀ c ∈ cs, isSpace c ∨ c = '[' ∨ c = ']') :
    eraseFrom mode cs = cs.filter (!isSpace ·) := by
  induction cs generalizing mode with
  | nil => rfl
  | cons c cs ih =>
    rw [List.forall_mem_cons] at h
    rw [eraseFrom]
    cases hspace : isSpace c with
    | true =>
      obtain ⟨next, hstep, hnext⟩ : ∃ next, step mode c = (next, []) ∧ next.isOutside := by
        rcases isOutside_iff.1 hmode with rfl | rfl | rfl
        · exact ⟨.text 0, textStep_of_isSpace hspace 0, rfl⟩
        · exact ⟨.gap, by simp [step, isNamePart_of_isSpace hspace, hspace], rfl⟩
        · exact ⟨.gap, by simp [step, hspace], rfl⟩
      rw [hstep, ih hnext h.2, List.filter_cons_of_neg (by simp [hspace])]
      rfl
    | false =>
      have hbracket : c = '[' ∨ c = ']' := h.1.resolve_left (by simp [hspace])
      have hstep : step mode c = (.text 0, [c]) := by
        have hname : isNamePart c = false :=
          isNamePart_of_mem_marks (by rcases hbracket with rfl | rfl <;> decide)
        have hparen : c ≠ '(' := by rcases hbracket with rfl | rfl <;> decide
        have hother : c ∉ ['<', '>', '@'] := by rcases hbracket with rfl | rfl <;> decide
        rw [step_of_isOutside hmode hspace hparen fun _ => hname, textStep_of_kept hspace hother]
      rw [hstep, ih rfl h.2, List.filter_cons_of_pos (by simp [hspace])]
      rfl

/-- Inside, nothing of dimensions is kept, and they change nothing. -/
theorem eraseFrom_of_not_isOutside (hmode : mode.isOutside = false)
    (h : ∀ c ∈ cs, isSpace c ∨ c = '[' ∨ c = ']') : eraseFrom mode cs = [] := by
  induction cs with
  | nil => rfl
  | cons c cs ih =>
    rw [List.forall_mem_cons] at h
    have hne {d : Char} (hspace : isSpace d = false) (hopen : d ≠ '[') (hclose : d ≠ ']') :
        c ≠ d := by
      rintro rfl
      simp [hspace, hopen, hclose] at h
    have hstep : step mode c = (mode, []) := by
      cases mode with
      | text depth =>
        have hopen : c ≠ '<' := hne (by decide) (by decide) (by decide)
        have hclose : c ≠ '>' := hne (by decide) (by decide) (by decide)
        have hdepth : depth ≠ 0 := by
          rintro rfl
          cases hmode
        simp [step, textStep, hopen, hclose, hdepth, Nat.pos_of_ne_zero hdepth]
      | name => cases hmode
      | gap => cases hmode
      | args depth =>
        have hopen : c ≠ '(' := hne (by decide) (by decide) (by decide)
        have hclose : c ≠ ')' := hne (by decide) (by decide) (by decide)
        simp [step, hopen, hclose]
    rw [eraseFrom, hstep, ih h.2]
    rfl

/-- Dimensions behind a text are kept if the text ends outside, and lost if not. -/
theorem erase_append_dims {t dims : List Char} {k : Nat} (h : IsDims k dims) :
    erase (String.ofList (t ++ dims)) = erase (String.ofList t) ++
      String.ofList (Text.brackets (if endsOutside t then k else 0)) := by
  have hkept : eraseFrom (modeAfter (.text 0) t) dims =
      Text.brackets (if endsOutside t then k else 0) := by
    split
    · next houtside => rw [eraseFrom_of_isOutside houtside fun _ => h.char, h]
    · next hinside => exact eraseFrom_of_not_isOutside (Bool.eq_false_iff.2 hinside) fun _ => h.char
  have hread := ((reads_self (.text 0) t).append (reads_self _ dims)).kept
  have hpoint (n : Nat) : (Text.brackets n).head? ≠ some '.' := by
    cases n <;> simp [Text.brackets]
  rw [erase, erase, String.toList_ofList, String.toList_ofList, hread, hkept,
    dotsToBrackets_append (hpoint _), dotsToBrackets_brackets, String.ofList_append]

/-- A type whose annotations are plain is read to its end. -/
theorem endsOutside_of_typeText {t : List Char} {names : List (List Char)} {dims : Nat}
    (h : TypeText Note.IsPlain .outside t names dims) : endsOutside t := by
  rw [endsOutside, (TypeSyntax.reads_typeText h).after]
  rfl

end Erasure

/-! ## What dimensions do to the meaning of a type -/

/-- Dimensions behind a type go on to what it denotes. -/
theorem Scope.attributionOf_append_brackets (s : Scope) (ds : DeclaredTypes) (erased : String)
    (k : Nat) :
    s.attributionOf ds (erased ++ String.ofList (Text.brackets k)) =
      ⟨(s.attributionOf ds erased).fqn.map (· ++ String.ofList (Text.brackets k)),
        (s.attributionOf ds erased).certain, (s.attributionOf ds erased).typeVar⟩ := by
  simp only [Scope.attributionOf, Text.cutDimensions_append_brackets,
    Text.snd_cutDimensions_append_brackets]
  split
  · rfl
  split
  · split
    · simp [Attribution.ofVariable, String.append_assoc]
    split
    · simp [Attribution.sure, String.append_assoc]
    split
    · simp [Attribution.guess, String.append_assoc]
    · rfl
  · split
    · simp [Attribution.sure, String.append_assoc]
    split
    · simp [Attribution.guess, String.append_assoc]
    · rfl

/-- The reference is to the type with the text `t`, as it stands in the scope, with that many
    dimensions more. -/
structure Scope.Spells (s : Scope) (ds : DeclaredTypes) (t : List Char) (k : Nat)
    (r : TypeRef) : Prop where
  erased : r.erased = erase (String.ofList t) ++ String.ofList (Text.brackets k)
  attribution : r.attribution = s.attributionOf ds r.erased

section Spells

variable {s : Scope} {ds : DeclaredTypes} {t : List Char} {k : Nat} {r r' : TypeRef}

theorem Scope.spells_typeRef {type : Node} {dims : List Char}
    (htext : (s.text type).toList = t ++ dims) (h : IsDims k dims) :
    s.Spells ds t (if endsOutside t then k else 0) (s.typeRef ds type) where
  erased := by
    rw [← erase_append_dims h, ← htext, String.ofList_toList]
    rfl
  attribution := s.attribution_typeRef ds type

theorem Scope.Spells.withDimensions (h : s.Spells ds t k r) (added : Nat) :
    s.Spells ds t (k + added) (Scope.withDimensions r added) where
  erased := by
    rw [Text.brackets_add, String.ofList_append, ← String.append_assoc, ← h.erased]
    rfl
  attribution := by
    have herased : (Scope.withDimensions r added).erased =
        r.erased ++ String.ofList (Text.brackets added) := rfl
    rw [herased, s.attributionOf_append_brackets, ← h.attribution]
    rfl

/-- References with as many dimensions agree, and others differ in the erased text. -/
theorem Scope.Spells.agree_iff {k' : Nat} (h : s.Spells ds t k r) (h' : s.Spells ds t k' r') :
    (r.erased = r'.erased ∧ r.attribution = r'.attribution) ↔ k = k' := by
  constructor
  · rintro ⟨heq, -⟩
    rwa [h.erased, h'.erased, String.append_right_inj, String.ofList_inj, Text.brackets_inj] at heq
  · rintro rfl
    have heq : r.erased = r'.erased := h.erased.trans h'.erased.symm
    exact ⟨heq, by rw [h.attribution, h'.attribution, heq]⟩

/-- **The index resolves a type with dimensions as it resolves the type.** -/
theorem TypeIndex.resolve_of_spells (index : TypeIndex) (unit : CompilationUnit)
    (h : s.Spells ds t k r) (h' : s.Spells ds t 0 r') :
    index.resolve unit r =
      (index.resolve unit r').map (· ++ String.ofList (Text.brackets k)) := by
  have herased : r.erased = r'.erased ++ String.ofList (Text.brackets k) := by
    rw [h.erased, h'.erased, Text.brackets]
    simp
  have hattribution := h.attribution
  rw [herased, s.attributionOf_append_brackets, ← h'.attribution] at hattribution
  obtain ⟨hfqn, hcertain, -⟩ := Attribution.mk.inj hattribution
  have hsimple : r.isSimple = r'.isSimple := by
    rw [TypeRef.isSimple, TypeRef.isSimple, herased, Text.isSimple_append_brackets]
  have hcertain : r.certain = r'.certain := hcertain
  have hfqn : r.fqn = r'.fqn.map (· ++ String.ofList (Text.brackets k)) := hfqn
  rw [TypeIndex.resolve, TypeIndex.resolve, hcertain, hsimple]
  split
  · exact hfqn
  simp only [herased, Text.cutDimensions_append_brackets, Text.snd_cutDimensions_append_brackets]
  split
  · rw [Option.map_some, String.append_assoc]
  · exact hfqn

theorem TypeIndex.erasure_of_spells (index : TypeIndex) (unit : CompilationUnit)
    (h : s.Spells ds t k r) (h' : s.Spells ds t 0 r') :
    index.erasure unit r = index.erasure unit r' ++ String.ofList (Text.brackets k) := by
  rw [TypeIndex.erasure, TypeIndex.erasure, index.resolve_of_spells unit h h']
  cases index.resolve unit r' with
  | some fqn => rfl
  | none =>
    rw [Option.map_none, Option.getD_none, Option.getD_none, h.erased, h'.erased, Text.brackets]
    simp

end Spells

/-! ## Parameters -/

/-- The texts that tell the type of a parameter: the one in the place of the type, and the
    dimensions elsewhere. The points of a variable number of arguments count as a pair of
    brackets. -/
def Scope.spelling? (s : Scope) (n : Node) : Option (List Char × List Char) :=
  match n.kind with
  | "formal_parameter" => (n.childByField "type").map fun type =>
      ((s.text type).toList,
        ((n.childByField "dimensions").map fun d => (s.text d).toList).getD [])
  | "spread_parameter" => (n.namedChildren.find? isSpreadType).map fun type =>
      ((s.text type).toList, ['[', ']'])
  | _ => none

/-- The node declares a parameter of the type with the text `t`, with `written` dimensions behind
    it in the place of the type and `added` ones elsewhere. -/
def Scope.Declares (s : Scope) (t : List Char) (n : Node) (written added : Nat) : Prop :=
  ∃ dims back, s.spelling? n = some (t ++ dims, back) ∧ IsDims written dims ∧ IsDims added back

section Parameters

variable {s : Scope} {t : List Char} {n n' plain : Node} {written added written' added' : Nat}

/-- A declared parameter has the type with the added dimensions, and with the written ones if the
    erasure has read the type to its end. -/
theorem Scope.Declares.param? (h : s.Declares t n written added) (ds : DeclaredTypes) :
    ∃ p, s.param? ds n = some p ∧
      s.Spells ds t ((if endsOutside t then written else 0) + added) p.type := by
  obtain ⟨dims, back, hspelling, hwritten, hadded⟩ := h
  rw [Scope.spelling?] at hspelling
  split at hspelling
  · next hkind =>
    obtain ⟨type, htype, heq⟩ := Option.map_eq_some_iff.1 hspelling
    obtain ⟨htext, hback⟩ := Prod.mk.inj heq
    have hcount : s.dimensions n = added := by
      rw [← hadded.count, ← hback, Scope.dimensions]
      cases n.childByField "dimensions" <;> rfl
    refine ⟨_, by rw [s.param?_formal ds n hkind, htype, Option.map_some], ?_⟩
    rw [hcount]
    exact (Scope.spells_typeRef htext hwritten).withDimensions added
  · next hkind =>
    obtain ⟨type, htype, heq⟩ := Option.map_eq_some_iff.1 hspelling
    obtain ⟨htext, rfl⟩ := Prod.mk.inj heq
    obtain rfl : added = 1 := by rw [← hadded.count]; rfl
    refine ⟨_, by rw [s.param?_spread ds n hkind, htype, Option.map_some], ?_⟩
    exact (Scope.spells_typeRef htext hwritten).withDimensions 1
  · cases hspelling

/-- **Which spellings of an array type agree.** Two parameters that declare the same type with the
    same number of dimensions agree in the erased text and in all that is known of the type, and
    the index erases the type with dimensions to the erasure of the type and these dimensions,
    exactly if the erasure reads the type to its end or the dimensions in the place of the type are
    as many. -/
theorem Scope.spellings_agree_iff (ds : DeclaredTypes) (h : s.Declares t n written added)
    (h' : s.Declares t n' written' added') (hplain : s.Declares t plain 0 0)
    (hall : written + added = written' + added') :
    ∃ p p' p₀, s.param? ds n = some p ∧ s.param? ds n' = some p' ∧
      s.param? ds plain = some p₀ ∧
      ((p.type.erased = p'.type.erased ∧ p.type.attribution = p'.type.attribution) ↔
        (endsOutside t ∨ written = written')) ∧
      ∀ (index : TypeIndex) (unit : CompilationUnit),
        index.erasure unit p.type =
            index.erasure unit p₀.type ++ String.ofList (Text.brackets (written + added)) ↔
          (endsOutside t ∨ written = 0) := by
  obtain ⟨p, hp, hspells⟩ := h.param? ds
  obtain ⟨p', hp', hspells'⟩ := h'.param? ds
  obtain ⟨p₀, hp₀, hspells₀⟩ := hplain.param? ds
  refine ⟨p, p', p₀, hp, hp', hp₀, ?_, fun index unit => ?_⟩
  · rw [hspells.agree_iff hspells']
    cases endsOutside t with
    | true => simp [hall]
    | false => simp only [Bool.false_eq_true, if_false, false_or]; omega
  · have hbare : s.Spells ds t 0 p₀.type := by simpa using hspells₀
    rw [index.erasure_of_spells unit hspells hbare, String.append_right_inj, String.ofList_inj,
      Text.brackets_inj]
    cases endsOutside t with
    | true => simp
    | false => simp only [Bool.false_eq_true, if_false, false_or]; omega

/-- The parameters in a source, those with a variable number of arguments last. -/
def parametersIn (source : String) : List Node :=
  ((javaTree source.toList).map fun tree =>
    tree.ofKind "formal_parameter" ++ tree.ofKind "spread_parameter").getD []

theorem Scope.spellings_agree_iff_points :
    let source :=
      "class A{void f(List<? super T[]>[ ]x,List<? super T[]>z,List<? super T[]>...y){}}"
    let s : Scope := ⟨source.toList, "p.", [], [⟨"List", none⟩], []⟩
    let t := "List<? super T[]>".toList
    ∃ n plain n', parametersIn source = [n, plain, n'] ∧
      s.Declares t n 1 0 ∧ s.Declares t n' 0 1 ∧ s.Declares t plain 0 0 ∧
      ∃ p p' p₀, s.param? [] n = some p ∧ s.param? [] n' = some p' ∧
        s.param? [] plain = some p₀ ∧
        p.type.erased = p'.type.erased ∧ p.type.attribution = p'.type.attribution ∧
        ∀ (index : TypeIndex) (unit : CompilationUnit),
          index.erasure unit p.type = index.erasure unit p₀.type ++ String.ofList ['[', ']'] := by
  intro source s t
  have hspellings : (parametersIn source).map s.spelling? =
      [some (t ++ "[ ]".toList, []), some (t ++ [], []), some (t ++ [], ['[', ']'])] := by
    decide +kernel +zetaReduce
  obtain ⟨n, _, hlist, hn, htail⟩ := List.map_eq_cons_iff.1 hspellings
  obtain ⟨plain, _, rfl, hplain, htail⟩ := List.map_eq_cons_iff.1 htail
  obtain ⟨n', _, rfl, hn', hnil⟩ := List.map_eq_cons_iff.1 htail
  obtain rfl := List.map_eq_nil_iff.1 hnil
  have h : s.Declares t n 1 0 := ⟨_, _, hn, by decide, by decide⟩
  have h' : s.Declares t n' 0 1 := ⟨_, _, hn', by decide, by decide⟩
  have h₀ : s.Declares t plain 0 0 := ⟨_, _, hplain, by decide, by decide⟩
  have hout : endsOutside t := by decide +kernel +zetaReduce
  obtain ⟨p, p', p₀, hp, hp', hp₀, hagree, herasure⟩ := Scope.spellings_agree_iff [] h h' h₀ rfl
  obtain ⟨herased, hattribution⟩ := hagree.2 (.inl hout)
  exact ⟨n, plain, n', hlist, h, h', h₀, p, p', p₀, hp, hp', hp₀, herased, hattribution,
    fun index unit => (herasure index unit).2 (.inl hout)⟩

/-- Behind an angle bracket in a literal, the dimensions in the place of the type are lost. -/
theorem Scope.spellings_differ_behind_literal :
    let source :=
      "class A\x7bvoid f(List<@B(\"<\") T>[] x,List<@B(\"<\") T> y[])\x7b\x7d\x7d"
    let s : Scope := ⟨source.toList, "", [], [], []⟩
    let t := "List<@B(\"<\") T>".toList
    TypeText (fun _ => Note.WellWritten) .outside t ["List".toList] 0 ∧
    ∃ n n', parametersIn source = [n, n'] ∧ s.Declares t n 1 0 ∧ s.Declares t n' 0 1 ∧
      (s.param? [] n).map (·.type.erased) = some "List" ∧
      (s.param? [] n').map (·.type.erased) = some "List[]" := by
  intro source s t
  have hliteral : IsLiteral "\"<\"".toList := by decide +kernel
  have hlist : ArgumentList "\"<\"".toList ["\"<\"".toList] := .literal hliteral .nil
  have hnote : Note.WellWritten ⟨[], ['B'], some ([], "\"<\"".toList)⟩ :=
    ⟨by decide, .word (by decide +kernel), fun a ha => Option.some.inj ha ▸ ⟨by decide, _, hlist⟩⟩
  have hname : TypeText (fun _ => Note.WellWritten) .outside "List".toList ["List".toList] 0 :=
    @TypeText.name _ _ [] _ (by simp [Allowed]) (by decide) (by decide +kernel)
  have hargument : TypeText (fun _ => Note.WellWritten) .inArguments
      "@B(\"<\") T".toList [['T']] 0 :=
    @TypeText.name _ _ [(⟨[], ['B'], some ([], "\"<\"".toList)⟩, [' '])] ['T']
      (List.forall_mem_singleton.2 ⟨hnote, by decide⟩) (by decide) (by decide +kernel)
  have htype : TypeText (fun _ => Note.WellWritten) .outside t ["List".toList] 0 :=
    @TypeText.arguments _ _ "List".toList [] _ [⟨[], some "@B(\"<\") T".toList, []⟩]
      (fun _ => [['T']]) (fun _ => 0) hname (by decide)
      (List.forall_mem_singleton.2 ⟨.type (by decide), by decide⟩)
      (List.forall_mem_singleton.2 fun u hu => Option.some.inj hu ▸ hargument)
  have hread : (parametersIn source).map
        (fun n => (s.spelling? n, (s.param? [] n).map (·.type.erased))) =
      [(some (t ++ ['[', ']'], []), some "List"), (some (t ++ [], ['[', ']']), some "List[]")] := by
    decide +kernel +zetaReduce
  obtain ⟨n, _, hnodes, hn, htail⟩ := List.map_eq_cons_iff.1 hread
  obtain ⟨n', _, rfl, hn', hnil⟩ := List.map_eq_cons_iff.1 htail
  obtain rfl := List.map_eq_nil_iff.1 hnil
  obtain ⟨hspelling, herased⟩ := Prod.mk.inj hn
  obtain ⟨hspelling', herased'⟩ := Prod.mk.inj hn'
  exact ⟨htype, n, n', hnodes, ⟨_, _, hspelling, by decide, by decide⟩,
    ⟨_, _, hspelling', by decide, by decide⟩, herased, herased'⟩

end Parameters

end JavaThrows
