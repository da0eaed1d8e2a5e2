import Mathlib.Data.List.Forall2
import JavaThrows.Pattern.MethodPattern
import JavaThrows.Proofs.Pattern.TypePattern

set_option autoImplicit false

/-!
# Printed method patterns are read back

A method pattern that has been read is normal in each of its parts (`MethodPattern.IsNormal`), and a
normal pattern is what its own text is read as. So printing and reading again changes nothing
however the pattern was first written. Main statement: `compile_render`.
-/

namespace JavaThrows

open JavaThrows.Unicode

/-! ## What reading gives -/

def ArgPattern.IsNormal : ArgPattern → Prop
  | .anyRun => True
  | .anyOne => True
  | .type p => p.IsNormal ∧ p ≠ ⟨.any, 0⟩

def NamePattern.IsNormal : NamePattern → Prop
  | .constructor => True
  | .method glob => isSegment glob.text.toList

namespace MethodPattern

/-- The method patterns that texts are read as. -/
structure IsNormal (p : MethodPattern) : Prop where
  target : p.target.IsNormal
  noDims : p.target.dims = 0
  name : p.name.IsNormal
  args : ∀ a ∈ p.args, a.IsNormal

/-- Read the text between the parentheses. -/
def readArgs (text : List Char) : Except PatternError (List ArgPattern) :=
  if text.isEmpty then .ok [] else argsOf 1 (Text.splitOn ',' text)

theorem ofList?_nil : TypePattern.ofList? [] = none := by
  decide +kernel

/-- **Reading a method pattern**, part by part. -/
theorem compile_eq_ok_iff {pattern : String} {matchOverrides : Bool} {p : MethodPattern} :
    compile pattern matchOverrides = .ok p ↔
      ∃ head args rest type name,
        splitParentheses (trim pattern.toList) = .ok (head, args, rest) ∧ trim rest = [] ∧
        splitHead (trimEnd head) = .ok (type, name) ∧
        TypePattern.ofList? type = some p.target ∧ p.target.dims = 0 ∧
        nameOf name = .ok p.name ∧ readArgs (trim args) = .ok p.args ∧
        p.matchOverrides = matchOverrides := by
  simp only [compile, bind, Except.bind, pure, Except.pure, throw, throwThe, MonadExceptOf.throw]
  constructor
  · -- Every check that fails ends with an error, so each split leaves one way to go on.
    intro h
    split at h
    · cases h
    split at h
    · cases h
    next parts hparens =>
    split at h
    · cases h
    next hrest =>
    split at h
    · cases h
    next words hhead =>
    split at h
    · cases h
    split at h
    · cases h
    split at h
    next target htarget =>
      split at h
      next hdims =>
        split at h
        · cases h
        next name hname =>
        refine ⟨parts.1, parts.2.1, parts.2.2, words.1, words.2, hparens, by simpa using hrest,
          hhead, ?_⟩
        split at h
        next hargs =>
          obtain rfl := Except.ok.inj h
          exact ⟨htarget, hdims, hname, if_pos hargs, rfl⟩
        next hargs =>
          split at h
          · cases h
          next args hread =>
          obtain rfl := Except.ok.inj h
          exact ⟨htarget, hdims, hname, (if_neg hargs).trans hread, rfl⟩
      · cases h
    · cases h
  · rintro ⟨head, args, rest, type, name, hparens, hrest, hhead, htarget, hdims, hname, hargs, rfl⟩
    have htext : (trim pattern.toList).isEmpty = false := by
      cases htext : trim pattern.toList with
      | nil => rw [htext] at hparens; cases hparens
      | cons c cs => rfl
    have htype : type.isEmpty = false := by
      cases type with
      | nil => rw [ofList?_nil] at htarget; cases htarget
      | cons c cs => rfl
    have hword : name.isEmpty = false := by
      cases name with
      | nil => cases hname
      | cons c cs => rfl
    simp only [htext, hparens, hrest, hhead, htype, hword, htarget, hdims, hname]
    unfold readArgs at hargs
    split at hargs
    · next hnone => simp [hnone, Except.ok.inj hargs]
    · next hsome => simp [hsome, hargs]

theorem argsOf_eq_ok_iff {position : Nat} {pieces : List (List Char)} {as : List ArgPattern} :
    argsOf position pieces = .ok as ↔
      List.Forall₂ (fun piece a => argOf? (trim piece) = some a) pieces as := by
  induction pieces generalizing position as with
  | nil =>
    rw [List.forall₂_nil_left_iff]
    exact ⟨fun h => (Except.ok.inj h).symm, fun h => congrArg Except.ok h.symm⟩
  | cons piece pieces ih =>
    rw [argsOf, List.forall₂_cons_left_iff]
    cases harg : argOf? (trim piece) with
    | none => simp
    | some a =>
      cases hrest : argsOf (position + 1) pieces with
      | error e =>
        simp only [Except.map, reduceCtorEq, false_iff, not_exists, not_and]
        intro b bs _ hbs _
        simp [ih.2 hbs] at hrest
      | ok rest =>
        simp only [Except.map, Except.ok.injEq]
        constructor
        · rintro rfl
          exact ⟨a, rest, rfl, ih.1 hrest, rfl⟩
        · rintro ⟨b, bs, hb, hbs, rfl⟩
          have hsame := hrest.symm.trans (ih.2 hbs)
          rw [Option.some.inj hb, Except.ok.inj hsame]

/-! ### The parts are normal -/

theorem isNormal_of_nameOf {text : List Char} {name : NamePattern} (h : nameOf text = .ok name) :
    name.IsNormal := by
  unfold nameOf at h
  split at h
  · obtain rfl := Except.ok.inj h
    trivial
  split at h
  · next hsegment =>
    obtain rfl := Except.ok.inj h
    simpa [NamePattern.IsNormal] using hsegment
  · cases h

theorem isNormal_of_argOf? {text : List Char} {a : ArgPattern}
    (h : argOf? (trim text) = some a) : a.IsNormal := by
  unfold argOf? at h
  split at h
  · obtain rfl := Option.some.inj h
    trivial
  split at h
  · obtain rfl := Option.some.inj h
    trivial
  · next hstar =>
    obtain ⟨p, hp, rfl⟩ := Option.map_eq_some_iff.1 h
    refine ⟨TypePattern.isNormal_of_ofList? hp, ?_⟩
    rintro rfl
    exact hstar (trim_trim text ▸ TypePattern.eq_star_of_ofList? hp)

theorem isNormal_of_argsOf {position : Nat} {pieces : List (List Char)} {as : List ArgPattern}
    (h : argsOf position pieces = .ok as) : ∀ a ∈ as, a.IsNormal := by
  have hpieces := argsOf_eq_ok_iff.1 h
  clear h
  induction hpieces with
  | nil => exact List.forall_mem_nil _
  | cons hpiece _ ih => exact List.forall_mem_cons.2 ⟨isNormal_of_argOf? hpiece, ih⟩

/-- **What a text is read as is normal.** -/
theorem isNormal_of_compile {pattern : String} {matchOverrides : Bool} {p : MethodPattern}
    (h : compile pattern matchOverrides = .ok p) : p.IsNormal := by
  obtain ⟨head, args, rest, type, name, -, -, -, htarget, hdims, hname, hargs, -⟩ :=
    compile_eq_ok_iff.1 h
  refine ⟨TypePattern.isNormal_of_ofList? htarget, hdims, isNormal_of_nameOf hname, ?_⟩
  unfold readArgs at hargs
  split at hargs
  · rw [← Except.ok.inj hargs]
    exact List.forall_mem_nil _
  · exact isNormal_of_argsOf hargs

/-! ## Printing and reading again -/

theorem nameOf_renderName {name : NamePattern} (h : name.IsNormal) :
    nameOf (renderName name).toList = .ok name := by
  cases name with
  | constructor => simp [nameOf, renderName]
  | method glob =>
    have hmark : glob.text ≠ constructorMark := by
      rintro heq
      rw [NamePattern.IsNormal, heq] at h
      exact absurd h (by decide)
    have hsegment : isSegment glob.text.toList := h
    rw [nameOf, renderName, String.ofList_toList, if_neg hmark, if_pos hsegment]

theorem argOf?_renderArg {a : ArgPattern} (h : a.IsNormal) :
    argOf? (renderArg a).toList = some a := by
  cases a with
  | anyRun => rfl
  | anyOne => rfl
  | type p =>
    have hread := TypePattern.ofList?_render h.1
    have hdots : p.render.toList ≠ "..".toList := by
      intro heq
      have hnone : TypePattern.ofList? "..".toList = none := by decide +kernel
      rw [heq, hnone] at hread
      cases hread
    have hstar : p.render.toList ≠ ['*'] := by
      intro heq
      have hany : TypePattern.ofList? ['*'] = some ⟨.any, 0⟩ := by decide +kernel
      rw [heq, hany] at hread
      exact h.2 (Option.some.inj hread).symm
    rw [renderArg, argOf?, if_neg hdots, if_neg hstar, hread, Option.map_some]

theorem isPrinted_renderName {name : NamePattern} (h : name.IsNormal) :
    ∀ c ∈ (renderName name).toList, isPrinted c := by
  cases name with
  | constructor =>
    have hmark : constructorMark.toList.all isPrinted := by decide
    exact List.all_eq_true.1 hmark
  | method glob => exact fun c hc => isPrinted_of_isSegmentPart (isSegmentPart_of_isSegment h c hc)

theorem isPrinted_renderArg {a : ArgPattern} (h : a.IsNormal) :
    ∀ c ∈ (renderArg a).toList, isPrinted c := by
  cases a with
  | anyRun =>
    have hdots : "..".toList.all isPrinted := by decide
    exact List.all_eq_true.1 hdots
  | anyOne =>
    have hstar : "*".toList.all isPrinted := by decide
    exact List.all_eq_true.1 hstar
  | type p => exact h.1.isPrinted_render

/-! ### Before and between the parentheses -/

theorem splitHead_words {type gap name : List Char} (htype : ∀ c ∈ type, isPrinted c)
    (hgap : isBlank gap) (hne : gap ≠ []) (hname : ∀ c ∈ name, isPrinted c) :
    splitHead (type ++ (gap ++ name)) = .ok (type, name) := by
  obtain ⟨c, blanks, hreverse⟩ := List.exists_cons_of_ne_nil (List.reverse_ne_nil_iff.2 hne)
  have hc : isSpace c := isBlank_iff.1 hgap c (List.mem_reverse.1 (by simp [hreverse]))
  have hnoSign : '#' ∉ type ++ (gap ++ name) := by
    have htypeSign := notMem_of_isPrinted htype (d := '#') (by decide)
    have hnameSign := notMem_of_isPrinted hname (d := '#') (by decide)
    have hgapSign : '#' ∉ gap := fun hmem => absurd (isBlank_iff.1 hgap '#' hmem) (by decide)
    simp [htypeSign, hgapSign, hnameSign]
  have hblank : (type ++ (gap ++ name)).any isSpace = true :=
    List.any_eq_true.2 ⟨c, by simp [List.mem_reverse.1 (hreverse ▸ List.mem_cons_self)], hc⟩
  have hword : (type ++ (gap ++ name)).reverse.takeWhile (fun d => !isSpace d) =
      name.reverse := by
    rw [List.reverse_append, List.reverse_append, hreverse, List.append_assoc,
      List.takeWhile_append_of_pos, List.cons_append, List.takeWhile_cons_of_neg (by simp [hc]),
      List.append_nil]
    intro d hd
    simp [isSpace_of_isPrinted (hname d (List.mem_reverse.1 hd))]
  have hlength : (type ++ (gap ++ name)).length - name.length = (type ++ gap).length := by
    simp only [List.length_append]
    omega
  have htake : (type ++ (gap ++ name)).take (type ++ gap).length = type ++ gap := by
    rw [← List.append_assoc]
    exact List.take_left
  have htrim := trim_surrounded isBlank_nil hgap type
  rw [List.nil_append] at htrim
  simp only [splitHead, Text.cutLast_of_notMem hnoSign, hblank, if_true, hword, List.length_reverse,
    hlength, htake, List.reverse_reverse]
  rw [htrim, trim_of_forall fun d hd => isSpace_of_isPrinted (htype d hd)]

theorem splitParentheses_call {head args : List Char} (hhead : ')' ∉ head ∧ '(' ∉ head)
    (hargs : ')' ∉ args ∧ '(' ∉ args) :
    splitParentheses (head ++ '(' :: (args ++ [')'])) = .ok (head, args, []) := by
  simp [splitParentheses, Text.cutFirst_append_cons hhead.2, Text.cutFirst_append_cons hargs.1,
    hhead.1, hargs.2]

theorem trim_renderArg {a : ArgPattern} (h : a.IsNormal) :
    trim (renderArg a).toList = (renderArg a).toList :=
  trim_of_forall fun c hc => isSpace_of_isPrinted (isPrinted_renderArg h c hc)

theorem renderArg_ne_nil {a : ArgPattern} (h : a.IsNormal) : (renderArg a).toList ≠ [] := by
  intro hnil
  have hread := argOf?_renderArg h
  have hnone : argOf? [] = none := by decide +kernel
  rw [hnil, hnone] at hread
  cases hread

/-- What a pattern prints between its parentheses. -/
def renderArgs (as : List ArgPattern) : List Char :=
  List.intercalate [',', ' '] (as.map (String.toList ∘ renderArg))

/-- No blank and no empty piece stands at the ends of what has been joined. -/
theorem trim_intercalate {joint : List Char} {pieces : List (List Char)}
    (hne : ∀ piece ∈ pieces, piece ≠ [])
    (hsolid : ∀ piece ∈ pieces, ∀ c ∈ piece, isSpace c = false) :
    trim (List.intercalate joint pieces) = List.intercalate joint pieces := by
  refine trim_eq_self (fun c hc => ?_) fun c hc => ?_
  · obtain ⟨piece, hpiece, hmem⟩ := Text.mem_head?_intercalate hne hc
    exact hsolid piece hpiece c hmem
  · obtain ⟨piece, hpiece, hmem⟩ := Text.mem_getLast?_intercalate hne hc
    exact hsolid piece hpiece c hmem

theorem trim_renderArgs {as : List ArgPattern} (h : ∀ a ∈ as, a.IsNormal) :
    trim (renderArgs as) = renderArgs as := by
  refine trim_intercalate ?_ ?_
  all_goals rw [List.forall_mem_map]
  · exact fun a ha => renderArg_ne_nil (h a ha)
  · exact fun a ha c hc => isSpace_of_isPrinted (isPrinted_renderArg (h a ha) c hc)

/-- The arguments come apart at the commas, all but the first with the blank in front. -/
theorem splitOn_renderArgs {a : ArgPattern} {as : List ArgPattern}
    (h : ∀ b ∈ a :: as, b.IsNormal) :
    Text.splitOn ',' (renderArgs (a :: as)) =
      (renderArg a).toList :: as.map fun b => ' ' :: (renderArg b).toList := by
  have hcomma : ∀ piece ∈ (a :: as).map (String.toList ∘ renderArg), ',' ∉ piece := by
    rw [List.forall_mem_map]
    exact fun b hb => notMem_of_isPrinted (isPrinted_renderArg (h b hb)) (by decide)
  have hsplit := Text.splitOn_intercalate_cons (by decide : ',' ∉ [' ']) hcomma
  rw [List.map_map] at hsplit
  exact hsplit

theorem readArgs_render {as : List ArgPattern} (h : ∀ a ∈ as, a.IsNormal) :
    readArgs (trim (renderArgs as)) = .ok as := by
  cases as with
  | nil => rfl
  | cons a as =>
    have hne : renderArgs (a :: as) ≠ [] :=
      Text.intercalate_cons_ne_nil [',', ' '] (renderArg_ne_nil (h a List.mem_cons_self)) _
    rw [trim_renderArgs h, readArgs, if_neg (by simpa using hne), splitOn_renderArgs h,
      argsOf_eq_ok_iff]
    rw [List.forall_mem_cons] at h
    refine .cons ?_ ?_
    · rw [trim_renderArg h.1, argOf?_renderArg h.1]
    · rw [List.forall₂_map_left_iff, List.forall₂_same]
      intro b hb
      rw [trim_cons_space (by decide), trim_renderArg (h.2 b hb), argOf?_renderArg (h.2 b hb)]

/-! ### Whole patterns -/

theorem renderName_ne_nil {name : NamePattern} (h : name.IsNormal) :
    (renderName name).toList ≠ [] := by
  intro hnil
  have hread := nameOf_renderName h
  rw [hnil] at hread
  cases hread

/-- What a pattern prints before its parentheses. -/
def renderHead (p : MethodPattern) : List Char :=
  p.target.render.toList ++ ' ' :: (renderName p.name).toList

theorem toList_render (p : MethodPattern) :
    p.render.toList = p.renderHead ++ '(' :: (renderArgs p.args ++ [')']) := by
  simp [render, renderHead, renderArgs, String.toList_intercalate]

namespace IsNormal

variable {p : MethodPattern}

theorem notMem_renderHead (h : p.IsNormal) {c : Char} (hc : isPrinted c = false)
    (hblank : c ≠ ' ') : c ∉ p.renderHead := by
  simp [renderHead, hblank, notMem_of_isPrinted h.target.isPrinted_render hc,
    notMem_of_isPrinted (isPrinted_renderName h.name) hc]

theorem notMem_renderArgs (h : p.IsNormal) {c : Char} (hc : isPrinted c = false)
    (hjoint : c ∉ [',', ' ']) : c ∉ renderArgs p.args := by
  intro hmem
  rcases Text.mem_intercalate hmem with hbetween | ⟨piece, hpiece, hinside⟩
  · exact hjoint hbetween
  · obtain ⟨a, ha, rfl⟩ := List.mem_map.1 hpiece
    exact notMem_of_isPrinted (isPrinted_renderArg (h.args a ha)) hc hinside

theorem trimEnd_renderHead (h : p.IsNormal) : trimEnd p.renderHead = p.renderHead := by
  refine trimEnd_eq_self fun c hc => isSpace_of_isPrinted (isPrinted_renderName h.name c ?_)
  obtain ⟨d, ds, hname⟩ := List.exists_cons_of_ne_nil (renderName_ne_nil h.name)
  exact List.mem_of_mem_getLast? (by simpa [renderHead, hname] using hc)

theorem trim_render (h : p.IsNormal) : trim p.render.toList = p.render.toList := by
  have hstart : p.target.render.toList ≠ [] := by
    intro hnil
    have hread := TypePattern.ofList?_render h.target
    rw [hnil, ofList?_nil] at hread
    cases hread
  rw [toList_render]
  refine trim_eq_self (fun c hc => ?_) fun c hc => ?_
  · obtain ⟨d, ds, htext⟩ := List.exists_cons_of_ne_nil hstart
    have hsolid := h.target.isPrinted_render d (by simp [htext])
    obtain rfl : d = c := by simpa [renderHead, htext] using hc
    exact isSpace_of_isPrinted hsolid
  · rw [← List.cons_append, ← List.append_assoc, List.getLast?_concat] at hc
    obtain rfl := Option.some.inj hc
    decide

/-- **A normal pattern is what its text is read as.** -/
theorem compile_eq_ok (h : p.IsNormal) : compile p.render p.matchOverrides = .ok p := by
  have hparens :
      splitParentheses (trim p.render.toList) = .ok (p.renderHead, renderArgs p.args, []) := by
    rw [h.trim_render, toList_render]
    exact splitParentheses_call
      ⟨h.notMem_renderHead (by decide) (by decide), h.notMem_renderHead (by decide) (by decide)⟩
      ⟨h.notMem_renderArgs (by decide) (by decide), h.notMem_renderArgs (by decide) (by decide)⟩
  have hhead : splitHead (trimEnd p.renderHead) =
      .ok (p.target.render.toList, (renderName p.name).toList) := by
    rw [h.trimEnd_renderHead]
    exact splitHead_words h.target.isPrinted_render (by decide : isBlank [' '])
      (List.cons_ne_nil _ _) (isPrinted_renderName h.name)
  exact compile_eq_ok_iff.2 ⟨_, _, _, _, _, hparens, rfl, hhead,
    TypePattern.ofList?_render h.target, h.noDims, nameOf_renderName h.name,
    readArgs_render h.args, rfl⟩

end IsNormal

/-- **Printing and reading again changes nothing**, however the pattern was first written. -/
theorem compile_render {pattern : String} {matchOverrides : Bool} {p : MethodPattern}
    (h : compile pattern matchOverrides = .ok p) :
    compile p.render matchOverrides = .ok p ∧
      (compile p.render matchOverrides).map render = .ok p.render := by
  obtain ⟨head, args, rest, type, name, -, -, -, -, -, -, -, hflag⟩ := compile_eq_ok_iff.1 h
  have hread := (isNormal_of_compile h).compile_eq_ok
  rw [hflag] at hread
  exact ⟨hread, congrArg (Except.map render) hread⟩

/-- Runs beside dollar signs, blanks among dimensions, a bare well-known type and variable arguments
    are all printed in one way. -/
theorem compile_render_mixed :
    ∃ p, compile " com..Foo$Bar$..*.Baz*#get*(String, ..,int [] ..., *,  Map$Entry[]) " true =
        .ok p ∧
      p.render = "com..Foo.Bar..*.Baz* get*(java.lang.String, .., int[][], *, Map.Entry[])" ∧
      compile p.render true = .ok p ∧ (compile p.render true).map render = .ok p.render := by
  let target : TypePattern := ⟨.segments [.name ⟨"com"⟩, .anyRun, .name ⟨"Foo"⟩, .name ⟨"Bar"⟩,
    .anyRun, .name ⟨"*"⟩, .name ⟨"Baz*"⟩], 0⟩
  let args : List ArgPattern :=
    [.type ⟨.segments [.name ⟨"java"⟩, .name ⟨"lang"⟩, .name ⟨"String"⟩], 0⟩, .anyRun,
      .type ⟨.segments [.name ⟨"int"⟩], 2⟩, .anyOne,
      .type ⟨.segments [.name ⟨"Map"⟩, .name ⟨"Entry"⟩], 1⟩]
  have hread : compile
      " com..Foo$Bar$..*.Baz*#get*(String, ..,int [] ..., *,  Map$Entry[]) " true =
        .ok ⟨target, .method ⟨"get*"⟩, args, true⟩ := by
    decide +kernel
  exact ⟨_, hread, by decide +kernel, compile_render hread⟩

end MethodPattern
end JavaThrows
