import JavaThrows.Proofs.Text.Gaps
import JavaThrows.Text.Json
import JavaThrows.Text.JsonScan

set_option autoImplicit false

/-!
# Printed JSON is read again

A printed value ends where a reader finds its end: texts are escaped, so no quote inside of them
ends them; numbers are printed without zeros in front, and the character behind them is no digit;
brackets and braces come in pairs. A reader takes one step for a value and one for each item or
member, and each of these has at least one character, so the length of the text is fuel enough.
Main statement: `skip_pretty`.
-/

namespace JavaThrows

open JsonScan

/-! ## Texts -/

namespace JsonScan

variable {isStrict : Bool}

theorem hexUnit_ok {digits : List Char} {n : Nat} (hlength : digits.length = 4)
    (hnumber : Text.hexNumber? digits = some n) (cs : List Char) :
    hexUnit (digits ++ cs) = .ok (n, cs) := by
  have hbytes : ¬ Text.byteLength (digits ++ cs) < 4 := by
    have hle := Text.length_le_byteLength digits
    rw [Text.byteLength_append]
    omega
  rw [hexUnit, if_neg hbytes, List.take_left' hlength, List.drop_left' hlength, hnumber]

theorem hexNumber?_control : ∀ n < 32,
    Text.hexNumber? ['0', '0', Text.hexDigit (n / 16), Text.hexDigit (n % 16)] = some n := by
  decide

theorem escape_control {n : Nat} (h : n < 32) (cs : List Char) :
    escape isStrict
      ('u' :: '0' :: '0' :: Text.hexDigit (n / 16) :: Text.hexDigit (n % 16) :: cs) =
      .ok (Char.ofNat n, cs) := by
  have hunit := hexUnit_ok (by rfl) (hexNumber?_control n h) cs
  simp only [List.cons_append, List.nil_append] at hunit
  have hlow : isLowHalf n = false := by simp [isLowHalf]; omega
  have hhigh : isHighHalf n = false := by simp [isHighHalf]; omega
  cases isStrict with
  | true => simp [escape, unicodeEscape, hunit, hlow, hhigh, pure, Except.pure, bind, Except.bind]
  | false => simp [escape, hunit, Except.map]

theorem insideText_backslash {cs inside : List Char} {c : Char}
    (h : escape isStrict inside = .ok (c, cs)) (fuel : Nat) :
    insideText isStrict (fuel + 1) ('\\' :: inside) =
      (insideText isStrict fuel cs).map fun r => (c :: r.1, r.2) := by
  rw [insideText, if_neg (by decide), if_pos rfl, h]
  show insideText isStrict fuel cs >>= _ = _
  cases insideText isStrict fuel cs <;> rfl

/-- **An escaped character is read as the character.** -/
theorem insideText_escape (c : Char) (fuel : Nat) (cs : List Char) :
    insideText isStrict (fuel + 1) (Json.escape c ++ cs) =
      (insideText isStrict fuel cs).map fun r => (c :: r.1, r.2) := by
  unfold Json.escape
  split
  · exact insideText_backslash rfl fuel
  · exact insideText_backslash rfl fuel
  · exact insideText_backslash rfl fuel
  · exact insideText_backslash rfl fuel
  · exact insideText_backslash rfl fuel
  · exact insideText_backslash rfl fuel
  · exact insideText_backslash rfl fuel
  · next hquote hback _ _ _ _ _ =>
    split
    · next hcontrol =>
      refine insideText_backslash ((escape_control hcontrol cs).trans ?_) fuel
      rw [Char.ofNat_toNat]
    · next hplain =>
      rw [List.singleton_append, insideText, if_neg hquote, if_neg hback, if_neg hplain]
      cases insideText isStrict fuel cs <;> rfl

theorem insideText_flatMap_escape {text : List Char} {fuel : Nat} (h : text.length < fuel)
    (cs : List Char) : insideText isStrict fuel (text.flatMap Json.escape ++ '"' :: cs) =
      .ok (text, cs) := by
  obtain ⟨fuel, rfl⟩ := Nat.exists_eq_add_one_of_ne_zero (Nat.ne_of_gt (Nat.zero_lt_of_lt h))
  induction text generalizing fuel with
  | nil => rw [List.flatMap_nil, List.nil_append, insideText, if_pos rfl]
  | cons c text ih =>
    rw [List.length_cons] at h
    obtain ⟨fuel, rfl⟩ := Nat.exists_eq_add_one_of_ne_zero (n := fuel) (by omega)
    rw [List.flatMap_cons, List.append_assoc, insideText_escape, ih fuel (by omega)]
    rfl

theorem length_le_length_flatMap_escape (text : List Char) :
    text.length ≤ (text.flatMap Json.escape).length := by
  induction text with
  | nil => exact Nat.le_refl 0
  | cons c text ih =>
    have hpos : 0 < (Json.escape c).length := by
      unfold Json.escape
      split <;> try simp
      split <;> simp
    rw [List.flatMap_cons, List.length_append, List.length_cons]
    omega

theorem toList_quote_append (text : String) (cs : List Char) :
    (Json.quote text).toList ++ cs = '"' :: (text.toList.flatMap Json.escape ++ '"' :: cs) := by
  rw [Json.quote, String.toList_ofList, List.cons_append, List.cons_append, List.append_assoc,
    List.singleton_append]

/-- **A quoted text is read as the text.** -/
theorem textBody_flatMap_escape (text : String) (cs : List Char) :
    textBody isStrict (text.toList.flatMap Json.escape ++ '"' :: cs) = .ok (text, cs) := by
  have hlength := length_le_length_flatMap_escape text.toList
  rw [textBody, insideText_flatMap_escape (by rw [List.length_append]; omega)]
  show Except.ok (String.ofList text.toList, cs) = _
  rw [String.ofList_toList]

/-! ## Numbers -/

theorem toList_toString (n : Nat) : (toString n).toList = Nat.toDigits 10 n := by
  rw [Nat.toString_eq_ofList_toDigits, String.toList_ofList]

theorem isDigit_of_mem_toDigits {n : Nat} {d : Char} (h : d ∈ Nat.toDigits 10 n) : d.isDigit :=
  Nat.isDigit_of_mem_toDigits (by decide) (by decide) h

theorem digitChar_ne_zero : ∀ n < 10, n ≠ 0 → Nat.digitChar n ≠ '0' := by
  decide

/-- Numbers are printed without zeros in front. -/
theorem head?_toDigits_ne_zero {n : Nat} (hn : n ≠ 0) : (Nat.toDigits 10 n).head? ≠ some '0' := by
  induction n using Nat.strongRecOn with
  | ind n ih =>
    by_cases hsmall : n < 10
    · rw [Nat.toDigits_of_lt_base hsmall]
      simpa using digitChar_ne_zero n hsmall hn
    · rw [Nat.toDigits_of_base_le (by decide) (by omega)]
      obtain ⟨d, ds, hds⟩ := List.exists_cons_of_ne_nil (Nat.toDigits_ne_nil (n := n / 10))
      have hrest := ih (n / 10) (by omega) (by omega)
      rw [hds] at hrest ⊢
      exact hrest

theorem someDigits_append {ds cs : List Char} (atEnd : JsonFault) (hne : ds ≠ [])
    (hds : ∀ d ∈ ds, d.isDigit) (hcs : ∀ c ∈ cs.head?, ¬ c.isDigit) :
    someDigits atEnd (ds ++ cs) = .ok (ds, cs) := by
  have hrest : cs.takeWhile Char.isDigit = [] := by
    cases cs with
    | nil => rfl
    | cons c cs => simpa using hcs c rfl
  have htake : (ds ++ cs).takeWhile Char.isDigit = ds := by
    rw [List.takeWhile_append_of_pos hds, hrest, List.append_nil]
  obtain ⟨d, digits, rfl⟩ := List.exists_cons_of_ne_nil hne
  unfold someDigits
  rw [htake]
  exact congrArg (fun rest => Except.ok (d :: digits, rest)) List.drop_left

/-- What may follow a value in a printed text: the next value, or a new line. -/
def IsStop (cs : List Char) : Prop :=
  ∃ c rest, cs = c :: rest ∧ (c = ',' ∨ c = '\n')

/-- **A number is read up to its end.** -/
theorem number_toString (atEnd : JsonFault) (n : Nat) {cs : List Char} (hcs : IsStop cs) :
    number atEnd ((toString n).toList ++ cs) = .ok (⟨Nat.toDigits 10 n, [], false, []⟩, cs) := by
  have hne : Nat.toDigits 10 n ≠ [] := Nat.toDigits_ne_nil
  have hzero : (Nat.toDigits 10 n).head? = some '0' → (Nat.toDigits 10 n).length ≤ 1 := by
    intro hhead
    by_cases hn : n = 0
    · rw [hn]
      exact Nat.le_refl 1
    · exact absurd hhead (head?_toDigits_ne_zero hn)
  have hsign : ((Nat.toDigits 10 n) ++ cs).head? ≠ some '-' := by
    obtain ⟨d, ds, hds⟩ := List.exists_cons_of_ne_nil hne
    have hd : d.isDigit := isDigit_of_mem_toDigits (hds ▸ List.mem_cons_self)
    rw [hds, List.cons_append, List.head?_cons]
    rintro ⟨⟩
    exact absurd hd (by decide)
  have hscan : someDigits atEnd (Nat.toDigits 10 n ++ cs) = .ok (Nat.toDigits 10 n, cs) := by
    refine someDigits_append atEnd hne (fun _ => isDigit_of_mem_toDigits) ?_
    obtain ⟨c, rest, rfl, rfl | rfl⟩ := hcs
    · simp
    · simp
  rw [number, toList_toString]
  dsimp only
  rw [if_neg hsign, hscan]
  obtain ⟨c, rest, rfl, rfl | rfl⟩ := hcs
  · simpa [bind, Except.bind, pure, Except.pure] using hzero
  · simpa [bind, Except.bind, pure, Except.pure] using hzero

/-! ## Values -/

theorem word_append (ws cs : List Char) : word ws (ws ++ cs) = .ok cs := by
  induction ws with
  | nil => rfl
  | cons w ws ih => rw [List.cons_append, word, if_pos rfl, ih]

theorem toList_lineStart (level : Nat) :
    (Json.lineStart level).toList = '\n' :: List.replicate (2 * level) ' ' :=
  String.toList_ofList

theorem length_lineStart_pos (level : Nat) : 0 < (Json.lineStart level).length := by
  rw [← String.length_toList, toList_lineStart]
  exact Nat.succ_pos _

@[simp] theorem skipSpace_lineStart (level : Nat) (cs : List Char) :
    skipSpace ((Json.lineStart level).toList ++ cs) = skipSpace cs := by
  rw [toList_lineStart, skipSpace, skipSpace, List.cons_append, List.dropWhile_cons_of_pos rfl,
    List.dropWhile_append_of_pos]
  intro c hc
  rw [List.eq_of_mem_replicate hc]
  rfl

/-- A value may stand behind space. -/
theorem skipValue_lineStart (fuel level : Nat) (cs : List Char) :
    skipValue fuel ((Json.lineStart level).toList ++ cs) = skipValue fuel cs := by
  cases fuel with
  | zero => rw [skipValue, skipValue]
  | succ fuel => rw [skipValue, skipValue, skipSpace_lineStart]

theorem skipValue_blank (fuel : Nat) (cs : List Char) :
    skipValue fuel (' ' :: cs) = skipValue fuel cs := by
  cases fuel with
  | zero => rw [skipValue, skipValue]
  | succ fuel =>
    have hskip : skipSpace (' ' :: cs) = skipSpace cs := List.dropWhile_cons_of_pos rfl
    rw [skipValue, skipValue, hskip]

theorem skipSpace_cons {c : Char} (hc : c ∉ [' ', '\n', '\t', '\r']) (cs : List Char) :
    skipSpace (c :: cs) = c :: cs := by
  refine List.dropWhile_cons_of_neg ?_
  simpa [and_assoc] using hc

theorem notMem_space_of_isDigit {d : Char} (hd : d.isDigit) : d ∉ [' ', '\n', '\t', '\r'] := by
  intro hmem
  simp only [List.mem_cons, List.not_mem_nil, or_false] at hmem
  obtain rfl | rfl | rfl | rfl := hmem <;> exact absurd hd (by decide)

/-- A printed value starts with a character that is neither a closing bracket nor space. -/
theorem exists_prettyAt_eq_cons (level : Nat) (j : Json) :
    ∃ c cs, (j.prettyAt level).toList = c :: cs ∧ c ≠ ']' ∧ c ∉ [' ', '\n', '\t', '\r'] := by
  cases j with
  | null => exact ⟨'n', _, by rw [Json.prettyAt]; rfl, by decide, by decide⟩
  | boolean value =>
    cases value with
    | true => exact ⟨'t', _, by rw [Json.prettyAt]; rfl, by decide, by decide⟩
    | false => exact ⟨'f', _, by rw [Json.prettyAt]; rfl, by decide, by decide⟩
  | natural n =>
    obtain ⟨d, ds, hds⟩ := List.exists_cons_of_ne_nil (Nat.toDigits_ne_nil (n := n) (b := 10))
    have hd : d.isDigit := isDigit_of_mem_toDigits (hds ▸ List.mem_cons_self)
    refine ⟨d, ds, ?_, ?_, notMem_space_of_isDigit hd⟩
    · rw [Json.prettyAt, toList_toString, hds]
    · rintro rfl
      exact absurd hd (by decide)
  | text text =>
    refine ⟨'"', text.toList.flatMap Json.escape ++ ['"'], ?_, by decide, by decide⟩
    rw [Json.prettyAt, Json.quote, String.toList_ofList, List.cons_append]
  | array items =>
    cases items with
    | nil => exact ⟨'[', _, by rw [Json.prettyAt]; rfl, by decide, by decide⟩
    | cons item items =>
      simp only [Json.prettyAt, String.toList_append, List.append_assoc]
      exact ⟨'[', _, rfl, by decide, by decide⟩
  | object members =>
    cases members with
    | nil => exact ⟨'\x7b', _, by rw [Json.prettyAt]; rfl, by decide, by decide⟩
    | cons member members =>
      simp only [Json.prettyAt, String.toList_append, List.append_assoc]
      exact ⟨'\x7b', _, rfl, by decide, by decide⟩

theorem isStop_prettyItems (level outer : Nat) (items : List Json) (cs : List Char) :
    IsStop ((Json.prettyItems level items).toList ++ ((Json.lineStart outer).toList ++ cs)) := by
  cases items with
  | nil => exact ⟨'\n', _, by rw [Json.prettyItems, toList_lineStart]; rfl, .inr rfl⟩
  | cons item items =>
    simp only [Json.prettyItems, String.toList_append, List.append_assoc]
    exact ⟨',', _, rfl, .inl rfl⟩

theorem isStop_prettyMembers (level outer : Nat) (members : List (String × Json))
    (cs : List Char) :
    IsStop ((Json.prettyMembers level members).toList ++
      ((Json.lineStart outer).toList ++ cs)) := by
  cases members with
  | nil => exact ⟨'\n', _, by rw [Json.prettyMembers, toList_lineStart]; rfl, .inr rfl⟩
  | cons member members =>
    simp only [Json.prettyMembers, String.toList_append, List.append_assoc]
    exact ⟨',', _, rfl, .inl rfl⟩

/-- What stands between two items or members: a comma behind one, and a new line. -/
def separator (isFirst : Bool) (level : Nat) : List Char :=
  (if isFirst then [] else [',']) ++ (Json.lineStart level).toList

theorem skipItems_succ {fuel : Nat} {cs inside : List Char} {c : Char}
    (hskip : skipSpace cs = c :: inside) (hclose : c ≠ ']') (isFirst : Bool) :
    skipItems (fuel + 1) isFirst cs =
      (if isFirst then pure (c :: inside) else word [','] (c :: inside)) >>= fun cs =>
        skipValue fuel cs >>= skipItems fuel false := by
  rw [skipItems, hskip]
  split
  · next hnil => cases hnil
  · next heq => exact absurd (List.cons.inj heq).1 hclose
  · cases isFirst <;> rfl

theorem skipMembers_succ {fuel : Nat} {cs inside : List Char} {c : Char}
    (hskip : skipSpace cs = c :: inside) (hclose : c ≠ '\x7d') (isFirst : Bool) :
    skipMembers (fuel + 1) isFirst cs =
      (if isFirst then pure (c :: inside) else word [','] (c :: inside)) >>= fun cs =>
        symbol '"' cs >>= fun cs => textBody false cs >>= fun key =>
          symbol ':' key.2 >>= fun cs => skipValue fuel cs >>= skipMembers fuel false := by
  rw [skipMembers, hskip]
  split
  · next hnil => cases hnil
  · next heq => exact absurd (List.cons.inj heq).1 hclose
  · cases isFirst <;> rfl

theorem skipItems_close {fuel : Nat} {cs rest : List Char} (h : skipSpace cs = ']' :: rest)
    (isFirst : Bool) : skipItems (fuel + 1) isFirst cs = .ok rest := by
  rw [skipItems, h]
  rfl

theorem skipMembers_close {fuel : Nat} {cs rest : List Char} (h : skipSpace cs = '\x7d' :: rest)
    (isFirst : Bool) : skipMembers (fuel + 1) isFirst cs = .ok rest := by
  rw [skipMembers, h]
  rfl

/-- One more item, with the fuel for one more step. -/
theorem skipItems_cons {fuel level : Nat} {item : Json} {rest cs : List Char}
    (hitem : skipValue fuel ((item.prettyAt level).toList ++ rest) = .ok rest)
    (hrest : skipItems fuel false rest = .ok cs) (isFirst : Bool) :
    skipItems (fuel + 1) isFirst
      (separator isFirst level ++ ((item.prettyAt level).toList ++ rest)) = .ok cs := by
  cases isFirst with
  | true =>
    obtain ⟨c, inside, hcons, hclose, hspace⟩ := exists_prettyAt_eq_cons level item
    have hskip : skipSpace (separator true level ++ ((item.prettyAt level).toList ++ rest)) =
        c :: (inside ++ rest) := by
      rw [separator, if_pos rfl, List.nil_append, skipSpace_lineStart, hcons, List.cons_append,
        skipSpace_cons hspace]
    rw [skipItems_succ hskip hclose, if_pos rfl, ← List.cons_append, ← hcons]
    show skipValue fuel _ >>= _ = _
    rw [hitem]
    exact hrest
  | false =>
    have hskip : skipSpace (separator false level ++ ((item.prettyAt level).toList ++ rest)) =
        ',' :: ((Json.lineStart level).toList ++ ((item.prettyAt level).toList ++ rest)) :=
      List.dropWhile_cons_of_neg (by decide)
    rw [skipItems_succ hskip (by decide), if_neg Bool.false_ne_true]
    show skipValue fuel _ >>= _ = _
    rw [skipValue_lineStart, hitem]
    exact hrest

/-- One more member, with the fuel for one more step. -/
theorem skipMembers_cons {fuel level : Nat} {value : Json} {rest cs : List Char}
    (hvalue : skipValue fuel ((value.prettyAt level).toList ++ rest) = .ok rest)
    (hrest : skipMembers fuel false rest = .ok cs) (isFirst : Bool) (key : String) :
    skipMembers (fuel + 1) isFirst (separator isFirst level ++
      ((Json.quote key).toList ++ ':' :: ' ' :: ((value.prettyAt level).toList ++ rest))) =
        .ok cs := by
  rw [toList_quote_append]
  generalize hafter : ':' :: ' ' :: ((value.prettyAt level).toList ++ rest) = after
  -- What comes behind the separator, from the key on.
  have hmember : (symbol '"' ('"' :: (key.toList.flatMap Json.escape ++ '"' :: after)) >>=
      fun cs => textBody false cs >>= fun key => symbol ':' key.2 >>= fun cs =>
        skipValue fuel cs >>= skipMembers fuel false) = .ok cs := by
    show textBody false (key.toList.flatMap Json.escape ++ '"' :: after) >>= _ = _
    rw [textBody_flatMap_escape, ← hafter]
    show skipValue fuel (' ' :: ((value.prettyAt level).toList ++ rest)) >>= _ = _
    rw [skipValue_blank, hvalue]
    exact hrest
  cases isFirst with
  | true =>
    have hskip : skipSpace (separator true level ++
        '"' :: (key.toList.flatMap Json.escape ++ '"' :: after)) =
          '"' :: (key.toList.flatMap Json.escape ++ '"' :: after) := by
      rw [separator, if_pos rfl, List.nil_append, skipSpace_lineStart]
      exact List.dropWhile_cons_of_neg (by decide)
    rw [skipMembers_succ hskip (by decide), if_pos rfl, pure_bind]
    exact hmember
  | false =>
    have hskip : skipSpace (separator false level ++
        '"' :: (key.toList.flatMap Json.escape ++ '"' :: after)) =
          ',' :: ((Json.lineStart level).toList ++
            '"' :: (key.toList.flatMap Json.escape ++ '"' :: after)) :=
      List.dropWhile_cons_of_neg (by decide)
    rw [skipMembers_succ hskip (by decide), if_neg Bool.false_ne_true]
    show symbol '"' _ >>= _ = _
    rw [symbol, skipSpace_lineStart, ← symbol]
    exact hmember

/-- With this much fuel, all values are passed over whose text is no longer, and all rests of items
    and members whose text is shorter. -/
structure Passes (fuel : Nat) : Prop where
  value : ∀ level (j : Json), (j.prettyAt level).length ≤ fuel → ∀ cs, IsStop cs →
    skipValue fuel ((j.prettyAt level).toList ++ cs) = .ok cs
  items : ∀ level outer items, (Json.prettyItems level items).length < fuel → ∀ cs,
    skipItems fuel false ((Json.prettyItems level items).toList ++
      ((Json.lineStart outer).toList ++ ']' :: cs)) = .ok cs
  members : ∀ level outer members, (Json.prettyMembers level members).length < fuel → ∀ cs,
    skipMembers fuel false ((Json.prettyMembers level members).toList ++
      ((Json.lineStart outer).toList ++ '\x7d' :: cs)) = .ok cs

theorem Passes.zero : Passes 0 where
  value := by
    intro level j hfuel
    obtain ⟨c, cs, hcons, -⟩ := exists_prettyAt_eq_cons level j
    simp [← String.length_toList, hcons] at hfuel
  items := fun _ _ _ hfuel => absurd hfuel (Nat.not_lt_zero _)
  members := fun _ _ _ hfuel => absurd hfuel (Nat.not_lt_zero _)

section Step

variable {fuel : Nat} (h : Passes fuel)
include h

/-- One item or more, or what is left of the items. -/
theorem Passes.skipItems_item (level outer : Nat) (item : Json) (items : List Json)
    (hfuel : (item.prettyAt level).length + (Json.prettyItems level items).length < fuel)
    (isFirst : Bool) (cs : List Char) :
    skipItems (fuel + 1) isFirst (separator isFirst level ++ ((item.prettyAt level).toList ++
      ((Json.prettyItems level items).toList ++ ((Json.lineStart outer).toList ++ ']' :: cs)))) =
        .ok cs :=
  skipItems_cons (h.value level item (by omega) _ (isStop_prettyItems level outer items _))
    (h.items level outer items (by omega) cs) isFirst

theorem Passes.skipMembers_member (level outer : Nat) (key : String) (value : Json)
    (members : List (String × Json))
    (hfuel : (value.prettyAt level).length + (Json.prettyMembers level members).length < fuel)
    (isFirst : Bool) (cs : List Char) :
    skipMembers (fuel + 1) isFirst (separator isFirst level ++ ((Json.quote key).toList ++
      ':' :: ' ' :: ((value.prettyAt level).toList ++ ((Json.prettyMembers level members).toList ++
        ((Json.lineStart outer).toList ++ '\x7d' :: cs))))) = .ok cs :=
  skipMembers_cons (h.value level value (by omega) _ (isStop_prettyMembers level outer members _))
    (h.members level outer members (by omega) cs) isFirst key

theorem Passes.items_succ (level outer : Nat) (items : List Json)
    (hfuel : (Json.prettyItems level items).length < fuel + 1) (cs : List Char) :
    skipItems (fuel + 1) false ((Json.prettyItems level items).toList ++
      ((Json.lineStart outer).toList ++ ']' :: cs)) = .ok cs := by
  cases items with
  | nil =>
    refine skipItems_close ?_ false
    rw [Json.prettyItems, String.toList_empty, List.nil_append, skipSpace_lineStart]
    exact skipSpace_cons (by decide) cs
  | cons item items =>
    rw [Json.prettyItems] at hfuel ⊢
    have hline := length_lineStart_pos level
    have hcomma : ",".length = 1 := rfl
    simp only [String.length_append] at hfuel
    simp only [String.toList_append, List.append_assoc]
    rw [← List.append_assoc ",".toList]
    exact h.skipItems_item level outer item items (by omega) false cs

theorem Passes.members_succ (level outer : Nat) (members : List (String × Json))
    (hfuel : (Json.prettyMembers level members).length < fuel + 1) (cs : List Char) :
    skipMembers (fuel + 1) false ((Json.prettyMembers level members).toList ++
      ((Json.lineStart outer).toList ++ '\x7d' :: cs)) = .ok cs := by
  cases members with
  | nil =>
    refine skipMembers_close ?_ false
    rw [Json.prettyMembers, String.toList_empty, List.nil_append, skipSpace_lineStart]
    exact skipSpace_cons (by decide) cs
  | cons member members =>
    obtain ⟨key, value⟩ := member
    rw [Json.prettyMembers] at hfuel ⊢
    have hline := length_lineStart_pos level
    have hcomma : ",".length = 1 := rfl
    simp only [String.length_append] at hfuel
    simp only [String.toList_append, List.append_assoc]
    rw [← List.append_assoc ",".toList]
    exact h.skipMembers_member level outer key value members (by omega) false cs

end Step

/-- No other value starts like a number. -/
theorem skipValue_of_isDigit {d : Char} (hd : d.isDigit) (fuel : Nat) (cs : List Char) :
    skipValue (fuel + 1) (d :: cs) = (number .malformed (d :: cs)).map Prod.snd := by
  have hne (c : Char) (hc : ¬ c.isDigit) : d ≠ c := by
    rintro rfl
    exact hc hd
  rw [skipValue, skipSpace_cons (notMem_space_of_isDigit hd)]
  split
  · next heq => cases heq
  iterate 6
    · next heq => exact absurd (List.cons.inj heq).1 (hne _ (by decide))
  · next heq =>
    obtain ⟨rfl, rfl⟩ := List.cons.inj heq
    rw [hd, Bool.or_true, if_pos rfl]

section Value

variable {fuel : Nat} (ih : ∀ smaller < fuel + 1, Passes smaller)
include ih

theorem skipValue_array (level : Nat) (items : List Json)
    (hfuel : ((Json.array items).prettyAt level).length ≤ fuel + 1) (cs : List Char) :
    skipValue (fuel + 1) (((Json.array items).prettyAt level).toList ++ cs) = .ok cs := by
  have hopen : "[".length = 1 := rfl
  have hclose : "]".length = 1 := rfl
  cases items with
  | nil =>
    rw [Json.prettyAt] at hfuel ⊢
    have hboth : "[]".length = 2 := rfl
    obtain ⟨smaller, rfl⟩ := Nat.exists_eq_add_one_of_ne_zero (n := fuel) (by omega)
    rw [skipValue]
    exact skipItems_close (skipSpace_cons (by decide) cs) true
  | cons item items =>
    rw [Json.prettyAt] at hfuel ⊢
    have hline := length_lineStart_pos (level + 1)
    simp only [String.length_append] at hfuel
    obtain ⟨smaller, rfl⟩ := Nat.exists_eq_add_one_of_ne_zero (n := fuel) (by omega)
    simp only [String.toList_append, List.append_assoc]
    rw [skipValue]
    exact (ih smaller (by omega)).skipItems_item (level + 1) level item items (by omega) true cs

theorem skipValue_object (level : Nat) (members : List (String × Json))
    (hfuel : ((Json.object members).prettyAt level).length ≤ fuel + 1) (cs : List Char) :
    skipValue (fuel + 1) (((Json.object members).prettyAt level).toList ++ cs) = .ok cs := by
  have hopen : "\x7b".length = 1 := rfl
  have hclose : "\x7d".length = 1 := rfl
  cases members with
  | nil =>
    rw [Json.prettyAt] at hfuel ⊢
    have hboth : "\x7b\x7d".length = 2 := rfl
    obtain ⟨smaller, rfl⟩ := Nat.exists_eq_add_one_of_ne_zero (n := fuel) (by omega)
    rw [skipValue]
    exact skipMembers_close (skipSpace_cons (by decide) cs) true
  | cons member members =>
    obtain ⟨key, value⟩ := member
    rw [Json.prettyAt] at hfuel ⊢
    have hline := length_lineStart_pos (level + 1)
    simp only [String.length_append] at hfuel
    obtain ⟨smaller, rfl⟩ := Nat.exists_eq_add_one_of_ne_zero (n := fuel) (by omega)
    simp only [String.toList_append, List.append_assoc]
    rw [skipValue]
    exact (ih smaller (by omega)).skipMembers_member (level + 1) level key value members
      (by omega) true cs

theorem skipValue_prettyAt (level : Nat) (j : Json)
    (hfuel : (j.prettyAt level).length ≤ fuel + 1) (cs : List Char) (hcs : IsStop cs) :
    skipValue (fuel + 1) ((j.prettyAt level).toList ++ cs) = .ok cs := by
  cases j with
  | null =>
    rw [Json.prettyAt, skipValue]
    exact word_append "ull".toList cs
  | boolean value =>
    cases value with
    | true =>
      rw [Json.prettyAt, skipValue]
      exact word_append "rue".toList cs
    | false =>
      rw [Json.prettyAt, skipValue]
      exact word_append "alse".toList cs
  | natural n =>
    obtain ⟨d, ds, hds⟩ := List.exists_cons_of_ne_nil (Nat.toDigits_ne_nil (n := n) (b := 10))
    have hd : d.isDigit := isDigit_of_mem_toDigits (hds ▸ List.mem_cons_self)
    have hnumber := number_toString .malformed n hcs
    rw [toList_toString, hds, List.cons_append] at hnumber
    rw [Json.prettyAt, toList_toString, hds, List.cons_append, skipValue_of_isDigit hd, hnumber]
    rfl
  | text text =>
    rw [Json.prettyAt, toList_quote_append, skipValue]
    show (textBody false (text.toList.flatMap Json.escape ++ '"' :: cs)).map Prod.snd = _
    rw [textBody_flatMap_escape]
    rfl
  | array items => exact skipValue_array ih level items hfuel cs
  | object members => exact skipValue_object ih level members hfuel cs

end Value

theorem passes (fuel : Nat) : Passes fuel := by
  induction fuel using Nat.strongRecOn with
  | ind fuel ih =>
    cases fuel with
    | zero => exact .zero
    | succ fuel =>
      have hsmaller := ih fuel fuel.lt_succ_self
      exact ⟨skipValue_prettyAt ih, hsmaller.items_succ, hsmaller.members_succ⟩

/-- **A reader passes over a printed value and leaves what stands behind it.** -/
theorem skip_pretty (j : Json) {cs : List Char} (hcs : IsStop cs) :
    skip (j.pretty.toList ++ cs) = .ok cs := by
  refine (passes _).value 0 j ?_ cs hcs
  rw [List.length_append, String.length_toList, Json.pretty]
  omega

end JsonScan
end JavaThrows
