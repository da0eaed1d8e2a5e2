import JavaThrows.Proofs.Edit.Splice
import Mathlib.Data.List.Induction

set_option autoImplicit false

/-!
# Edits with a common start

An edit that replaces text does not overlap one that only inserts at its start, so both pass the
check. Edits with a common start are applied in the order in which they were made, each to the text
that the ones before it have left: what was inserted first then stands in the range that is to be
replaced, and is replaced in place of the text that stood there (`exists_apply_lost`). Nothing is
lost exactly where text is replaced before anything is inserted at its start. Main statement:
`apply_keeps_iff_insertsLast`.
-/

namespace JavaThrows.Edit

open Text

variable {edits pre post : List Edit} {e f : Edit} {b : UInt8} {c : Char}

/-! ## Counting bytes

What is lost is seen in a text of one character only, by the number of the other bytes. -/

/-- How many of some bytes are not the given one. -/
def others (b : UInt8) (bs : List UInt8) : Nat :=
  bs.countP (· != b)

/-- How many of the bytes that edits put in are not the given one. -/
def othersPutIn (b : UInt8) (edits : List Edit) : Nat :=
  others b (edits.flatMap fun e => bytes e.replacement.toList)

@[simp] theorem others_nil : others b [] = 0 := rfl

@[simp] theorem others_append (bs bs' : List UInt8) :
    others b (bs ++ bs') = others b bs + others b bs' :=
  List.countP_append

@[simp] theorem others_self : others b [b] = 0 := by
  simp [others]

theorem others_replicate (n : Nat) : others b (List.replicate n b) = 0 := by
  simp [others, List.countP_replicate]

theorem othersPutIn_cons :
    othersPutIn b (e :: edits) = others b (bytes e.replacement.toList) + othersPutIn b edits := by
  rw [othersPutIn, List.flatMap_cons, others_append, othersPutIn]

theorem othersPutIn_append :
    othersPutIn b (pre ++ post) = othersPutIn b pre + othersPutIn b post := by
  rw [othersPutIn, List.flatMap_append, others_append, othersPutIn, othersPutIn]

theorem othersPutIn_perm {edits' : List Edit} (h : edits'.Perm edits) :
    othersPutIn b edits' = othersPutIn b edits :=
  (h.flatMap_right _).countP_eq _

/-- An edit adds its replacement to a row of equal bytes, if it starts in the row or at its end. -/
theorem others_spliceFrom_cons (offset n : Nat) :
    others b (spliceFrom (e :: edits) offset (List.replicate n b)) =
      others b (spliceFrom edits offset (List.replicate n b)) +
        if offset ≤ e.span.start ∧ e.span.start ≤ offset + n
          then others b (bytes e.replacement.toList) else 0 := by
  -- Whether a byte is covered does not matter, since none of them counts.
  have hkept : ∀ covered : Bool, others b (if covered then [] else [b]) = 0 := by
    intro covered
    cases covered
    · exact others_self
    · exact others_nil
  induction n generalizing offset with
  | zero =>
    rw [List.replicate_zero, spliceFrom, spliceFrom, inserted_cons, others_append]
    by_cases hstart : e.span.start = offset
    · rw [if_pos hstart, if_pos (by omega)]
    · rw [if_neg hstart, if_neg (by omega), others_nil]
  | succ n ih =>
    rw [List.replicate_succ, spliceFrom, spliceFrom, inserted_cons]
    simp only [others_append, hkept, ih]
    by_cases hstart : e.span.start = offset
    · rw [if_pos hstart, if_neg (by omega), if_pos (by omega)]
      omega
    · rw [if_neg hstart, others_nil]
      by_cases hlater : offset + 1 ≤ e.span.start ∧ e.span.start ≤ offset + 1 + n
      · rw [if_pos hlater, if_pos (by omega)]
        omega
      · rw [if_neg hlater, if_neg (by omega)]
        omega

/-- Made all at once, edits put in all of their replacements. -/
theorem others_splice {n : Nat} (hstart : ∀ e ∈ edits, e.span.start ≤ n) :
    others b (splice edits (List.replicate n b)) = othersPutIn b edits := by
  induction edits with
  | nil =>
    rw [splice, spliceFrom_behind (List.forall_mem_nil _) (List.forall_mem_nil _)]
    exact others_replicate n
  | cons e edits ih =>
    obtain ⟨hfirst, hstart⟩ := List.forall_mem_cons.1 hstart
    rw [splice, others_spliceFrom_cons, if_pos ⟨Nat.zero_le _, by omega⟩, ← splice, ih hstart,
      othersPutIn_cons, Nat.add_comm]

/-- One after the other, each edit puts in its replacement and takes out what then stands in its
    range. -/
theorem others_replace? {text text' : List Char} (h : replace? text e = some text') :
    others b (bytes text') +
        others b (((bytes text).drop e.span.start).take (e.span.stop - e.span.start)) =
      others b (bytes text) + others b (bytes e.replacement.toList) := by
  obtain ⟨front, covered, behind, rfl, hstart, hstop, rfl⟩ := replace?_eq_some_iff.1 h
  have hlength : e.span.stop - e.span.start = (bytes covered).length := by
    rw [length_bytes]
    omega
  rw [← length_bytes] at hstart
  simp only [bytes_append]
  rw [← hstart, List.drop_left, hstart, hlength, List.take_left]
  simp only [others_append]
  omega

theorem others_replaceAll?_le {text text' : List Char} (h : replaceAll? text edits = some text') :
    others b (bytes text') ≤ others b (bytes text) + othersPutIn b edits := by
  induction edits generalizing text with
  | nil =>
    obtain rfl := Option.some.inj h
    exact Nat.le_add_right _ _
  | cons e edits ih =>
    obtain ⟨mid, hmid, h⟩ := Option.bind_eq_some_iff.1 h
    have hfirst := others_replace? (b := b) hmid
    have hrest := ih h
    rw [othersPutIn_cons]
    omega

/-! ## What is lost -/

/-- A list of which some pairs fail has a first entry that fails with an earlier one. -/
theorem exists_first_failure {α : Type} {R : α → α → Prop} {l : List α} (h : ¬ l.Pairwise R) :
    ∃ pre b post, l = pre ++ b :: post ∧ pre.Pairwise R ∧ ∃ a ∈ pre, ¬ R a b := by
  induction l using List.reverseRecOn with
  | nil => exact absurd List.Pairwise.nil h
  | append_singleton l b ih =>
    by_cases hl : l.Pairwise R
    · refine ⟨l, b, [], rfl, hl, ?_⟩
      have hlast : ¬ ∀ a ∈ l, R a b := fun hall =>
        h (List.pairwise_append.2 ⟨hl, List.pairwise_singleton R b, by simpa using hall⟩)
      simpa using hlast
    · obtain ⟨pre, a, post, rfl, hpre, hfails⟩ := ih hl
      exact ⟨pre, a, post ++ [b], by simp, hpre, hfails⟩

theorem replaceAll?_append (text : List Char) :
    replaceAll? text (pre ++ post) = (replaceAll? text pre).bind (replaceAll? · post) := by
  induction pre generalizing text with
  | nil => rfl
  | cons e pre ih =>
    rw [List.cons_append, replaceAll?, replaceAll?]
    cases replace? text e with
    | none => rfl
    | some text => exact ih text

/-- In front of all edits the bytes stay, and behind them comes what is inserted there. -/
theorem exists_splice_eq {front : List UInt8}
    (hstart : ∀ e ∈ edits, front.length ≤ e.span.start) (bs : List UInt8) :
    ∃ rest, splice edits (front ++ bs) = front ++ (inserted edits front.length ++ rest) := by
  have hrest : ∃ rest, spliceFrom edits front.length bs = inserted edits front.length ++ rest := by
    cases bs with
    | nil => exact ⟨[], (List.append_nil _).symm⟩
    | cons b bs => exact ⟨_, rfl⟩
  obtain ⟨rest, hrest⟩ := hrest
  have hnone : ∀ bs : List UInt8, splice [] bs = bs := fun bs =>
    spliceFrom_behind (List.forall_mem_nil _) (List.forall_mem_nil _) bs
  refine ⟨rest, ?_⟩
  rw [← hnone (front ++ (inserted edits front.length ++ rest))]
  refine spliceFrom_append_congr (fun o ho => ?_) (fun o ho => ?_) ?_
  · exact inserted_eq_nil fun e he => Nat.ne_of_gt (by have := hstart e he; omega)
  · refine List.any_eq_false.2 fun e he => ?_
    have := hstart e he
    simp [covers_eq_false (.inr (show o < e.span.start by omega))]
  · rw [Nat.zero_add, hrest]
    exact (spliceFrom_behind (List.forall_mem_nil _) (List.forall_mem_nil _) _).symm

/-- After the edits that were applied first, what they insert at a place stands there. -/
theorem exists_bytes_eq {text mid : List Char} {front bs : List UInt8}
    (hpieces : ∀ e ∈ pre, e.span.IsPieceOf text)
    (hback : pre.Pairwise fun e f => f.span.stop ≤ e.span.start ∨ e.IsIdle)
    (hfront : ∀ e ∈ pre, front.length ≤ e.span.start) (htext : bytes text = front ++ bs)
    (hmid : replaceAll? text pre = some mid) :
    ∃ rest, bytes mid = front ++ (inserted pre front.length ++ rest) := by
  obtain ⟨mid', hmid', hbytes⟩ := exists_replaceAll? hpieces hback
  obtain rfl : mid = mid' := Option.some.inj (hmid.symm.trans hmid')
  rw [hbytes, htext]
  exact exists_splice_eq hfront bs

theorem inserted_ne_nil (he : e ∈ edits) (hreplacement : e.replacement ≠ "") :
    inserted edits e.span.start ≠ [] := by
  intro hnil
  have hhere : e ∈ (edits.filter fun f => f.span.start == e.span.start).reverse :=
    List.mem_reverse.2 (List.mem_filter.2 ⟨he, beq_self_eq_true _⟩)
  have hbytes := List.flatMap_eq_nil_iff.1 hnil e hhere
  rw [bytes_eq_nil_iff] at hbytes
  exact hreplacement (String.toList_inj.1 hbytes)

/-- An edit that starts at a byte takes it out, unless it only inserts. -/
theorem others_taken_pos {x : UInt8} (hx : x ≠ b) {front rest : List UInt8}
    (hstart : front.length = e.span.start) (hstop : e.span.start < e.span.stop) :
    0 < others b (((front ++ x :: rest).drop e.span.start).take (e.span.stop - e.span.start)) := by
  obtain ⟨n, hn⟩ := Nat.exists_eq_add_of_lt hstop
  rw [← hstart, List.drop_left, hstart, show e.span.stop - e.span.start = n + 1 by omega,
    List.take_succ_cons]
  exact List.countP_pos_iff.2 ⟨x, List.mem_cons_self, by simpa using hx⟩

/-- What one edit takes out of that which others have put in is missing in the end. -/
theorem others_lt_of_taken {text mid result : List Char} (hmid : replaceAll? text pre = some mid)
    (htaken : 0 < others b (((bytes mid).drop f.span.start).take (f.span.stop - f.span.start)))
    (hresult : replaceAll? text (pre ++ f :: post) = some result) :
    others b (bytes result) < others b (bytes text) + othersPutIn b (pre ++ f :: post) := by
  rw [replaceAll?_append, hmid, Option.bind_some] at hresult
  obtain ⟨mid', hmid', hresult⟩ := Option.bind_eq_some_iff.1 hresult
  have hbefore := others_replaceAll?_le (b := b) hmid
  have hhere := others_replace? (b := b) hmid'
  have hafter := others_replaceAll?_le (b := b) hresult
  rw [othersPutIn_append, othersPutIn_cons]
  omega

theorem exists_stop_le (edits : List Edit) : ∃ n, ∀ e ∈ edits, e.span.stop ≤ n := by
  induction edits with
  | nil => exact ⟨0, List.forall_mem_nil _⟩
  | cons e edits ih =>
    obtain ⟨n, hn⟩ := ih
    refine ⟨n + e.span.stop, List.forall_mem_cons.2 ⟨Nat.le_add_left _ _, fun f hf => ?_⟩⟩
    exact Nat.le_add_right_of_le (hn f hf)

/-! ## Texts of one character -/

section Row

variable (hc : String.utf8EncodeChar c = [b])

include hc

theorem bytes_replicate (n : Nat) : bytes (List.replicate n c) = List.replicate n b := by
  induction n with
  | zero => rfl
  | succ n ih => rw [List.replicate_succ, bytes_cons, hc, ih, List.replicate_succ]; rfl

theorem byteLength_replicate (n : Nat) : byteLength (List.replicate n c) = n := by
  rw [← length_bytes, bytes_replicate hc, List.length_replicate]

theorem isPieceOf_replicate {n : Nat} (hforward : e.span.start ≤ e.span.stop)
    (hstop : e.span.stop ≤ n) : e.span.IsPieceOf (List.replicate n c) := by
  have hboundary {m : Nat} (hle : m ≤ n) : isBoundary (List.replicate n c) m := by
    refine isBoundary_iff.2 ⟨List.replicate m c, List.replicate (n - m) c, ?_, ?_⟩
    · rw [List.replicate_append_replicate, Nat.add_sub_cancel' hle]
    · exact byteLength_replicate hc m
  exact ⟨hforward, hboundary (Nat.le_trans hforward hstop), hboundary hstop⟩

theorem validate_replicate {n : Nat} (hforward : ∀ e ∈ edits, e.span.start ≤ e.span.stop)
    (hstop : ∀ e ∈ edits, e.span.stop ≤ n)
    (hdisjoint : edits.Pairwise fun e f => e.overlaps f = false) :
    validate (List.replicate n c) edits = .ok () := by
  refine validate_eq_ok_iff.2 ⟨fun e he => ?_, hdisjoint⟩
  have hpiece := isPieceOf_replicate hc (hforward e he) (hstop e he)
  exact ⟨le_byteLength_of_isBoundary hpiece.stop_isBoundary, hpiece.start_isBoundary,
    hpiece.stop_isBoundary⟩

/-- In such a text, what is inserted first at a place stands there, behind the bytes in front. -/
theorem exists_bytes_eq_of_replicate {n start : Nat} {mid : List Char} (hstart : start ≤ n)
    (hforward : ∀ e ∈ pre, e.span.start ≤ e.span.stop) (hstop : ∀ e ∈ pre, e.span.stop ≤ n)
    (hback : pre.Pairwise fun e f => f.span.stop ≤ e.span.start ∨ e.IsIdle)
    (hfront : ∀ e ∈ pre, start ≤ e.span.start)
    (hmid : replaceAll? (List.replicate n c) pre = some mid) :
    ∃ rest, bytes mid = List.replicate start b ++ (inserted pre start ++ rest) := by
  have hrow : bytes (List.replicate n c) =
      List.replicate start b ++ List.replicate (n - start) b := by
    rw [bytes_replicate hc, List.replicate_append_replicate, Nat.add_sub_cancel' hstart]
  have hpieces : ∀ e ∈ pre, e.span.IsPieceOf (List.replicate n c) :=
    fun e he => isPieceOf_replicate hc (hforward e he) (hstop e he)
  have hlength : (List.replicate start b).length = start := List.length_replicate
  obtain ⟨rest, hrest⟩ := exists_bytes_eq hpieces hback (hlength.symm ▸ hfront) hrow hmid
  rw [hlength] at hrest
  exact ⟨rest, hrest⟩

end Row

/-- A byte that is not the given one, with a character that has the given one as its only byte. -/
theorem exists_char_ne (x : UInt8) : ∃ c b, String.utf8EncodeChar c = [b] ∧ x ≠ b := by
  by_cases hx : x = 97
  · refine ⟨'b', 98, rfl, ?_⟩
    rw [hx]
    decide
  · exact ⟨'a', 97, rfl, hx⟩

theorem apply_eq_ok_iff {source text : List Char} (hvalid : validate source edits = .ok ()) :
    apply source edits = .ok text ↔ replaceAll? source (backToFront edits) = some text := by
  simp only [apply, hvalid, bind, Except.bind]
  cases replaceAll? source (backToFront edits) <;>
    simp [pure, Except.pure, throw, throwThe, MonadExceptOf.throw]

/-- **What is inserted at the start of text that is replaced later is lost**, for some text. -/
theorem exists_apply_lost (hforward : ∀ e ∈ edits, e.span.start ≤ e.span.stop)
    (hdisjoint : edits.Pairwise fun e f => e.overlaps f = false) (hlost : ¬ InsertsLast edits) :
    ∃ source, validate source edits = .ok () ∧
      ∀ text, apply source edits = .ok text → ¬ (bytes text).Perm (splice edits (bytes source)) := by
  have hperm := backToFront_perm edits
  rw [← insertsLast_backToFront_iff] at hlost
  obtain ⟨pre, f, post, hsplit, hpre, e, he, hfails⟩ := exists_first_failure hlost
  obtain ⟨hstart, hstop, hreplacement⟩ :
      e.span.start = f.span.start ∧ f.span.start < f.span.stop ∧ e.replacement ≠ "" := by
    simpa using hfails
  -- The first byte that comes to stand where `f` starts does not depend on the text.
  obtain ⟨x, put, hput⟩ := List.exists_cons_of_ne_nil (inserted_ne_nil he hreplacement)
  obtain ⟨c, b, hc, hx⟩ := exists_char_ne x
  obtain ⟨n, hn⟩ := exists_stop_le edits
  have hstart_le : ∀ e ∈ edits, e.span.start ≤ n :=
    fun e he => Nat.le_trans (hforward e he) (hn e he)
  have hvalid : validate (List.replicate n c) edits = .ok () :=
    validate_replicate hc hforward hn hdisjoint
  refine ⟨List.replicate n c, hvalid, fun text htext hsame => ?_⟩
  rw [apply_eq_ok_iff hvalid, hsplit] at htext
  obtain ⟨mid, hmid, -⟩ := Option.bind_eq_some_iff.1 (replaceAll?_append _ ▸ htext)
  have hinitial : pre.Sublist (backToFront edits) := hsplit ▸ List.sublist_append_left _ _
  have hmem : ∀ e ∈ pre, e ∈ edits := fun e he => hperm.mem_iff.1 (hinitial.subset he)
  have hsorted := backToFront_sorted edits
  have hback := stops_of_sorted (fun e he => hforward e (hmem e he)) (hsorted.sublist hinitial)
    (((pairwise_overlaps_perm hperm).2 hdisjoint).sublist hinitial) hpre
  have hfront : ∀ e ∈ pre, f.span.start ≤ e.span.start := by
    rw [hsplit] at hsorted
    exact fun e he => (List.pairwise_append.1 hsorted).2.2 e he f List.mem_cons_self
  obtain ⟨rest, hbytes⟩ := exists_bytes_eq_of_replicate hc (hstart ▸ hstart_le e (hmem e he))
    (fun e he => hforward e (hmem e he)) (fun e he => hn e (hmem e he)) hback hfront hmid
  rw [← hstart, hput, hstart, List.cons_append] at hbytes
  -- So `f` takes out a byte that another edit has put in, and it is missing in the end.
  have htaken :
      0 < others b (((bytes mid).drop f.span.start).take (f.span.stop - f.span.start)) := by
    rw [hbytes]
    exact others_taken_pos hx List.length_replicate hstop
  have hless := others_lt_of_taken hmid htaken htext
  rw [← hsplit, othersPutIn_perm hperm, bytes_replicate hc, others_replicate, Nat.zero_add] at hless
  have hall : others b (bytes text) = othersPutIn b edits := by
    rw [← others_splice hstart_le, ← bytes_replicate hc]
    exact hsame.countP_eq _
  exact Nat.ne_of_lt hless hall

/-- **Edits that run forward and share no byte are made all at once exactly if they insert last.**
    If text is replaced only before something is inserted at its start, every text they fit can be
    edited, and the result has each range replaced where it stands. If not, there is a text for which
    they pass the check and cannot be applied, or the result lacks bytes that it should have. -/
theorem apply_keeps_iff_insertsLast (hforward : ∀ e ∈ edits, e.span.start ≤ e.span.stop)
    (hdisjoint : edits.Pairwise fun e f => e.overlaps f = false) :
    (InsertsLast edits → ∀ source, validate source edits = .ok () →
      ∃ text, apply source edits = .ok text ∧ bytes text = splice edits (bytes source)) ∧
    (¬ InsertsLast edits → ∃ source, validate source edits = .ok () ∧
      ∀ text, apply source edits = .ok text →
        ¬ (bytes text).Perm (splice edits (bytes source))) :=
  ⟨fun hlast _ hvalid => exists_apply hforward hvalid hlast, exists_apply_lost hforward hdisjoint⟩

/-- An insertion and a deletion that starts at the same place, in both orders. -/
theorem apply_keeps_insertion_after_deletion :
    let deletion : Edit := ⟨⟨0, 1⟩, ""⟩
    let insertion : Edit := ⟨⟨0, 0⟩, "X"⟩
    (∀ source, validate source [deletion, insertion] = .ok () →
      ∃ text, apply source [deletion, insertion] = .ok text ∧
        bytes text = splice [deletion, insertion] (bytes source)) ∧
    ∃ source, validate source [insertion, deletion] = .ok () ∧
      ∀ text, apply source [insertion, deletion] = .ok text →
        ¬ (bytes text).Perm (splice [insertion, deletion] (bytes source)) := by
  intro deletion insertion
  have hlast : InsertsLast [deletion, insertion] := by
    simp [InsertsLast, deletion]
  have hlost : ¬ InsertsLast [insertion, deletion] := by
    simp [InsertsLast, deletion, insertion]
  exact ⟨(apply_keeps_iff_insertsLast (by decide) (by decide)).1 hlast,
    (apply_keeps_iff_insertsLast (by decide) (by decide)).2 hlost⟩

/-- Edits that pass the check can leave the text as it was, with the insertion gone and what was to
    be deleted still there, and can cut a character, so that they cannot be applied at all. -/
theorem validated_edits_lose_or_break :
    let lost : List Edit := [⟨⟨0, 0⟩, "X"⟩, ⟨⟨0, 1⟩, ""⟩]
    let broken : List Edit := [⟨⟨0, 0⟩, "é"⟩, ⟨⟨0, 1⟩, ""⟩]
    let source := "abc".toList
    (∀ e ∈ lost ++ broken, e.span.start ≤ e.span.stop) ∧
      (validate source lost = .ok () ∧ apply source lost = .ok source ∧ 'X' ∉ source) ∧
      validate source broken = .ok () ∧ apply source broken = .error .brokenRange := by
  intro lost broken source
  have hforward : ∀ e ∈ lost ++ broken, e.span.start ≤ e.span.stop := by decide
  have hlost : validate source lost = .ok () := by rfl
  have hbroken : validate source broken = .ok () := by rfl
  have hlostSorted : backToFront lost = lost := List.mergeSort_of_pairwise (by decide)
  have hbrokenSorted : backToFront broken = broken := List.mergeSort_of_pairwise (by decide)
  refine ⟨hforward, ⟨hlost, ?_, by decide⟩, hbroken, ?_⟩
  · rw [apply_eq_ok_iff hlost, hlostSorted]
    rfl
  · have hnone : replaceAll? source broken = none := by rfl
    simp only [apply, hbroken, hbrokenSorted, hnone, bind, Except.bind]
    rfl

end JavaThrows.Edit
