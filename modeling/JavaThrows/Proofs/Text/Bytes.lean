import JavaThrows.Text.Bytes

set_option autoImplicit false

/-!
# Texts and their bytes

Different texts have different bytes, and the byte of an ASCII character stands for nothing but
that character: every other byte is one of those above them. Where a character begins can be seen
from its first byte, so the bytes of a character or of a text are found in other bytes only where a
character begins.
-/

namespace JavaThrows.Text

theorem bytes_inj {as bs : List Char} : bytes as = bytes bs ↔ as = bs := by
  refine ⟨fun h => ?_, congrArg bytes⟩
  have hencoded : as.utf8Encode = bs.utf8Encode := congrArg List.toByteArray h
  rw [← String.toByteArray_ofList, ← String.toByteArray_ofList, String.toByteArray_inj] at hencoded
  exact String.ofList_inj.1 hencoded

/-- The bytes of a character are its code, or else none of them is an ASCII code. -/
theorem utf8EncodeChar_cases (c : Char) :
    (c.toNat < 128 ∧ String.utf8EncodeChar c = [UInt8.ofNat c.toNat]) ∨
      ∀ b ∈ String.utf8EncodeChar c, 128 ≤ b.toNat := by
  have hcode : c.val.toNat = c.toNat := rfl
  rw [String.utf8EncodeChar, hcode]
  split
  · exact .inl ⟨by omega, rfl⟩
  all_goals right
  split
  · simp only [List.forall_mem_cons, UInt8.toNat_ofNat']
    refine ⟨?_, ?_, List.forall_mem_nil _⟩ <;> omega
  split
  · simp only [List.forall_mem_cons, UInt8.toNat_ofNat']
    refine ⟨?_, ?_, ?_, List.forall_mem_nil _⟩ <;> omega
  · simp only [List.forall_mem_cons, UInt8.toNat_ofNat']
    refine ⟨?_, ?_, ?_, ?_, List.forall_mem_nil _⟩ <;> omega

/-- The byte of an ASCII character occurs where the character does. -/
theorem mem_of_toUInt8_mem_bytes {c : Char} (hc : c.toNat < 128) {cs : List Char}
    (h : c.toUInt8 ∈ bytes cs) : c ∈ cs := by
  have hbyte : c.toUInt8.toNat = c.toNat := Nat.mod_eq_of_lt (Nat.lt_trans hc (by decide))
  obtain ⟨d, hd, hmem⟩ := List.mem_flatMap.1 h
  rcases utf8EncodeChar_cases d with ⟨hascii, hcode⟩ | hhigh
  · rw [hcode, List.mem_singleton] at hmem
    have hsame := congrArg UInt8.toNat hmem
    rw [hbyte, UInt8.toNat_ofNat', Nat.mod_eq_of_lt (by omega)] at hsame
    rwa [Char.toNat_inj.1 hsame]
  · have := hhigh _ hmem
    omega

/-! ## Where characters begin -/

theorem bytes_cons (c : Char) (cs : List Char) :
    bytes (c :: cs) = String.utf8EncodeChar c ++ bytes cs := rfl

theorem bytes_append (cs ds : List Char) : bytes (cs ++ ds) = bytes cs ++ bytes ds :=
  List.flatMap_append

theorem bytes_eq_nil_iff {cs : List Char} : bytes cs = [] ↔ cs = [] := by
  cases cs with
  | nil => simp [bytes]
  | cons c cs => simp [bytes_cons, String.utf8EncodeChar_ne_nil]

/-- No character's bytes begin with those of another one. -/
theorem utf8EncodeChar_append_inj {c d : Char} {bs bs' : List UInt8}
    (h : String.utf8EncodeChar c ++ bs = String.utf8EncodeChar d ++ bs') : c = d ∧ bs = bs' := by
  have hdecode := congrArg (fun bytes : List UInt8 => bytes.toByteArray.utf8DecodeChar? 0) h
  simp only [List.toByteArray_append, ByteArray.utf8DecodeChar?_utf8EncodeChar_append,
    Option.some.injEq] at hdecode
  subst hdecode
  exact ⟨rfl, List.append_cancel_left h⟩

/-- A text whose bytes begin with those of a character begins with the character. -/
theorem exists_cons_of_bytes_eq {cs : List Char} {c : Char} {bs : List UInt8}
    (h : bytes cs = String.utf8EncodeChar c ++ bs) : ∃ ds, cs = c :: ds ∧ bytes ds = bs := by
  cases cs with
  | nil => exact absurd (List.append_eq_nil_iff.1 h.symm).1 String.utf8EncodeChar_ne_nil
  | cons d ds =>
    obtain ⟨rfl, hds⟩ := utf8EncodeChar_append_inj h
    exact ⟨ds, rfl, hds⟩

/-- The bytes of a character begin nowhere inside the bytes of a character. -/
theorem eq_nil_of_utf8EncodeChar_eq_append {c d : Char} {front rest bs bs' : List UInt8} {b : UInt8}
    (hd : String.utf8EncodeChar d = front ++ b :: rest)
    (hc : String.utf8EncodeChar c ++ bs = b :: bs') : front = [] := by
  have hfirst : b.IsUTF8FirstByte := by
    have hb := UInt8.isUTF8FirstByte_getElem_zero_utf8EncodeChar (c := c)
    cases hencoded : String.utf8EncodeChar c with
    | nil => exact absurd hencoded String.utf8EncodeChar_ne_nil
    | cons first others =>
      simp only [hencoded, List.getElem_cons_zero] at hb
      rw [hencoded, List.cons_append, List.cons.injEq] at hc
      exact hc.1 ▸ hb
  have hplace : front.length < (String.utf8EncodeChar d).length := by simp [hd]
  have hb : (String.utf8EncodeChar d)[front.length] = b := by simp [hd]
  have hzero := UInt8.isUTF8FirstByte_getElem_utf8EncodeChar.1 (hb ▸ hfirst)
  exact List.length_eq_zero_iff.1 hzero

/-- **Bytes that begin with a character are those from a character of the text on.** -/
theorem exists_append_of_bytes_eq {cs : List Char} {front bs : List UInt8} {c : Char}
    (h : bytes cs = front ++ (String.utf8EncodeChar c ++ bs)) :
    ∃ ds es, cs = ds ++ c :: es ∧ bytes es = bs := by
  induction cs generalizing front with
  | nil =>
    have := (List.append_eq_nil_iff.1 (List.append_eq_nil_iff.1 h.symm).2).1
    exact absurd this String.utf8EncodeChar_ne_nil
  | cons d ds ih =>
    rcases List.append_eq_append_iff.1 ((bytes_cons d ds).symm.trans h) with
      ⟨front', rfl, hds⟩ | ⟨within, hd, hc⟩
    · obtain ⟨ds', es, rfl, hes⟩ := ih hds
      exact ⟨d :: ds', es, rfl, hes⟩
    · cases within with
      | nil =>
        obtain ⟨es, rfl, hes⟩ := exists_cons_of_bytes_eq hc.symm
        exact ⟨[d], es, rfl, hes⟩
      | cons b within =>
        obtain rfl := eq_nil_of_utf8EncodeChar_eq_append hd hc
        obtain ⟨es, hcons, hes⟩ := exists_cons_of_bytes_eq h
        exact ⟨[], es, hcons, hes⟩

end JavaThrows.Text
