import Mathlib.Tactic.Common

/-! # Text in UTF-8 and in UTF-16

Text as octets and as 16-bit units, and the readers of the two forms. UTF-8 takes
more octets than UTF-16 takes units for every character outside ASCII.
-/

namespace Foundation

/-- The octets of a text in UTF-8. -/
def utf8 (text : List Char) : List UInt8 := text.flatMap String.utf8EncodeChar

/-- The text that octets write in UTF-8, if they do. -/
def readUtf8 (octets : List UInt8) : Option (List Char) :=
  octets.toByteArray.utf8Decode?.map Array.toList

def utf16Char (c : Char) : List UInt16 :=
  if c.toNat < 0x10000 then [UInt16.ofNat c.toNat]
  else [UInt16.ofNat (0xd800 + (c.toNat - 0x10000) / 0x400),
    UInt16.ofNat (0xdc00 + (c.toNat - 0x10000) % 0x400)]

/-- The units of a text in UTF-16. -/
def utf16 (text : List Char) : List UInt16 := text.flatMap utf16Char

/-- The character of a unit that is not part of a pair; for half of a pair that is the
replacement character. -/
def unitChar (unit : UInt16) : Char :=
  if 0xd800 ≤ unit.toNat ∧ unit.toNat < 0xe000 then Char.ofNat 0xfffd else Char.ofNat unit.toNat

/-- The text that units write in UTF-16. -/
def readUtf16 : List UInt16 → List Char
  | high :: low :: rest =>
      if (0xd800 ≤ high.toNat ∧ high.toNat < 0xdc00) ∧ 0xdc00 ≤ low.toNat ∧ low.toNat < 0xe000 then
        Char.ofNat (0x10000 + (high.toNat - 0xd800) * 0x400 + (low.toNat - 0xdc00)) ::
          readUtf16 rest
      else
        unitChar high :: readUtf16 (low :: rest)
  | [unit] => [unitChar unit]
  | [] => []

section RoundTrip

variable {c : Char} {text : List Char}

theorem readUtf8_utf8 (text : List Char) : readUtf8 (utf8 text) = some text := by
  have hdecode : (utf8 text).toByteArray.utf8Decode? = some text.toArray :=
    List.utf8Decode?_utf8Encode
  rw [readUtf8, hdecode, Option.map_some]

theorem readUtf16_unit {unit : UInt16} (h : ¬(0xd800 ≤ unit.toNat ∧ unit.toNat < 0xe000))
    (rest : List UInt16) :
    readUtf16 (unit :: rest) = Char.ofNat unit.toNat :: readUtf16 rest := by
  cases rest with
  | nil => rw [readUtf16, unitChar, if_neg h, readUtf16]
  | cons low rest =>
      rw [readUtf16, if_neg (fun hpair => h ⟨hpair.1.1, by omega⟩), unitChar, if_neg h]

theorem readUtf16_utf16 (text : List Char) : readUtf16 (utf16 text) = text := by
  induction text with
  | nil => rfl
  | cons c rest ih =>
      have hvalid : c.toNat < 0xd800 ∨ 0xdfff < c.toNat ∧ c.toNat < 0x110000 := c.valid
      rw [utf16, List.flatMap_cons, utf16Char]
      split
      next hsmall =>
        have hunit : (UInt16.ofNat c.toNat).toNat = c.toNat := by
          rw [UInt16.toNat_ofNat']
          omega
        rw [List.singleton_append, readUtf16_unit (by rw [hunit]; omega), hunit, Char.ofNat_toNat]
        exact congrArg _ ih
      next hlarge =>
        have hhigh : (UInt16.ofNat (0xd800 + (c.toNat - 0x10000) / 0x400)).toNat =
            0xd800 + (c.toNat - 0x10000) / 0x400 := by
          rw [UInt16.toNat_ofNat']
          omega
        have hlow : (UInt16.ofNat (0xdc00 + (c.toNat - 0x10000) % 0x400)).toNat =
            0xdc00 + (c.toNat - 0x10000) % 0x400 := by
          rw [UInt16.toNat_ofNat']
          omega
        have hvalue : 0x10000 + (0xd800 + (c.toNat - 0x10000) / 0x400 - 0xd800) * 0x400 +
            (0xdc00 + (c.toNat - 0x10000) % 0x400 - 0xdc00) = c.toNat := by omega
        rw [List.cons_append, List.cons_append, List.nil_append, readUtf16, hhigh, hlow,
          if_pos (by omega), hvalue, Char.ofNat_toNat]
        exact congrArg _ ih

end RoundTrip

/-! ## Lengths -/

section Lengths

theorem utf8_append (first second : List Char) : utf8 (first ++ second) = utf8 first ++ utf8 second :=
  List.flatMap_append

theorem utf16_append (first second : List Char) :
    utf16 (first ++ second) = utf16 first ++ utf16 second := List.flatMap_append

theorem utf8EncodeChar_ascii {c : Char} (h : c.toNat < 0x80) :
    String.utf8EncodeChar c = [UInt8.ofNat c.toNat] := by
  have hle : c.val.toNat ≤ 0x7f := Nat.le_of_lt_succ h
  rw [String.utf8EncodeChar, if_pos hle]
  rfl

theorem utf16Char_ascii {c : Char} (h : c.toNat < 0x80) :
    utf16Char c = [UInt16.ofNat c.toNat] := by
  rw [utf16Char, if_pos (by omega)]

theorem utf16Char_length_lt {c : Char} (h : 0x80 ≤ c.toNat) :
    (utf16Char c).length < (String.utf8EncodeChar c).length := by
  have hc : c.val.toNat = c.toNat := rfl
  unfold utf16Char String.utf8EncodeChar
  simp only [hc]
  split_ifs <;> simp <;> omega

theorem utf16Char_length_le (c : Char) :
    (utf16Char c).length ≤ (String.utf8EncodeChar c).length := by
  rcases Nat.lt_or_ge c.toNat 0x80 with hascii | hlarge
  · rw [utf16Char_ascii hascii, utf8EncodeChar_ascii hascii]
    exact Nat.le_refl _
  · exact Nat.le_of_lt (utf16Char_length_lt hlarge)

theorem utf16_length_le (text : List Char) : (utf16 text).length ≤ (utf8 text).length := by
  induction text with
  | nil => exact Nat.le_refl _
  | cons c rest ih =>
      have hc := utf16Char_length_le c
      rw [utf16, utf8, List.flatMap_cons, List.flatMap_cons, List.length_append,
        List.length_append]
      exact Nat.add_le_add hc ih

/-- UTF-8 is longer than UTF-16 as soon as one character is outside ASCII. -/
theorem utf16_length_lt {text : List Char} (h : ∃ c ∈ text, 0x80 ≤ c.toNat) :
    (utf16 text).length < (utf8 text).length := by
  obtain ⟨c, hc, hlarge⟩ := h
  obtain ⟨before, after, rfl⟩ := List.append_of_mem hc
  have hbefore := utf16_length_le before
  have hafter := utf16_length_le after
  have hhere := utf16Char_length_lt hlarge
  rw [utf16_append, utf8_append, utf16, utf8, List.length_append, List.length_append, utf16, utf8,
    List.flatMap_cons, List.flatMap_cons, List.length_append, List.length_append]
  exact Nat.add_lt_add_of_le_of_lt hbefore (Nat.add_lt_add_of_lt_of_le hhere hafter)

theorem utf8Char_length_le (c : Char) :
    (String.utf8EncodeChar c).length ≤ 3 * (utf16Char c).length := by
  have hc : c.val.toNat = c.toNat := rfl
  unfold utf16Char String.utf8EncodeChar
  simp only [hc]
  split_ifs
  all_goals simp only [List.length_cons, List.length_nil]
  all_goals omega

theorem utf8_length_le (text : List Char) : (utf8 text).length ≤ 3 * (utf16 text).length := by
  induction text with
  | nil => exact Nat.le_refl _
  | cons c rest ih =>
      have hc := utf8Char_length_le c
      rw [utf16, utf8, List.flatMap_cons, List.flatMap_cons, List.length_append,
        List.length_append, Nat.mul_add]
      exact Nat.add_le_add hc ih

/-- ASCII text is the same numbers in both forms. -/
theorem utf8_ascii {text : List Char} (h : ∀ c ∈ text, c.toNat < 0x80) :
    utf8 text = text.map fun c => UInt8.ofNat c.toNat := by
  induction text with
  | nil => rfl
  | cons c rest ih =>
      obtain ⟨hc, hrest⟩ := List.forall_mem_cons.mp h
      rw [utf8, List.flatMap_cons, utf8EncodeChar_ascii hc, List.map_cons]
      exact congrArg _ (ih hrest)

theorem utf16_ascii {text : List Char} (h : ∀ c ∈ text, c.toNat < 0x80) :
    utf16 text = text.map fun c => UInt16.ofNat c.toNat := by
  induction text with
  | nil => rfl
  | cons c rest ih =>
      obtain ⟨hc, hrest⟩ := List.forall_mem_cons.mp h
      rw [utf16, List.flatMap_cons, utf16Char_ascii hc, List.map_cons]
      exact congrArg _ (ih hrest)

end Lengths

/-- What is read is what writes the octets. -/
theorem readUtf8_eq_some {octets : List UInt8} {text : List Char} :
    readUtf8 octets = some text ↔ octets = utf8 text := by
  constructor
  · intro h
    obtain ⟨chars, hdecode, rfl⟩ := Option.map_eq_some_iff.mp h
    have hsome : octets.toByteArray.utf8Decode?.isSome := by
      rw [hdecode]
      rfl
    have hencode := ByteArray.utf8Encode_get_utf8Decode? (b := octets.toByteArray) (h := hsome)
    simp only [hdecode, Option.get_some] at hencode
    have hdata := congrArg (fun bytes => bytes.data.toList) hencode
    rw [List.utf8Encode, List.toList_data_toByteArray, List.toList_data_toByteArray] at hdata
    exact hdata.symm
  · rintro rfl
    exact readUtf8_utf8 text

theorem zero_mem_utf16Char {c : Char} (h : 0 ∈ utf16Char c) : c.toNat = 0 := by
  have hvalid : c.toNat < 0xd800 ∨ 0xdfff < c.toNat ∧ c.toNat < 0x110000 := c.valid
  unfold utf16Char at h
  split at h
  next hlt =>
    have hunit := congrArg UInt16.toNat (List.mem_singleton.mp h)
    rw [UInt16.toNat_ofNat', UInt16.toNat_zero] at hunit
    omega
  next =>
    rcases List.mem_cons.mp h with hhigh | hlow
    · have hunit := congrArg UInt16.toNat hhigh
      rw [UInt16.toNat_ofNat', UInt16.toNat_zero] at hunit
      omega
    · have hunit := congrArg UInt16.toNat (List.mem_singleton.mp hlow)
      rw [UInt16.toNat_ofNat', UInt16.toNat_zero] at hunit
      omega

/-- A NUL is a NUL in either form. -/
theorem zero_mem_utf8_of_utf16 {text : List Char} (h : 0 ∈ utf16 text) : 0 ∈ utf8 text := by
  obtain ⟨c, hc, hzero⟩ := List.mem_flatMap.mp h
  have hnul := zero_mem_utf16Char hzero
  refine List.mem_flatMap.mpr ⟨c, hc, ?_⟩
  rw [utf8EncodeChar_ascii (by omega), hnul]
  exact List.mem_singleton.mpr rfl

end Foundation
