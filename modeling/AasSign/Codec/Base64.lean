import Mathlib.Data.List.Induction
import AasSign.Codec.Text
import AasSign.Foundation.Sextets

/-! # Base64

The encoders and decoders of `base64.cpp`, in the standard and in the URL-safe
alphabet. The decoders skip every character outside their alphabet and keep a
32-bit accumulator that is never masked.
-/

namespace AasSign

open Foundation

def base64Table : Bytes :=
  ascii "ABCDEFGHIJKLMNOPQRSTUVWXYZabcdefghijklmnopqrstuvwxyz0123456789+/"

/-- `table[digit & 0x3f]`. -/
def base64Char (digit : Nat) : UInt8 := base64Table.getD (digit % 64) 0

/-- `base64_encode`: four characters for three octets, padded with `=`. -/
def base64Encode : Bytes → Bytes
  | [] => []
  | [a] =>
      let n := a.toNat * 2 ^ 16
      [base64Char (n >>> 18), base64Char (n >>> 12), 61, 61]
  | [a, b] =>
      let n := a.toNat * 2 ^ 16 + b.toNat * 2 ^ 8
      [base64Char (n >>> 18), base64Char (n >>> 12), base64Char (n >>> 6), 61]
  | a :: b :: c :: rest =>
      let n := a.toNat * 2 ^ 16 + b.toNat * 2 ^ 8 + c.toNat
      [base64Char (n >>> 18), base64Char (n >>> 12), base64Char (n >>> 6), base64Char n] ++
        base64Encode rest

/-- The value of a character; -1 is `none`. -/
def decodeChar (c : UInt8) : Option Nat :=
  if isUpper c then some (c.toNat - 65)
  else if isLower c then some (c.toNat - 97 + 26)
  else if isDigit c then some (c.toNat - 48 + 52)
  else if c = 43 then some 62
  else if c = 47 then some 63
  else none

/-- One character of a decoding loop, with what the width of the accumulator leaves of it. -/
def collectChar (decode : UInt8 → Option Nat) (width : Nat → Nat) (state : Base64State)
    (c : UInt8) : Base64State :=
  match decode c with
  | none => state
  | some v =>
      let accum := width ((state.accum <<< 6) ||| v)
      let bits := state.bits + 6
      if bits ≥ 8 then
        ⟨accum, bits - 8, state.out ++ [UInt8.ofNat ((accum >>> (bits - 8)) &&& 0xff)]⟩
      else
        ⟨accum, bits, state.out⟩

def collectAll (decode : UInt8 → Option Nat) (width : Nat → Nat) (s : Bytes) : Base64State :=
  s.foldl (collectChar decode width) ⟨0, 0, []⟩

/-- The value in a `uint32_t`. -/
def wrap32 (n : Nat) : Nat := n % 2 ^ 32

def base64Decode (s : Bytes) : Bytes := (collectAll decodeChar wrap32 s).out

def base64MimeDecode (s : Bytes) : Bytes := base64Decode s

theorem base64urlDecode_eq (s : Bytes) :
    base64urlDecode s = (collectAll decodeUrlChar wrap32 s).out := rfl

/-! ## The alphabets -/

/-- Letters, digits, and the two characters the alphabets differ in. -/
def alphabet (c62 c63 : UInt8) : Bytes :=
  (List.range' 65 26 ++ List.range' 97 26 ++ List.range' 48 10).map UInt8.ofNat ++ [c62, c63]

/-- The value of a character in the alphabet. -/
def alphabetValue (c62 c63 c : UInt8) : Option Nat :=
  if isUpper c then some (c.toNat - 65)
  else if isLower c then some (c.toNat - 97 + 26)
  else if isDigit c then some (c.toNat - 48 + 52)
  else if c = c62 then some 62
  else if c = c63 then some 63
  else none

theorem base64Table_eq : base64Table = alphabet 43 47 := by decide +kernel

theorem urlTable_eq : urlTable = alphabet 45 95 := by decide +kernel

theorem decodeChar_eq : decodeChar = alphabetValue 43 47 := rfl

theorem decodeUrlChar_eq : decodeUrlChar = alphabetValue 45 95 := rfl

section Alphabet

variable {c62 c63 : UInt8}

theorem alphabetValue_lt (c : UInt8) : ∀ v ∈ alphabetValue c62 c63 c, v < 64 := by
  unfold alphabetValue
  simp only [isUpper, isLower, isDigit, UInt8.le_iff_toNat_le, UInt8.toNat_ofNat]
  split_ifs <;> simp <;> omega

/-- A character outside the alphabet stands for no digit. -/
theorem alphabetValue_eq_none (c : UInt8) (h : c ∉ alphabet c62 c63) :
    alphabetValue c62 c63 c = none := by
  have hletters (hc : 65 ≤ c.toNat ∧ c.toNat ≤ 90 ∨ 97 ≤ c.toNat ∧ c.toNat ≤ 122 ∨
      48 ≤ c.toNat ∧ c.toNat ≤ 57) : c ∈ alphabet c62 c63 := by
    refine List.mem_append_left _ (List.mem_map.mpr ⟨c.toNat, ?_, by simp⟩)
    simp only [List.mem_append, List.mem_range'_1]
    omega
  unfold alphabetValue
  simp only [isUpper, isLower, isDigit, UInt8.le_iff_toNat_le, UInt8.toNat_ofNat]
  split_ifs with hupper hlower hdigit h62 h63
  · exact absurd (hletters (.inl hupper)) h
  · exact absurd (hletters (.inr (.inl hlower))) h
  · exact absurd (hletters (.inr (.inr hdigit))) h
  · exact absurd (by simp [alphabet, h62]) h
  · exact absurd (by simp [alphabet, h63]) h
  · rfl

end Alphabet

theorem decodeChar_base64Char (digit : Nat) (h : digit < 64) :
    decodeChar (base64Char digit) = some digit := by
  have htable : ∀ digit < 64,
      alphabetValue 43 47 ((alphabet 43 47).getD digit 0) = some digit := by decide +kernel
  rw [decodeChar_eq, base64Char, base64Table_eq, Nat.mod_eq_of_lt h]
  exact htable digit h

theorem decodeUrlChar_urlChar (digit : Nat) (h : digit < 64) :
    decodeUrlChar (urlChar digit) = some digit := by
  have htable : ∀ digit < 64,
      alphabetValue 45 95 ((alphabet 45 95).getD digit 0) = some digit := by decide +kernel
  rw [decodeUrlChar_eq, urlChar, urlTable_eq, Nat.mod_eq_of_lt h]
  exact htable digit h

theorem base64Char_mem (digit : Nat) : base64Char digit ∈ base64Table := by
  have hlength : digit % 64 < base64Table.length := Nat.mod_lt _ (by decide)
  rw [base64Char, List.getD_eq_getElem?_getD, List.getElem?_eq_getElem hlength, Option.getD_some]
  exact List.getElem_mem hlength

theorem urlChar_mem (digit : Nat) : urlChar digit ∈ urlTable := by
  have hlength : digit % 64 < urlTable.length := Nat.mod_lt _ (by decide)
  rw [urlChar, List.getD_eq_getElem?_getD, List.getElem?_eq_getElem hlength, Option.getD_some]
  exact List.getElem_mem hlength

/-! ## The encoders -/

/-- The tables are indexed by the low six bits. -/
theorem base64Char_mod (digit : Nat) : base64Char (digit % 64) = base64Char digit := by
  rw [base64Char, base64Char, Nat.mod_mod]

theorem urlChar_mod (digit : Nat) : urlChar (digit % 64) = urlChar digit := by
  rw [urlChar, urlChar, Nat.mod_mod]

/-- The digits of the octets, and a `=` for every two bits that fill the last. -/
theorem base64Encode_eq (d : Bytes) :
    base64Encode d = (sextets d).map base64Char ++ List.replicate (sextetFill d / 2) 61 := by
  fun_induction base64Encode d with
  | case1 => rfl
  | case2 a n =>
      have hfill : sextetFill [a] = 4 := rfl
      have hpad : List.replicate (4 / 2) (61 : UInt8) = [61, 61] := rfl
      rw [sextets, hfill, hpad, List.map_cons, List.map_singleton, base64Char_mod]
      simp only [Nat.shiftRight_eq_div_pow, List.cons_append, List.nil_append, n]
  | case3 a b n =>
      have hfill : sextetFill [a, b] = 2 := rfl
      have hpad : List.replicate (2 / 2) (61 : UInt8) = [61] := rfl
      rw [sextets, hfill, hpad, List.map_cons, List.map_cons, List.map_singleton, base64Char_mod,
        base64Char_mod]
      simp only [Nat.shiftRight_eq_div_pow, List.cons_append, List.nil_append, n]
  | case4 a b c rest n ih =>
      rw [ih, sextets, List.map_append, sextetFill_group, List.append_assoc, List.map_cons,
        List.map_cons, List.map_cons, List.map_singleton, base64Char_mod, base64Char_mod,
        base64Char_mod]
      simp only [Nat.shiftRight_eq_div_pow]
      rfl

theorem base64urlEncode_eq (d : Bytes) : base64urlEncode d = (sextets d).map urlChar := by
  fun_induction base64urlEncode d with
  | case1 => rfl
  | case2 a n =>
      rw [sextets, List.map_cons, List.map_singleton, urlChar_mod]
      simp only [Nat.shiftRight_eq_div_pow]
      rfl
  | case3 a b n =>
      rw [sextets, List.map_cons, List.map_cons, List.map_singleton, urlChar_mod, urlChar_mod]
      simp only [Nat.shiftRight_eq_div_pow]
      rfl
  | case4 a b c rest n ih =>
      rw [ih, sextets, List.map_append, List.map_cons, List.map_cons, List.map_cons,
        List.map_singleton, urlChar_mod, urlChar_mod, urlChar_mod]
      simp only [Nat.shiftRight_eq_div_pow]
      rfl

theorem base64Encode_ascii (d : Bytes) : ∀ c ∈ base64Encode d, c < 128 := by
  have htable : ∀ c ∈ base64Table, c < 128 := by decide +kernel
  intro c hc
  rw [base64Encode_eq] at hc
  rcases List.mem_append.mp hc with hdigit | hpad
  · obtain ⟨digit, -, rfl⟩ := List.mem_map.mp hdigit
    exact htable _ (base64Char_mem digit)
  · rw [List.eq_of_mem_replicate hpad]
    decide

/-- The characters of a table are read back as the digits they were written for. -/
theorem filterMap_map_table {decode : UInt8 → Option Nat} {table : Nat → UInt8}
    (h : ∀ digit < 64, decode (table digit) = some digit) {digits : List Nat}
    (hdigits : ∀ digit ∈ digits, digit < 64) : (digits.map table).filterMap decode = digits := by
  induction digits with
  | nil => rfl
  | cons digit rest ih =>
      obtain ⟨hdigit, hrest⟩ := List.forall_mem_cons.mp hdigits
      rw [List.map_cons, List.filterMap_cons_some (h digit hdigit), ih hrest]

theorem filterMap_base64Encode (d : Bytes) : (base64Encode d).filterMap decodeChar = sextets d := by
  have hpad : ∀ n, (List.replicate n 61).filterMap decodeChar = [] := by
    intro n
    rw [List.filterMap_eq_nil_iff]
    intro c hc
    rw [List.eq_of_mem_replicate hc]
    decide +kernel
  rw [base64Encode_eq, List.filterMap_append, hpad, List.append_nil,
    filterMap_map_table decodeChar_base64Char (sextets_lt d)]

theorem filterMap_base64urlEncode (d : Bytes) :
    (base64urlEncode d).filterMap decodeUrlChar = sextets d := by
  rw [base64urlEncode_eq, filterMap_map_table decodeUrlChar_urlChar (sextets_lt d)]

theorem mem_urlTable_of_mem_encode {d : Bytes} {c : UInt8} (h : c ∈ base64urlEncode d) :
    c ∈ urlTable := by
  rw [base64urlEncode_eq] at h
  obtain ⟨digit, -, rfl⟩ := List.mem_map.mp h
  exact urlChar_mem digit

/-! ## The decoding loop -/

section Collecting

variable {decode : UInt8 → Option Nat} {width width' : Nat → Nat} {d s : Bytes}

/-- The characters that stand for a digit decide what the loop has given out. -/
theorem collected_collectAll (hdecode : ∀ c, ∀ v ∈ decode c, v < 64)
    (hwidth : ∀ n, width n % 2 ^ 13 = n % 2 ^ 13) (s : Bytes) :
    Collected (s.filterMap decode) (collectAll decode width s).accum
      (collectAll decode width s).bits (collectAll decode width s).out := by
  induction s using List.reverseRecOn with
  | nil => exact Collected.start
  | append_singleton s c ih =>
      have hstep : collectAll decode width (s ++ [c]) =
          collectChar decode width (collectAll decode width s) c := by
        simp [collectAll]
      rw [hstep, List.filterMap_append, collectChar]
      cases hc : decode c with
      | none => simpa [hc] using ih
      | some v =>
          have hv : v < 2 ^ 6 := hdecode c v hc
          have haccum : width (((collectAll decode width s).accum <<< 6) ||| v) % 2 ^ 13 =
              ((collectAll decode width s).accum * 64 + v) % 2 ^ 13 := by
            rw [hwidth, ← Nat.shiftLeft_add_eq_or_of_lt hv, Nat.shiftLeft_eq]
          simp only [List.filterMap_cons_some hc, List.filterMap_nil]
          split
          next hfull => exact ih.emit hv hfull haccum
          next hmore => exact ih.wait hv (by omega) haccum

theorem wrap32_low (n : Nat) : wrap32 n % 2 ^ 13 = n % 2 ^ 13 := by
  unfold wrap32
  omega

/-- No octet depends on how wide the accumulator is. -/
theorem collectAll_out_eq (hdecode : ∀ c, ∀ v ∈ decode c, v < 64) (s : Bytes) :
    (collectAll decode wrap32 s).out = (collectAll decode id s).out :=
  (collected_collectAll hdecode wrap32_low s).unique
    (collected_collectAll hdecode (fun _ => rfl) s)

theorem collectAll_eq_of_sextets (hdecode : ∀ c, ∀ v ∈ decode c, v < 64)
    (h : s.filterMap decode = sextets d) : (collectAll decode wrap32 s).out = d := by
  have hcollected := collected_collectAll hdecode wrap32_low s
  rw [h] at hcollected
  exact hcollected.eq_octets

end Collecting

/-! ## Round trips -/

theorem base64Decode_inserted {d s : Bytes} (h : Inserted (· ∉ base64Table) (base64Encode d) s) :
    base64Decode s = d := by
  apply collectAll_eq_of_sextets (decodeChar_eq ▸ alphabetValue_lt)
  rw [h.filterMap_eq fun c hc => ?_, filterMap_base64Encode]
  rw [base64Table_eq] at hc
  exact alphabetValue_eq_none c hc

theorem base64urlDecode_inserted {d s : Bytes} (h : Inserted (· ∉ urlTable) (base64urlEncode d) s) :
    base64urlDecode s = d := by
  rw [base64urlDecode_eq]
  apply collectAll_eq_of_sextets (decodeUrlChar_eq ▸ alphabetValue_lt)
  rw [h.filterMap_eq fun c hc => ?_, filterMap_base64urlEncode]
  rw [urlTable_eq] at hc
  exact alphabetValue_eq_none c hc

/-- Decoding undoes encoding whatever is put in from outside the alphabet; the URL-safe form
uses no character that means something in a URL; and what is decoded from any string is
what an accumulator without a width would give. -/
theorem base64_roundTrip :
    (∀ d s : Bytes, Inserted (· ∉ base64Table) (base64Encode d) s →
      base64Decode s = d ∧ base64MimeDecode s = d) ∧
    (∀ d s : Bytes, Inserted (· ∉ urlTable) (base64urlEncode d) s → base64urlDecode s = d) ∧
    (∀ d : Bytes, ∀ c ∈ base64urlEncode d, c ≠ 43 ∧ c ≠ 47 ∧ c ≠ 61) ∧
    (∀ s : Bytes, base64Decode s = (collectAll decodeChar id s).out ∧
      base64urlDecode s = (collectAll decodeUrlChar id s).out) := by
  refine ⟨fun d s h => ⟨base64Decode_inserted h, base64Decode_inserted h⟩,
    fun d s => base64urlDecode_inserted, fun d c hc => ?_, fun s => ⟨?_, ?_⟩⟩
  · have hnone : ∀ c ∈ alphabet 45 95, c ≠ 43 ∧ c ≠ 47 ∧ c ≠ 61 := by decide +kernel
    exact hnone c (urlTable_eq ▸ mem_urlTable_of_mem_encode hc)
  · exact collectAll_out_eq (decodeChar_eq ▸ alphabetValue_lt) s
  · rw [base64urlDecode_eq]
    exact collectAll_out_eq (decodeUrlChar_eq ▸ alphabetValue_lt) s

/-- `TWE=` with a line break and a further `=` put in. -/
theorem wrappedBase64_decoded :
    base64Decode [84, 10, 87, 69, 61, 61] = [77, 97] ∧ base64urlDecode [84, 61, 87, 69] = [77, 97] :=
  have henc : base64Encode [77, 97] = [84, 87, 69, 61] := by decide +kernel
  have henc' : base64urlEncode [77, 97] = [84, 87, 69] := by decide +kernel
  ⟨(base64_roundTrip.1 [77, 97] _ (henc ▸ .keep 84 (.insert 10 (by decide +kernel) (.keep 87
      (.keep 69 (.insert 61 (by decide +kernel) (.keep 61 .nil))))))).1,
    base64_roundTrip.2.1 [77, 97] _ (henc' ▸ .keep 84 (.insert 61 (by decide +kernel) (.keep 87
      (.keep 69 .nil))))⟩

end AasSign
