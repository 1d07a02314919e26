import AasSign.Der.Write
import AasSign.Foundation.TwosComplement

/-! # Integers

What `der_integer` writes is the shortest two's-complement content of the unsigned
value of its input, in an element as long as the four length octets suffice.
-/

namespace AasSign

open Foundation

section Elements

variable {tag tag' : UInt8} {content content' : Bytes}

/-- The octet count of a length is in its first octet. -/
theorem writeLength_lead (n : Nat) : ∃ lead digits, writeLength n = lead :: digits ∧
    ((lead.toNat < 0x80 ∧ digits = [] ∧ lead.toNat = n) ∨
      (lead.toNat = 0x80 + digits.length ∧ 0 < digits.length ∧ digits.length ≤ 4)) := by
  unfold writeLength
  split
  next hlt =>
    refine ⟨_, _, rfl, .inl ?_⟩
    have hvalue : (UInt8.ofNat n).toNat = n := by
      rw [UInt8.toNat_ofNat']
      omega
    rw [hvalue]
    exact ⟨hlt, rfl, rfl⟩
  next =>
    split_ifs
    all_goals exact ⟨_, _, rfl, .inr ⟨rfl, by simp, by simp⟩⟩

/-- A string that is written is an element in at most one way, and only when its length fits
the four digits. -/
theorem isTlv_derWrap :
    IsTlv tag content (derWrap tag' content') ↔
      tag = tag' ∧ content = content' ∧ content'.length < 2 ^ 32 := by
  constructor
  · rintro ⟨octets, hoctets, hraw⟩
    obtain ⟨lead, digits, hwritten, hshape⟩ := writeLength_lead content'.length
    rw [derWrap, hwritten] at hraw
    simp only [List.cons_append, List.cons.injEq] at hraw
    obtain ⟨rfl, hraw⟩ := hraw
    generalize hlength : content.length = n at hoctets
    cases hoctets with
    | short lead' hlead' =>
        simp only [List.cons_append, List.nil_append, List.cons.injEq] at hraw
        obtain ⟨rfl, hraw⟩ := hraw
        obtain ⟨-, rfl, -⟩ | ⟨hlong, -, -⟩ := hshape
        · obtain rfl : content' = content := hraw
          exact ⟨rfl, rfl, by omega⟩
        · omega
    | long lead' digits' hlead' hpos' hmax' =>
        simp only [List.cons_append, List.cons.injEq] at hraw
        obtain ⟨rfl, hraw⟩ := hraw
        obtain ⟨hshort, -, -⟩ | ⟨hlong, hpos, hfour⟩ := hshape
        · omega
        · obtain ⟨rfl, rfl⟩ := List.append_inj hraw (by omega)
          exact ⟨rfl, rfl, hlength ▸ (LengthOctets.long lead digits hlong hpos hfour).lt⟩
  · rintro ⟨rfl, rfl, hlt⟩
    exact ⟨_, (writeLength_octets hlt).definite, rfl⟩

/-- What is written determines its content, also when the length octets are cut off. -/
theorem derWrap_injective (h : derWrap tag content = derWrap tag content') :
    content = content' := by
  obtain ⟨lead, digits, hwritten, hshape⟩ := writeLength_lead content.length
  obtain ⟨lead', digits', hwritten', hshape'⟩ := writeLength_lead content'.length
  simp only [derWrap, hwritten, hwritten', List.cons_append, List.cons.injEq, true_and] at h
  obtain ⟨rfl, hrest⟩ := h
  have hdigits : digits.length = digits'.length := by
    obtain ⟨hshort, rfl, -⟩ | ⟨hlong, -, -⟩ := hshape <;>
      obtain ⟨hshort', rfl, -⟩ | ⟨hlong', -, -⟩ := hshape' <;> omega
  exact (List.append_inj hrest hdigits).2

end Elements

/-! ## The content -/

/-- The content that `der_integer` wraps. -/
def integerContent (data : Bytes) : Bytes :=
  match skipZeros data with
  | [] => []
  | first :: rest => if first &&& 0x80 ≠ 0 then 0 :: first :: rest else first :: rest

section Content

variable {data data' : Bytes}

theorem derIntegerBytes_eq (data : Bytes) :
    derIntegerBytes data = derWrap 0x02 (integerContent data) := by
  unfold derIntegerBytes integerContent
  cases skipZeros data with
  | nil => rfl
  | cons first rest =>
      dsimp only
      split_ifs <;> rfl

theorem signBit_eq_zero (octet : UInt8) : octet &&& 0x80 = 0 ↔ octet.toNat < 0x80 := by
  have hbits : ∀ n < 256, n &&& 0x80 = 0 ↔ n < 0x80 := by decide +kernel
  rw [← UInt8.toNat_inj, UInt8.toNat_and]
  exact hbits octet.toNat octet.toNat_lt

theorem bigEndian_skipZeros (data : Bytes) : bigEndian (skipZeros data) = bigEndian data := by
  fun_induction skipZeros data with
  | case1 first second rest hskip ih =>
      rw [ih, bigEndian_cons first, hskip.1]
      simp
  | case2 first second rest hkeep => rfl
  | case3 short hshort => rfl

theorem skipZeros_ne_nil (h : data ≠ []) : skipZeros data ≠ [] := by
  fun_induction skipZeros data with
  | case1 first second rest hskip ih => exact ih (by simp)
  | case2 first second rest hkeep => exact h
  | case3 short hshort => exact h

/-- A zero octet stays in front of another only as its sign. -/
theorem skipZeros_kept {first second : UInt8} {rest : Bytes}
    (h : skipZeros data = first :: second :: rest) : ¬(first = 0 ∧ second.toNat < 0x80) := by
  fun_induction skipZeros data with
  | case1 first' second' rest' hskip ih => exact ih h
  | case2 first' second' rest' hkeep =>
      obtain ⟨rfl, hrest⟩ := List.cons.inj h
      obtain ⟨rfl, rfl⟩ := List.cons.inj hrest
      rwa [signBit_eq_zero] at hkeep
  | case3 short hshort => exact absurd h (hshort first second rest)

/-- The content is a non-negative number in two's complement, and the shortest for it. -/
theorem integerContent_minimal (h : data ≠ []) :
    twosComplement (integerContent data) = bigEndian data ∧
      NineBitsDiffer (integerContent data) := by
  have hvalue := bigEndian_skipZeros data
  unfold integerContent
  cases hskip : skipZeros data with
  | nil => exact absurd hskip (skipZeros_ne_nil h)
  | cons first rest =>
      rw [hskip] at hvalue
      dsimp only
      split
      next hhigh =>
        -- The zero octet is the sign, and the next octet has its high bit set.
        rw [Ne, signBit_eq_zero, not_lt] at hhigh
        refine ⟨?_, ?_, ?_⟩
        · simp [twosComplement, signDigit, hvalue]
        · exact fun hlow => absurd hlow.2 (by omega)
        · exact fun hones => absurd hones.1 (by decide)
      next hlow =>
        rw [Ne, not_not, signBit_eq_zero] at hlow
        constructor
        · rw [← hvalue, bigEndian_cons]
          simp [twosComplement, signDigit, hlow]
        · cases rest with
          | nil => trivial
          | cons second rest =>
              refine ⟨skipZeros_kept hskip, fun hones => ?_⟩
              rw [hones.1] at hlow
              exact absurd hlow (by decide)

theorem integerContent_eq_iff (h : data ≠ []) (h' : data' ≠ []) :
    integerContent data = integerContent data' ↔ bigEndian data = bigEndian data' := by
  obtain ⟨hvalue, hminimal⟩ := integerContent_minimal h
  obtain ⟨hvalue', hminimal'⟩ := integerContent_minimal h'
  constructor
  · intro hsame
    rw [hsame, hvalue'] at hvalue
    exact_mod_cast hvalue.symm
  · intro hsame
    refine hminimal.unique hminimal' ?_
    rw [hvalue, hvalue', hsame]

/-- The content has fewer than 2^32 octets as long as the value has few enough bits. -/
theorem integerContent_length_lt_iff (h : data ≠ []) {n : Nat} :
    (integerContent data).length < n + 2 ↔ (bigEndian data).size < 8 * (n + 1) := by
  obtain ⟨hvalue, hminimal⟩ := integerContent_minimal h
  have hpow : 128 * 256 ^ n = 2 ^ (8 * n + 7) := by
    rw [show 256 = 2 ^ 8 by rfl, ← pow_mul, pow_add]
    ring
  calc (integerContent data).length < n + 2
      ↔ (integerContent data).length ≤ n + 1 := Nat.lt_succ_iff
    _ ↔ bigEndian data < 2 ^ (8 * n + 7) := by rw [hminimal.length_le_iff hvalue, hpow]
    _ ↔ (bigEndian data).size ≤ 8 * n + 7 := Nat.size_le.symm
    _ ↔ (bigEndian data).size < 8 * (n + 1) := by omega

end Content

/-! ## The overload for 64-bit integers -/

theorem bigEndian_lowBytes (nbytes v : Nat) : bigEndian (lowBytes nbytes v) = v % 256 ^ nbytes := by
  induction nbytes generalizing v with
  | zero => simp [lowBytes, Nat.mod_one]
  | succ nbytes ih =>
      have hoctet : bigEndian [UInt8.ofNat (v &&& 0xff)] = v % 256 := by
        rw [bigEndian_cons, show 0xff = 2 ^ 8 - 1 by rfl, Nat.and_two_pow_sub_one_eq_mod]
        simp
      have hshift : v >>> 8 = v / 256 := Nat.shiftRight_eq_div_pow v 8
      rw [lowBytes, bigEndian_append, ih, hoctet, hshift, pow_succ' 256 nbytes, Nat.mod_mul,
        List.length_singleton]
      ring

theorem lt_countBytes {fuel v : Nat} (h : v < 256 ^ fuel) : v < 256 ^ countBytes fuel v := by
  induction fuel generalizing v with
  | zero => simpa [countBytes] using h
  | succ fuel ih =>
      rw [countBytes]
      split
      next hpos =>
        have hshift : v >>> 8 = v / 256 := Nat.shiftRight_eq_div_pow v 8
        rw [hshift]
        have hrec := ih (Nat.div_lt_of_lt_mul (by rwa [Nat.pow_succ'] at h))
        rw [Nat.pow_succ']
        omega
      next hzero =>
        have hv : v = 0 := by omega
        simp [hv]

theorem lowBytes_ne_nil {v : Nat} (h : v ≠ 0) : lowBytes (countBytes 8 v) v ≠ [] := by
  rw [countBytes, if_pos (Nat.pos_of_ne_zero h), lowBytes]
  simp

theorem derInteger_eq {value : Int} {data : Bytes} (hnonneg : 0 ≤ value) (hlt : value < 2 ^ 63)
    (hdata : data ≠ []) (hvalue : (bigEndian data : Int) = value) :
    derInteger value = .ok (derIntegerBytes data) := by
  have hsame (digits : Bytes) (hne : digits ≠ []) (h : bigEndian digits = value.toNat) :
      derIntegerBytes digits = derIntegerBytes data := by
    have hcontent := (integerContent_eq_iff hne hdata).mpr (by omega)
    rw [derIntegerBytes_eq, derIntegerBytes_eq, hcontent]
  have hguard : ¬value < 0 := by omega
  simp only [derInteger, throwIf, hguard, if_false, ok_bind]
  split
  next hzero =>
    rw [hsame [0] (by simp) hzero.symm]
    rfl
  next hpos =>
    have hfits := lt_countBytes (show value.toNat < 256 ^ 8 by omega)
    rw [hsame _ (lowBytes_ne_nil hpos) (by rw [bigEndian_lowBytes, Nat.mod_eq_of_lt hfits])]
    rfl

/-! ## What the writer writes for an integer -/

/-- `raw` is an INTEGER whose content is the shortest one that writes the unsigned value
of `data` in two's complement. -/
def IsShortestInteger (data raw : Bytes) : Prop :=
  ∃ content, IsTlv 0x02 content raw ∧ twosComplement content = bigEndian data ∧
    NineBitsDiffer content ∧
    ∀ other, other ≠ [] → twosComplement other = bigEndian data → content.length ≤ other.length

theorem isShortestInteger_iff {data : Bytes} (h : data ≠ []) :
    IsShortestInteger data (derIntegerBytes data) ↔ (integerContent data).length < 2 ^ 32 := by
  rw [derIntegerBytes_eq]
  constructor
  · rintro ⟨content, htlv, -⟩
    exact (isTlv_derWrap.mp htlv).2.2
  · intro hlt
    obtain ⟨hvalue, hminimal⟩ := integerContent_minimal h
    refine ⟨integerContent data, isTlv_derWrap.mpr ⟨rfl, rfl, hlt⟩, hvalue, hminimal, ?_⟩
    intro other hother hsame
    exact hminimal.shortest hother (hsame.trans hvalue.symm)

theorem integerContent_one_zeros (zeros : Nat) :
    integerContent (1 :: List.replicate zeros 0) = 1 :: List.replicate zeros 0 := by
  cases zeros with
  | zero => rfl
  | succ zeros => rfl

theorem oneZeros_not_shortest {zeros : Nat} (h : 2 ^ 32 ≤ zeros + 1) :
    ¬IsShortestInteger (1 :: List.replicate zeros 0)
      (derIntegerBytes (1 :: List.replicate zeros 0)) := by
  rw [isShortestInteger_iff (List.cons_ne_nil _ _), integerContent_one_zeros, List.length_cons,
    List.length_replicate]
  omega

/-- The octet 1 and 2^32 - 1 zero octets: the four length octets are all zero. -/
theorem longInteger_not_shortest :
    ¬IsShortestInteger (1 :: List.replicate (2 ^ 32 - 1) 0)
      (derIntegerBytes (1 :: List.replicate (2 ^ 32 - 1) 0)) :=
  oneZeros_not_shortest (Nat.le_refl _)

/-- The written element is the shortest INTEGER of the unsigned value exactly for values of
fewer than 8 * (2^32 - 1) bits. Two inputs are written alike exactly when they have one
value, and the 64-bit overload writes what any padded form of its value is written as. -/
theorem derInteger_shortest (data : Bytes) (hdata : data ≠ []) :
    (IsShortestInteger data (derIntegerBytes data) ↔
      (bigEndian data).size < 8 * (2 ^ 32 - 1)) ∧
    (∀ data' : Bytes, data' ≠ [] →
      (derIntegerBytes data = derIntegerBytes data' ↔ bigEndian data = bigEndian data')) ∧
    (∀ value : Int, 0 ≤ value → value < 2 ^ 63 → (bigEndian data : Int) = value →
      derInteger value = .ok (derIntegerBytes data)) := by
  refine ⟨?_, fun data' hdata' => ?_, fun value hlow hhigh => derInteger_eq hlow hhigh hdata⟩
  · rw [isShortestInteger_iff hdata]
    exact integerContent_length_lt_iff hdata (n := 2 ^ 32 - 2)
  · rw [derIntegerBytes_eq, derIntegerBytes_eq, ← integerContent_eq_iff hdata hdata']
    exact ⟨derWrap_injective, fun hsame => by rw [hsame]⟩

theorem paddedInteger_shortest : IsShortestInteger [0x00, 0x00, 0x80] [0x02, 0x02, 0x00, 0x80] :=
  have hsize : (bigEndian [0x00, 0x00, 0x80]).size ≤ 8 := Nat.size_le.mpr (by decide)
  (derInteger_shortest [0x00, 0x00, 0x80] (by decide)).1.mpr (by omega)

end AasSign
