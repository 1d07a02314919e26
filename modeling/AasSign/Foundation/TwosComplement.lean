import Mathlib.Data.Nat.Size
import Mathlib.Tactic.Linarith
import AasSign.Foundation.Octets

/-! # Numbers in two's complement

The number that an octet string writes in two's complement, and the contents that
no shorter one writes the number of: the first nine bits are not all equal.
-/

namespace Foundation

/-- The digit in base 256 that carries the sign. -/
def signDigit (digit : UInt8) : Int :=
  if digit.toNat < 0x80 then digit.toNat else digit.toNat - 256

/-- The number that `content` writes in two's complement. -/
def twosComplement : List UInt8 → Int
  | [] => 0
  | first :: rest => signDigit first * 256 ^ rest.length + bigEndian rest

/-- There is an octet, and the first nine bits are neither all zero nor all one. -/
def NineBitsDiffer : List UInt8 → Prop
  | [] => False
  | [_] => True
  | first :: second :: _ =>
      ¬(first = 0 ∧ second.toNat < 0x80) ∧ ¬(first = 0xff ∧ 0x80 ≤ second.toNat)

theorem signDigit_range (digit : UInt8) : -128 ≤ signDigit digit ∧ signDigit digit ≤ 127 := by
  have hdigit := digit.toNat_lt
  unfold signDigit
  split <;> omega

theorem signDigit_injective {first second : UInt8} (h : signDigit first = signDigit second) :
    first = second := by
  have hfirst := first.toNat_lt
  have hsecond := second.toNat_lt
  apply UInt8.toNat_inj.mp
  unfold signDigit at h
  split at h <;> split at h <;> omega

/-- A quotient and a remainder below the divisor are determined. -/
theorem quotient_remainder_unique {a b base r s : Int} (hr : 0 ≤ r ∧ r < base)
    (hs : 0 ≤ s ∧ s < base) (h : a * base + r = b * base + s) : a = b ∧ r = s := by
  have hrest : r = s := by
    have hmod := congrArg (· % base) h
    simpa [Int.emod_eq_of_lt hr.1 hr.2, Int.emod_eq_of_lt hs.1 hs.2] using hmod
  subst hrest
  exact ⟨mul_right_cancel₀ (by omega) (add_right_cancel h), rfl⟩

theorem bigEndian_digit_range (digits : List UInt8) :
    (0 : Int) ≤ bigEndian digits ∧ (bigEndian digits : Int) < 256 ^ digits.length :=
  ⟨Int.natCast_nonneg _, by exact_mod_cast bigEndian_lt digits⟩

/-- Octet strings of one length write different numbers. -/
theorem bigEndian_injective {first second : List UInt8} (hlength : first.length = second.length)
    (h : bigEndian first = bigEndian second) : first = second := by
  induction first generalizing second with
  | nil => exact (List.length_eq_zero_iff.mp hlength.symm).symm
  | cons digit rest ih =>
      cases second with
      | nil => simp at hlength
      | cons digit' rest' =>
          have hlengths : rest.length = rest'.length := by simpa using hlength
          have hrest := bigEndian_digit_range rest
          have hnumbers : (digit.toNat : Int) * 256 ^ rest'.length + bigEndian rest =
              digit'.toNat * 256 ^ rest'.length + bigEndian rest' := by
            rw [bigEndian_cons, bigEndian_cons, hlengths] at h
            exact_mod_cast h
          rw [hlengths] at hrest
          obtain ⟨hdigit, hlow⟩ :=
            quotient_remainder_unique hrest (bigEndian_digit_range rest') hnumbers
          have hfirst : digit = digit' := UInt8.toNat_inj.mp (by exact_mod_cast hdigit)
          rw [hfirst, ih hlengths (by exact_mod_cast hlow)]

/-- Contents of one length write different numbers in two's complement. -/
theorem twosComplement_injective {first second : List UInt8}
    (hlength : first.length = second.length) (h : twosComplement first = twosComplement second) :
    first = second := by
  cases first with
  | nil => exact (List.length_eq_zero_iff.mp hlength.symm).symm
  | cons digit rest =>
      cases second with
      | nil => simp at hlength
      | cons digit' rest' =>
          have hlengths : rest.length = rest'.length := by simpa using hlength
          have hrest := bigEndian_digit_range rest
          simp only [twosComplement] at h
          rw [hlengths] at h hrest
          obtain ⟨hdigit, hlow⟩ := quotient_remainder_unique hrest (bigEndian_digit_range rest') h
          rw [signDigit_injective hdigit, bigEndian_injective hlengths (by exact_mod_cast hlow)]

section Range

variable {first second : UInt8} {rest content content' : List UInt8}

/-- The numbers that `n + 1` octets write. -/
theorem twosComplement_range (first : UInt8) (rest : List UInt8) :
    -(128 * 256 ^ rest.length) ≤ twosComplement (first :: rest) ∧
      twosComplement (first :: rest) < 128 * 256 ^ rest.length := by
  obtain ⟨hlow, hhigh⟩ := signDigit_range first
  obtain ⟨hnonneg, hrest⟩ := bigEndian_digit_range rest
  have hpow : (0 : Int) < 256 ^ rest.length := by positivity
  simp only [twosComplement]
  constructor <;> nlinarith

/-- A number whose nine leading bits differ needs all its octets. -/
theorem NineBitsDiffer.outside (h : NineBitsDiffer (first :: second :: rest)) :
    twosComplement (first :: second :: rest) < -(128 * 256 ^ rest.length) ∨
      128 * 256 ^ rest.length ≤ twosComplement (first :: second :: rest) := by
  obtain ⟨hzeros, hones⟩ := h
  obtain ⟨hnonneg, hrest⟩ := bigEndian_digit_range rest
  have hpow : (0 : Int) < 256 ^ rest.length := by positivity
  have hvalue : twosComplement (first :: second :: rest) =
      (signDigit first * 256 + second.toNat) * 256 ^ rest.length + bigEndian rest := by
    simp only [twosComplement, bigEndian_cons, List.length_cons]
    push_cast
    ring
  have hdigits : signDigit first * 256 + second.toNat < -128 ∨
      128 ≤ signDigit first * 256 + second.toNat := by
    have hfirst := first.toNat_lt
    have hsecond := second.toNat_lt
    rw [← UInt8.toNat_inj] at hzeros hones
    simp only [UInt8.toNat_ofNat] at hzeros hones
    unfold signDigit
    split <;> omega
  rw [hvalue]
  obtain hdigits | hdigits := hdigits
  · left
    nlinarith
  · right
    nlinarith

/-- A content whose nine leading bits differ is no longer than another of its number. -/
theorem NineBitsDiffer.shortest (h : NineBitsDiffer content) (hcontent' : content' ≠ [])
    (hsame : twosComplement content' = twosComplement content) :
    content.length ≤ content'.length := by
  cases content' with
  | nil => exact absurd rfl hcontent'
  | cons digit digits =>
      match content, h with
      | [_], _ => simp
      | first :: second :: rest, h =>
          by_contra hlonger
          simp only [List.length_cons, not_le] at hlonger
          have hpow : (256 : Int) ^ digits.length ≤ 256 ^ rest.length :=
            pow_le_pow_right₀ (by norm_num) (by omega)
          have hrange := twosComplement_range digit digits
          have houtside := h.outside
          rw [hsame] at hrange
          omega

/-- A content of `value` takes more than `n + 1` octets from 128 * 256^n on. -/
theorem NineBitsDiffer.length_le_iff {value n : Nat} (h : NineBitsDiffer content)
    (hvalue : twosComplement content = value) :
    content.length ≤ n + 1 ↔ value < 128 * 256 ^ n := by
  have hpow {k m : Nat} (hle : k ≤ m) : (256 : Int) ^ k ≤ 256 ^ m :=
    pow_le_pow_right₀ (by norm_num) hle
  zify
  rw [← hvalue]
  match content, h with
  | first :: rest, h =>
      have hrange := (twosComplement_range first rest).2
      constructor
      · intro hlength
        have hle := hpow (show rest.length ≤ n by simpa using hlength)
        omega
      · intro hlt
        match rest, h with
        | [], _ => simp
        | second :: rest, h =>
            by_contra hlonger
            have hle := hpow (show n ≤ rest.length by
              simp only [List.length_cons] at hlonger
              omega)
            have hpos : (0 : Int) < 256 ^ rest.length := by positivity
            have houtside := h.outside
            rw [hvalue] at houtside hlt
            omega

/-- There is one content of a number whose nine leading bits differ. -/
theorem NineBitsDiffer.unique (h : NineBitsDiffer content) (h' : NineBitsDiffer content')
    (hsame : twosComplement content = twosComplement content') : content = content' := by
  have hne : content ≠ [] := fun hnil => by simp [hnil, NineBitsDiffer] at h
  have hne' : content' ≠ [] := fun hnil => by simp [hnil, NineBitsDiffer] at h'
  have hlength := Nat.le_antisymm (h.shortest hne' hsame.symm) (h'.shortest hne hsame)
  exact twosComplement_injective hlength hsame

end Range

end Foundation
