import Mathlib.Tactic.IntervalCases
import AasSign.Foundation.TwosComplement

/-! # Octets in six-bit digits

Octet strings written as digits in base 64, and octets collected from such digits
through an accumulator. The collected octets are determined by the number that the
digits write, as long as the accumulator keeps thirteen low bits of it.
-/

namespace Foundation

/-- The number that `digits` write in base 64, most significant digit first. -/
def sextetValue (digits : List Nat) : Nat := digits.foldl (fun value digit => value * 64 + digit) 0

/-- The six-bit digits of an octet string, three octets at a time; zero bits fill the last. -/
def sextets : List UInt8 → List Nat
  | [] => []
  | [a] =>
      let n := a.toNat * 2 ^ 16
      [n / 2 ^ 18, n / 2 ^ 12 % 64]
  | [a, b] =>
      let n := a.toNat * 2 ^ 16 + b.toNat * 2 ^ 8
      [n / 2 ^ 18, n / 2 ^ 12 % 64, n / 2 ^ 6 % 64]
  | a :: b :: c :: rest =>
      let n := a.toNat * 2 ^ 16 + b.toNat * 2 ^ 8 + c.toNat
      [n / 2 ^ 18, n / 2 ^ 12 % 64, n / 2 ^ 6 % 64, n % 64] ++ sextets rest

/-- The number of zero bits that fill the last digit. -/
def sextetFill (octets : List UInt8) : Nat := 2 * ((3 - octets.length % 3) % 3)

theorem sextetFill_group (a b c : UInt8) (rest : List UInt8) :
    sextetFill (a :: b :: c :: rest) = sextetFill rest := by
  have hlength : (rest.length + 1 + 1 + 1) % 3 = rest.length % 3 := Nat.add_mod_right _ 3
  rw [sextetFill, sextetFill, List.length_cons, List.length_cons, List.length_cons, hlength]

section Values

variable {first second : List Nat}

theorem foldl_sextetValue (digits : List Nat) (value : Nat) :
    digits.foldl (fun value digit => value * 64 + digit) value =
      value * 64 ^ digits.length + sextetValue digits := by
  induction digits generalizing value with
  | nil => simp [sextetValue]
  | cons digit rest ih =>
      simp only [sextetValue, List.foldl_cons, List.length_cons]
      rw [ih, ih (0 * 64 + digit)]
      ring

theorem sextetValue_append (first second : List Nat) :
    sextetValue (first ++ second) =
      sextetValue first * 64 ^ second.length + sextetValue second := by
  rw [sextetValue, List.foldl_append, foldl_sextetValue]
  rfl

theorem sextetValue_snoc (digits : List Nat) (digit : Nat) :
    sextetValue (digits ++ [digit]) = sextetValue digits * 64 + digit := by
  simp [sextetValue]

theorem sextets_lt (octets : List UInt8) : ∀ digit ∈ sextets octets, digit < 64 := by
  fun_induction sextets octets with
  | case1 => simp
  | case2 a n =>
      have ha := a.toNat_lt
      simp only [List.mem_cons, List.not_mem_nil, or_false, forall_eq_or_imp, forall_eq]
      omega
  | case3 a b n =>
      have ha := a.toNat_lt
      have hb := b.toNat_lt
      simp only [List.mem_cons, List.not_mem_nil, or_false, forall_eq_or_imp, forall_eq]
      omega
  | case4 a b c rest n ih =>
      have ha := a.toNat_lt
      have hb := b.toNat_lt
      have hc := c.toNat_lt
      rw [List.forall_mem_append]
      refine ⟨?_, ih⟩
      simp only [List.mem_cons, List.not_mem_nil, or_false, forall_eq_or_imp, forall_eq]
      omega

theorem sextets_length (octets : List UInt8) :
    6 * (sextets octets).length = 8 * octets.length + sextetFill octets := by
  fun_induction sextets octets with
  | case1 => rfl
  | case2 a n => rfl
  | case3 a b n => rfl
  | case4 a b c rest n ih =>
      simp only [List.length_append, List.length_cons, List.length_nil, sextetFill_group]
      omega

/-- The leading digits of a group write its leading bits. -/
theorem sextetValue_two (n : Nat) : sextetValue [n / 2 ^ 18, n / 2 ^ 12 % 64] = n / 2 ^ 12 := by
  simp only [sextetValue, List.foldl_cons, List.foldl_nil]
  omega

theorem sextetValue_three (n : Nat) :
    sextetValue [n / 2 ^ 18, n / 2 ^ 12 % 64, n / 2 ^ 6 % 64] = n / 2 ^ 6 := by
  simp only [sextetValue, List.foldl_cons, List.foldl_nil]
  omega

theorem sextetValue_four (n : Nat) :
    sextetValue [n / 2 ^ 18, n / 2 ^ 12 % 64, n / 2 ^ 6 % 64, n % 64] = n := by
  simp only [sextetValue, List.foldl_cons, List.foldl_nil]
  omega

/-- The digits write the number of the octets, shifted by the bits that fill the last. -/
theorem sextetValue_sextets (octets : List UInt8) :
    sextetValue (sextets octets) = bigEndian octets * 2 ^ sextetFill octets := by
  fun_induction sextets octets with
  | case1 => rfl
  | case2 a n =>
      have hfill : sextetFill [a] = 4 := rfl
      have hn : n = bigEndian [a] * 2 ^ 4 * 2 ^ 12 := by
        simp [n, bigEndian, Nat.mul_assoc]
      rw [sextetValue_two, hn, hfill, Nat.mul_div_cancel _ (by decide)]
  | case3 a b n =>
      have hfill : sextetFill [a, b] = 2 := rfl
      have hn : n = bigEndian [a, b] * 2 ^ 2 * 2 ^ 6 := by
        simp only [n, bigEndian, List.foldl_cons, List.foldl_nil]
        ring
      rw [sextetValue_three, hn, hfill, Nat.mul_div_cancel _ (by decide)]
  | case4 a b c rest n ih =>
      have hpow : 64 ^ (sextets rest).length = 256 ^ rest.length * 2 ^ sextetFill rest := by
        rw [show 64 = 2 ^ 6 by rfl, show 256 = 2 ^ 8 by rfl, ← pow_mul, ← pow_mul, ← pow_add,
          sextets_length]
      rw [sextetValue_append, ih, sextetFill_group, hpow, sextetValue_four]
      simp only [bigEndian_cons, List.length_cons, n]
      ring

end Values

/-! ## Collecting the octets -/

/-- `out` holds the octets that are complete after `digits`, and `bits` further bits are waiting.
The accumulator agrees with the number of the digits in the bits that can still be given out. -/
structure Collected (digits : List Nat) (accum bits : Nat) (out : List UInt8) : Prop where
  count : 8 * out.length + bits = 6 * digits.length
  few : bits < 8
  value : bigEndian out = sextetValue digits / 2 ^ bits
  low : accum % 2 ^ 13 = sextetValue digits % 2 ^ 13

namespace Collected

variable {digits : List Nat} {accum accum' bits bits' digit : Nat} {out out' octets : List UInt8}

theorem start : Collected [] 0 0 [] := ⟨rfl, by decide, rfl, rfl⟩

/-- A digit that completes no octet waits. -/
theorem wait (h : Collected digits accum bits out) (hdigit : digit < 64) (hbits : bits + 6 < 8)
    (haccum : accum' % 2 ^ 13 = (accum * 64 + digit) % 2 ^ 13) :
    Collected (digits ++ [digit]) accum' (bits + 6) out := by
  obtain ⟨hcount, hfew, hvalue, hlow⟩ := h
  refine ⟨?_, hbits, ?_, ?_⟩
  · rw [List.length_append, List.length_singleton]
    omega
  · rw [hvalue, sextetValue_snoc, Nat.add_comm bits 6, pow_add, ← Nat.div_div_eq_div_mul]
    congr 1
    omega
  · rw [sextetValue_snoc]
    omega

/-- A digit that completes an octet gives it out. -/
theorem emit (h : Collected digits accum bits out) (hdigit : digit < 64) (hbits : 8 ≤ bits + 6)
    (haccum : accum' % 2 ^ 13 = (accum * 64 + digit) % 2 ^ 13) :
    Collected (digits ++ [digit]) accum' (bits + 6 - 8)
      (out ++ [UInt8.ofNat ((accum' >>> (bits + 6 - 8)) &&& 0xff)]) := by
  obtain ⟨hcount, hfew, hvalue, hlow⟩ := h
  have hoctet : bigEndian [UInt8.ofNat ((accum' >>> (bits + 6 - 8)) &&& 0xff)] =
      accum' / 2 ^ (bits + 6 - 8) % 256 := by
    have hlast : ∀ n, n &&& 0xff = n % 256 := fun n => Nat.and_two_pow_sub_one_eq_mod n 8
    rw [hlast, Nat.shiftRight_eq_div_pow]
    simp [bigEndian]
  refine ⟨?_, by omega, ?_, ?_⟩
  · rw [List.length_append, List.length_append, List.length_singleton, List.length_singleton]
    omega
  · rw [bigEndian_append, hoctet, hvalue, sextetValue_snoc, List.length_singleton, pow_one]
    -- The octet lies within the thirteen bits that the accumulator keeps.
    interval_cases bits <;> omega
  · rw [sextetValue_snoc]
    omega

/-- What is given out depends on the digits alone. -/
theorem unique (h : Collected digits accum bits out) (h' : Collected digits accum' bits' out') :
    out = out' := by
  have hcount := h.count
  have hcount' := h'.count
  have hfew := h.few
  have hfew' := h'.few
  obtain rfl : bits = bits' := by omega
  refine bigEndian_injective (by omega) ?_
  rw [h.value, h'.value]

/-- The octets are collected from their own digits. -/
theorem eq_octets (h : Collected (sextets octets) accum bits out) : out = octets := by
  have hcount := h.count
  have hfew := h.few
  have hfill : sextetFill octets < 8 := by
    unfold sextetFill
    omega
  rw [sextets_length] at hcount
  obtain rfl : bits = sextetFill octets := by omega
  refine bigEndian_injective (by omega) ?_
  rw [h.value, sextetValue_sextets, Nat.mul_div_cancel _ (Nat.two_pow_pos _)]

end Collected

/-! ## Text with characters put in -/

universe u v

/-- `text` with characters of `outside` put in anywhere. -/
inductive Inserted {α : Type u} (outside : α → Prop) : List α → List α → Prop where
  | nil : Inserted outside [] []
  | keep {text whole : List α} (c : α) (h : Inserted outside text whole) :
      Inserted outside (c :: text) (c :: whole)
  | insert {text whole : List α} (c : α) (hc : outside c) (h : Inserted outside text whole) :
      Inserted outside text (c :: whole)

theorem Inserted.filterMap_eq {α : Type u} {β : Type v} {outside : α → Prop} {text whole : List α}
    {f : α → Option β} (h : Inserted outside text whole) (hf : ∀ c, outside c → f c = none) :
    whole.filterMap f = text.filterMap f := by
  induction h with
  | nil => rfl
  | keep c _ ih => rw [List.filterMap_cons, List.filterMap_cons, ih]
  | insert c hc _ ih => rw [List.filterMap_cons_none (hf c hc), ih]

end Foundation
