import Mathlib.Data.List.Basic
import Mathlib.Tactic.Common
import Mathlib.Tactic.Ring

/-! # Octet strings

Occurrences of one octet string inside another, and big-endian numbers.
-/

namespace Foundation

universe u

variable {α : Type u}

/-- `part` is the run of `whole` that starts at offset `start`. -/
def OccursAt (part whole : List α) (start : Nat) : Prop :=
  ∃ before after, whole = before ++ (part ++ after) ∧ before.length = start

namespace OccursAt

theorem self (whole : List α) : OccursAt whole whole 0 :=
  ⟨[], [], by simp, rfl⟩

theorem nil {whole : List α} {start : Nat} (h : start ≤ whole.length) :
    OccursAt [] whole start :=
  ⟨whole.take start, whole.drop start, by simp, by simp [h]⟩

theorem bound {part whole : List α} {start : Nat} (h : OccursAt part whole start) :
    start + part.length ≤ whole.length := by
  obtain ⟨before, after, rfl, rfl⟩ := h
  simp only [List.length_append]
  omega

theorem eq_take_drop {part whole : List α} {start : Nat} (h : OccursAt part whole start) :
    part = (whole.drop start).take part.length := by
  obtain ⟨before, after, rfl, rfl⟩ := h
  simp

theorem of_bound {whole : List α} {start len : Nat} (h : start + len ≤ whole.length) :
    OccursAt ((whole.drop start).take len) whole start := by
  refine ⟨whole.take start, whole.drop (start + len), ?_, ?_⟩
  · rw [← List.drop_drop, List.take_append_drop, List.take_append_drop]
  · rw [List.length_take]
    omega

theorem unique {first second whole : List α} {start : Nat} (hfirst : OccursAt first whole start)
    (hsecond : OccursAt second whole start) (hlength : first.length = second.length) :
    first = second := by
  rw [hfirst.eq_take_drop, hlength]
  exact hsecond.eq_take_drop.symm

theorem left {first second whole : List α} {start : Nat}
    (h : OccursAt (first ++ second) whole start) : OccursAt first whole start := by
  obtain ⟨before, after, rfl, rfl⟩ := h
  exact ⟨before, second ++ after, by simp, rfl⟩

theorem right {first second whole : List α} {start : Nat}
    (h : OccursAt (first ++ second) whole start) :
    OccursAt second whole (start + first.length) := by
  obtain ⟨before, after, rfl, rfl⟩ := h
  exact ⟨before ++ first, after, by simp, by simp⟩

theorem trans {inner part whole : List α} {offset start : Nat} (hinner : OccursAt inner part offset)
    (hpart : OccursAt part whole start) : OccursAt inner whole (start + offset) := by
  obtain ⟨before, after, rfl, rfl⟩ := hinner
  obtain ⟨front, back, rfl, rfl⟩ := hpart
  exact ⟨front ++ before, after ++ back, by simp, by simp⟩

theorem getElem? {part whole : List α} {start i : Nat} (h : OccursAt part whole start)
    (hi : i < part.length) : whole[start + i]? = part[i]? := by
  obtain ⟨before, after, rfl, rfl⟩ := h
  rw [List.getElem?_append_right (by omega), Nat.add_sub_cancel_left,
    List.getElem?_append_left hi]

theorem congr {part whole whole' : List α} {start : Nat} (h : OccursAt part whole start)
    (hsame : ∀ i < part.length, whole'[start + i]? = whole[start + i]?)
    (hbound : start + part.length ≤ whole'.length) : OccursAt part whole' start := by
  have hpart : part = (whole'.drop start).take part.length := by
    apply List.ext_getElem?
    intro i
    by_cases hi : i < part.length
    · rw [List.getElem?_take_of_lt hi, List.getElem?_drop, hsame i hi, h.getElem? hi]
    · rw [List.getElem?_eq_none (Nat.le_of_not_lt hi), List.getElem?_eq_none]
      rw [List.length_take]
      omega
  rw [hpart]
  exact of_bound hbound

/-- Two runs next to each other are one run. -/
theorem append {first second whole : List α} {start : Nat} (hfirst : OccursAt first whole start)
    (hsecond : OccursAt second whole (start + first.length)) :
    OccursAt (first ++ second) whole start := by
  have hbound := hsecond.bound
  have hwhole : OccursAt ((whole.drop start).take (first.length + second.length)) whole start :=
    of_bound (by omega)
  rw [List.take_add, List.drop_drop] at hwhole
  rwa [← hfirst.eq_take_drop, ← hsecond.eq_take_drop] at hwhole

end OccursAt

/-! ## Big-endian numbers -/

/-- The number that `digits` write in base 256, most significant digit first. -/
def bigEndian (digits : List UInt8) : Nat :=
  digits.foldl (fun value digit => value * 256 + digit.toNat) 0

theorem foldl_bigEndian (digits : List UInt8) (value : Nat) :
    digits.foldl (fun value digit => value * 256 + digit.toNat) value =
      value * 256 ^ digits.length + bigEndian digits := by
  induction digits generalizing value with
  | nil => simp [bigEndian]
  | cons digit rest ih =>
      simp only [bigEndian, List.foldl_cons, List.length_cons]
      rw [ih, ih (0 * 256 + digit.toNat)]
      ring

@[simp] theorem bigEndian_nil : bigEndian [] = 0 := rfl

theorem bigEndian_cons (digit : UInt8) (rest : List UInt8) :
    bigEndian (digit :: rest) = digit.toNat * 256 ^ rest.length + bigEndian rest := by
  simpa [bigEndian] using foldl_bigEndian rest (0 * 256 + digit.toNat)

theorem bigEndian_append (first second : List UInt8) :
    bigEndian (first ++ second) = bigEndian first * 256 ^ second.length + bigEndian second := by
  rw [bigEndian, List.foldl_append, foldl_bigEndian]
  rfl

theorem bigEndian_lt (digits : List UInt8) : bigEndian digits < 256 ^ digits.length := by
  induction digits with
  | nil => simp
  | cons digit rest ih =>
      have hdigit : digit.toNat + 1 ≤ 256 := digit.toNat_lt
      rw [bigEndian_cons, List.length_cons]
      calc digit.toNat * 256 ^ rest.length + bigEndian rest
          < digit.toNat * 256 ^ rest.length + 256 ^ rest.length := by omega
        _ = (digit.toNat + 1) * 256 ^ rest.length := by ring
        _ ≤ 256 * 256 ^ rest.length := Nat.mul_le_mul_right _ hdigit
        _ = 256 ^ (rest.length + 1) := by ring

/-- Shifting in one octet with bit operations is one step in base 256. -/
theorem shiftLeft_or_octet (value : Nat) (digit : UInt8) :
    (value <<< 8) ||| digit.toNat = value * 256 + digit.toNat := by
  have hdigit : digit.toNat < 2 ^ 8 := digit.toNat_lt
  rw [← Nat.shiftLeft_add_eq_or_of_lt hdigit, Nat.shiftLeft_eq]

end Foundation
