import Mathlib.Data.Nat.Digits.Lemmas
import Mathlib.Tactic.Common

/-! # Numbers in base 128

Numbers as octets of seven bits each, most significant first, with the high bit set
in all octets but the last. The form is minimal and self-delimiting, so a
concatenation of numbers has one reading.
-/

namespace Foundation

/-- `n` in base 128, the high bit set in all octets but the last. -/
def base128 (n : Nat) : List UInt8 :=
  (Nat.digits 128 (n / 128)).reverse.map (fun digit => UInt8.ofNat (digit + 128)) ++
    [UInt8.ofNat (n % 128)]

/-- The number of octets that `n` takes in base 128. -/
def base128Width (n : Nat) : Nat := max 1 (Nat.digits 128 n).length

/-- Read numbers in base 128. The octets before `octets` have begun the number `begun`; no
number begins with the octet 0x80. -/
def readBase128 (begun : Option Nat) (octets : List UInt8) : Option (List Nat) :=
  match octets with
  | [] => if begun = none then some [] else none
  | octet :: rest =>
      if octet.toNat < 128 then
        (readBase128 none rest).map ((begun.getD 0 * 128 + octet.toNat % 128) :: ·)
      else if begun = none ∧ octet = 0x80 then none
      else readBase128 (some (begun.getD 0 * 128 + octet.toNat % 128)) rest

section Single

variable {n digit : Nat}

theorem base128_length (n : Nat) : (base128 n).length = base128Width n := by
  rcases Nat.eq_zero_or_pos n with rfl | hpos
  · rfl
  · rw [base128Width, Nat.digits_def' (by decide) hpos]
    simp [base128]

theorem readBase128_continued (hdigit : digit < 128) (begun : Option Nat)
    (h : begun = none → digit ≠ 0) (rest : List UInt8) :
    readBase128 begun (UInt8.ofNat (digit + 128) :: rest) =
      readBase128 (some (begun.getD 0 * 128 + digit)) rest := by
  have hoctet : (UInt8.ofNat (digit + 128)).toNat = digit + 128 := by
    rw [UInt8.toNat_ofNat']
    omega
  have hstart : ¬(begun = none ∧ UInt8.ofNat (digit + 128) = 0x80) := by
    rintro ⟨hnone, hzero⟩
    have hvalue : digit + 128 = 128 := hoctet ▸ congrArg UInt8.toNat hzero
    exact h hnone (by omega)
  rw [readBase128, hoctet, if_neg (by omega), if_neg hstart, Nat.add_mod_right,
    Nat.mod_eq_of_lt hdigit]

theorem readBase128_last (hdigit : digit < 128) (begun : Option Nat) (rest : List UInt8) :
    readBase128 begun (UInt8.ofNat digit :: rest) =
      (readBase128 none rest).map ((begun.getD 0 * 128 + digit) :: ·) := by
  have hoctet : (UInt8.ofNat digit).toNat = digit := by
    rw [UInt8.toNat_ofNat']
    omega
  rw [readBase128, hoctet, if_pos hdigit, Nat.mod_eq_of_lt hdigit]

/-- After the continued octets of a number the number has begun. -/
theorem readBase128_digits (h : 0 < n) (rest : List UInt8) :
    readBase128 none ((Nat.digits 128 n).reverse.map (fun digit => UInt8.ofNat (digit + 128)) ++
      rest) = readBase128 (some n) rest := by
  induction n using Nat.strongRecOn generalizing rest with
  | ind n ih =>
      rw [Nat.digits_def' (by decide) h, List.reverse_cons, List.map_append, List.append_assoc]
      rcases Nat.eq_zero_or_pos (n / 128) with hlast | hmore
      · -- The first octet: the digit is the number itself, and it is not zero.
        have hlt : n < 128 := by omega
        rw [hlast, Nat.mod_eq_of_lt hlt]
        simpa using readBase128_continued hlt none (fun _ => by omega) rest
      · rw [ih (n / 128) (by omega) hmore]
        have hread := readBase128_continued (Nat.mod_lt n (by decide : 0 < 128)) (some (n / 128))
          (by simp) rest
        rw [Option.getD_some, Nat.div_add_mod'] at hread
        exact hread

theorem readBase128_base128 (n : Nat) (rest : List UInt8) :
    readBase128 none (base128 n ++ rest) = (readBase128 none rest).map (n :: ·) := by
  have hmod : n % 128 < 128 := Nat.mod_lt n (by decide)
  rw [base128, List.append_assoc, List.singleton_append]
  rcases Nat.eq_zero_or_pos (n / 128) with hzero | hpos
  · rw [hzero]
    simpa [Nat.mod_eq_of_lt (show n < 128 by omega)] using
      readBase128_last hmod none rest
  · rw [readBase128_digits hpos, readBase128_last hmod, Option.getD_some, Nat.div_add_mod']

end Single

/-! ## Concatenations -/

section Concatenations

variable {values : List Nat} {octets : List UInt8}

theorem readBase128_flatMap (values : List Nat) :
    readBase128 none (values.flatMap base128) = some values := by
  induction values with
  | nil => rfl
  | cons n rest ih => rw [List.flatMap_cons, readBase128_base128, ih, Option.map_some]

theorem flatMap_base128_injective {values' : List Nat}
    (h : values.flatMap base128 = values'.flatMap base128) : values = values' := by
  have hread := readBase128_flatMap values
  rw [h, readBase128_flatMap] at hread
  exact (Option.some.inj hread).symm

/-- Every number that is read ends in the one octet of it whose high bit is clear. -/
theorem countP_of_readBase128 {begun : Option Nat} (h : readBase128 begun octets = some values) :
    octets.countP (·.toNat < 128) = values.length := by
  fun_induction readBase128 begun octets generalizing values with
  | case1 =>
      obtain rfl := Option.some.inj h
      rfl
  | case2 => simp at h
  | case3 begun octet rest hlast ih =>
      obtain ⟨later, hlater, rfl⟩ := Option.map_eq_some_iff.mp h
      rw [List.countP_cons_of_pos (by simpa using hlast), ih hlater, List.length_cons]
  | case4 => simp at h
  | case5 begun octet rest hmore hstart ih =>
      rw [List.countP_cons_of_neg (by simpa using hmore), ih h]

theorem countP_flatMap_base128 (values : List Nat) :
    (values.flatMap base128).countP (·.toNat < 128) = values.length :=
  countP_of_readBase128 (readBase128_flatMap values)

end Concatenations

end Foundation
