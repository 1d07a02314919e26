import AasSign.Msi.Rewrite

/-! # Numbers in texts

Decimal texts are read back as the number they write, so that sizes survive the
trip through a table cell, and numbered staging paths are pairwise different.
-/

namespace AasSign

open Foundation

theorem toNat_ofNat_digit {c : Char} (h : c.isDigit) :
    (UInt8.ofNat c.toNat).toNat = c.toNat ∧ 48 ≤ c.toNat ∧ c.toNat ≤ 57 := by
  simp only [Char.isDigit, Bool.and_eq_true, decide_eq_true_eq] at h
  have hlow : 48 ≤ c.toNat := h.1
  have hhigh : c.toNat ≤ 57 := h.2
  refine ⟨?_, hlow, hhigh⟩
  rw [UInt8.toNat_ofNat']
  omega

theorem ascii_toString (n : Nat) :
    ascii (toString n) = (Nat.toDigits 10 n).map fun c => UInt8.ofNat c.toNat := by
  change (Nat.repr n).toList.map _ = _
  rw [Nat.toList_repr]

/-- A digit text is read as the number that its characters write. -/
theorem decimal_map_digits {cs : List Char} (h : ∀ c ∈ cs, c.isDigit) (value : Nat) :
    (cs.map fun c => UInt8.ofNat c.toNat).foldl
        (fun value d => value * 10 + (d.toNat - 48)) value = Nat.ofDigitChars 10 cs value := by
  induction cs generalizing value with
  | nil => simp
  | cons c cs ih =>
      rw [List.map_cons, List.foldl_cons, Nat.ofDigitChars_cons,
        ih fun d hd => h d (List.mem_cons_of_mem c hd),
        (toNat_ofNat_digit (h c List.mem_cons_self)).1, Nat.mul_comm value]
      rfl

@[simp] theorem decimal_ascii_toString (n : Nat) : decimal (ascii (toString n)) = n := by
  rw [ascii_toString, decimal, decimal_map_digits, Nat.ofDigitChars_ten_toDigits]
  exact fun c hc => Nat.isDigit_of_mem_toDigits (by decide) (by decide) hc

theorem ascii_toString_inj {n m : Nat} (h : ascii (toString n) = ascii (toString m)) : n = m := by
  rw [← decimal_ascii_toString n, h, decimal_ascii_toString]

theorem isDigit_of_mem_ascii_toString {n : Nat} {d : UInt8} (h : d ∈ ascii (toString n)) :
    isDigit d := by
  rw [ascii_toString, List.mem_map] at h
  obtain ⟨c, hc, rfl⟩ := h
  obtain ⟨hvalue, hlow, hhigh⟩ :=
    toNat_ofNat_digit (Nat.isDigit_of_mem_toDigits (by decide) (by decide) hc)
  rw [isDigit, UInt8.le_iff_toNat_le, UInt8.le_iff_toNat_le, hvalue]
  exact ⟨hlow, hhigh⟩

theorem ascii_toString_ne_nil (n : Nat) : ascii (toString n) ≠ [] := by
  rw [ascii_toString]
  simp

/-- A size that fits an `int32_t` is read back from its text. -/
theorem integer_ascii_toString {n : Nat} (h : n < 2 ^ 31) :
    integer (ascii (toString n)) = .ok (n : Int) := by
  have hhead : (ascii (toString n)).head? ≠ some 45 := by
    intro hminus
    have hdigit : isDigit 45 := isDigit_of_mem_ascii_toString (List.mem_of_mem_head? hminus)
    exact absurd hdigit (by decide)
  have hdigits : ¬ ∃ d ∈ ascii (toString n), ¬ isDigit d := by
    rintro ⟨d, hd, hnot⟩
    exact hnot (isDigit_of_mem_ascii_toString hd)
  have hrange : ¬ ((n : Int) < -2 ^ 31) ∧ ¬ (2 ^ 31 ≤ (n : Int)) := by omega
  simp only [integer, ascii_toString_ne_nil, hhead, hdigits, decimal_ascii_toString, if_false,
    false_or, hrange.1, hrange.2]

/-! ## Staging paths -/

theorem payloadPath_inj {workspace n m : Nat} (h : payloadPath workspace n = payloadPath workspace m) :
    n = m := by
  simp only [payloadPath, Path.temp.injEq, true_and, List.append_cancel_left_eq] at h
  exact ascii_toString_inj h

section Numbered

variable {α : Type} {l : List α} {path : α → Path} {workspace count : Nat}

/-- Payload files that are numbered from `count` on have one of these numbers. -/
theorem number_of_mem {file : Path}
    (h : l.map path = (List.range l.length).map fun i => payloadPath workspace (count + i))
    (hfile : file ∈ l.map path) :
    ∃ n, count ≤ n ∧ n < count + l.length ∧ file = payloadPath workspace n := by
  rw [h, List.mem_map] at hfile
  obtain ⟨i, hi, rfl⟩ := hfile
  have hi := List.mem_range.mp hi
  exact ⟨count + i, Nat.le_add_right _ _, by omega, rfl⟩

theorem nodup_of_numbers
    (h : l.map path = (List.range l.length).map fun i => payloadPath workspace (count + i)) :
    (l.map path).Nodup := by
  rw [h]
  refine List.nodup_range.map fun i j hij => ?_
  exact Nat.add_left_cancel (payloadPath_inj hij)

end Numbered

/-- The staging files of cabinets and of payloads start with different letters. -/
theorem cabinetPath_append_ne_payloadPath {workspace n m : Nat} {suffix : Bytes} :
    (cabinetPath workspace n).append suffix ≠ payloadPath workspace m := by
  intro h
  have hcabinet : (ascii "cab-").head? = some 99 := by decide
  have hpayload : (ascii "payload-").head? = some 112 := by decide
  simp only [cabinetPath, payloadPath, Path.append, Path.temp.injEq, true_and] at h
  have hhead := congrArg List.head? h
  simp only [List.append_assoc, List.head?_append, hcabinet, hpayload, Option.some_or] at hhead
  cases hhead

theorem cabinetPath_ne_payloadPath {workspace n m : Nat} :
    cabinetPath workspace n ≠ payloadPath workspace m := by
  have h : (cabinetPath workspace n).append [] ≠ payloadPath workspace m :=
    cabinetPath_append_ne_payloadPath
  rwa [show (cabinetPath workspace n).append [] = cabinetPath workspace n by
    simp [Path.append, cabinetPath]] at h

theorem payloadPath_in (workspace n : Nat) : (payloadPath workspace n).In workspace := rfl

theorem cabinetPath_in (workspace n : Nat) : (cabinetPath workspace n).In workspace := rfl

end AasSign
