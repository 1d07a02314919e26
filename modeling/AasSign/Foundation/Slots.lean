import Mathlib.Data.Nat.Find
import Mathlib.Logic.Function.Basic
import Mathlib.Tactic.Common

/-! # Tables of numbered slots

A finite table that gives out numbers for what is open, as a process does for its descriptors or
handles. `AddsTwo` is a table with two more slots than another one.
-/

namespace Foundation

universe u

variable {α : Type u}

/-- What is open, and a bound on the numbers in use. -/
structure Slots (α : Type u) where
  slot : Nat → Option α
  limit : Nat
  free : ∀ n, limit ≤ n → slot n = none

namespace Slots

variable (t : Slots α)

theorem exists_free (least : Nat) : ∃ n, least ≤ n ∧ t.slot n = none :=
  ⟨max least t.limit, Nat.le_max_left _ _, t.free _ (Nat.le_max_right _ _)⟩

/-- The lowest number from `least` on that is not in use. -/
def lowestFree (least : Nat) : Nat := Nat.find (t.exists_free least)

def put (n : Nat) (a : α) : Slots α where
  slot := Function.update t.slot n (some a)
  limit := max t.limit (n + 1)
  free m hm := by
    rw [Function.update_of_ne (by omega)]
    exact t.free m (by omega)

def close (n : Nat) : Slots α where
  slot := Function.update t.slot n none
  limit := t.limit
  free m hm := by
    rw [Function.update_apply, t.free m hm, ite_self]

/-- Something open is like this. -/
def any (p : α → Bool) : Bool := (List.range t.limit).any fun n => (t.slot n).any p

variable {t} {least n : Nat} {a : α} {p : α → Bool}

theorem lowestFree_free : t.slot (t.lowestFree least) = none := (Nat.find_spec (t.exists_free least)).2

theorem le_lowestFree : least ≤ t.lowestFree least := (Nat.find_spec (t.exists_free least)).1

theorem lt_limit (h : t.slot n = some a) : n < t.limit := by
  by_contra hge
  exact absurd (h.symm.trans (t.free n (Nat.not_lt.mp hge))) nofun

theorem any_eq_false : t.any p = false ↔ ∀ n a, t.slot n = some a → p a = false := by
  rw [any, List.any_eq_false]
  constructor
  · intro h n a hslot
    have hnone := h n (List.mem_range.mpr (lt_limit hslot))
    rw [hslot, Option.any_some, Bool.not_eq_true] at hnone
    exact hnone
  · intro h n _
    cases hslot : t.slot n with
    | none => simp
    | some a => simp [h n a hslot]

end Slots

/-! ## Two more slots -/

/-- The table of `s` with two more slots. -/
structure AddsTwo (s t : Slots α) (first second : Nat) (a b : α) : Prop where
  ne : first ≠ second
  freeFirst : s.slot first = none
  freeSecond : s.slot second = none
  slot : t.slot = Function.update (Function.update s.slot first (some a)) second (some b)

section AddsTwo

variable {s t : Slots α} {first second n : Nat} {a b : α}

theorem addsTwo_lowest : AddsTwo s ((s.put (s.lowestFree 0) a).put ((s.put (s.lowestFree 0) a).lowestFree 0) b)
    (s.lowestFree 0) ((s.put (s.lowestFree 0) a).lowestFree 0) a b := by
  have hsecond : (s.put (s.lowestFree 0) a).slot ((s.put (s.lowestFree 0) a).lowestFree 0) = none :=
    Slots.lowestFree_free
  generalize (s.put (s.lowestFree 0) a).lowestFree 0 = second at hsecond ⊢
  have hne : second ≠ s.lowestFree 0 := by
    rintro rfl
    exact absurd ((Function.update_self _ _ _).symm.trans hsecond) nofun
  exact ⟨hne.symm, Slots.lowestFree_free, (Function.update_of_ne hne _ _).symm.trans hsecond, rfl⟩

theorem AddsTwo.swap (h : AddsTwo s t first second a b) : AddsTwo s t second first b a :=
  ⟨h.ne.symm, h.freeSecond, h.freeFirst, h.slot.trans (Function.update_comm h.ne _ _ _)⟩

theorem AddsTwo.slot_first (h : AddsTwo s t first second a b) : t.slot first = some a := by
  rw [h.slot, Function.update_of_ne h.ne, Function.update_self]

theorem AddsTwo.slot_second (h : AddsTwo s t first second a b) : t.slot second = some b :=
  h.swap.slot_first

theorem AddsTwo.slot_ne (h : AddsTwo s t first second a b) (hfirst : n ≠ first) (hsecond : n ≠ second) :
    t.slot n = s.slot n := by
  rw [h.slot, Function.update_of_ne hsecond, Function.update_of_ne hfirst]

/-- A duplicate in the place of the first one. -/
theorem AddsTwo.duplicate (h : AddsTwo s t first second a b) {c : α} (hfree : t.slot n = none) :
    AddsTwo s ((t.put n c).close first) n second c b := by
  have hfirst : n ≠ first := by
    rintro rfl
    exact absurd (h.slot_first.symm.trans hfree) nofun
  have hsecond : n ≠ second := by
    rintro rfl
    exact absurd (h.slot_second.symm.trans hfree) nofun
  refine ⟨hsecond, (h.slot_ne hfirst hsecond).symm.trans hfree, h.freeSecond, ?_⟩
  funext m
  change Function.update (Function.update t.slot n (some c)) first none m = _
  rw [h.slot]
  simp only [Function.update_apply]
  have hne := h.ne
  have hfree := h.freeFirst
  split_ifs <;> simp_all

theorem AddsTwo.close_both (h : AddsTwo s t first second a b) :
    ([first, second].foldl Slots.close t).slot = s.slot := by
  funext m
  change Function.update (Function.update t.slot first none) second none m = _
  simp only [Function.update_apply]
  split_ifs with hsecond hfirst
  · rw [hsecond, h.freeSecond]
  · rw [hfirst, h.freeFirst]
  · exact h.slot_ne hfirst hsecond

theorem AddsTwo.close_second (h : AddsTwo s t first second a b) :
    (t.close second).slot = Function.update s.slot first (some a) := by
  funext m
  change Function.update t.slot second none m = _
  rw [h.slot]
  simp only [Function.update_apply]
  have hne := h.ne
  have hfree := h.freeSecond
  split_ifs <;> simp_all

end AddsTwo

end Foundation
