import Mathlib.Data.List.Basic
import Mathlib.Tactic.Common

/-! # Lists of entries

Entries with a terminator after each and an empty one at the end, and lists that
differ in entries of one kind only.
-/

namespace Foundation

universe u

variable {α : Type u}

/-- Every entry with the mark behind it. -/
def terminated (mark : α) (entries : List (List α)) : List α := entries.flatMap (· ++ [mark])

theorem terminated_cons (mark : α) (entry : List α) (rest : List (List α)) :
    terminated mark (entry :: rest) = entry ++ mark :: terminated mark rest := by
  simp [terminated]

section Reading

variable [DecidableEq α] {mark : α}

/-- The entries up to the first empty one. -/
def readTerminated (mark : α) (block : List α) : List (List α) :=
  (block.splitOn mark).takeWhile (· ≠ [])

theorem readTerminated_end (rest : List α) : readTerminated mark (mark :: rest) = [] := by
  have hsplit := List.splitOn_append_cons_self [] rest (a := mark)
  rw [List.nil_append, List.splitOn_nil] at hsplit
  rw [readTerminated, hsplit]
  rfl

theorem readTerminated_entry {entry : List α} (hne : entry ≠ []) (hmark : mark ∉ entry)
    (rest : List α) :
    readTerminated mark (entry ++ mark :: rest) = entry :: readTerminated mark rest := by
  rw [readTerminated, List.splitOn_append_cons_self, List.splitOn_eq_singleton hmark,
    List.singleton_append, List.takeWhile_cons_of_pos (by simpa using hne)]
  rfl

/-- Entries that are not empty and hold no mark are read back. -/
theorem readTerminated_terminated {entries : List (List α)}
    (h : ∀ entry ∈ entries, entry ≠ [] ∧ mark ∉ entry) (rest : List α) :
    readTerminated mark (terminated mark entries ++ mark :: rest) = entries := by
  induction entries with
  | nil => exact readTerminated_end rest
  | cons entry entries ih =>
      obtain ⟨⟨hne, hmark⟩, hrest⟩ := List.forall_mem_cons.mp h
      rw [terminated_cons, List.append_assoc, List.cons_append, readTerminated_entry hne hmark,
        ih hrest]

end Reading

/-! ## Lists that differ in entries of one kind -/

/-- Entries of the kind stand in one list or in the other, and all other entries in both. -/
inductive DifferIn (kind : α → Prop) : List α → List α → Prop where
  | nil : DifferIn kind [] []
  | both {first second : List α} (a : α) (h : DifferIn kind first second) :
      DifferIn kind (a :: first) (a :: second)
  | left {first second : List α} (a : α) (ha : kind a) (h : DifferIn kind first second) :
      DifferIn kind (a :: first) second
  | right {first second : List α} (a : α) (ha : kind a) (h : DifferIn kind first second) :
      DifferIn kind first (a :: second)

theorem DifferIn.filter_eq {kind : α → Prop} [DecidablePred kind] {first second : List α}
    (h : DifferIn kind first second) :
    (first.filter fun a => ¬kind a) = second.filter fun a => ¬kind a := by
  induction h with
  | nil => rfl
  | both a _ ih => rw [List.filter_cons, List.filter_cons, ih]
  | left a ha _ ih => rw [List.filter_cons_of_neg (by simpa using ha), ih]
  | right a ha _ ih => rw [List.filter_cons_of_neg (by simpa using ha), ih]

end Foundation
