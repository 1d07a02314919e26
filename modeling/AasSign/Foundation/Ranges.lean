import Mathlib.Data.List.Sort
import Mathlib.Order.Defs.LinearOrder

/-! # Ranges that do not overlap

Half-open ranges as pairs. Sorting the ranges and comparing each start with the
end before it finds out whether any two of them overlap.
-/

namespace Foundation

universe u

variable {α : Type u} [LinearOrder α]

/-- One of the ranges ends where the other starts, or before. -/
def Apart (a b : α × α) : Prop := a.2 ≤ b.1 ∨ b.2 ≤ a.1

theorem Apart.symm {a b : α × α} (h : Apart a b) : Apart b a := Or.symm h

/-- Each range starts at the end of the one before, or later. -/
def Behind : α → List (α × α) → Prop
  | _, [] => True
  | start, range :: rest => start ≤ range.1 ∧ Behind range.2 rest

section Ranges

variable {start : α} {ranges : List (α × α)}

theorem Behind.le (h : Behind start ranges) (hranges : ∀ range ∈ ranges, range.1 ≤ range.2) :
    ∀ range ∈ ranges, start ≤ range.1 := by
  induction ranges generalizing start with
  | nil => simp
  | cons first rest ih =>
      obtain ⟨hstart, hrest⟩ := h
      have hfirst := hranges first List.mem_cons_self
      have hlater := ih hrest fun range hrange => hranges range (List.mem_cons_of_mem _ hrange)
      simp only [List.mem_cons]
      rintro range (rfl | hrange)
      · exact hstart
      · exact hstart.trans (hfirst.trans (hlater range hrange))

theorem Behind.pairwise (h : Behind start ranges) (hranges : ∀ range ∈ ranges, range.1 ≤ range.2) :
    ranges.Pairwise Apart := by
  induction ranges generalizing start with
  | nil => exact .nil
  | cons first rest ih =>
      have hrest : ∀ range ∈ rest, range.1 ≤ range.2 := fun range hrange =>
        hranges range (List.mem_cons_of_mem _ hrange)
      exact List.pairwise_cons.mpr
        ⟨fun range hrange => .inl (h.2.le hrest range hrange), ih h.2 hrest⟩

/-- In sorted order, ranges that are apart are behind each other. -/
theorem behind_of_pairwise
    (hsorted : ranges.Pairwise fun a b => a.1 < b.1 ∨ a.1 = b.1 ∧ a.2 ≤ b.2)
    (hranges : ∀ range ∈ ranges, range.1 ≤ range.2) (hstart : ∀ range ∈ ranges, start ≤ range.1)
    (hapart : ranges.Pairwise Apart) : Behind start ranges := by
  induction ranges generalizing start with
  | nil => trivial
  | cons first rest ih =>
      obtain ⟨horder, hsorted⟩ := List.pairwise_cons.mp hsorted
      obtain ⟨hfirst, hapart⟩ := List.pairwise_cons.mp hapart
      refine ⟨hstart first List.mem_cons_self, ih hsorted (fun range hrange =>
        hranges range (List.mem_cons_of_mem _ hrange)) (fun range hrange => ?_) hapart⟩
      have hrange' := hranges range (List.mem_cons_of_mem _ hrange)
      rcases hfirst range hrange with hbefore | hafter
      · exact hbefore
      · -- The other way round both are empty and start together.
        rcases horder range hrange with hlt | ⟨heq, hle⟩
        · exact absurd (hrange'.trans hafter) (not_le.mpr hlt)
        · exact hle.trans (hafter.trans heq.le)

/-- The scan over the sorted ranges decides whether they are apart. -/
theorem behind_perm_iff {sorted : List (α × α)} (hperm : sorted.Perm ranges)
    (hsorted : sorted.Pairwise fun a b => a.1 < b.1 ∨ a.1 = b.1 ∧ a.2 ≤ b.2)
    (hranges : ∀ range ∈ ranges, range.1 ≤ range.2) :
    Behind start sorted ↔ (∀ range ∈ ranges, start ≤ range.1) ∧ ranges.Pairwise Apart := by
  have hranges' : ∀ range ∈ sorted, range.1 ≤ range.2 := fun range hrange =>
    hranges range (hperm.mem_iff.mp hrange)
  constructor
  · intro h
    exact ⟨fun range hrange => h.le hranges' range (hperm.mem_iff.mpr hrange),
      (hperm.pairwise_iff Apart.symm).mp (h.pairwise hranges')⟩
  · rintro ⟨hstart, hapart⟩
    exact behind_of_pairwise hsorted hranges'
      (fun range hrange => hstart range (hperm.mem_iff.mp hrange))
      ((hperm.pairwise_iff Apart.symm).mpr hapart)

end Ranges

end Foundation
