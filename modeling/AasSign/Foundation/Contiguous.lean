import Mathlib.Tactic.Common
import Mathlib.Data.List.Basic

/-! # Elements that stand together

The elements of a list with a property stand together when nothing else is
between two of them. A list that grows keeps them together as long as it grows
by others, or by more of them where they are the last.
-/

namespace Foundation

variable {α : Type} {p : α → Prop} {l l' : List α}

/-- Between two elements with the property, all have it. -/
def Contiguous (p : α → Prop) (l : List α) : Prop :=
  ∀ a b c, [a, b, c].Sublist l → p a → p c → p b

/-- The elements with the property are the last ones. -/
def EndsIn (p : α → Prop) (l : List α) : Prop :=
  ∃ front back, l = front ++ back ∧ (∀ a ∈ front, ¬ p a) ∧ ∀ a ∈ back, p a

theorem endsIn_of_none (h : ∀ a ∈ l, ¬ p a) : EndsIn p l :=
  ⟨l, [], (List.append_nil l).symm, h, by simp⟩

theorem EndsIn.append (h : EndsIn p l) (hmore : ∀ a ∈ l', p a) : EndsIn p (l ++ l') := by
  obtain ⟨front, back, rfl, hfront, hback⟩ := h
  refine ⟨front, back ++ l', List.append_assoc .., hfront, fun a ha => ?_⟩
  exact (List.mem_append.mp ha).elim (hback a) (hmore a)

theorem EndsIn.contiguous (h : EndsIn p l) : Contiguous p l := by
  obtain ⟨front, back, rfl, hfront, hback⟩ := h
  intro a b c hsub ha _
  obtain ⟨left, right, heq, hleft, hright⟩ := List.sublist_append_iff.mp hsub
  cases left with
  | nil =>
      rw [List.nil_append] at heq
      exact hback b (hright.subset (by simp [← heq]))
  | cons x left =>
      rw [List.cons_append, List.cons.injEq] at heq
      exact absurd ha (hfront a (hleft.subset (by simp [heq.1])))

theorem contiguous_append (h : Contiguous p l) (hmore : ∀ a ∈ l', ¬ p a) :
    Contiguous p (l ++ l') := by
  intro a b c hsub ha hc
  obtain ⟨left, right, heq, hleft, hright⟩ := List.sublist_append_iff.mp hsub
  by_cases hright' : right = []
  · rw [hright', List.append_nil] at heq
    exact h a b c (heq ▸ hleft) ha hc
  · have hlast : right.getLast hright' = c := by
      have hlasts := congrArg List.getLast? heq
      rw [List.getLast?_append_of_ne_nil _ hright', List.getLast?_eq_some_getLast hright'] at hlasts
      simpa using hlasts.symm
    exact absurd hc (hmore c (hright.subset (hlast ▸ List.getLast_mem hright')))

end Foundation
