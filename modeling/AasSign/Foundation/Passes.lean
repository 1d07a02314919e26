import Mathlib.Data.Finset.Card
import AasSign.Foundation.Outcome

/-! # The passes of a loop

A loop without a counter: the states it is in after each number of passes, and
whether it ends. A loop that is steered by one number below a bound ends if every
pass raises it, and does not end if it meets a number again.
-/

namespace Foundation

universe u v

variable {ε : Type u} {σ α : Type v}

/-- The loop that starts at `start` is at `s` after `n` passes. -/
inductive Passes (body : σ → Except ε (Pass σ α)) (start : σ) : Nat → σ → Prop where
  | zero : Passes body start 0 start
  | succ {n : Nat} {s next : σ} (before : Passes body start n s)
      (h : body s = .ok (.again next)) : Passes body start (n + 1) next

/-- After some number of passes the body leaves or throws. -/
def Halts (body : σ → Except ε (Pass σ α)) (start : σ) : Prop :=
  ∃ n s, Passes body start n s ∧ ∀ next, body s ≠ .ok (.again next)

/-- The key alone decides whether there is another pass and what the key is then, and passes
stop at the bound. -/
structure Steered (body : σ → Except ε (Pass σ α)) (key : σ → Nat) (bound : Nat) : Prop where
  again : ∀ s t next, body s = .ok (.again next) → key s = key t →
    ∃ next', body t = .ok (.again next') ∧ key next' = key next
  below : ∀ s next, body s = .ok (.again next) → key s < bound

section Passes

variable {body : σ → Except ε (Pass σ α)} {start s t u next : σ} {m n : Nat} {stuck : ε}

theorem Passes.unique (h : Passes body start n s) (h' : Passes body start n t) : s = t := by
  induction h generalizing t with
  | zero =>
      cases h' with
      | zero => rfl
  | succ _ hagain ih =>
      cases h' with
      | succ before' hagain' =>
          obtain rfl := ih before'
          rw [hagain] at hagain'
          injection hagain' with hpass
          injection hpass

theorem Passes.trans (h : Passes body start m s) (h' : Passes body s n t) :
    Passes body start (m + n) t := by
  induction h' with
  | zero => exact h
  | succ _ hagain ih => exact ih.succ hagain

/-- A loop that is past its `m`-th pass was there with another pass to go. -/
theorem Passes.before (h : Passes body start n t) (hm : m < n) :
    ∃ s next, Passes body start m s ∧ body s = .ok (.again next) := by
  induction h with
  | zero => omega
  | @succ n s next before hagain ih =>
      rcases Nat.lt_or_ge m n with hless | hge
      · exact ih hless
      · obtain rfl : m = n := by omega
        exact ⟨s, next, before, hagain⟩

/-- What is left of a run after its first passes. -/
theorem Passes.rest (h : Passes body start (m + n) t) (h' : Passes body start m s) :
    Passes body s n t := by
  induction n generalizing t with
  | zero =>
      obtain rfl := Passes.unique h h'
      exact .zero
  | succ n ih =>
      cases h with
      | succ before hagain => exact (ih before).succ hagain

/-- A pass that leads back to where it began is repeated forever. -/
theorem not_halts_of_cycle (h : body start = .ok (.again start)) : ¬ Halts body start := by
  rintro ⟨n, s, hpasses, hstop⟩
  have hstays : s = start := by
    clear hstop
    induction hpasses with
    | zero => rfl
    | succ _ hagain ih =>
        rw [ih, h] at hagain
        injection hagain with hpass
        injection hpass with hnext
        exact hnext.symm
  exact hstop start (hstays ▸ h)

/-- The counted loop gives up exactly if there are that many passes. -/
theorem loop_eq_stuck (hbody : ∀ s, body s ≠ .error stuck) :
    loop body stuck n start = .error stuck ↔ ∃ s, Passes body start n s := by
  induction n generalizing start with
  | zero => exact ⟨fun _ => ⟨start, .zero⟩, fun _ => rfl⟩
  | succ n ih =>
      cases hstep : body start with
      | error e =>
          have hne : e ≠ stuck := fun h => hbody start (h ▸ hstep)
          refine iff_of_false (by simpa [loop, hstep] using hne) ?_
          rintro ⟨s, hpasses⟩
          obtain ⟨s', next, hzero, hagain⟩ := hpasses.before (Nat.succ_pos n)
          obtain rfl := Passes.unique hzero .zero
          simp [hstep] at hagain
      | ok pass =>
          cases pass with
          | leave result =>
              refine iff_of_false (by simp [loop_leave hstep]) ?_
              rintro ⟨s, hpasses⟩
              obtain ⟨s', next, hzero, hagain⟩ := hpasses.before (Nat.succ_pos n)
              obtain rfl := Passes.unique hzero .zero
              simp [hstep] at hagain
          | again next =>
              have hone : Passes body start 1 next := Passes.zero.succ hstep
              rw [loop_again hstep, ih]
              constructor
              · rintro ⟨s, hpasses⟩
                exact ⟨s, Nat.add_comm n 1 ▸ hone.trans hpasses⟩
              · rintro ⟨s, hpasses⟩
                exact ⟨s, (Nat.add_comm n 1 ▸ hpasses).rest hone⟩

end Passes

namespace Steered

variable {body : σ → Except ε (Pass σ α)} {key : σ → Nat} {bound : Nat} {start s t u : σ}
  {m n : Nat} {stuck : ε}

/-- States with one key have the same keys after them. -/
theorem follow (hsteer : Steered body key bound) (hkey : key s = key t) (h : Passes body s n u) :
    ∃ v, Passes body t n v ∧ key u = key v := by
  induction h with
  | zero => exact ⟨t, .zero, hkey⟩
  | succ _ hagain ih =>
      obtain ⟨v, hv, hsame⟩ := ih
      obtain ⟨next', hagain', hnext⟩ := hsteer.again _ _ _ hagain hsame
      exact ⟨next', hv.succ hagain', hnext.symm⟩

/-- A loop that meets a key again does not end. -/
theorem not_halts (hsteer : Steered body key bound) (hs : Passes body start m s)
    (ht : Passes body start n t) (hless : m < n) (hkey : key s = key t) : ¬ Halts body start := by
  rintro ⟨last, v, hlast, hstop⟩
  have hn : n ≤ last := by
    by_contra hpast
    obtain ⟨v', next, hv', hagain⟩ := ht.before (Nat.lt_of_not_le hpast)
    obtain rfl := Passes.unique hlast hv'
    exact hstop next hagain
  obtain ⟨k, rfl⟩ := Nat.exists_eq_add_of_le hn
  -- The end is `k` passes after `t`, and so is a state `k` passes after `s`, which is earlier.
  obtain ⟨w, hw, hsame⟩ := hsteer.follow hkey.symm (hlast.rest ht)
  obtain ⟨w', next, hw', hagain⟩ := hlast.before (show m + k < n + k by omega)
  obtain rfl := Passes.unique (hs.trans hw) hw'
  obtain ⟨next', hagain', -⟩ := hsteer.again _ _ _ hagain hsame.symm
  exact hstop next' hagain'

theorem halts_of_progress (hsteer : Steered body key bound)
    (hless : ∀ n s next, Passes body start n s → body s = .ok (.again next) → key s < key next) :
    Halts body start := by
  suffices h : ∀ room n s, bound - key s ≤ room → Passes body start n s → Halts body start from
    h _ 0 start (Nat.le_refl _) .zero
  intro room
  induction room with
  | zero =>
      intro n s hroom hs
      refine ⟨n, s, hs, fun next hagain => ?_⟩
      have := hsteer.below s next hagain
      omega
  | succ room ih =>
      intro n s hroom hs
      by_cases hagain : ∃ next, body s = .ok (.again next)
      · obtain ⟨next, hagain⟩ := hagain
        have := hless n s next hs hagain
        have := hsteer.below s next hagain
        exact ih (n + 1) next (by omega) (hs.succ hagain)
      · exact ⟨n, s, hs, not_exists.mp hagain⟩

/-- A loop with one pass more than there are keys below the bound gives up only if it does not
end. -/
theorem loop_eq_stuck_iff (hsteer : Steered body key bound) (hbody : ∀ s, body s ≠ .error stuck) :
    loop body stuck (bound + 1) start = .error stuck ↔ ¬ Halts body start := by
  rw [loop_eq_stuck hbody]
  constructor
  · rintro ⟨last, hlast⟩
    have : Nonempty σ := ⟨start⟩
    choose! state next hstate hagain using fun m (hm : m < bound + 1) => hlast.before hm
    have hmaps : ∀ m ∈ Finset.range (bound + 1), key (state m) ∈ Finset.range bound := by
      intro m hm
      exact Finset.mem_range.mpr (hsteer.below _ _ (hagain m (Finset.mem_range.mp hm)))
    obtain ⟨m, hm, n, hn, hne, hkey⟩ :=
      Finset.exists_ne_map_eq_of_card_lt_of_maps_to (by simp) hmaps
    rw [Finset.mem_range] at hm hn
    rcases Nat.lt_or_gt_of_ne hne with hless | hless
    · exact hsteer.not_halts (hstate m hm) (hstate n hn) hless hkey
    · exact hsteer.not_halts (hstate n hn) (hstate m hm) hless hkey.symm
  · intro hendless
    suffices h : ∀ n, ∃ s, Passes body start n s from h (bound + 1)
    intro n
    induction n with
    | zero => exact ⟨start, .zero⟩
    | succ n ih =>
        obtain ⟨s, hs⟩ := ih
        by_contra hnone
        exact hendless ⟨n, s, hs, fun next hagain => hnone ⟨next, hs.succ hagain⟩⟩

end Steered

end Foundation
