import AasSign.Foundation.Program

/-! # Trying again

A program is run again after an exception that may pass, a limited number of times. What
the whole does is what its last attempt does, in the state that the failed ones have left.
-/

namespace Foundation

namespace Program

variable {σ ε α : Type}

/-- Handle the exceptions of a program; the state it has reached stays. -/
def onError (m : Program σ ε α) (handler : ε → Program σ ε α) : Program σ ε α := fun s =>
  match m s with
  | (.ok a, s') => (.ok a, s')
  | (.error e, s') => handler e s'

/-- Run a program, and up to `left` more times after exceptions that may pass. -/
def retrying (op : Program σ ε α) (passing : ε → Prop) [DecidablePred passing]
    (between : Nat → ε → σ → σ) : Nat → Nat → Program σ ε α
  | 0, _ => op
  | left + 1, attempt => op.onError fun e =>
      if passing e then do
        change (between attempt e)
        retrying op passing between left (attempt + 1)
      else raise e

end Program

open Program

/-- The attempts numbered from `attempt` on, `k` of them, have failed in a way that may pass. -/
inductive Tried {σ ε α : Type} (op : Program σ ε α) (passing : ε → Prop)
    (between : Nat → ε → σ → σ) : Nat → Nat → σ → σ → Prop where
  | none (attempt : Nat) (s : σ) : Tried op passing between attempt 0 s s
  | more {attempt k : Nat} {s s' t : σ} {e : ε} (hfail : op s = (.error e, s')) (hpassing : passing e)
      (h : Tried op passing between (attempt + 1) k (between attempt e s') t) :
      Tried op passing between attempt (k + 1) s t

section Retrying

variable {σ ε α : Type} {op : Program σ ε α} {passing : ε → Prop} [DecidablePred passing]
  {between : Nat → ε → σ → σ} {left attempt k : Nat} {s t : σ}

/-- An exception that may pass is raised only after the last attempt. -/
def RetrySettled (op : Program σ ε α) (passing : ε → Prop) (t : σ) : Prop :=
  ∀ e, (op t).1 = .error e → ¬ passing e

theorem retrying_of_settled (h : RetrySettled op passing s) :
    retrying op passing between left attempt s = op s := by
  cases left with
  | zero => rfl
  | succ left =>
      rw [retrying, onError]
      rcases hop : op s with ⟨outcome, s'⟩
      cases outcome with
      | ok a => rfl
      | error e =>
          have hnot : ¬ passing e := h e (by rw [hop])
          simp only [if_neg hnot]
          rfl

theorem retrying_of_fail {e : ε} {s' : σ} (hfail : op s = (.error e, s')) (hpassing : passing e) :
    retrying op passing between (left + 1) attempt s =
      retrying op passing between left (attempt + 1) (between attempt e s') := by
  simp only [retrying, onError, hfail, if_pos hpassing]
  rfl

/-- The attempts that failed can be taken off the front. -/
theorem Tried.retrying (h : Tried op passing between attempt k s t) (left : Nat) :
    Program.retrying op passing between (k + left) attempt s =
      Program.retrying op passing between left (attempt + k) t := by
  induction h with
  | none attempt s => rw [Nat.zero_add, Nat.add_zero]
  | @more attempt k s s' t e hfail hpassing _ ih =>
      rw [Nat.add_right_comm, retrying_of_fail hfail hpassing, ih, Nat.add_right_comm, Nat.add_assoc]

/-- What the whole does is what one attempt does: the first that does not fail in a way that
may pass, or the last one. -/
theorem exists_tried (op : Program σ ε α) (passing : ε → Prop) [DecidablePred passing]
    (between : Nat → ε → σ → σ) (left attempt : Nat) (s : σ) :
    ∃ k t, k ≤ left ∧ Tried op passing between attempt k s t ∧
      retrying op passing between left attempt s = op t ∧ (RetrySettled op passing t ∨ k = left) := by
  induction left generalizing attempt s with
  | zero => exact ⟨0, s, Nat.le_refl 0, .none attempt s, rfl, .inr rfl⟩
  | succ left ih =>
      by_cases hsettled : RetrySettled op passing s
      · exact ⟨0, s, Nat.zero_le _, .none attempt s, retrying_of_settled hsettled, .inl hsettled⟩
      · obtain ⟨e, hfail, hpassing⟩ : ∃ e, (op s).1 = .error e ∧ passing e := by
          simpa [RetrySettled] using hsettled
        have hrun : op s = (.error e, (op s).2) := Prod.ext hfail rfl
        obtain ⟨k, t, hk, htried, heq, hlast⟩ := ih (attempt + 1) (between attempt e (op s).2)
        refine ⟨k + 1, t, Nat.succ_le_succ hk, .more hrun hpassing htried, ?_, ?_⟩
        · rw [retrying_of_fail hrun hpassing, heq]
        · exact hlast.imp_right (congrArg Nat.succ)

/-- An attempt after failed ones, which does not fail in a way that may pass, decides. -/
theorem Tried.decides (h : Tried op passing between attempt k s t) (hk : k ≤ left)
    (hsettled : RetrySettled op passing t) : Program.retrying op passing between left attempt s = op t := by
  obtain ⟨more, rfl⟩ := Nat.exists_eq_add_of_le hk
  rw [h.retrying, retrying_of_settled hsettled]

end Retrying

end Foundation
