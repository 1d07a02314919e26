import Mathlib.Tactic.Common

/-! # State machines

A machine takes the actions that its step function accepts. Runs can be limited
to the actions that a condition allows in the state where they are taken.
-/

namespace Foundation

variable {σ A : Type} {step : σ → A → Option σ} {allowed : σ → A → Prop} {start : σ}

/-- The states of the runs from `start` whose actions are all allowed. -/
inductive Reaches (step : σ → A → Option σ) (allowed : σ → A → Prop) (start : σ) : σ → Prop where
  | start : Reaches step allowed start start
  | next {s s' : σ} {a : A} (hreaches : Reaches step allowed start s) (hallowed : allowed s a)
      (hstep : step s a = some s') : Reaches step allowed start s'

/-- What holds at the start and is kept by every allowed step holds in every
state reached. -/
theorem Reaches.invariant {inv : σ → Prop} {s : σ} (h : Reaches step allowed start s)
    (hstart : inv start)
    (hkeep : ∀ s a s', inv s → allowed s a → step s a = some s' → inv s') : inv s := by
  induction h with
  | start => exact hstart
  | next _ hallowed hstep ih => exact hkeep _ _ _ ih hallowed hstep

theorem Reaches.mono {allowed' : σ → A → Prop} {s : σ} (h : Reaches step allowed start s)
    (hmono : ∀ s a, allowed s a → allowed' s a) : Reaches step allowed' start s := by
  induction h with
  | start => exact .start
  | next _ hallowed hstep ih => exact ih.next (hmono _ _ hallowed) hstep

/-- A list of actions, taken one after the other. -/
def steps (step : σ → A → Option σ) (s : σ) (actions : List A) : Option σ :=
  actions.foldlM step s

/-- Actions that are allowed in every state can be taken in a row. -/
theorem Reaches.of_steps {s s' : σ} {actions : List A} (h : Reaches step allowed start s)
    (hallowed : ∀ a ∈ actions, ∀ s, allowed s a) (hsteps : steps step s actions = some s') :
    Reaches step allowed start s' := by
  induction actions generalizing s with
  | nil =>
      cases hsteps
      exact h
  | cons a actions ih =>
      obtain ⟨m, hstep, hrest⟩ : ∃ m, step s a = some m ∧ steps step m actions = some s' := by
        simpa [steps, List.foldlM_cons, Option.bind_eq_some_iff] using hsteps
      exact ih (h.next (hallowed a List.mem_cons_self s) hstep)
        (fun b hb => hallowed b (List.mem_cons_of_mem a hb)) hrest

/-- A run that is stopped at the first action that is not allowed. -/
theorem Reaches.of_guarded [∀ s a, Decidable (allowed s a)] {s s' : σ} {actions : List A}
    (h : Reaches step allowed start s)
    (hsteps : steps (fun s a => if allowed s a then step s a else none) s actions = some s') :
    Reaches step allowed start s' := by
  induction actions generalizing s with
  | nil =>
      cases hsteps
      exact h
  | cons a actions ih =>
      obtain ⟨m, hstep, hrest⟩ : ∃ m, (if allowed s a then step s a else none) = some m ∧
          steps (fun s a => if allowed s a then step s a else none) m actions = some s' := by
        simpa [steps, List.foldlM_cons, Option.bind_eq_some_iff] using hsteps
      obtain ⟨hallowed, hstep⟩ := Option.ite_none_right_eq_some.mp hstep
      exact ih (h.next hallowed hstep) hrest

/-- A run does not have more productive actions than its measure, if each of these lowers it and
none raises it where an invariant holds. -/
theorem countP_add_measure_le (inv : σ → Prop) {s s' : σ} {actions : List A} (measure : σ → Nat)
    (productive : A → Bool)
    (hstep : ∀ s a s', inv s → step s a = some s' →
      inv s' ∧ measure s' + (if productive a then 1 else 0) ≤ measure s)
    (hstart : inv s) (h : steps step s actions = some s') :
    actions.countP productive + measure s' ≤ measure s := by
  induction actions generalizing s with
  | nil =>
      cases h
      exact Nat.le_of_eq (Nat.zero_add _)
  | cons a actions ih =>
      obtain ⟨m, hfirst, hrest⟩ : ∃ m, step s a = some m ∧ steps step m actions = some s' := by
        simpa [steps, List.foldlM_cons, Option.bind_eq_some_iff] using h
      obtain ⟨hinv, hlower⟩ := hstep s a m hstart hfirst
      have hle := ih hinv hrest
      rw [List.countP_cons]
      omega

end Foundation
