import Mathlib.Tactic.Common

/-! # Processes over a shared state

A sequential process takes atomic steps on a state it shares with another one.
A step may depend on a choice that the process does not make, such as the answer
of a server. Interleaved runs are compared with runs one after the other.
-/

namespace Foundation

/-- A sequential process whose steps report events, read and write the shared
state, and continue on what they saw. -/
inductive Process (E σ α : Type) : Type 1 where
  | done (result : α)
  | act {Choice : Type} (event : Choice → σ → E) (next : Choice → σ → σ)
      (rest : Choice → σ → Process E σ α)

/-- Some steps of one process, with nobody else running. -/
inductive Steps {E σ α : Type} : σ → Process E σ α → List E → σ → Process E σ α → Prop where
  | refl (s : σ) (p : Process E σ α) : Steps s p [] s p
  | head {Choice : Type} {event : Choice → σ → E} {next : Choice → σ → σ}
      {rest : Choice → σ → Process E σ α} {s s' : σ} {p' : Process E σ α} {trace : List E}
      (choice : Choice) (h : Steps (next choice s) (rest choice s) trace s' p') :
      Steps s (.act event next rest) (event choice s :: trace) s' p'

/-- A complete run of one process. -/
def Runs {E σ α : Type} (s : σ) (p : Process E σ α) (trace : List E) (s' : σ) : Prop :=
  ∃ a, Steps s p trace s' (.done a)

/-- A complete run of two processes, their steps interleaved in any order. -/
inductive Interleaved {E σ α β : Type} :
    σ → Process E σ α → Process E σ β → List (E ⊕ E) → σ → Prop where
  | done (s : σ) (a : α) (b : β) : Interleaved s (.done a) (.done b) [] s
  | left {Choice : Type} {event : Choice → σ → E} {next : Choice → σ → σ}
      {rest : Choice → σ → Process E σ α} {s s' : σ} {q : Process E σ β} {trace : List (E ⊕ E)}
      (choice : Choice) (h : Interleaved (next choice s) (rest choice s) q trace s') :
      Interleaved s (.act event next rest) q (.inl (event choice s) :: trace) s'
  | right {Choice : Type} {event : Choice → σ → E} {next : Choice → σ → σ}
      {rest : Choice → σ → Process E σ β} {s s' : σ} {p : Process E σ α} {trace : List (E ⊕ E)}
      (choice : Choice) (h : Interleaved (next choice s) p (rest choice s) trace s') :
      Interleaved s p (.act event next rest) (.inr (event choice s) :: trace) s'

/-- The state is one that the two processes can leave behind when one of them
runs to its end before the other starts. -/
def Serializable {E σ α β : Type} (s : σ) (p : Process E σ α) (q : Process E σ β) (s' : σ) : Prop :=
  (∃ m t u, Runs s p t m ∧ Runs m q u s') ∨ (∃ m t u, Runs s q t m ∧ Runs m p u s')

section Steps

variable {E σ α β : Type} {s s' s'' : σ} {p p' p'' : Process E σ α} {q : Process E σ β}
  {trace u : List E}

theorem Steps.trans (h : Steps s p trace s' p') (h' : Steps s' p' u s'' p'') :
    Steps s p (trace ++ u) s'' p'' := by
  induction h with
  | refl s p => exact h'
  | head choice _ ih => exact .head choice (ih h')

theorem Runs.of_steps (h : Steps s p trace s' p') (h' : Runs s' p' u s'') :
    Runs s p (trace ++ u) s'' := by
  obtain ⟨a, hrest⟩ := h'
  exact ⟨a, h.trans hrest⟩

/-- The steps of a finished process. -/
theorem Steps.of_done {a : α} (h : Steps s (.done a) trace s' p') :
    trace = [] ∧ s' = s ∧ p' = .done a := by
  cases h with
  | refl => exact ⟨rfl, rfl, rfl⟩

theorem Runs.done (s : σ) (a : α) : Runs s (Process.done a : Process E σ α) [] s :=
  ⟨a, .refl s _⟩

theorem Runs.of_done {a : α} (h : Runs s (.done a) trace s') : trace = [] ∧ s' = s := by
  obtain ⟨b, hsteps⟩ := h
  obtain ⟨htrace, hstate, -⟩ := hsteps.of_done
  exact ⟨htrace, hstate⟩

theorem Runs.act {Choice : Type} {event : Choice → σ → E} {next : Choice → σ → σ}
    {rest : Choice → σ → Process E σ α} (choice : Choice)
    (h : Runs (next choice s) (rest choice s) trace s') :
    Runs s (.act event next rest) (event choice s :: trace) s' := by
  obtain ⟨a, hsteps⟩ := h
  exact ⟨a, .head choice hsteps⟩

end Steps

section Split

variable {E σ α β : Type} {s s' : σ} {q : Process E σ β} {trace : List (E ⊕ E)}

/-- Next to a finished process the other one runs alone. -/
theorem Interleaved.of_done {a : α} (h : Interleaved s (.done a : Process E σ α) q trace s') :
    ∃ u, trace = u.map .inr ∧ Runs s q u s' := by
  generalize hp : (Process.done a : Process E σ α) = p at h
  induction h with
  | done s a b => exact ⟨[], rfl, .done s b⟩
  | left choice _ ih => cases hp
  | right choice _ ih =>
      obtain ⟨u, rfl, hruns⟩ := ih hp
      exact ⟨_ :: u, rfl, hruns.act choice⟩

/-- The next step of a process comes after some steps of the other one. -/
theorem Interleaved.split {Choice : Type} {event : Choice → σ → E} {next : Choice → σ → σ}
    {rest : Choice → σ → Process E σ α} (h : Interleaved s (.act event next rest) q trace s') :
    ∃ u s₁ q₁ choice trace', Steps s q u s₁ q₁ ∧
      trace = u.map .inr ++ .inl (event choice s₁) :: trace' ∧
      Interleaved (next choice s₁) (rest choice s₁) q₁ trace' s' := by
  generalize hp : Process.act event next rest = p at h
  induction h with
  | done s a b => cases hp
  | left choice hrest ih =>
      cases hp
      exact ⟨[], _, _, choice, _, .refl _ _, rfl, hrest⟩
  | right choice _ ih =>
      obtain ⟨u, s₁, q₁, c, trace', hsteps, rfl, hrest⟩ := ih hp
      exact ⟨_ :: u, s₁, q₁, c, trace', .head choice hsteps, rfl, hrest⟩

end Split

end Foundation
