import Mathlib.Tactic.Common

/-! # Histories

A history is the list of the events so far. What an event requires of the
history before it is a relation between the two; a history is guarded when each
of its events meets its requirement.
-/

namespace Foundation

universe u

variable {ε : Type u} {allowed : List ε → ε → Prop} {history : List ε} {event : ε}

/-- Every event is allowed by the events before it. -/
def Guarded (allowed : List ε → ε → Prop) (history : List ε) : Prop :=
  ∀ before event after, history = before ++ event :: after → allowed before event

theorem guarded_nil : Guarded allowed [] := by
  intro before event after h
  simp at h

/-- Recording one more event asks for its requirement only. -/
theorem guarded_snoc :
    Guarded allowed (history ++ [event]) ↔ Guarded allowed history ∧ allowed history event := by
  constructor
  · intro h
    refine ⟨fun before other after hsplit => ?_, h history event [] rfl⟩
    exact h before other (after ++ [event]) (by simp [hsplit])
  · rintro ⟨hhistory, hevent⟩ before other after hsplit
    rcases List.eq_nil_or_concat after with rfl | ⟨middle, last, rfl⟩
    · obtain ⟨rfl, hlast⟩ := List.append_inj' hsplit rfl
      cases hlast
      exact hevent
    · rw [List.concat_eq_append, ← List.cons_append, ← List.append_assoc] at hsplit
      exact hhistory before other middle (List.append_inj_left' hsplit rfl)

theorem Guarded.snoc (h : Guarded allowed history) (hevent : allowed history event) :
    Guarded allowed (history ++ [event]) :=
  guarded_snoc.mpr ⟨h, hevent⟩

/-- The events before an event of a guarded history are a guarded history. -/
theorem Guarded.before {before after : List ε} (h : Guarded allowed (before ++ after)) :
    Guarded allowed before :=
  fun front other rest hsplit => h front other (rest ++ after) (by simp [hsplit])

end Foundation
