import Mathlib.Tactic.Common

/-! # Outcomes of fallible computations

A computation either returns a value or raises an exception. `Sat` states a
postcondition for each of the two exits, and the rules below take it through
sequencing, branching, and the two kinds of loop the programs use.
-/

namespace Foundation

universe u v w

variable {ε : Type u} {α : Type v} {β : Type w}

/-- `Q` holds of the value returned, or `E` of the exception raised. -/
def Sat (x : Except ε α) (Q : α → Prop) (E : ε → Prop) : Prop :=
  match x with
  | .ok a => Q a
  | .error e => E e

@[simp] theorem sat_ok {a : α} {Q : α → Prop} {E : ε → Prop} :
    Sat (.ok a : Except ε α) Q E ↔ Q a := Iff.rfl

@[simp] theorem sat_error {e : ε} {Q : α → Prop} {E : ε → Prop} :
    Sat (.error e : Except ε α) Q E ↔ E e := Iff.rfl

@[simp] theorem sat_pure {a : α} {Q : α → Prop} {E : ε → Prop} :
    Sat (pure a : Except ε α) Q E ↔ Q a := Iff.rfl

@[simp] theorem sat_throw {e : ε} {Q : α → Prop} {E : ε → Prop} :
    Sat (throw e : Except ε α) Q E ↔ E e := Iff.rfl

theorem Sat.of_ok {x : Except ε α} {Q : α → Prop} {E : ε → Prop} {a : α}
    (h : Sat x Q E) (hx : x = .ok a) : Q a := by
  subst hx
  exact h

theorem Sat.of_error {x : Except ε α} {Q : α → Prop} {E : ε → Prop} {e : ε}
    (h : Sat x Q E) (hx : x = .error e) : E e := by
  subst hx
  exact h

theorem sat_iff {x : Except ε α} {Q : α → Prop} {E : ε → Prop} :
    Sat x Q E ↔ (∀ a, x = .ok a → Q a) ∧ (∀ e, x = .error e → E e) := by
  cases x <;> simp

theorem Sat.mono {x : Except ε α} {Q Q' : α → Prop} {E E' : ε → Prop} (h : Sat x Q E)
    (hQ : ∀ a, Q a → Q' a) (hE : ∀ e, E e → E' e) : Sat x Q' E' := by
  cases x with
  | ok a => exact hQ a h
  | error e => exact hE e h

/-- The computation returns a value with `Q`. -/
def Returns (x : Except ε α) (Q : α → Prop) : Prop := Sat x Q fun _ => False

theorem returns_iff {x : Except ε α} {Q : α → Prop} : Returns x Q ↔ ∃ a, x = .ok a ∧ Q a := by
  cases x with
  | ok a => simp [Returns]
  | error e => simp [Returns]

section Sequencing

variable {α β : Type v}

/-- A sequence returns exactly when both of its parts do. -/
theorem bind_eq_ok {x : Except ε α} {f : α → Except ε β} {b : β} :
    (x >>= f) = .ok b ↔ ∃ a, x = .ok a ∧ f a = .ok b := by
  cases x with
  | ok a =>
      constructor
      · exact fun h => ⟨a, rfl, h⟩
      · rintro ⟨a', ha, h⟩
        cases ha
        exact h
  | error e =>
      constructor
      · intro h
        cases h
      · rintro ⟨a', ha, _⟩
        cases ha

@[simp] theorem ok_bind (a : α) (f : α → Except ε β) : ((.ok a : Except ε α) >>= f) = f a := rfl

@[simp] theorem error_bind (e : ε) (f : α → Except ε β) :
    ((.error e : Except ε α) >>= f) = .error e := rfl

theorem bind_of_ok {x : Except ε α} {f : α → Except ε β} {a : α} (hx : x = .ok a) :
    (x >>= f) = f a := by
  subst hx
  rfl

@[simp] theorem sat_bind {x : Except ε α} {f : α → Except ε β} {Q : β → Prop} {E : ε → Prop} :
    Sat (x >>= f) Q E ↔ Sat x (fun a => Sat (f a) Q E) E := by
  cases x <;> exact Iff.rfl

theorem Sat.bind {x : Except ε α} {f : α → Except ε β} {P : α → Prop} {Q : β → Prop}
    {E : ε → Prop} (hx : Sat x P E) (hf : ∀ a, P a → Sat (f a) Q E) : Sat (x >>= f) Q E :=
  sat_bind.mpr (hx.mono hf fun _ => id)

end Sequencing

theorem sat_ite {c : Prop} [Decidable c] {x y : Except ε α} {Q : α → Prop} {E : ε → Prop} :
    Sat (if c then x else y) Q E ↔ (c → Sat x Q E) ∧ (¬ c → Sat y Q E) := by
  split <;> simp_all

/-! ## Loops -/

/-- What one pass through the body of a loop decides. -/
inductive Pass (σ : Type u) (α : Type v) where
  | again (state : σ)
  | leave (result : α)

/-- Run a loop body until it leaves, for at most `fuel` passes. -/
def loop {σ : Type v} {α : Type v} (body : σ → Except ε (Pass σ α)) (stuck : ε) :
    Nat → σ → Except ε α
  | 0, _ => .error stuck
  | fuel + 1, state =>
      body state >>= fun
        | .again next => loop body stuck fuel next
        | .leave result => .ok result

section Loops

variable {σ α : Type v} {body : σ → Except ε (Pass σ α)} {stuck : ε}

theorem loop_again {fuel : Nat} {state next : σ} (h : body state = .ok (.again next)) :
    loop body stuck (fuel + 1) state = loop body stuck fuel next := by
  simp [loop, h]

theorem loop_leave {fuel : Nat} {state : σ} {result : α} (h : body state = .ok (.leave result)) :
    loop body stuck (fuel + 1) state = .ok result := by
  simp [loop, h]

/-- A loop returns what the first pass leaves with, or what the passes after it return. -/
theorem loop_succ_eq_ok {fuel : Nat} {state : σ} {result : α} :
    loop body stuck (fuel + 1) state = .ok result ↔ body state = .ok (.leave result) ∨
      ∃ next, body state = .ok (.again next) ∧ loop body stuck fuel next = .ok result := by
  rw [loop, bind_eq_ok]
  constructor
  · rintro ⟨pass, hpass, hrest⟩
    cases pass with
    | again next => exact .inr ⟨next, hpass, hrest⟩
    | leave result' =>
        cases hrest
        exact .inl hpass
  · rintro (hleave | ⟨next, hagain, hrest⟩)
    · exact ⟨_, hleave, rfl⟩
    · exact ⟨_, hagain, hrest⟩

/-- A loop whose body keeps an invariant and lowers a measure leaves within
the measure; the `stuck` exception is never raised for want of fuel. -/
theorem loop_sat (measure : σ → Nat) (inv : σ → Prop) {Q : α → Prop} {E : ε → Prop}
    (hbody : ∀ state, inv state → Sat (body state)
      (fun
        | .again next => inv next ∧ measure next < measure state
        | .leave result => Q result) E)
    {fuel : Nat} {state : σ} (hinv : inv state) (hfuel : measure state < fuel) :
    Sat (loop body stuck fuel state) Q E := by
  induction fuel generalizing state with
  | zero => omega
  | succ fuel ih =>
      have hpass := hbody state hinv
      unfold loop
      cases hstep : body state with
      | error e =>
          rw [hstep] at hpass
          exact hpass
      | ok pass =>
          rw [hstep] at hpass
          cases pass with
          | leave result => exact hpass
          | again next =>
              obtain ⟨hkeep, hless⟩ : inv next ∧ measure next < measure state := hpass
              exact ih hkeep (by omega)

end Loops

/-- An invariant over the consumed prefix of a list carries through a fold. -/
theorem foldlM_sat {σ : Type v} {f : σ → β → Except ε σ} (inv : List β → σ → Prop)
    {E : ε → Prop} {l : List β}
    (hstep : ∀ done item rest state, l = done ++ item :: rest → inv done state →
      Sat (f state item) (inv (done ++ [item])) E)
    {b : σ} (hinit : inv [] b) : Sat (l.foldlM f b) (inv l) E := by
  suffices h : ∀ rest done state, l = done ++ rest → inv done state →
      Sat (rest.foldlM f state) (inv l) E from h l [] b rfl hinit
  intro rest
  induction rest with
  | nil =>
      intro done state hitems hinv
      rw [List.append_nil] at hitems
      subst hitems
      exact hinv
  | cons item rest ih =>
      intro done state hitems hinv
      rw [List.foldlM_cons]
      apply (hstep done item rest state hitems hinv).bind
      intro next hnext
      exact ih (done ++ [item]) next (by simpa using hitems) hnext

end Foundation
