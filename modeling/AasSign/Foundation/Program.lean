import Mathlib.Order.Defs.Unbundled
import AasSign.Foundation.Outcome

/-! # Programs with a state that survives exceptions

A program changes a state and returns or raises an exception; the state it has
reached is kept in both cases. `Ends` states what holds at either exit, `Moves` that
every run, however it ends, stays inside a preorder on states, and `Raises` which
exceptions there can be.
-/

namespace Foundation

/-- A program over states `σ` with exceptions `ε`. -/
def Program (σ ε α : Type) : Type := σ → Except ε α × σ

namespace Program

variable {σ ε α β : Type}

instance : Monad (Program σ ε) where
  pure a := fun s => (.ok a, s)
  bind m f := fun s =>
    match m s with
    | (.ok a, s') => f a s'
    | (.error e, s') => (.error e, s')

/-- Raise an exception. -/
def raise (e : ε) : Program σ ε α := fun s => (.error e, s)

/-- `if (c) throw e;` -/
def raiseIf (c : Prop) [Decidable c] (e : ε) : Program σ ε Unit := if c then raise e else pure ()

/-- A computation that does not touch the state. -/
def lift (x : Except ε α) : Program σ ε α := fun s => (x, s)

def current : Program σ ε σ := fun s => (.ok s, s)

def change (f : σ → σ) : Program σ ε Unit := fun s => (.ok (), f s)

/-- Run `cleanup` on the state at the end, whether the program returns or not. -/
def cleanly (m : Program σ ε α) (cleanup : σ → σ) : Program σ ε α := fun s =>
  let (outcome, s') := m s
  (outcome, cleanup s')

/-- Run a program, and go on whether it returns or not. -/
def ignored (m : Program σ ε α) : Program σ ε Unit := fun s => (.ok (), (m s).2)

/-- Run a program on a part of the state. -/
def within {τ : Type} (view : τ → σ) (put : σ → τ → τ) (m : Program σ ε α) : Program τ ε α :=
  fun t =>
    let (outcome, s) := m (view t)
    (outcome, put s t)

/-- Run the body on each item of a list, carrying a value along. -/
def foldItems (body : β → α → Program σ ε β) : β → List α → Program σ ε β
  | b, [] => pure b
  | b, a :: rest => body b a >>= fun b' => foldItems body b' rest

/-- Run a loop body until it leaves, for at most `fuel` passes. -/
def whileAgain (body : β → Program σ ε (Pass β α)) (stuck : ε) : Nat → β → Program σ ε α
  | 0, _ => raise stuck
  | fuel + 1, b => body b >>= fun
      | .again next => whileAgain body stuck fuel next
      | .leave result => pure result

end Program

open Program

/-- `Q` holds of the value and the state at a return, `E` of the exception and
the state at a raise. -/
def Ends {σ ε α : Type} (m : Program σ ε α) (s : σ) (Q : α → σ → Prop) (E : ε → σ → Prop) : Prop :=
  match m s with
  | (.ok a, s') => Q a s'
  | (.error e, s') => E e s'

section Ends

variable {σ ε α β : Type} {m : Program σ ε α} {f : α → Program σ ε β} {s s' : σ}
  {Q Q' : α → σ → Prop} {R : β → σ → Prop} {E E' : ε → σ → Prop}

@[simp] theorem ends_pure {a : α} : Ends (pure a : Program σ ε α) s Q E ↔ Q a s := Iff.rfl

@[simp] theorem ends_raise {e : ε} : Ends (raise e : Program σ ε α) s Q E ↔ E e s := Iff.rfl

@[simp] theorem ends_current {Q : σ → σ → Prop} : Ends (current : Program σ ε σ) s Q E ↔ Q s s := Iff.rfl

@[simp] theorem ends_change {f : σ → σ} {Q : Unit → σ → Prop} :
    Ends (change f : Program σ ε Unit) s Q E ↔ Q () (f s) := Iff.rfl

@[simp] theorem ends_lift {x : Except ε α} :
    Ends (lift x : Program σ ε α) s Q E ↔ Sat x (fun a => Q a s) (fun e => E e s) := by
  cases x <;> exact Iff.rfl

theorem ends_lift_of {x : Except ε α} (hQ : ∀ a, x = .ok a → Q a s) (hE : ∀ e, E e s) :
    Ends (lift x : Program σ ε α) s Q E := by
  cases hx : x with
  | ok a => exact hQ a hx
  | error e => exact hE e

@[simp] theorem ends_bind :
    Ends (m >>= f) s R E ↔ Ends m s (fun a s' => Ends (f a) s' R E) E := by
  simp only [Ends, Bind.bind]
  rcases m s with ⟨outcome, s'⟩
  cases outcome <;> exact Iff.rfl

@[simp] theorem ends_cleanly {cleanup : σ → σ} : Ends (m.cleanly cleanup) s Q E ↔
    Ends m s (fun a s' => Q a (cleanup s')) (fun e s' => E e (cleanup s')) := by
  simp only [Ends, cleanly]
  rcases m s with ⟨outcome, s'⟩
  cases outcome <;> exact Iff.rfl

@[simp] theorem ends_ignored {Q : Unit → σ → Prop} : Ends m.ignored s Q E ↔
    Ends m s (fun _ s' => Q () s') (fun _ s' => Q () s') := by
  simp only [Ends, ignored]
  rcases m s with ⟨outcome, s'⟩
  cases outcome <;> exact Iff.rfl

@[simp] theorem ends_within {τ : Type} {view : τ → σ} {put : σ → τ → τ} {t : τ}
    {Q : α → τ → Prop} {E : ε → τ → Prop} : Ends (m.within view put) t Q E ↔
      Ends m (view t) (fun a s => Q a (put s t)) (fun e s => E e (put s t)) := by
  simp only [Ends, within]
  rcases m (view t) with ⟨outcome, s⟩
  cases outcome <;> exact Iff.rfl

theorem Ends.mono (h : Ends m s Q E) (hQ : ∀ a s', Q a s' → Q' a s')
    (hE : ∀ e s', E e s' → E' e s') : Ends m s Q' E' := by
  revert h
  simp only [Ends]
  rcases m s with ⟨outcome, s'⟩
  cases outcome with
  | ok a => exact hQ a s'
  | error e => exact hE e s'

/-- What holds of every value, exception and state holds at the end. -/
theorem ends_of_forall (hQ : ∀ a s', Q a s') (hE : ∀ e s', E e s') : Ends m s Q E := by
  unfold Ends
  split
  · exact hQ _ _
  · exact hE _ _

theorem Ends.bind {P : α → σ → Prop} (hm : Ends m s P E)
    (hf : ∀ a s', P a s' → Ends (f a) s' R E) : Ends (m >>= f) s R E :=
  ends_bind.mpr (hm.mono hf fun _ _ => id)

theorem Ends.and (h : Ends m s Q E) (h' : Ends m s Q' E') :
    Ends m s (fun a s' => Q a s' ∧ Q' a s') (fun e s' => E e s' ∧ E' e s') := by
  revert h h'
  simp only [Ends]
  rcases m s with ⟨outcome, s'⟩
  cases outcome <;> exact And.intro

/-- What else is known of a return. -/
theorem Ends.both (h : Ends m s Q E) (h' : Ends m s Q' E') :
    Ends m s (fun a s' => Q a s' ∧ Q' a s') E :=
  (h.and h').mono (fun _ _ => id) fun _ _ => And.left

theorem ends_lift_bind {x : Except ε α} (hf : ∀ a, x = .ok a → Ends (f a) s R E) (hE : ∀ e, E e s) :
    Ends (lift x >>= f) s R E :=
  ends_bind.mpr (ends_lift_of hf hE)

/-- A run ends in the state that it ends in. -/
theorem ends_run : Ends m s (fun a s' => m s = (.ok a, s')) fun e s' => m s = (.error e, s') := by
  unfold Ends
  split <;> assumption

theorem run_bind {a : α} (h : m s = (.ok a, s')) : (m >>= f) s = f a s' := by
  simp only [Bind.bind, h]

/-- A bind that returns has returned in both parts. -/
theorem bind_returns {b : β} (h : (m >>= f) s = (.ok b, s')) :
    ∃ a s₁, m s = (.ok a, s₁) ∧ f a s₁ = (.ok b, s') := by
  simp only [Bind.bind] at h
  rcases hm : m s with ⟨outcome, s₁⟩
  rw [hm] at h
  cases outcome with
  | ok a => exact ⟨a, s₁, rfl, h⟩
  | error e => cases h

/-- A bind that raises has done so in its first part, or in its second. -/
theorem bind_raises {e : ε} (h : (m >>= f) s = (.error e, s')) :
    m s = (.error e, s') ∨ ∃ a s₁, m s = (.ok a, s₁) ∧ f a s₁ = (.error e, s') := by
  simp only [Bind.bind] at h
  rcases hm : m s with ⟨outcome, s₁⟩
  rw [hm] at h
  cases outcome with
  | ok a => exact .inr ⟨a, s₁, rfl, h⟩
  | error e' =>
      cases h
      exact .inl rfl

/-- A run that returns leaves some state. -/
theorem exists_run {a : α} (h : (m s).1 = .ok a) : ∃ s', m s = (.ok a, s') := by
  rcases hrun : m s with ⟨outcome, s'⟩
  rw [hrun] at h
  exact ⟨s', congrArg (·, s') h⟩

theorem Ends.of_ok {a : α} (h : Ends m s Q E) (hrun : m s = (.ok a, s')) : Q a s' := by
  simpa only [Ends, hrun] using h

theorem ends_of_run {a : α} (hrun : m s = (.ok a, s')) (hQ : Q a s') : Ends m s Q E := by
  simpa only [Ends, hrun] using hQ

theorem Ends.exists_run (h : Ends m s Q fun _ _ => False) : ∃ a s', m s = (.ok a, s') ∧ Q a s' := by
  unfold Ends at h
  split at h
  next a s' hrun => exact ⟨a, s', hrun, h⟩
  next => exact h.elim

theorem Ends.of_error {e : ε} (h : Ends m s Q E) (hrun : m s = (.error e, s')) : E e s' := by
  simpa only [Ends, hrun] using h

/-- What holds at both exits holds of the outcome. -/
theorem ends_outcome {P : Except ε α → σ → Prop} :
    Ends m s (fun a => P (.ok a)) (fun e => P (.error e)) ↔ P (m s).1 (m s).2 := by
  unfold Ends
  rcases m s with ⟨outcome, s'⟩
  cases outcome <;> exact Iff.rfl

theorem ends_ite {c : Prop} [Decidable c] {m' : Program σ ε α} :
    Ends (if c then m else m') s Q E ↔ (c → Ends m s Q E) ∧ (¬ c → Ends m' s Q E) := by
  split <;> simp_all

@[simp] theorem ends_raiseIf {c : Prop} [Decidable c] {e : ε} {Q : Unit → σ → Prop} :
    Ends (raiseIf c e : Program σ ε Unit) s Q E ↔ (c → E e s) ∧ (¬ c → Q () s) := ends_ite

/-- An invariant over the items done so far carries through a loop. -/
theorem ends_foldItems {f : β → α → Program σ ε β} (inv : List α → β → σ → Prop)
    {l : List α}
    (hbody : ∀ done item rest b s, l = done ++ item :: rest → inv done b s →
      Ends (f b item) s (fun b' s' => inv (done ++ [item]) b' s') E)
    {b : β} (hstart : inv [] b s) :
    Ends (foldItems f b l) s (fun b' s' => inv l b' s') E := by
  suffices h : ∀ rest done b s, l = done ++ rest → inv done b s →
      Ends (foldItems f b rest) s (fun b' s' => inv l b' s') E from
    h l [] b s rfl hstart
  intro rest
  induction rest with
  | nil =>
      intro done b s hitems hinv
      rw [List.append_nil] at hitems
      subst hitems
      exact hinv
  | cons item rest ih =>
      intro done b s hitems hinv
      apply (hbody done item rest b s hitems hinv).bind
      intro b' s' hnext
      exact ih (done ++ [item]) b' s' (by simpa using hitems) hnext

/-- What holds of the state between two passes, or of the result of the last one. -/
def Continues (again : β → σ → Prop) (leave : α → σ → Prop) : Pass β α → σ → Prop
  | .again b, s => again b s
  | .leave a, s => leave a s

/-- An invariant that knows the number of passes, and that no more than `bound` passes can
keep, carries through a loop; the loop is never stuck for want of fuel. -/
theorem ends_whileAgain {body : β → Program σ ε (Pass β α)} {stuck : ε}
    (inv : Nat → β → σ → Prop) {bound : Nat} (hbound : ∀ n b s, inv n b s → n < bound)
    (hbody : ∀ n b s, inv n b s → Ends (body b) s (Continues (inv (n + 1)) Q) E)
    {n fuel : Nat} {b : β} (hstart : inv n b s) (hfuel : bound ≤ n + fuel) :
    Ends (whileAgain body stuck fuel b) s Q E := by
  induction fuel generalizing n b s with
  | zero =>
      have := hbound n b s hstart
      omega
  | succ fuel ih =>
      rw [whileAgain]
      apply (hbody n b s hstart).bind
      intro pass s' hpass
      cases pass with
      | again next => exact ih hpass (by omega)
      | leave result => exact hpass

end Ends

/-! ## Runs inside a preorder -/

/-- However the program ends, the state it reaches is related to where it began. -/
def Moves {σ ε α : Type} (R : σ → σ → Prop) (m : Program σ ε α) : Prop :=
  ∀ s, Ends m s (fun _ s' => R s s') fun _ s' => R s s'

section Moves

variable {σ ε α β : Type} {R : σ → σ → Prop} {m m' : Program σ ε α} {f : α → Program σ ε β}

theorem Moves.ends (h : Moves R m) (s : σ) :
    Ends m s (fun _ s' => R s s') fun _ s' => R s s' := h s

theorem Moves.bind_ends {s : σ} {Q : β → σ → Prop} {E : ε → σ → Prop} (h : Moves R m)
    (hf : ∀ a s', R s s' → Ends (f a) s' Q E) (hE : ∀ e s', R s s' → E e s') :
    Ends (m >>= f) s Q E :=
  ends_bind.mpr ((h s).mono hf hE)

theorem Moves.mono {R' : σ → σ → Prop} (h : Moves R m) (hR : ∀ s s', R s s' → R' s s') :
    Moves R' m :=
  fun s => (h s).mono (fun _ s' => hR s s') fun _ s' => hR s s'

theorem moves_iff : Moves R m ↔ ∀ s, R s (m s).2 := by
  refine forall_congr' fun s => ?_
  unfold Ends
  rcases m s with ⟨outcome, s'⟩
  cases outcome <;> exact Iff.rfl

theorem moves_ite {c : Prop} [Decidable c] (h : c → Moves R m) (h' : ¬ c → Moves R m') :
    Moves R (if c then m else m') := by
  split
  next hc => exact h hc
  next hc => exact h' hc

variable [IsPreorder σ R]

theorem moves_pure (a : α) : Moves R (pure a : Program σ ε α) := fun s => refl_of R s

theorem moves_raise (e : ε) : Moves R (raise e : Program σ ε α) := fun s => refl_of R s

theorem moves_current : Moves R (current : Program σ ε σ) := fun s => refl_of R s

theorem moves_lift (x : Except ε α) : Moves R (lift x : Program σ ε α) := by
  intro s
  rw [ends_lift]
  cases x <;> exact refl_of R s

theorem Moves.bind (h : Moves R m) (hf : ∀ a, Moves R (f a)) : Moves R (m >>= f) := by
  intro s
  rw [ends_bind]
  apply (h s).mono
  · intro a s' hs
    exact (hf a s').mono (fun _ _ => trans_of R hs) fun _ _ => trans_of R hs
  · exact fun _ _ => id

theorem moves_lift_bind {x : Except ε α} (h : ∀ a, x = .ok a → Moves R (f a)) :
    Moves R ((lift x : Program σ ε α) >>= f) := by
  intro s
  rw [ends_bind, ends_lift]
  cases x with
  | ok a => exact h a rfl s
  | error e => exact refl_of R s

theorem moves_foldItems_of_mem {body : β → α → Program σ ε β} {items : List α}
    (h : ∀ b, ∀ a ∈ items, Moves R (body b a)) (b : β) : Moves R (foldItems body b items) := by
  induction items generalizing b with
  | nil => exact moves_pure b
  | cons a rest ih =>
      exact (h b a List.mem_cons_self).bind fun b' =>
        ih (fun c d hd => h c d (List.mem_cons_of_mem a hd)) b'

theorem moves_foldItems {body : β → α → Program σ ε β} (h : ∀ b a, Moves R (body b a)) (b : β)
    (items : List α) : Moves R (foldItems body b items) :=
  moves_foldItems_of_mem (fun b a _ => h b a) b

end Moves

/-- The run stays inside the preorder, and a value returned has `P`. -/
def Yields {σ ε α : Type} (R : σ → σ → Prop) (P : α → Prop) (m : Program σ ε α) : Prop :=
  ∀ s, Ends m s (fun a s' => R s s' ∧ P a) fun _ s' => R s s'

section Yields

variable {σ ε α β : Type} {R : σ → σ → Prop} {P : α → Prop} {m : Program σ ε α}
  {f : α → Program σ ε β}

theorem Yields.moves (h : Yields R P m) : Moves R m :=
  fun s => (h s).mono (fun _ _ => And.left) fun _ _ => id

theorem Moves.yields (h : Moves R m) : Yields R (fun _ => True) m :=
  fun s => (h s).mono (fun _ _ hs => ⟨hs, trivial⟩) fun _ _ => id

theorem Yields.bind_ends {s : σ} {Q : β → σ → Prop} {E : ε → σ → Prop} (h : Yields R P m)
    (hf : ∀ a s', R s s' → P a → Ends (f a) s' Q E) (hE : ∀ e s', R s s' → E e s') :
    Ends (m >>= f) s Q E :=
  ends_bind.mpr ((h s).mono (fun a s' ha => hf a s' ha.1 ha.2) hE)

variable [IsPreorder σ R]

theorem yields_pure {a : α} (h : P a) : Yields R P (pure a : Program σ ε α) :=
  fun s => ⟨refl_of R s, h⟩

theorem Yields.bind {Q : β → Prop} (h : Yields R P m) (hf : ∀ a, P a → Yields R Q (f a)) :
    Yields R Q (m >>= f) := by
  intro s
  rw [ends_bind]
  apply (h s).mono
  · rintro a s' ⟨hs, ha⟩
    exact (hf a ha s').mono (fun _ _ hs' => ⟨trans_of R hs hs'.1, hs'.2⟩)
      fun _ _ => trans_of R hs
  · exact fun _ _ => id

theorem yields_lift_bind {x : Except ε α} {Q : β → Prop} (h : ∀ a, x = .ok a → Yields R Q (f a)) :
    Yields R Q ((lift x : Program σ ε α) >>= f) := by
  intro s
  exact ends_lift_bind (fun a ha => h a ha s) fun _ => refl_of R s

theorem Yields.bind_moves (h : Yields R P m) (hf : ∀ a, P a → Moves R (f a)) :
    Moves R (m >>= f) :=
  (h.bind fun a ha => (hf a ha).yields).moves

end Yields

/-- Whatever the program raises has `P`. -/
def Raises {σ ε α : Type} (P : ε → Prop) (m : Program σ ε α) : Prop :=
  ∀ s, Ends m s (fun _ _ => True) fun e _ => P e

section Raises

variable {σ ε α β : Type} {P : ε → Prop} {m m' : Program σ ε α} {f : α → Program σ ε β}

theorem raises_pure (a : α) : Raises P (pure a : Program σ ε α) := fun _ => trivial

theorem raises_current : Raises P (current : Program σ ε σ) := fun _ => trivial

theorem raises_change (f : σ → σ) : Raises P (change f : Program σ ε Unit) := fun _ => trivial

theorem Raises.bind (h : Raises P m) (hf : ∀ a, Raises P (f a)) : Raises P (m >>= f) := by
  intro s
  rw [ends_bind]
  exact (h s).mono (fun a s' _ => hf a s') fun _ _ => id

theorem raises_ite {c : Prop} [Decidable c] (h : Raises P m) (h' : Raises P m') :
    Raises P (if c then m else m') := by
  split
  · exact h
  · exact h'

theorem Raises.within {τ : Type} (h : Raises P m) (view : τ → σ) (put : σ → τ → τ) :
    Raises P (m.within view put) := by
  intro t
  rw [ends_within]
  exact h (view t)

/-- A loop that raises does so at one of its items, behind those that it has run. -/
theorem foldItems_raises {body : β → α → Program σ ε β} {items : List α} {b : β} {s s' : σ} {e : ε}
    (h : foldItems body b items s = (.error e, s')) :
    ∃ done item rest b' s₁, items = done ++ item :: rest ∧
      foldItems body b done s = (.ok b', s₁) ∧ body b' item s₁ = (.error e, s') := by
  induction items generalizing b s with
  | nil => cases h
  | cons item rest ih =>
      rw [foldItems] at h
      rcases hbody : body b item s with ⟨outcome, s₁⟩
      cases outcome with
      | error e' =>
          simp only [Bind.bind, hbody] at h
          cases h
          exact ⟨[], item, rest, b, s, rfl, rfl, hbody⟩
      | ok b' =>
          rw [run_bind hbody] at h
          obtain ⟨done, other, rest', c, s₂, rfl, hdone, hraises⟩ := ih h
          refine ⟨item :: done, other, rest', c, s₂, rfl, ?_, hraises⟩
          rw [foldItems, run_bind hbody, hdone]

end Raises

end Foundation
