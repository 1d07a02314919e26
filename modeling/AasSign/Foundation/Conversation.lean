import Mathlib.Tactic.Common

/-! # Loops that ask the outside

A loop whose passes each take one answer of the outside, such as the return value of a
system call. The answers are a list; a loop that has used them all up is still waiting.
-/

namespace Foundation

/-- One pass of a loop: it leaves, or it goes on with what it is answered. -/
inductive LoopTurn (σ ρ ε α : Type) where
  | leave (outcome : Except ε α)
  | ask (next : ρ → Except ε σ)

/-- Where a loop stands, and how it has ended, if it has. -/
structure Standing (σ ε α : Type) where
  state : σ
  outcome : Option (Except ε α)

/-- Run a loop on the answers. -/
def converse {σ ρ ε α : Type} (turn : σ → LoopTurn σ ρ ε α) : List ρ → σ → Standing σ ε α
  | [], s =>
      match turn s with
      | .leave outcome => ⟨s, some outcome⟩
      | .ask _ => ⟨s, none⟩
  | answer :: rest, s =>
      match turn s with
      | .leave outcome => ⟨s, some outcome⟩
      | .ask next =>
          match next answer with
          | .ok s' => converse turn rest s'
          | .error e => ⟨s, some (.error e)⟩

/-- The loop that starts at `s` is at `t` after these answers, and has not ended before. -/
inductive Heard {σ ρ ε α : Type} (turn : σ → LoopTurn σ ρ ε α) : σ → List ρ → σ → Prop where
  | refl (s : σ) : Heard turn s [] s
  | next {s s' t : σ} {next : ρ → Except ε σ} {answer : ρ} {rest : List ρ}
      (hturn : turn s = .ask next) (hnext : next answer = .ok s') (h : Heard turn s' rest t) :
      Heard turn s (answer :: rest) t

section Conversations

variable {σ ρ ε α : Type} {turn : σ → LoopTurn σ ρ ε α} {s s' t : σ} {answers rest : List ρ}
  {next : ρ → Except ε σ} {outcome : Except ε α} {answer : ρ}

theorem converse_leave (h : turn s = .leave outcome) :
    converse turn answers s = ⟨s, some outcome⟩ := by
  cases answers <;> simp only [converse, h]

theorem converse_nil_ask (h : turn s = .ask next) : converse turn [] s = ⟨s, none⟩ := by
  simp only [converse, h]

theorem converse_ask (h : turn s = .ask next) (hnext : next answer = .ok s') :
    converse turn (answer :: rest) s = converse turn rest s' := by
  simp only [converse, h, hnext]

theorem converse_error {e : ε} (h : turn s = .ask next) (hnext : next answer = .error e) :
    converse turn (answer :: rest) s = ⟨s, some (.error e)⟩ := by
  simp only [converse, h, hnext]

/-- What every answered pass keeps holds wherever the loop stands. -/
theorem converse_invariant (inv : σ → Prop)
    (hkeep : ∀ s next answer s', turn s = .ask next → next answer = .ok s' → inv s → inv s')
    (hs : inv s) : inv (converse turn answers s).state := by
  induction answers generalizing s with
  | nil =>
      cases hturn : turn s with
      | leave outcome => rwa [converse_leave hturn]
      | ask next => rwa [converse_nil_ask hturn]
  | cons answer rest ih =>
      cases hturn : turn s with
      | leave outcome => rwa [converse_leave hturn]
      | ask next =>
          cases hnext : next answer with
          | error e => rwa [converse_error hturn hnext]
          | ok s' =>
              rw [converse_ask hturn hnext]
              exact ih (hkeep s next answer s' hturn hnext hs)

/-- A loop that has returned is where it left. -/
theorem converse_ok {a : α} (h : (converse turn answers s).outcome = some (.ok a)) :
    turn (converse turn answers s).state = .leave (.ok a) := by
  induction answers generalizing s with
  | nil =>
      cases hturn : turn s with
      | leave outcome =>
          rw [converse_leave hturn] at h ⊢
          rw [hturn, Option.some.inj h]
      | ask next =>
          rw [converse_nil_ask hturn] at h
          cases h
  | cons answer rest ih =>
      cases hturn : turn s with
      | leave outcome =>
          rw [converse_leave hturn] at h ⊢
          rw [hturn, Option.some.inj h]
      | ask next =>
          cases hnext : next answer with
          | error e =>
              rw [converse_error hturn hnext] at h
              cases h
          | ok s' =>
              rw [converse_ask hturn hnext] at h ⊢
              exact ih h

/-- A loop that has ended hears no more answers. -/
theorem converse_append (h : (converse turn answers s).outcome ≠ none) (more : List ρ) :
    converse turn (answers ++ more) s = converse turn answers s := by
  induction answers generalizing s with
  | nil =>
      cases hturn : turn s with
      | leave outcome => rw [converse_leave hturn, converse_leave hturn]
      | ask next => exact absurd (congrArg Standing.outcome (converse_nil_ask hturn)) h
  | cons answer rest ih =>
      cases hturn : turn s with
      | leave outcome => rw [converse_leave hturn, converse_leave hturn]
      | ask next =>
          cases hnext : next answer with
          | error e => rw [List.cons_append, converse_error hturn hnext, converse_error hturn hnext]
          | ok s' =>
              rw [converse_ask hturn hnext] at h
              rw [List.cons_append, converse_ask hturn hnext, converse_ask hturn hnext, ih h]

/-- How a loop got to where it stands. -/
inductive Concluded (turn : σ → LoopTurn σ ρ ε α) (s : σ) (answers : List ρ) :
    Standing σ ε α → Prop where
  | waiting {t : σ} {next : ρ → Except ε σ} (heard : Heard turn s answers t)
      (hturn : turn t = .ask next) : Concluded turn s answers ⟨t, none⟩
  | left {t : σ} {outcome : Except ε α} {front rest : List ρ} (hsplit : answers = front ++ rest)
      (heard : Heard turn s front t) (hturn : turn t = .leave outcome) :
      Concluded turn s answers ⟨t, some outcome⟩
  | failed {t : σ} {next : ρ → Except ε σ} {e : ε} {answer : ρ} {front rest : List ρ}
      (hsplit : answers = front ++ answer :: rest) (heard : Heard turn s front t)
      (hturn : turn t = .ask next) (hnext : next answer = .error e) :
      Concluded turn s answers ⟨t, some (.error e)⟩

theorem concluded : Concluded turn s answers (converse turn answers s) := by
  induction answers generalizing s with
  | nil =>
      cases hturn : turn s with
      | leave outcome =>
          rw [converse_leave hturn]
          exact .left (List.append_nil []).symm (.refl s) hturn
      | ask next =>
          rw [converse_nil_ask hturn]
          exact .waiting (.refl s) hturn
  | cons answer rest ih =>
      cases hturn : turn s with
      | leave outcome =>
          rw [converse_leave hturn]
          exact .left (List.nil_append _).symm (.refl s) hturn
      | ask next =>
          cases hnext : next answer with
          | error e =>
              rw [converse_error hturn hnext]
              exact .failed (List.nil_append _).symm (.refl s) hturn hnext
          | ok s' =>
              rw [converse_ask hturn hnext]
              generalize hstanding : converse turn rest s' = standing
              have hconcluded : Concluded turn s' rest standing := hstanding ▸ ih
              cases hconcluded with
              | waiting heard hleft => exact .waiting (.next hturn hnext heard) hleft
              | left hsplit heard hleft =>
                  exact .left (congrArg (answer :: ·) hsplit) (.next hturn hnext heard) hleft
              | failed hsplit heard hask hfail =>
                  exact .failed (congrArg (answer :: ·) hsplit) (.next hturn hnext heard) hask hfail

/-- A loop goes on from where its answers have taken it. -/
theorem Heard.converse (h : Heard turn s answers t) (more : List ρ) :
    converse turn (answers ++ more) s = Foundation.converse turn more t := by
  induction h with
  | refl s => rfl
  | next hturn hnext _ ih => rw [List.cons_append, converse_ask hturn hnext, ih]

/-- How a loop fails: it leaves with the failure, or an answer makes it fail. -/
theorem converse_eq_error {e : ε} : (converse turn answers s).outcome = some (.error e) ↔
    ∃ front rest t, answers = front ++ rest ∧ Heard turn s front t ∧
      (turn t = .leave (.error e) ∨ ∃ next answer back, turn t = .ask next ∧
        rest = answer :: back ∧ next answer = .error e) := by
  constructor
  · intro hfails
    have hconcluded : Concluded turn s answers (converse turn answers s) := concluded
    generalize converse turn answers s = standing at hfails hconcluded
    cases hconcluded with
    | waiting => cases hfails
    | left hsplit heard hturn =>
        obtain rfl := Option.some.inj hfails
        exact ⟨_, _, _, hsplit, heard, .inl hturn⟩
    | failed hsplit heard hturn hnext =>
        obtain rfl := Except.error.inj (Option.some.inj hfails)
        exact ⟨_, _, _, hsplit, heard, .inr ⟨_, _, _, hturn, rfl, hnext⟩⟩
  · rintro ⟨front, rest, t, rfl, heard, hleave | ⟨next, answer, back, hturn, rfl, hnext⟩⟩
    · rw [heard.converse, converse_leave hleave]
    · rw [heard.converse, converse_error hturn hnext]

/-- A loop that has failed is where it left with the failure, or where an answer made it fail. -/
theorem converse_threw {e : ε} (h : (converse turn answers s).outcome = some (.error e)) :
    turn (converse turn answers s).state = .leave (.error e) ∨
      ∃ next, turn (converse turn answers s).state = .ask next ∧
        ∃ answer ∈ answers, next answer = .error e := by
  have hconcluded : Concluded turn s answers (converse turn answers s) := concluded
  generalize converse turn answers s = standing at h hconcluded
  cases hconcluded with
  | waiting => cases h
  | left hsplit heard hturn =>
      obtain rfl := Option.some.inj h
      exact .inl hturn
  | @failed t next e' answer front rest hsplit heard hturn hnext =>
      obtain rfl := Except.error.inj (Option.some.inj h)
      have hmem : answer ∈ answers := hsplit ▸ List.mem_append_right front List.mem_cons_self
      exact .inr ⟨next, hturn, answer, hmem, hnext⟩

/-- A loop does not wait for more answers than its measure, if each of these answers
lowers the measure. -/
theorem converse_outcome (measure : σ → Nat) (productive : ρ → Bool)
    (hkeep : ∀ s next answer s', turn s = .ask next → next answer = .ok s' →
      measure s' ≤ measure s ∧ (productive answer = true → measure s' < measure s))
    (hzero : ∀ s next, turn s = .ask next → 0 < measure s)
    (h : measure s ≤ answers.countP productive) :
    (converse turn answers s).outcome ≠ none := by
  induction answers generalizing s with
  | nil =>
      cases hturn : turn s with
      | leave outcome => simp [converse_leave hturn]
      | ask next =>
          have hpos := hzero s next hturn
          simp at h
          omega
  | cons answer rest ih =>
      cases hturn : turn s with
      | leave outcome => simp [converse_leave hturn]
      | ask next =>
          cases hnext : next answer with
          | error e => simp [converse_error hturn hnext]
          | ok s' =>
              rw [converse_ask hturn hnext]
              obtain ⟨hle, hlt⟩ := hkeep s next answer s' hturn hnext
              apply ih
              by_cases hproductive : productive answer = true
              · have := hlt hproductive
                rw [List.countP_cons_of_pos hproductive] at h
                omega
              · rw [List.countP_cons_of_neg hproductive] at h
                omega

end Conversations

end Foundation
