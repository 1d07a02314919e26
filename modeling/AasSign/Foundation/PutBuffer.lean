import Mathlib.Data.List.Basic
import Mathlib.Tactic.Common

/-! # Text with a put position

A text that writes overwrite and extend from a put position on. Setting the position
back to the start loses nothing exactly as long as nothing is written afterwards.
-/

namespace Foundation

universe u

variable {α : Type u}

/-- The text, and the place where the next write goes. -/
structure PutBuffer (α : Type u) where
  text : List α
  put : Nat

/-- What can be done to the buffer. -/
inductive BufferStep (α : Type u) where
  | write (part : List α)
  | rewind

namespace PutBuffer

def empty : PutBuffer α := ⟨[], 0⟩

def write (b : PutBuffer α) (part : List α) : PutBuffer α where
  text := b.text.take b.put ++ part ++ b.text.drop (b.put + part.length)
  put := b.put + part.length

/-- The same text, to be written from its start on. -/
def rewind (b : PutBuffer α) : PutBuffer α := ⟨b.text, 0⟩

def step (b : PutBuffer α) : BufferStep α → PutBuffer α
  | .write part => b.write part
  | .rewind => b.rewind

def run (b : PutBuffer α) (steps : List (BufferStep α)) : PutBuffer α := steps.foldl step b

end PutBuffer

/-- All that the steps write, in order. -/
def written (steps : List (BufferStep α)) : List α :=
  steps.flatMap fun
    | .write part => part
    | .rewind => []

namespace PutBuffer

variable {b : PutBuffer α} {part : List α} {steps : List (BufferStep α)}

@[simp] theorem run_nil : b.run [] = b := rfl

@[simp] theorem run_cons (s : BufferStep α) : b.run (s :: steps) = (b.step s).run steps := rfl

theorem run_append (first second : List (BufferStep α)) :
    b.run (first ++ second) = (b.run first).run second := List.foldl_append

@[simp] theorem written_nil : written ([] : List (BufferStep α)) = [] := rfl

@[simp] theorem written_write : written (.write part :: steps) = part ++ written steps := rfl

@[simp] theorem written_rewind : written (.rewind :: steps) = written steps := rfl

theorem written_append (first second : List (BufferStep α)) :
    written (first ++ second) = written first ++ written second := List.flatMap_append

/-- At its end a text is extended. -/
theorem write_atEnd (h : b.put = b.text.length) : b.write part = ⟨b.text ++ part, b.put + part.length⟩ := by
  rw [write, h, List.take_length, List.drop_eq_nil_of_le (Nat.le_add_right _ _), List.append_nil]

@[simp] theorem write_nil : b.write [] = b := by
  simp [write]

theorem write_length (h : b.put ≤ b.text.length) (part : List α) :
    (b.write part).text.length = max b.text.length (b.put + part.length) := by
  simp only [write, List.length_append, List.length_take, List.length_drop]
  omega

theorem write_put_le (h : b.put ≤ b.text.length) (part : List α) :
    (b.write part).put ≤ (b.write part).text.length := by
  rw [write_length h]
  exact Nat.le_max_right _ _

theorem step_put_le (h : b.put ≤ b.text.length) (s : BufferStep α) :
    (b.step s).put ≤ (b.step s).text.length := by
  cases s with
  | write part => exact write_put_le h part
  | rewind => exact Nat.zero_le _

/-- A text grows by what is written at most. -/
theorem run_length_le (h : b.put ≤ b.text.length) (steps : List (BufferStep α)) :
    (b.run steps).text.length ≤ b.text.length + (written steps).length := by
  induction steps generalizing b with
  | nil => exact Nat.le_refl _
  | cons s rest ih =>
      have hrest := ih (step_put_le h s)
      cases s with
      | write part =>
          have hlength := write_length h part
          rw [step, hlength] at hrest
          rw [run_cons, step, written_write, List.length_append]
          omega
      | rewind => exact hrest

/-- Steps that write nothing leave the text. -/
theorem run_of_written_nil (h : written steps = []) : (b.run steps).text = b.text := by
  induction steps generalizing b with
  | nil => rfl
  | cons s rest ih =>
      cases s with
      | write part =>
          obtain ⟨rfl, hrest⟩ := List.append_eq_nil_iff.mp h
          rw [run_cons, step, write_nil, ih hrest]
      | rewind => exact ih h

/-- From the start of a text the first thing written overwrites. -/
theorem run_length_lt (hput : b.put = 0) (htext : b.text ≠ []) (h : written steps ≠ []) :
    (b.run steps).text.length < b.text.length + (written steps).length := by
  have hpos : 0 < b.text.length := List.length_pos_of_ne_nil htext
  induction steps generalizing b with
  | nil => exact absurd rfl h
  | cons s rest ih =>
      cases s with
      | rewind => exact ih rfl htext h hpos
      | write part =>
          rw [written_write] at h
          rw [run_cons, step, written_write, List.length_append]
          cases part with
          | nil =>
              rw [write_nil]
              simpa using ih hput htext h hpos
          | cons a part =>
              have hle : b.put ≤ b.text.length := by omega
              have hlength := write_length hle (a :: part)
              have hrest := run_length_le (write_put_le hle (a :: part)) rest
              rw [hlength, hput, Nat.zero_add] at hrest
              have hpart : 0 < (a :: part).length := Nat.succ_pos _
              omega

/-- Nothing is lost as long as nothing is written behind a text that was rewound. -/
theorem run_text_of_atEnd (hput : b.put = b.text.length)
    (h : ∀ before after, steps = before ++ .rewind :: after →
      b.text ++ written before = [] ∨ written after = []) :
    (b.run steps).text = b.text ++ written steps := by
  induction steps generalizing b with
  | nil => exact (List.append_nil _).symm
  | cons s rest ih =>
      cases s with
      | write part =>
          rw [run_cons, step, write_atEnd hput, written_write, ← List.append_assoc]
          apply ih
          · simp [hput]
          · intro before after hrest
            have hhere := h (.write part :: before) after (by rw [hrest]; rfl)
            rwa [written_write, ← List.append_assoc] at hhere
      | rewind =>
          rw [run_cons, step, written_rewind]
          rcases h [] rest rfl with hempty | hnothing
          · rw [written_nil, List.append_nil] at hempty
            have hrewind : b.rewind = b := by
              cases b
              simp_all [rewind]
            rw [hrewind]
            apply ih hput
            intro before after hrest
            exact h (.rewind :: before) after (by rw [hrest]; rfl)
          · rw [run_of_written_nil hnothing, hnothing, List.append_nil]
            rfl

/-- The text is all that was written exactly if no rewinding stands between two parts of it. -/
theorem run_empty_text_iff (steps : List (BufferStep α)) :
    (empty.run steps).text = written steps ↔ ∀ before after, steps = before ++ .rewind :: after →
      written before = [] ∨ written after = [] := by
  constructor
  · rintro htext before after rfl
    by_contra hlost
    obtain ⟨hbefore, hafter⟩ := not_or.mp hlost
    have hle : (empty : PutBuffer α).put ≤ (empty : PutBuffer α).text.length := Nat.le_refl _
    have hfirst : (empty.run before).text.length ≤ (written before).length := by
      simpa [empty] using run_length_le hle before
    have hlength := congrArg List.length htext
    rw [run_append, run_cons, written_append, written_rewind, List.length_append] at hlength
    generalize hmid : empty.run before = mid at hfirst hlength
    have hrewind : mid.rewind.put ≤ mid.rewind.text.length := Nat.zero_le _
    by_cases hnil : mid.text = []
    · -- Something was lost before the rewinding already.
      have hsecond : (mid.rewind.run after).text.length ≤ mid.text.length + (written after).length :=
        run_length_le hrewind after
      have hpos : 0 < (written before).length := List.length_pos_of_ne_nil hbefore
      rw [hnil, List.length_nil] at hsecond
      rw [step] at hlength
      omega
    · have hsecond : (mid.rewind.run after).text.length < mid.text.length + (written after).length :=
        run_length_lt rfl hnil hafter
      rw [step] at hlength
      omega
  · intro h
    exact run_text_of_atEnd rfl h

end PutBuffer

end Foundation
