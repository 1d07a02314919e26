import Mathlib.Data.List.Induction
import Mathlib.Data.List.TakeWhile
import AasSign.Codec.Text

/-! # Command lines on Windows

`run_process` hands a child its arguments as one string, which the child's C
runtime takes apart again. `quote_argument` writes an argument so that it comes
out as it went in. Strings are in UTF-16; the conversion from UTF-8 is a parameter.
-/

namespace AasSign

open Foundation

/-- `std::wstring`. -/
abbrev Wide := List UInt16

/-! ## Quoting -/

/-- The backslashes that wait for what follows them, and the output. -/
structure QuoteState where
  slashes : Nat
  result : Wide
  deriving DecidableEq, Repr

def quoteStep (state : QuoteState) (c : UInt16) : QuoteState :=
  if c = 92 then
    { state with slashes := state.slashes + 1 }
  else
    { slashes := 0
      result := state.result ++
        List.replicate (if c = 34 then state.slashes * 2 + 1 else state.slashes) 92 ++ [c] }

/-- `quote_argument`, on the converted argument. -/
def quoteWide (input : Wide) : Wide :=
  let state := input.foldl quoteStep { slashes := 0, result := [34] }
  state.result ++ List.replicate (state.slashes * 2) 92 ++ [34]

section CommandLine

variable (utf8ToWide : Bytes → Except Exn Wide)

def quoteArgument (arg : Bytes) : Except Exn Wide := do
  throwIf (0 ∈ arg) "execute: argument contains NUL"
  let input ← utf8ToWide arg
  return quoteWide input

/-- The command line of `run_process`. -/
def commandLine (executable resolved : Bytes) (args : List Bytes) : Except Exn Wide := do
  let command ← quoteArgument utf8ToWide resolved
  let command ← args.foldlM (fun command arg => do
    let quoted ← quoteArgument utf8ToWide arg
    return command ++ (32 :: quoted)) command
  throwIf (32767 ≤ command.length)
    ("execute " ++ latin1 executable ++ ": command line exceeds Windows limit")
  return command

end CommandLine

/-! ## Parsing -/

/-- The rules of the C runtime, a character at a time. -/
structure ArgvState where
  slashes : Nat
  quoted : Bool
  /-- The last character was a quote that has ended a quotation. -/
  closed : Bool
  /-- The argument that has begun. -/
  current : Option Wide
  args : List Wide
  deriving DecidableEq, Repr

namespace ArgvState

/-- The argument so far. -/
def text (state : ArgvState) : Wide := state.current.getD []

def step (state : ArgvState) (c : UInt16) : ArgvState :=
  if c = 92 then
    { state with slashes := state.slashes + 1, closed := false, current := some state.text }
  else if c = 34 then
    -- Pairs of backslashes are backslashes; one that is left makes the quote literal.
    let text := state.text ++ List.replicate (state.slashes / 2) 92
    if state.slashes % 2 = 1 then
      { state with slashes := 0, closed := false, current := some (text ++ [34]) }
    else if state.closed then
      -- Two quotes inside a quotation are one of its characters.
      { state with slashes := 0, quoted := true, closed := false, current := some (text ++ [34]) }
    else
      { state with
        slashes := 0
        quoted := !state.quoted
        closed := state.quoted
        current := some text }
  else
    let text := state.text ++ List.replicate state.slashes 92
    if (c = 32 ∨ c = 9) ∧ state.quoted = false then
      { state with
        slashes := 0
        closed := false
        current := none
        args := if state.current.isSome then state.args ++ [text] else state.args }
    else
      { state with slashes := 0, closed := false, current := some (text ++ [c]) }

/-- The end of the line ends an argument that has begun. -/
def finish (state : ArgvState) : List Wide :=
  if state.current.isSome then
    state.args ++ [state.text ++ List.replicate state.slashes 92]
  else state.args

end ArgvState

/-- The arguments behind the program name; a line ends at its first NUL. -/
def crtArguments (line : Wide) : List Wide :=
  ((line.takeWhile (· ≠ 0)).foldl ArgvState.step ⟨0, false, false, none, []⟩).finish

/-! ## Every argument comes back -/

section RoundTrip

variable {n : Nat} {quoted : Bool} {text arg : Wide} {args done : List Wide}

theorem foldl_slashes {slashes : Nat} :
    (List.replicate n 92).foldl ArgvState.step ⟨slashes, quoted, false, some text, done⟩ =
      ⟨slashes + n, quoted, false, some text, done⟩ := by
  induction n generalizing slashes with
  | zero => rfl
  | succ n ih =>
      rw [List.replicate_succ, List.foldl_cons]
      change (List.replicate n 92).foldl ArgvState.step
        ⟨slashes + 1, quoted, false, some text, done⟩ = _
      rw [ih]
      congr 1
      omega

/-- What is written so far reads as the argument so far, apart from the backslashes
that wait; the quotation is still open. -/
theorem foldl_quoteStep {input : Wide} : ∃ text,
    text ++ List.replicate (input.foldl quoteStep ⟨0, [34]⟩).slashes 92 = input ∧
      (input.foldl quoteStep ⟨0, [34]⟩).result.foldl ArgvState.step
        ⟨0, false, false, none, done⟩ = ⟨0, true, false, some text, done⟩ := by
  induction input using List.reverseRecOn with
  | nil => exact ⟨[], rfl, by simp [ArgvState.step, ArgvState.text]⟩
  | append_singleton input c ih =>
      obtain ⟨text, hinput, hread⟩ := ih
      rw [List.foldl_append, List.foldl_cons, List.foldl_nil]
      generalize input.foldl quoteStep ⟨0, [34]⟩ = state at hinput hread ⊢
      obtain ⟨slashes, result⟩ := state
      dsimp only at hinput hread
      by_cases hslash : c = 92
      · refine ⟨text, ?_, ?_⟩
        · rw [quoteStep, if_pos hslash, List.replicate_succ', ← List.append_assoc, hinput, hslash]
        · rw [quoteStep, if_pos hslash]
          exact hread
      · refine ⟨input ++ [c], ?_, ?_⟩
        · rw [quoteStep, if_neg hslash, List.replicate_zero, List.append_nil]
        · rw [quoteStep, if_neg hslash, List.foldl_append, List.foldl_append, hread, foldl_slashes,
            List.foldl_cons, List.foldl_nil, Nat.zero_add]
          by_cases hquote : c = 34
          · have hhalf : (slashes * 2 + 1) / 2 = slashes := by omega
            have hodd : (slashes * 2 + 1) % 2 = 1 := by omega
            simp only [hquote, if_true, ArgvState.step, ArgvState.text, hhalf, hodd, Option.getD_some,
              hinput]
            rfl
          · simp only [if_neg hquote, ArgvState.step, if_neg hslash, ArgvState.text, Option.getD_some,
              hinput, Bool.true_eq_false, and_false, if_false]

/-- A quoted argument reads as the argument. -/
theorem foldl_quoteWide :
    (quoteWide arg).foldl ArgvState.step ⟨0, false, false, none, done⟩ =
      ⟨0, false, true, some arg, done⟩ := by
  obtain ⟨text, harg, hread⟩ := @foldl_quoteStep done arg
  rw [quoteWide]
  generalize arg.foldl quoteStep ⟨0, [34]⟩ = state at harg hread ⊢
  have hhalf : state.slashes * 2 / 2 = state.slashes := by omega
  have heven : state.slashes * 2 % 2 ≠ 1 := by omega
  rw [List.foldl_append, List.foldl_append, hread, foldl_slashes, List.foldl_cons, List.foldl_nil,
    Nat.zero_add]
  simp only [ArgvState.step, ArgvState.text, hhalf, if_neg heven, Option.getD_some, harg]
  rfl

/-- What `run_process` writes behind the program name. -/
def argumentTail (args : List Wide) : Wide := args.flatMap fun arg => 32 :: quoteWide arg

theorem foldl_argumentTail {state : ArgvState} (hslashes : state.slashes = 0)
    (hquoted : state.quoted = false) :
    ((argumentTail args).foldl ArgvState.step state).finish = state.finish ++ args := by
  induction args generalizing state with
  | nil => exact (List.append_nil _).symm
  | cons arg args ih =>
      have hspace : state.step 32 = ⟨0, false, false, none, state.finish⟩ := by
        obtain ⟨slashes, quoted, closed, current, done⟩ := state
        dsimp only at hslashes hquoted
        subst hslashes hquoted
        cases current <;> rfl
      rw [argumentTail, List.flatMap_cons, List.foldl_append, List.foldl_cons, hspace,
        foldl_quoteWide]
      change ((argumentTail args).foldl ArgvState.step _).finish = _
      rw [ih rfl rfl]
      simp [ArgvState.finish, ArgvState.text]

theorem mem_quoteWide {c : UInt16} (h : c ∈ quoteWide arg) : c = 34 ∨ c = 92 ∨ c ∈ arg := by
  have hfold (input : Wide) (state : QuoteState) (hstate : ∀ c ∈ state.result, c = 34 ∨ c = 92 ∨ c ∈ arg)
      (hinput : ∀ c ∈ input, c ∈ arg) :
      ∀ c ∈ (input.foldl quoteStep state).result, c = 34 ∨ c = 92 ∨ c ∈ arg := by
    induction input generalizing state with
    | nil => exact hstate
    | cons d input ih =>
        refine ih _ ?_ fun c hc => hinput c (List.mem_cons_of_mem d hc)
        intro c hc
        rw [quoteStep] at hc
        split at hc
        · exact hstate c hc
        · simp only [List.mem_append, List.mem_replicate, List.mem_singleton] at hc
          rcases hc with (hc | hc) | hc
          · exact hstate c hc
          · exact .inr (.inl hc.2)
          · exact .inr (.inr (hc ▸ hinput d List.mem_cons_self))
  rw [quoteWide] at h
  simp only [List.mem_append, List.mem_replicate, List.mem_singleton] at h
  rcases h with (h | h) | h
  · exact hfold arg _ (by simp) (fun _ => id) c h
  · exact .inr (.inl h.2)
  · exact .inl h

theorem argumentTail_noNul (hargs : ∀ arg ∈ args, 0 ∉ arg) : 0 ∉ argumentTail args := by
  intro h
  obtain ⟨arg, harg, hmem⟩ := List.mem_flatMap.mp h
  rcases List.mem_cons.mp hmem with hspace | hquoted
  · exact absurd hspace (by decide)
  · rcases mem_quoteWide hquoted with hquote | hslash | hzero
    · exact absurd hquote (by decide)
    · exact absurd hslash (by decide)
    · exact hargs arg harg hzero

end RoundTrip

section Tail

variable {utf8ToWide : Bytes → Except Exn Wide} {args : List Bytes} {wides : List Wide}
  {program command : Wide}

theorem quoteArgument_eq_ok {arg : Bytes} {quoted : Wide} :
    quoteArgument utf8ToWide arg = .ok quoted ↔
      0 ∉ arg ∧ ∃ wide, utf8ToWide arg = .ok wide ∧ quoted = quoteWide wide := by
  simp only [quoteArgument, bind_eq_ok, throwIf_eq_ok, pure, Except.pure, Except.ok.injEq]
  constructor
  · rintro ⟨_, hnul, wide, hwide, rfl⟩
    exact ⟨hnul, wide, hwide, rfl⟩
  · rintro ⟨hnul, wide, hwide, rfl⟩
    exact ⟨(), hnul, wide, hwide, rfl⟩

theorem foldlM_quoteArgument (hwides : List.Forall₂ (fun arg wide => utf8ToWide arg = .ok wide) args wides)
    (h : args.foldlM (fun command arg => do
      let quoted ← quoteArgument utf8ToWide arg
      return command ++ (32 :: quoted)) program = .ok command) :
    command = program ++ argumentTail wides := by
  induction hwides generalizing program with
  | nil =>
      cases h
      exact (List.append_nil _).symm
  | @cons arg wide args wides hwide hrest ih =>
      rw [List.foldlM_cons, bind_eq_ok] at h
      obtain ⟨next, hnext, h⟩ := h
      obtain ⟨quoted, hquoted, hnext⟩ := bind_eq_ok.mp hnext
      cases hnext
      obtain ⟨-, wide', hwide', rfl⟩ := quoteArgument_eq_ok.mp hquoted
      obtain rfl : wide = wide' := Except.ok.inj (hwide.symm.trans hwide')
      rw [ih h, List.append_assoc]
      rfl

end Tail

/-- The arguments that are written behind the program name are the arguments that a
child takes from there: as many, with the same characters. -/
theorem crtArguments_commandLine {wides : List Wide} (hnul : ∀ wide ∈ wides, 0 ∉ wide) :
    crtArguments (argumentTail wides) = wides ∧
      ∀ (utf8ToWide : Bytes → Except Exn Wide) (executable resolved : Bytes) (args : List Bytes)
        (command : Wide), List.Forall₂ (fun arg wide => utf8ToWide arg = .ok wide) args wides →
        commandLine utf8ToWide executable resolved args = .ok command →
        ∃ program, quoteArgument utf8ToWide resolved = .ok program ∧
          command = program ++ argumentTail wides := by
  refine ⟨?_, fun utf8ToWide executable resolved args command hwides hcommand => ?_⟩
  · have hline : (argumentTail wides).takeWhile (· ≠ 0) = argumentTail wides := by
      rw [List.takeWhile_eq_self_iff]
      intro c hc
      simpa using fun hzero : c = 0 => argumentTail_noNul hnul (hzero ▸ hc)
    rw [crtArguments, hline, foldl_argumentTail rfl rfl]
    rfl
  · simp only [commandLine, bind_eq_ok] at hcommand
    obtain ⟨program, hprogram, command', hargs, _, _, hcommand⟩ := hcommand
    cases hcommand
    exact ⟨program, hprogram, foldlM_quoteArgument hwides hargs⟩

/-- A quote behind backslashes, a trailing backslash, and an empty argument. -/
theorem crtArguments_sample :
    crtArguments (argumentTail [[97, 92, 92, 34, 32], [], [98, 92]]) =
        [[97, 92, 92, 34, 32], [], [98, 92]] ∧
      ∀ (utf8ToWide : Bytes → Except Exn Wide) (executable resolved : Bytes) (args : List Bytes)
        (command : Wide), List.Forall₂ (fun arg wide => utf8ToWide arg = .ok wide) args
          [[97, 92, 92, 34, 32], [], [98, 92]] →
        commandLine utf8ToWide executable resolved args = .ok command →
        ∃ program, quoteArgument utf8ToWide resolved = .ok program ∧
          command = program ++ argumentTail [[97, 92, 92, 34, 32], [], [98, 92]] :=
  crtArguments_commandLine (by decide)

/-- Two quotes inside a quotation. -/
example : crtArguments [34, 97, 34, 34, 32, 98, 34, 99] = [[97, 34, 32, 98, 99]] := by decide

end AasSign
