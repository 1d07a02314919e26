import Mathlib.Logic.Function.Basic
import AasSign.Codec.Text
import AasSign.Foundation.Transition

/-! # The worker pool

The multi-file part of `sign_main`: it starts the workers, joins them and writes the
summary. The workers take indices off a shared counter, sign one file at a time, store
the result, and write to stderr. What is written under `log_mu` and what is not is kept
apart; a write takes as many system calls as it takes, or gives up.
-/

namespace AasSign

open Foundation

structure SignResult where
  file : Bytes
  ok : Bool
  error : Bytes
  deriving DecidableEq, Repr

/-- `results(n_files)` before anything is stored. -/
def SignResult.initial : SignResult := ⟨[], false, []⟩

/-- Whose octet it is on stderr. -/
inductive Writer where
  | starting (idx : Nat)
  | block (idx : Nat)
  | retry (idx : Nat)
  | summary
  deriving DecidableEq, Repr

/-- Where a worker stands. `buf` is what its logger holds, `off` how much of the
text in hand is written. -/
inductive WorkerPhase where
  | unstarted
  | claiming
  | claimed (idx : Nat)
  | announcing (idx off : Nat)
  | signing (idx : Nat) (buf : Bytes)
  | retrying (idx : Nat) (buf msg : Bytes) (off : Nat)
  | storing (idx : Nat) (buf : Bytes) (result : SignResult)
  | stored (idx : Nat) (buf : Bytes)
  | flushing (idx : Nat) (buf : Bytes) (off : Nat)
  | ended
  deriving DecidableEq, Repr

namespace WorkerPhase

/-- The index that the worker works on. -/
def idx : WorkerPhase → Option Nat
  | claiming => none
  | claimed i => some i
  | announcing i _ => some i
  | signing i _ => some i
  | retrying i _ _ _ => some i
  | storing i _ _ => some i
  | stored i _ => some i
  | flushing i _ _ => some i
  | unstarted => none
  | ended => none

/-- The index that the worker has taken and not yet signed. -/
def unsigned : WorkerPhase → Option Nat
  | claimed i => some i
  | announcing i _ => some i
  | signing i _ => some i
  | retrying i _ _ _ => some i
  | _ => none

/-- The index of the file in `sign_one_file`. -/
def inSigning : WorkerPhase → Option Nat
  | signing i _ => some i
  | retrying i _ _ _ => some i
  | _ => none

end WorkerPhase

/-- Where `sign_main` stands. -/
inductive MainPhase where
  | starting
  /-- A thread could not be started; those that run are joined on the way out. -/
  | unwinding
  | thrown
  | summarizing (text : Bytes) (off : Nat) (code : Int)
  | returned (code : Int)
  deriving DecidableEq, Repr

/-- The workers have been joined. -/
def MainPhase.Joined : MainPhase → Prop
  | .starting | .unwinding => False
  | .thrown | .summarizing _ _ _ | .returned _ => True

/-- The atomic steps: those of `sign_main`, and those of the worker `w`. -/
inductive PoolAction where
  | spawn
  | spawnFails
  | join
  | summaryWrite (n : Nat)
  | summaryFails
  | summaryWritten
  | fetchAdd (w : Nat)
  | lock (w : Nat)
  | write (w n : Nat)
  | writeFails (w : Nat)
  | written (w : Nat)
  | line (w : Nat) (text : Bytes)
  | transient (w : Nat) (what : Bytes) (attempt : Nat)
  | finish (w : Nat) (outcome : Except Bytes Unit)
  | store (w : Nat)

structure Pool where
  main : MainPhase
  /-- `workers.size()`; the workers are numbered in the order of their start. -/
  started : Nat
  next : Nat
  phase : Nat → WorkerPhase
  results : List SignResult
  logMu : Option Nat
  stderr : List (UInt8 × Writer)
  /-- Who has taken which index. -/
  claims : List (Nat × Nat)
  /-- What `sign_one_file` has returned for which index. -/
  signed : List (Nat × SignResult)

namespace Pool

/-- `prefix_`. -/
def linePrefix (file : Bytes) : Bytes := ascii "[" ++ file ++ ascii "] "

def startingLine (file : Bytes) : Bytes := ascii "[" ++ file ++ ascii "] starting\n"

/-- What `retry_transient` writes after a failed attempt. -/
def retryMessage (what : Bytes) (attempt : Nat) : Bytes :=
  ascii "transient network error: " ++ what ++ ascii "; retrying (attempt " ++
    ascii (toString (attempt + 1)) ++ ascii " of " ++ ascii (toString 3) ++ ascii ")\n"

/-- What `sign_one_file` returns, and what it has logged by then. -/
def signOneFile (file buf : Bytes) : Except Bytes Unit → Bytes × SignResult
  | .ok () => (buf, ⟨file, true, []⟩)
  | .error what =>
      (buf ++ (linePrefix file ++ ascii "error: " ++ what ++ ascii "\n"), ⟨file, false, what⟩)

def failures (results : List SignResult) : List SignResult :=
  results.filter fun r => r.ok = false

def summaryText (results : List SignResult) : Bytes :=
  ascii "Signed " ++ ascii (toString (results.filter SignResult.ok).length) ++ ascii "/" ++
    ascii (toString results.length) ++ ascii " files" ++
    if failures results = [] then ascii " successfully.\n"
    else ascii ". Failures:\n" ++
      (failures results).flatMap fun f => ascii "  " ++ f.file ++ ascii ": " ++ f.error ++ ascii "\n"

def exitCode (results : List SignResult) : Int := if failures results = [] then 0 else 1

def start (files : List Bytes) : Pool where
  main := .starting
  started := 0
  next := 0
  phase _ := .unstarted
  results := List.replicate files.length .initial
  logMu := none
  stderr := []
  claims := []
  signed := []

section Steps

variable (files : List Bytes)

def nWorkers (maxParallel : Nat) : Nat := min maxParallel files.length

def file (i : Nat) : Bytes := files.getD i []

/-- The text that a worker is writing, how far it is, and under which name. -/
def output : WorkerPhase → Option (Writer × Bytes × Nat)
  | .announcing i off => some (.starting i, startingLine (file files i), off)
  | .retrying i _ msg off => some (.retry i, msg, off)
  | .flushing i buf off => some (.block i, buf, off)
  | _ => none

/-- Some more octets are written. -/
def advance (n : Nat) : WorkerPhase → WorkerPhase
  | .announcing i off => .announcing i (off + n)
  | .retrying i buf msg off => .retrying i buf msg (off + n)
  | .flushing i buf off => .flushing i buf (off + n)
  | phase => phase

/-- `write_stderr` has returned. -/
def afterWrite : WorkerPhase → WorkerPhase
  | .announcing i _ => .signing i []
  | .retrying i buf _ _ => .signing i buf
  | .flushing _ _ _ => .claiming
  | phase => phase

/-- The text is written under `log_mu`. -/
def UnderLock : WorkerPhase → Prop
  | .announcing _ _ => True
  | .flushing _ _ _ => True
  | _ => False

instance : DecidablePred UnderLock := fun phase => by
  cases phase <;> unfold UnderLock <;> infer_instance

def setPhase (s : Pool) (w : Nat) (phase : WorkerPhase) : Pool :=
  { s with phase := Function.update s.phase w phase }

/-- `next.fetch_add(1)`, and the test of the loop. -/
def claim (s : Pool) (w : Nat) : Pool :=
  if s.next < files.length then
    { s.setPhase w (.claimed s.next) with
      next := s.next + 1, claims := s.claims ++ [(w, s.next)] }
  else
    { s.setPhase w .ended with next := s.next + 1 }

/-- The end of a `write_stderr`, and of the lock around it. -/
def leaveWrite (s : Pool) (w : Nat) : Pool :=
  { s.setPhase w (afterWrite (s.phase w)) with
    logMu := if UnderLock (s.phase w) then none else s.logMu }

/-- All workers that were started have run out of indices. -/
def Idle (s : Pool) : Prop := ∀ w < s.started, s.phase w = .ended

instance (s : Pool) : Decidable s.Idle := inferInstanceAs (Decidable (∀ w < _, _))

def step (maxParallel : Nat) (s : Pool) : PoolAction → Option Pool
  | .spawn =>
      if s.main = .starting ∧ s.started < nWorkers files maxParallel then
        some { s.setPhase s.started .claiming with started := s.started + 1 }
      else none
  | .spawnFails =>
      -- `emplace_back` throws, and the destructor of `workers` joins.
      if s.main = .starting ∧ s.started < nWorkers files maxParallel then
        some { s with main := .unwinding }
      else none
  | .join =>
      match s.main with
      | .starting =>
          if s.started = nWorkers files maxParallel ∧ s.Idle then
            some { s with main := .summarizing (summaryText s.results) 0 (exitCode s.results) }
          else none
      | .unwinding => if s.Idle then some { s with main := .thrown } else none
      | _ => none
  | .summaryWrite n =>
      match s.main with
      | .summarizing text off code =>
          if 0 < n ∧ off + n ≤ text.length then
            some { s with
              main := .summarizing text (off + n) code
              stderr := s.stderr ++ ((text.drop off).take n).map fun c => (c, .summary) }
          else none
      | _ => none
  | .summaryFails =>
      match s.main with
      | .summarizing text off code =>
          if off < text.length then some { s with main := .returned code } else none
      | _ => none
  | .summaryWritten =>
      match s.main with
      | .summarizing text off code =>
          if off = text.length then some { s with main := .returned code } else none
      | _ => none
  | .fetchAdd w => if s.phase w = .claiming then some (s.claim files w) else none
  | .lock w =>
      if s.logMu.isNone then
        match s.phase w with
        | .claimed i => some { s.setPhase w (.announcing i 0) with logMu := some w }
        | .stored i buf => some { s.setPhase w (.flushing i buf 0) with logMu := some w }
        | _ => none
      else none
  | .write w n =>
      match output files (s.phase w) with
      | some (writer, text, off) =>
          if 0 < n ∧ off + n ≤ text.length then
            some { s.setPhase w (advance n (s.phase w)) with
              stderr := s.stderr ++ ((text.drop off).take n).map fun c => (c, writer) }
          else none
      | none => none
  | .writeFails w =>
      match output files (s.phase w) with
      | some (_, text, off) => if off < text.length then some (s.leaveWrite w) else none
      | none => none
  | .written w =>
      match output files (s.phase w) with
      | some (_, text, off) => if off = text.length then some (s.leaveWrite w) else none
      | none => none
  | .line w text =>
      match s.phase w with
      | .signing i buf => some (s.setPhase w (.signing i (buf ++ (linePrefix (file files i) ++ text))))
      | _ => none
  | .transient w what attempt =>
      match s.phase w with
      | .signing i buf =>
          -- The last of the three attempts throws instead.
          if 0 < attempt ∧ attempt < 3 then
            some (s.setPhase w (.retrying i buf (retryMessage what attempt) 0))
          else none
      | _ => none
  | .finish w outcome =>
      match s.phase w with
      | .signing i buf =>
          let (buf', result) := signOneFile (file files i) buf outcome
          some { s.setPhase w (.storing i buf' result) with signed := s.signed ++ [(i, result)] }
      | _ => none
  | .store w =>
      match s.phase w with
      | .storing i buf result =>
          some { s.setPhase w (.stored i buf) with results := s.results.set i result }
      | _ => none

/-- What an action may do where it can be taken, one rule for each place that it starts from. -/
inductive Acts (maxParallel : Nat) (s : Pool) : PoolAction → Pool → Prop where
  | spawn (hmain : s.main = .starting) (hlt : s.started < nWorkers files maxParallel) :
      Acts maxParallel s .spawn
        { s.setPhase s.started .claiming with started := s.started + 1 }
  | spawnFails (hmain : s.main = .starting) (hlt : s.started < nWorkers files maxParallel) :
      Acts maxParallel s .spawnFails { s with main := .unwinding }
  | join (hmain : s.main = .starting) (hall : s.started = nWorkers files maxParallel)
      (hidle : s.Idle) :
      Acts maxParallel s .join
        { s with main := .summarizing (summaryText s.results) 0 (exitCode s.results) }
  | unwound (hmain : s.main = .unwinding) (hidle : s.Idle) :
      Acts maxParallel s .join { s with main := .thrown }
  | summaryWrite (n : Nat) (text : Bytes) (off : Nat) (code : Int)
      (hmain : s.main = .summarizing text off code) (hn : 0 < n) (hoff : off + n ≤ text.length) :
      Acts maxParallel s (.summaryWrite n) { s with
        main := .summarizing text (off + n) code
        stderr := s.stderr ++ ((text.drop off).take n).map fun c => (c, .summary) }
  | summaryFails (text : Bytes) (off : Nat) (code : Int)
      (hmain : s.main = .summarizing text off code) (hoff : off < text.length) :
      Acts maxParallel s .summaryFails { s with main := .returned code }
  | summaryWritten (text : Bytes) (code : Int)
      (hmain : s.main = .summarizing text text.length code) :
      Acts maxParallel s .summaryWritten { s with main := .returned code }
  | fetchAdd (w : Nat) (hw : s.phase w = .claiming) : Acts maxParallel s (.fetchAdd w) (s.claim files w)
  | announce (w : Nat) (i : Nat) (hmu : s.logMu = none) (hw : s.phase w = .claimed i) :
      Acts maxParallel s (.lock w) { s.setPhase w (.announcing i 0) with logMu := some w }
  | flush (w : Nat) (i : Nat) (buf : Bytes) (hmu : s.logMu = none) (hw : s.phase w = .stored i buf) :
      Acts maxParallel s (.lock w) { s.setPhase w (.flushing i buf 0) with logMu := some w }
  | write (w : Nat) (n : Nat) (writer : Writer) (text : Bytes) (off : Nat)
      (hout : output files (s.phase w) = some (writer, text, off)) (hn : 0 < n)
      (hoff : off + n ≤ text.length) :
      Acts maxParallel s (.write w n) { s.setPhase w (advance n (s.phase w)) with
        stderr := s.stderr ++ ((text.drop off).take n).map fun c => (c, writer) }
  | writeFails (w : Nat) (writer : Writer) (text : Bytes) (off : Nat)
      (hout : output files (s.phase w) = some (writer, text, off)) (hoff : off < text.length) :
      Acts maxParallel s (.writeFails w) (s.leaveWrite w)
  | written (w : Nat) (writer : Writer) (text : Bytes)
      (hout : output files (s.phase w) = some (writer, text, text.length)) :
      Acts maxParallel s (.written w) (s.leaveWrite w)
  | line (w : Nat) (text : Bytes) (i : Nat) (buf : Bytes) (hw : s.phase w = .signing i buf) :
      Acts maxParallel s (.line w text)
        (s.setPhase w (.signing i (buf ++ (linePrefix (file files i) ++ text))))
  | transient (w : Nat) (what : Bytes) (attempt i : Nat) (buf : Bytes)
      (hw : s.phase w = .signing i buf) (hattempt : 0 < attempt ∧ attempt < 3) :
      Acts maxParallel s (.transient w what attempt)
        (s.setPhase w (.retrying i buf (retryMessage what attempt) 0))
  | finish (w : Nat) (outcome : Except Bytes Unit) (i : Nat) (buf : Bytes) (hw : s.phase w = .signing i buf) :
      Acts maxParallel s (.finish w outcome)
        { s.setPhase w (.storing i (signOneFile (file files i) buf outcome).1
            (signOneFile (file files i) buf outcome).2) with
          signed := s.signed ++ [(i, (signOneFile (file files i) buf outcome).2)] }
  | store (w : Nat) (i : Nat) (buf : Bytes) (result : SignResult)
      (hw : s.phase w = .storing i buf result) :
      Acts maxParallel s (.store w)
        { s.setPhase w (.stored i buf) with results := s.results.set i result }

/-- A step follows the rules of its action. -/
theorem step_acts {maxParallel : Nat} {s s' : Pool} {a : PoolAction}
    (h : step files maxParallel s a = some s') : Acts files maxParallel s a s' := by
  cases a with
  | spawn =>
      simp only [step, Option.ite_none_right_eq_some, Option.some.injEq] at h
      obtain ⟨⟨hmain, hlt⟩, rfl⟩ := h
      exact .spawn hmain hlt
  | spawnFails =>
      simp only [step, Option.ite_none_right_eq_some, Option.some.injEq] at h
      obtain ⟨⟨hmain, hlt⟩, rfl⟩ := h
      exact .spawnFails hmain hlt
  | join =>
      simp only [step] at h
      split at h
      next hmain =>
        simp only [Option.ite_none_right_eq_some, Option.some.injEq] at h
        obtain ⟨⟨hall, hidle⟩, rfl⟩ := h
        exact .join hmain hall hidle
      next hmain =>
        simp only [Option.ite_none_right_eq_some, Option.some.injEq] at h
        obtain ⟨hidle, rfl⟩ := h
        exact .unwound hmain hidle
      next => cases h
  | summaryWrite n =>
      simp only [step] at h
      split at h
      next text off code hmain =>
        simp only [Option.ite_none_right_eq_some, Option.some.injEq] at h
        obtain ⟨⟨hn, hoff⟩, rfl⟩ := h
        exact .summaryWrite n text off code hmain hn hoff
      next => cases h
  | summaryFails =>
      simp only [step] at h
      split at h
      next text off code hmain =>
        simp only [Option.ite_none_right_eq_some, Option.some.injEq] at h
        obtain ⟨hoff, rfl⟩ := h
        exact .summaryFails text off code hmain hoff
      next => cases h
  | summaryWritten =>
      simp only [step] at h
      split at h
      next text off code hmain =>
        simp only [Option.ite_none_right_eq_some, Option.some.injEq] at h
        obtain ⟨rfl, rfl⟩ := h
        exact .summaryWritten text code hmain
      next => cases h
  | fetchAdd w =>
      simp only [step, Option.ite_none_right_eq_some, Option.some.injEq] at h
      obtain ⟨hw, rfl⟩ := h
      exact .fetchAdd w hw
  | lock w =>
      simp only [step, Option.ite_none_right_eq_some, Option.isNone_iff_eq_none] at h
      obtain ⟨hmu, h⟩ := h
      split at h
      next i hw =>
        cases h
        exact .announce w i hmu hw
      next i buf hw =>
        cases h
        exact .flush w i buf hmu hw
      next => cases h
  | write w n =>
      simp only [step] at h
      split at h
      next writer text off hout =>
        simp only [Option.ite_none_right_eq_some, Option.some.injEq] at h
        obtain ⟨⟨hn, hoff⟩, rfl⟩ := h
        exact .write w n writer text off hout hn hoff
      next => cases h
  | writeFails w =>
      simp only [step] at h
      split at h
      next writer text off hout =>
        simp only [Option.ite_none_right_eq_some, Option.some.injEq] at h
        obtain ⟨hoff, rfl⟩ := h
        exact .writeFails w writer text off hout hoff
      next => cases h
  | written w =>
      simp only [step] at h
      split at h
      next writer text off hout =>
        simp only [Option.ite_none_right_eq_some, Option.some.injEq] at h
        obtain ⟨rfl, rfl⟩ := h
        exact .written w writer text hout
      next => cases h
  | line w text =>
      simp only [step] at h
      split at h
      next i buf hw =>
        cases h
        exact .line w text i buf hw
      next => cases h
  | transient w what attempt =>
      simp only [step] at h
      split at h
      next i buf hw =>
        simp only [Option.ite_none_right_eq_some, Option.some.injEq] at h
        obtain ⟨hattempt, rfl⟩ := h
        exact .transient w what attempt i buf hw hattempt
      next => cases h
  | finish w outcome =>
      simp only [step] at h
      split at h
      next i buf hw =>
        cases h
        exact .finish w outcome i buf hw
      next => cases h
  | store w =>
      simp only [step] at h
      split at h
      next i buf result hw =>
        cases h
        exact .store w i buf result hw
      next => cases h

end Steps

end Pool

end AasSign
