import AasSign.Pool.ExactlyOnce

/-! # The summary

`sign_main` joins the workers before it reads their results. What it then writes
counts the files that were signed and lists the others, in the order of the files.
-/

namespace AasSign

open Foundation

namespace Pool

/-- A line for each file that could not be signed, in their order. -/
inductive FailureLines : List SignResult → Bytes → Prop where
  | nil : FailureLines [] []
  | signed {r : SignResult} {results : List SignResult} {lines : Bytes} (hok : r.ok = true)
      (hrest : FailureLines results lines) : FailureLines (r :: results) lines
  | failed {r : SignResult} {results : List SignResult} {lines : Bytes} (hok : r.ok = false)
      (hrest : FailureLines results lines) :
      FailureLines (r :: results)
        (ascii "  " ++ r.file ++ ascii ": " ++ r.error ++ ascii "\n" ++ lines)

/-- What a summary of the results says. -/
inductive Summarizes (results : List SignResult) : Bytes → Prop where
  | success (hall : ∀ r ∈ results, r.ok = true) :
      Summarizes results (ascii "Signed " ++ ascii (toString results.length) ++ ascii "/" ++
        ascii (toString results.length) ++ ascii " files successfully.\n")
  | failures (lines : Bytes) (hsome : ∃ r ∈ results, r.ok = false)
      (hlines : FailureLines results lines) :
      Summarizes results (ascii "Signed " ++ ascii (toString (results.countP SignResult.ok)) ++
        ascii "/" ++ ascii (toString results.length) ++ ascii " files. Failures:\n" ++ lines)

theorem failureLines (results : List SignResult) : FailureLines results
    ((failures results).flatMap fun f =>
      ascii "  " ++ f.file ++ ascii ": " ++ f.error ++ ascii "\n") := by
  induction results with
  | nil => exact .nil
  | cons r results ih =>
      cases hok : r.ok with
      | false =>
          rw [failures, List.filter_cons_of_pos (by simp [hok]), List.flatMap_cons]
          exact .failed hok ih
      | true =>
          rw [failures, List.filter_cons_of_neg (by simp [hok])]
          exact .signed hok ih

theorem failures_eq_nil {results : List SignResult} :
    failures results = [] ↔ ∀ r ∈ results, r.ok = true := by
  simp [failures, List.filter_eq_nil_iff]

theorem summaryText_summarizes (results : List SignResult) :
    Summarizes results (summaryText results) := by
  unfold summaryText
  split
  next hnone =>
    have hall := failures_eq_nil.mp hnone
    rw [List.filter_eq_self.mpr hall, List.append_assoc _ (ascii " files")]
    exact .success hall
  next hsome =>
    have hfailed : ∃ r ∈ results, r.ok = false := by
      simpa using mt failures_eq_nil.mpr hsome
    rw [← List.countP_eq_length_filter, ← List.append_assoc, List.append_assoc _ (ascii " files")]
    exact .failures _ hfailed (failureLines results)

theorem exitCode_eq_zero {results : List SignResult} :
    exitCode results = 0 ↔ ∀ r ∈ results, r.ok = true := by
  rw [← failures_eq_nil, exitCode]
  split <;> simp_all

/-- The octets that one writer has on stderr. -/
def writtenBy (writer : Writer) (stderr : List (UInt8 × Writer)) : Bytes :=
  (stderr.filter fun c => c.2 = writer).map Prod.fst

theorem writtenBy_append {writer : Writer} {stderr : List (UInt8 × Writer)} (chunk : Bytes)
    (other : Writer) : writtenBy writer (stderr ++ chunk.map fun c => (c, other)) =
      writtenBy writer stderr ++ if other = writer then chunk else [] := by
  unfold writtenBy
  rw [List.filter_append, List.map_append]
  congr 1
  split
  next heq =>
    rw [List.filter_eq_self.mpr (by simp [heq]), List.map_map]
    exact List.map_id _
  next hne => simp [hne]

/-- The summary, as far as it is on stderr. -/
def summary (s : Pool) : Bytes := writtenBy .summary s.stderr

/-- How far `sign_main` is with the summary, by where it stands. -/
inductive Told (files : List Bytes) (maxParallel : Nat) (whole : Prop) (s : Pool) : Prop where
  | running (hmain : ¬ s.main.Joined) (hnone : s.summary = [])
  | thrown (hmain : s.main = .thrown) (hidle : s.Idle) (hnone : s.summary = [])
  | summarizing (off : Nat)
      (hmain : s.main = .summarizing (summaryText s.results) off (exitCode s.results))
      (hidle : s.Idle) (hall : s.started = nWorkers files maxParallel)
      (hfront : s.summary = (summaryText s.results).take off)
  | returned (hmain : s.main = .returned (exitCode s.results)) (hidle : s.Idle)
      (hall : s.started = nWorkers files maxParallel)
      (hfront : s.summary <+: summaryText s.results)
      (hwhole : whole → s.summary = summaryText s.results)

section Step

variable {files : List Bytes} {maxParallel : Nat} {whole : Prop} {s s' : Pool} {w : Nat}
  {a : PoolAction}

theorem start_told : Told files maxParallel whole (start files) := .running id rfl

/-- A worker at work has not been joined. -/
theorem Told.working (h : Told files maxParallel whole s) (hinv : Inv files maxParallel s)
    (hstarted : s.phase w ≠ .unstarted) (hended : s.phase w ≠ .ended)
    (hmain : s'.main = s.main) (hsummary : s'.summary = s.summary) :
    Told files maxParallel whole s' := by
  have hbusy : ¬ s.Idle := fun hidle => hended (hidle w (hinv.lt_started hstarted))
  cases h with
  | running hjoined hnone => exact .running (hmain ▸ hjoined) (hsummary.trans hnone)
  | thrown _ hidle => exact absurd hidle hbusy
  | summarizing _ _ hidle => exact absurd hidle hbusy
  | returned _ hidle => exact absurd hidle hbusy

/-- Before the workers are joined nothing of the summary is written. -/
theorem Told.not_joined (h : Told files maxParallel whole s) (hmain : ¬ s.main.Joined) :
    s.summary = [] := by
  cases h with
  | running _ hnone => exact hnone
  | thrown hthrown => simp [hthrown, MainPhase.Joined] at hmain
  | summarizing _ hsum => simp [hsum, MainPhase.Joined] at hmain
  | returned hret => simp [hret, MainPhase.Joined] at hmain

/-- While the summary is written, the results are as they were, and what is on stderr is the
front of it. -/
theorem Told.at_summary (h : Told files maxParallel whole s) {text : Bytes} {off : Nat} {code : Int}
    (hmain : s.main = .summarizing text off code) :
    text = summaryText s.results ∧ code = exitCode s.results ∧ s.Idle ∧
      s.started = nWorkers files maxParallel ∧ s.summary = text.take off := by
  cases h with
  | running hjoined => simp [hmain, MainPhase.Joined] at hjoined
  | thrown hthrown => simp [hmain] at hthrown
  | summarizing off' hsum hidle hall hfront =>
      rw [hmain] at hsum
      cases hsum
      exact ⟨rfl, rfl, hidle, hall, hfront⟩
  | returned hret => simp [hmain] at hret

/-- When `sign_main` has returned, the front of the summary is on stderr. -/
theorem Told.at_return (h : Told files maxParallel whole s) {code : Int}
    (hmain : s.main = .returned code) :
    code = exitCode s.results ∧ s.Idle ∧ s.started = nWorkers files maxParallel ∧
      s.summary <+: summaryText s.results ∧ (whole → s.summary = summaryText s.results) := by
  cases h with
  | running hjoined => simp [hmain, MainPhase.Joined] at hjoined
  | thrown hthrown => simp [hmain] at hthrown
  | summarizing _ hsum => simp [hmain] at hsum
  | returned hret hidle hall hfront hwhole =>
      rw [hmain] at hret
      cases hret
      exact ⟨rfl, hidle, hall, hfront, hwhole⟩

/-- A worker that writes is at work, and what it writes is not the summary. -/
theorem output_working {phase : WorkerPhase} {writer : Writer} {text : Bytes} {off : Nat}
    (h : output files phase = some (writer, text, off)) :
    phase ≠ .unstarted ∧ phase ≠ .ended ∧ writer ≠ .summary := by
  cases phase with
  | announcing i o | retrying i buf msg o | flushing i buf o =>
      cases h
      simp
  | _ => cases h

theorem Told.next (h : Told files maxParallel whole s) (hinv : Inv files maxParallel s)
    (hwhole : whole → a ≠ .summaryFails) (hstep : step files maxParallel s a = some s') :
    Told files maxParallel whole s' := by
  cases step_acts files hstep with
  | spawn hmain hlt =>
      have hjoined : ¬ s.main.Joined := by simp [hmain, MainPhase.Joined]
      exact .running hjoined (h.not_joined hjoined)
  | spawnFails hmain hlt =>
      exact .running id (h.not_joined (by simp [hmain, MainPhase.Joined]))
  | join hmain hall hidle =>
      refine .summarizing 0 rfl hidle hall ?_
      exact h.not_joined (by simp [hmain, MainPhase.Joined])
  | unwound hmain hidle =>
      exact .thrown rfl hidle (h.not_joined (by simp [hmain, MainPhase.Joined]))
  | summaryWrite n text off code hmain hn hoff =>
      obtain ⟨rfl, rfl, hidle, hall, hfront⟩ := h.at_summary hmain
      refine .summarizing (off + n) rfl hidle hall ?_
      rw [List.take_add, ← hfront]
      exact (writtenBy_append _ _).trans (by rw [if_pos rfl, summary])
  | summaryFails text off code hmain hoff =>
      obtain ⟨rfl, rfl, hidle, hall, hfront⟩ := h.at_summary hmain
      refine .returned rfl hidle hall ?_ fun hw => absurd rfl (hwhole hw)
      exact hfront ▸ List.take_prefix off _
  | summaryWritten text code hmain =>
      obtain ⟨rfl, rfl, hidle, hall, hfront⟩ := h.at_summary hmain
      rw [List.take_length] at hfront
      exact .returned rfl hidle hall (hfront ▸ List.prefix_rfl) fun _ => hfront
  | fetchAdd w hw =>
      refine h.working (w := w) hinv (by simp [hw]) (by simp [hw]) ?_ ?_ <;>
        unfold claim <;> split <;> rfl
  | announce w i hmu hw => exact h.working (w := w) hinv (by simp [hw]) (by simp [hw]) rfl rfl
  | flush w i buf hmu hw => exact h.working (w := w) hinv (by simp [hw]) (by simp [hw]) rfl rfl
  | write w n writer text off hout =>
      obtain ⟨hstarted, hended, hwriter⟩ := output_working hout
      refine h.working hinv hstarted hended rfl ?_
      exact (writtenBy_append _ _).trans (by rw [if_neg hwriter, List.append_nil, summary])
  | writeFails w writer text off hout =>
      obtain ⟨hstarted, hended, -⟩ := output_working hout
      exact h.working hinv hstarted hended rfl rfl
  | written w writer text hout =>
      obtain ⟨hstarted, hended, -⟩ := output_working hout
      exact h.working hinv hstarted hended rfl rfl
  | line w text i buf hw => exact h.working (w := w) hinv (by simp [hw]) (by simp [hw]) rfl rfl
  | transient w what attempt i buf hw =>
      exact h.working (w := w) hinv (by simp [hw]) (by simp [hw]) rfl rfl
  | finish w outcome i buf hw =>
      exact h.working (w := w) hinv (by simp [hw]) (by simp [hw]) rfl rfl
  | store w i buf result hw =>
      exact h.working (w := w) hinv (by simp [hw]) (by simp [hw]) rfl rfl

/-- Where the run never gives up on the summary, all of it is written. -/
theorem reaches_told {allowed : Pool → PoolAction → Prop}
    (h : Reaches (step files maxParallel) allowed (start files) s) :
    Told files maxParallel (∀ s, ¬ allowed s .summaryFails) s := by
  have hboth : Inv files maxParallel s ∧
      Told files maxParallel (∀ s, ¬ allowed s .summaryFails) s := by
    induction h with
    | start => exact ⟨start_inv, start_told⟩
    | next _ hallowed hstep ih =>
        refine ⟨(step_change hstep).inv ih.1, ih.2.next ih.1 ?_ hstep⟩
        rintro hwhole rfl
        exact hwhole _ hallowed
  exact hboth.2

end Step

def sampleFiles : List Bytes := [[97], [98]]

/-- Two workers take the files the other way round; the second file cannot be signed. -/
def sampleRun : List PoolAction :=
  [.spawn, .spawn, .fetchAdd 1, .fetchAdd 0,
    .lock 0, .write 0 13, .written 0, .lock 1, .write 1 13, .written 1,
    .finish 0 (.error [63]), .store 0, .finish 1 (.ok ()), .store 1,
    .lock 0, .write 0 13, .written 0, .fetchAdd 0, .lock 1, .written 1, .fetchAdd 1,
    .join, .summaryWrite 20, .summaryWrite 15, .summaryWritten]

end Pool

end AasSign
