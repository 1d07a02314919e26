import AasSign.Foundation.Contiguous
import AasSign.Pool.Summary

/-! # Narratives on stderr

The block of a file is written under `log_mu`, in as many writes as it takes. Blocks
and `starting` lines keep out of each other's way; `retry_transient` writes without
the lock, so that a block stays together as long as no retry is reported while a
part of it is written.
-/

namespace AasSign

open Foundation

namespace WorkerPhase

/-- A part of the block is on stderr. -/
def Begun : WorkerPhase → Prop
  | flushing _ _ off => 0 < off
  | _ => False

/-- A part of the block is on stderr, and another part is not. -/
def PartlyFlushed : WorkerPhase → Prop
  | flushing _ buf off => 0 < off ∧ off < buf.length
  | _ => False

def Retrying : WorkerPhase → Prop
  | retrying _ _ _ _ => True
  | _ => False

instance : DecidablePred Begun
  | flushing _ _ off => inferInstanceAs (Decidable (0 < off))
  | unstarted | claiming | claimed _ | announcing _ _ | signing _ _ | retrying _ _ _ _
  | storing _ _ _ | stored _ _ | ended => isFalse id

instance : DecidablePred PartlyFlushed
  | flushing _ buf off => inferInstanceAs (Decidable (0 < off ∧ off < buf.length))
  | unstarted | claiming | claimed _ | announcing _ _ | signing _ _ | retrying _ _ _ _
  | storing _ _ _ | stored _ _ | ended => isFalse id

instance : DecidablePred Retrying
  | retrying _ _ _ _ => isTrue trivial
  | unstarted | claiming | claimed _ | announcing _ _ | signing _ _ | storing _ _ _
  | stored _ _ | flushing _ _ _ | ended => isFalse id

end WorkerPhase

open WorkerPhase

namespace Pool

/-- The octet is of the block of the file. -/
def OfBlock (i : Nat) (c : UInt8 × Writer) : Prop := c.2 = .block i

instance (i : Nat) : DecidablePred (OfBlock i) := fun c => inferInstanceAs (Decidable (c.2 = _))

/-- Nothing of another file is within the block of a file. -/
def NarrativesApart (s : Pool) : Prop := ∀ i, Contiguous (OfBlock i) s.stderr

/-- A retry is not reported while a block is partly written. -/
def Undisturbed (s : Pool) : PoolAction → Prop
  | .write w _ => Retrying (s.phase w) → ∀ v < s.started, ¬ PartlyFlushed (s.phase v)
  | _ => True

instance (s : Pool) (a : PoolAction) : Decidable (Undisturbed s a) := by
  cases a <;> unfold Undisturbed <;> infer_instance

/-- What holds of stderr in every state of an undisturbed run. -/
structure Apart (s : Pool) : Prop where
  lock : ∀ w, UnderLock (s.phase w) → s.logMu = some w
  blocks : NarrativesApart s
  fresh : ∀ i, s.next ≤ i → ∀ c ∈ s.stderr, ¬ OfBlock i c
  waiting : ∀ w i, (s.phase w).idx = some i → ¬ Begun (s.phase w) → ∀ c ∈ s.stderr, ¬ OfBlock i c
  begun : ∀ w i buf off, s.phase w = .flushing i buf off → off < buf.length →
    EndsIn (OfBlock i) s.stderr

section Keep

variable {files : List Bytes} {maxParallel : Nat} {s s' : Pool} {w : Nat} {phase : WorkerPhase}
  {i : Nat} {a : PoolAction}

theorem start_apart : Apart (start files : Pool) where
  lock := by simp [start, UnderLock]
  blocks := by simp [start, NarrativesApart, Contiguous]
  fresh := by simp [start]
  waiting := by simp [start]
  begun := by simp [start]

/-- The worker goes on without a word, to where it holds no lock. -/
theorem Apart.silent (h : Apart s) (hlock : ¬ UnderLock phase) {next : Nat} (hnext : s.next ≤ next)
    (hidx : ∀ i, phase.idx = some i → ∀ c ∈ s.stderr, ¬ OfBlock i c) {logMu : Option Nat}
    (hmu : ∀ v, v ≠ w → s.logMu = some v → logMu = some v) {results : List SignResult}
    {claims : List (Nat × Nat)} {signed : List (Nat × SignResult)} :
    Apart { s.setPhase w phase with next, logMu, results, claims, signed } where
  lock := by
    intro v hv
    by_cases heq : v = w
    · rw [setPhase_phase, if_pos heq] at hv
      exact absurd hv hlock
    · rw [setPhase_phase, if_neg heq] at hv
      exact hmu v heq (h.lock v hv)
  blocks := h.blocks
  fresh := fun i hi => h.fresh i (hnext.trans hi)
  waiting := by
    intro v i hv hbegun
    simp only [setPhase_phase] at hv hbegun
    split at hv
    · exact hidx i hv
    next heq =>
      rw [if_neg heq] at hbegun
      exact h.waiting v i hv hbegun
  begun := by
    intro v i buf off hv
    refine h.begun v i buf off (setPhase_before (f := id) hv ?_)
    rintro rfl
    exact hlock trivial

/-- The worker has taken the lock and has not written yet. -/
theorem Apart.locked (h : Apart s) (hmu : s.logMu = none) (hidx : phase.idx = (s.phase w).idx)
    (hold : ¬ Begun (s.phase w)) : Apart { s.setPhase w phase with logMu := some w } where
  lock := by
    intro v hv
    by_cases heq : v = w
    · rw [heq]
    · rw [setPhase_phase, if_neg heq] at hv
      have hlock := h.lock v hv
      rw [hmu] at hlock
      cases hlock
  blocks := h.blocks
  fresh := h.fresh
  waiting := by
    intro v i hv hbegun
    simp only [setPhase_phase] at hv hbegun
    split at hv
    · exact h.waiting w i (hidx.symm.trans hv) hold
    next heq =>
      rw [if_neg heq] at hbegun
      exact h.waiting v i hv hbegun
  begun := by
    intro v i buf off hv hoff
    simp only [setPhase_phase] at hv
    split at hv
    · refine endsIn_of_none (h.waiting w i ?_ hold)
      rw [← hidx, hv]
      rfl
    · exact h.begun v i buf off hv hoff

/-- The worker is further in a text that is not a block. -/
theorem Apart.moved (h : Apart s) (hidx : phase.idx = (s.phase w).idx)
    (hlock : UnderLock phase → UnderLock (s.phase w)) (hold : ¬ Begun (s.phase w))
    (hnew : ∀ i buf off, phase ≠ .flushing i buf off) : Apart (s.setPhase w phase) where
  lock := by
    intro v hv
    rw [setPhase_phase] at hv
    split at hv
    next heq =>
      rw [heq]
      exact h.lock w (hlock hv)
    next => exact h.lock v hv
  blocks := h.blocks
  fresh := h.fresh
  waiting := by
    intro v i hv hbegun
    rw [setPhase_phase] at hv hbegun
    split at hv
    · exact h.waiting w i (hidx.symm.trans hv) hold
    next heq =>
      rw [if_neg heq] at hbegun
      exact h.waiting v i hv hbegun
  begun := fun v i buf off hv => h.begun v i buf off (setPhase_before (f := id) hv (hnew i buf off))

/-- What is not of a block may be written while no block is partly written. -/
theorem Apart.aside (h : Apart s) {chunk : List (UInt8 × Writer)}
    (hchunk : ∀ i, ∀ c ∈ chunk, ¬ OfBlock i c) (hfree : ∀ v, ¬ PartlyFlushed (s.phase v)) :
    Apart { s with stderr := s.stderr ++ chunk } where
  lock := h.lock
  blocks := fun i => contiguous_append (h.blocks i) (hchunk i)
  fresh := fun i hi => List.forall_mem_append.mpr ⟨h.fresh i hi, hchunk i⟩
  waiting := fun v i hv hbegun => List.forall_mem_append.mpr ⟨h.waiting v i hv hbegun, hchunk i⟩
  begun := by
    intro v i buf off hv hoff
    have hbegun : ¬ Begun (s.phase v) := by
      intro hbegun
      have hpartly := hfree v
      rw [hv] at hbegun hpartly
      exact hpartly ⟨hbegun, hoff⟩
    exact endsIn_of_none
      (List.forall_mem_append.mpr ⟨h.waiting v i (by rw [hv]; rfl) hbegun, hchunk i⟩)

/-- The next octets of a block come right behind those before. -/
theorem Apart.block (h : Apart s) (hinv : Inv files maxParallel s) {buf : Bytes} {off n : Nat}
    (hw : s.phase w = .flushing i buf off) (hn : 0 < n) (hoff : off + n ≤ buf.length)
    {chunk : List (UInt8 × Writer)} (hchunk : ∀ c ∈ chunk, OfBlock i c) :
    Apart { s.setPhase w (.flushing i buf (off + n)) with stderr := s.stderr ++ chunk } := by
  have hends : EndsIn (OfBlock i) (s.stderr ++ chunk) :=
    (h.begun w i buf off hw (by omega)).append hchunk
  have hother (j : Nat) (hj : j ≠ i) : ∀ c ∈ chunk, ¬ OfBlock j c := by
    intro c hc heq
    have hwriter : Writer.block j = .block i := heq.symm.trans (hchunk c hc)
    cases hwriter
    exact hj rfl
  have hmine (v : Nat) (hv : (s.phase v).idx = some i) : v = w :=
    hinv.distinct v w i hv (by rw [hw]; rfl)
  constructor
  case lock =>
    intro v hv
    by_cases heq : v = w
    · rw [heq]
      exact h.lock w (by rw [hw]; trivial)
    · rw [setPhase_phase, if_neg heq] at hv
      exact h.lock v hv
  case blocks =>
    intro j
    by_cases hj : j = i
    · exact hj ▸ hends.contiguous
    · exact contiguous_append (h.blocks j) (hother j hj)
  case fresh =>
    intro j hj
    have hlt : i < s.next := (hinv.lt_taken (w := w) (by rw [hw]; rfl)).trans_le (min_le_left _ _)
    have hne : j ≠ i := by
      rintro rfl
      exact Nat.lt_irrefl _ (hlt.trans_le hj)
    exact List.forall_mem_append.mpr ⟨h.fresh j hj, hother j hne⟩
  case waiting =>
    intro v j hv hbegun
    simp only [setPhase_phase] at hv hbegun
    split at hv
    next heq =>
      rw [if_pos heq] at hbegun
      exact absurd (show 0 < off + n by omega) hbegun
    next heq =>
      rw [if_neg heq] at hbegun
      have hne : j ≠ i := by
        rintro rfl
        exact heq (hmine v hv)
      exact List.forall_mem_append.mpr ⟨h.waiting v j hv hbegun, hother j hne⟩
  case begun =>
    intro v j b o hv ho
    simp only [setPhase_phase] at hv
    split at hv
    · cases hv
      exact hends
    next heq =>
      -- A second block in hand would be under the same lock.
      have hlockv := h.lock v (by rw [hv]; trivial)
      have hlockw := h.lock w (by rw [hw]; trivial)
      rw [hlockw] at hlockv
      exact absurd (Option.some.inj hlockv).symm heq

theorem Apart.leaveWrite (h : Apart s) {found : Writer × Bytes × Nat}
    (hout : output files (s.phase w) = some found) : Apart (s.leaveWrite w) := by
  unfold Pool.leaveWrite
  have hlock : ¬ UnderLock (afterWrite (s.phase w)) := by
    cases hw : s.phase w <;> simp_all [output, afterWrite, UnderLock]
  have hidx (i : Nat) (hi : (afterWrite (s.phase w)).idx = some i) :
      ∀ c ∈ s.stderr, ¬ OfBlock i c := by
    refine h.waiting w i ?_ ?_ <;>
      cases hw : s.phase w <;> simp_all [output, afterWrite, WorkerPhase.idx, Begun]
  refine h.silent hlock (Nat.le_refl _) hidx fun v hv hmu => ?_
  rw [if_neg, hmu]
  intro hunder
  have hmine := h.lock w hunder
  rw [hmu] at hmine
  exact hv (Option.some.inj hmine)

/-- Some more of a text that is not a block is written. -/
theorem Apart.advance (h : Apart s) {writer : Writer} {text : Bytes} {off : Nat} (n : Nat)
    (hout : output files (s.phase w) = some (writer, text, off))
    (hwriter : ∀ i, writer ≠ .block i) (hfree : ∀ v, ¬ PartlyFlushed (s.phase v)) :
    Apart { s.setPhase w (advance n (s.phase w)) with
      stderr := s.stderr ++ ((text.drop off).take n).map fun c => (c, writer) } := by
  have hphase : ∀ i buf o, s.phase w ≠ .flushing i buf o := by
    intro i buf o hw
    rw [hw] at hout
    cases hout
    exact hwriter i rfl
  have hnew : ∀ i buf o, Pool.advance n (s.phase w) ≠ .flushing i buf o := by
    cases hw : s.phase w <;> simp_all [Pool.advance]
  have hmoved : Apart (s.setPhase w (Pool.advance n (s.phase w))) := by
    refine h.moved idx_advance ?_ ?_ hnew
    · cases s.phase w <;> simp [Pool.advance, UnderLock]
    · cases hw : s.phase w <;> simp_all [Begun]
  refine hmoved.aside ?_ ?_
  · intro i c hc
    obtain ⟨_, _, rfl⟩ := List.mem_map.mp hc
    exact hwriter i
  · intro v
    rw [setPhase_phase]
    split
    · cases hw : Pool.advance n (s.phase w) <;> simp_all [PartlyFlushed]
    · exact hfree v

/-- A worker that was not started has no block. -/
theorem Inv.not_partlyFlushed (h : Inv files maxParallel s)
    (hfree : ∀ v < s.started, ¬ PartlyFlushed (s.phase v)) (v : Nat) :
    ¬ PartlyFlushed (s.phase v) := by
  by_cases hv : v < s.started
  · exact hfree v hv
  · simp [h.unstarted v (Nat.le_of_not_lt hv), PartlyFlushed]

/-- Under the lock of one worker no other one has a block partly written. -/
theorem Apart.nobody (h : Apart s) (hw : UnderLock (s.phase w))
    (hnot : ∀ i buf off, s.phase w ≠ .flushing i buf off) (v : Nat) : ¬ PartlyFlushed (s.phase v) := by
  intro hpartly
  have hunder : UnderLock (s.phase v) := by
    cases hv : s.phase v <;> simp_all [PartlyFlushed, UnderLock]
  have hmine := h.lock w hw
  rw [h.lock v hunder] at hmine
  rw [Option.some.inj hmine] at hpartly
  cases hphase : s.phase w <;> simp_all [PartlyFlushed]

theorem Apart.write (h : Apart s) (hinv : Inv files maxParallel s) {writer : Writer} {text : Bytes} {off n : Nat}
    (hfree : Undisturbed s (.write w n))
    (hout : output files (s.phase w) = some (writer, text, off)) (hn : 0 < n)
    (hoff : off + n ≤ text.length) :
    Apart { s.setPhase w (Pool.advance n (s.phase w)) with
      stderr := s.stderr ++ ((text.drop off).take n).map fun c => (c, writer) } := by
  cases hw : s.phase w with
  | announcing i o =>
      have hnobody := h.nobody (w := w) (by simp [hw, UnderLock]) (by simp [hw])
      rw [← hw]
      refine h.advance n hout ?_ hnobody
      rw [hw] at hout
      cases hout
      simp
  | retrying i buf msg o =>
      have hnobody := hinv.not_partlyFlushed (hfree (by simp [hw, Retrying]))
      rw [← hw]
      refine h.advance n hout ?_ hnobody
      rw [hw] at hout
      cases hout
      simp
  | flushing i buf o =>
      rw [hw] at hout
      cases hout
      refine h.block hinv hw hn hoff fun c hc => ?_
      obtain ⟨_, _, rfl⟩ := List.mem_map.mp hc
      rfl
  | _ => simp [hw, output] at hout

/-- Where `sign_main` stands does not matter to the blocks. -/
theorem Apart.main (h : Apart s) (main : MainPhase) (started : Nat) :
    Apart { s with main, started } :=
  ⟨h.lock, h.blocks, h.fresh, h.waiting, h.begun⟩

theorem Apart.next (h : Apart s) (hinv : Inv files maxParallel s) {whole : Prop}
    (htold : Told files maxParallel whole s) (hfree : Undisturbed s a)
    (hstep : step files maxParallel s a = some s') : Apart s' := by
  cases step_acts files hstep with
  | spawn hmain hlt =>
      have hsilent : Apart (s.setPhase s.started .claiming) :=
        h.silent (by simp [UnderLock]) (Nat.le_refl _) (by simp [WorkerPhase.idx])
          fun _ _ hmu => hmu
      exact hsilent.main s.main (s.started + 1)
  | spawnFails hmain hlt => exact h.main .unwinding s.started
  | join hmain hall hidle => exact h.main _ s.started
  | unwound hmain hidle => exact h.main .thrown s.started
  | summaryWrite n text off code hmain hn hoff =>
      -- No worker is at a block any more, so the summary cuts into none.
      obtain ⟨-, -, hidle, -, -⟩ := htold.at_summary hmain
      have hchunk : ∀ i, ∀ c ∈ ((text.drop off).take n).map fun c => (c, Writer.summary),
          ¬ OfBlock i c := by
        intro i c hc
        obtain ⟨_, _, rfl⟩ := List.mem_map.mp hc
        simp [OfBlock]
      have hnobody := hinv.not_partlyFlushed fun v hv => by simp [hidle v hv, PartlyFlushed]
      exact (h.aside hchunk hnobody).main _ s.started
  | summaryFails text off code hmain hoff => exact h.main (.returned code) s.started
  | summaryWritten text code hmain => exact h.main (.returned code) s.started
  | fetchAdd w hw =>
      unfold claim
      split
      · refine h.silent (by simp [UnderLock]) (Nat.le_succ _) ?_ fun _ _ hmu => hmu
        intro i hi
        cases hi
        exact h.fresh _ (Nat.le_refl _)
      · exact h.silent (by simp [UnderLock]) (Nat.le_succ _) (by simp [WorkerPhase.idx])
          fun _ _ hmu => hmu
  | announce w i hmu hw =>
      exact h.locked hmu (by simp [hw, WorkerPhase.idx]) (by simp [hw, Begun])
  | flush w i buf hmu hw =>
      exact h.locked hmu (by simp [hw, WorkerPhase.idx]) (by simp [hw, Begun])
  | write w n writer text off hout hn hoff => exact h.write hinv hfree hout hn hoff
  | writeFails w writer text off hout => exact h.leaveWrite hout
  | written w writer text hout => exact h.leaveWrite hout
  | line w text i buf hw =>
      exact h.moved (by simp [hw, WorkerPhase.idx]) (by simp [UnderLock]) (by simp [hw, Begun])
        (by simp)
  | transient w what attempt i buf hw =>
      exact h.moved (by simp [hw, WorkerPhase.idx]) (by simp [UnderLock]) (by simp [hw, Begun])
        (by simp)
  | finish w outcome i buf hw =>
      exact h.silent (by simp [UnderLock]) (Nat.le_refl _)
        (fun j hj => h.waiting w j (by rw [hw]; exact hj) (by simp [hw, Begun])) fun _ _ hmu => hmu
  | store w i buf result hw =>
      exact h.silent (by simp [UnderLock]) (Nat.le_refl _)
        (fun j hj => h.waiting w j (by rw [hw]; exact hj) (by simp [hw, Begun])) fun _ _ hmu => hmu

/-- In a run in which no retry is reported while a block is partly written, every
block on stderr stays together. -/
theorem narratives_apart (h : Reaches (step files maxParallel) Undisturbed (start files) s) :
    NarrativesApart s := by
  have hapart : Apart s := by
    induction h with
    | start => exact start_apart
    | next h hfree hstep ih => exact ih.next (reaches_inv h) (reaches_told h) hfree hstep
  exact hapart.blocks

end Keep

/-! ## Two runs -/

/-- Both files are in `sign_one_file`, and the first one is signed. -/
def announced : List PoolAction :=
  [.spawn, .spawn, .fetchAdd 0, .fetchAdd 1,
    .lock 0, .write 0 13, .written 0, .lock 1, .write 1 13, .written 1,
    .line 0 [33, 10], .finish 0 (.ok ()), .store 0]

/-- The retry of the second file is written before the block of the first is begun. -/
def undisturbedRun : List PoolAction :=
  announced ++ [.transient 1 [63] 1, .write 1 54, .written 1, .lock 0, .write 0 2, .write 0 4]

theorem undisturbedRun_apart : ∃ s,
    steps (step sampleFiles 2) (start sampleFiles) undisturbedRun = some s ∧
      s.stderr.length = 13 + 13 + 54 + 6 ∧ NarrativesApart s := by
  have hrun : steps (fun s a => if Undisturbed s a then step sampleFiles 2 s a else none)
      (start sampleFiles) undisturbedRun = some _ := rfl
  exact ⟨_, rfl, by decide, narratives_apart (Reaches.start.of_guarded hrun)⟩

/-- The second worker reports its retry within the block of the first file. -/
def disturbedRun : List PoolAction :=
  announced ++ [.transient 1 [63] 1, .lock 0, .write 0 2, .write 1 54, .write 0 4]

theorem disturbedRun_interleaves : ∃ s : Pool,
    Reaches (step sampleFiles 2) (fun _ _ => True) (start sampleFiles) s ∧ ¬ NarrativesApart s := by
  have hrun : steps (step sampleFiles 2) (start sampleFiles) disturbedRun = some _ := rfl
  refine ⟨_, Reaches.start.of_steps (fun _ _ _ => trivial) hrun, fun hapart => ?_⟩
  have hbetween := hapart 0 (91, .block 0) (116, .retry 1) (10, .block 0) (by decide) rfl rfl
  cases hbetween

end Pool

end AasSign
