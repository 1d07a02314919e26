import AasSign.Foundation.Transition
import AasSign.Platform.Files

/-! # The output of a child

`run_process` once the child runs: the child writes to a pipe that holds so many octets, and the
caller reads from it, in whatever order and in whatever pieces. The caller reads on past what it
keeps, so that the child is never left waiting for room. The two platforms have the loop in common,
and what a platform says of the calls and of the status of a child is a parameter.
-/

namespace AasSign

open Foundation

/-- What a child writes before it is done, and how it ends. -/
structure ChildScript (ω : Type) where
  writes : Bytes
  status : ω

/-- What a platform says of pipes and processes. -/
structure CapturePlatform (ω : Type) where
  /-- A call that fails with this error is made again. -/
  interrupted : Nat → Bool
  /-- The error of a `read` that does not mean that the pipe has ended. -/
  isFailure : Nat → Bool
  /-- A write of nothing is seen by the reader, as a read of nothing. -/
  marksEmpty : Bool
  /-- The call for the status of a child that is gone may fail. -/
  asksStatus : Bool
  /-- The status of a child that the caller has killed. -/
  killStatus : ω
  exitCode : ω → Int

inductive CapturePhase where
  | reading
  /-- With `read_error`. -/
  | waiting (readError : Nat)
  | ended (outcome : Except Bytes ProcessResult)

/-- The child, the pipe and the caller. -/
structure Capturing (ω : Type) where
  unwritten : Bytes
  /-- What the child has written so far. -/
  written : Bytes
  pipe : Bytes
  /-- The octets of the pipe before the first write of nothing. -/
  mark : Option Nat
  childHolds : Bool
  status : Option ω
  /-- The caller has killed the child. -/
  killed : Bool
  output : Bytes
  phase : CapturePhase

inductive CaptureAct (ω : Type) where
  | childWrites (n : Nat)
  | childWritesNothing
  | childCloses
  | childExits
  /-- The child is gone after the caller has killed it. -/
  | childDies
  /-- Someone else kills the child. -/
  | childStruck (status : ω)
  | reads (n : Nat)
  | readFails (errno : Nat)
  | waits
  | waitFails (errno : Nat)
  | statusFails (errno : Nat)

/-- The step is what the child or the caller does when nothing fails. -/
def CaptureAct.Own {ω : Type} : CaptureAct ω → Bool
  | .childWritesNothing | .childStruck _ | .readFails _ | .waitFails _ | .statusFails _ => false
  | _ => true

/-- `sizeof(buffer)`. -/
def captureBufferSize : Nat := 16384

/-- `output_limit`. -/
def outputLimit : Nat := 1024 * 1024

/-- What a capture takes place under. -/
structure CaptureSetting (ω : Type) where
  platform : CapturePlatform ω
  executable : Bytes
  /-- The text for an error of the system. -/
  message : Nat → Bytes
  child : ChildScript ω
  /-- The octets that the pipe has room for, at least one. -/
  capacity : { n : Nat // 0 < n }
  /-- The child, and the caller, has the end that is written to. -/
  childHolds : Bool
  callerHolds : Bool

namespace CaptureSetting

variable {ω : Type} (setting : CaptureSetting ω)

def captureError (op : String) (errno : Nat) : Bytes :=
  ascii op ++ ascii " " ++ setting.executable ++ ascii ": " ++ setting.message errno

def start : Capturing ω where
  unwritten := setting.child.writes
  written := []
  pipe := []
  mark := none
  childHolds := setting.childHolds
  status := none
  killed := false
  output := []
  phase := .reading

/-- `std::min(size_t(n), output_limit - result.output.size())`. -/
def appended (n size : Nat) : Nat := min n ((outputLimit + 2 ^ 64 - size) % 2 ^ 64)

/-- The end of a call whose child is gone: the error of the reading, or what is made of the status. -/
def finish (readError : Nat) (outcome : Except Bytes ProcessResult) : Except Bytes ProcessResult :=
  if readError ≠ 0 then .error (setting.captureError "capture" readError) else outcome

/-- A child that is gone has closed what it had open. -/
def gone (s : Capturing ω) (status : ω) : Capturing ω :=
  { s with status := some status, childHolds := false }

/-- A step of the child. -/
def childStep (s : Capturing ω) : CaptureAct ω → Option (Capturing ω)
  | .childWrites n =>
      if s.childHolds ∧ 0 < n ∧ n ≤ s.unwritten.length ∧
          s.pipe.length + n ≤ setting.capacity then
        some { s with
          unwritten := s.unwritten.drop n
          written := s.written ++ s.unwritten.take n
          pipe := s.pipe ++ s.unwritten.take n }
      else none
  | .childWritesNothing =>
      if setting.platform.marksEmpty ∧ s.childHolds ∧ s.mark = none then
        some { s with mark := some s.pipe.length }
      else none
  | .childCloses =>
      if s.childHolds ∧ s.unwritten = [] then some { s with childHolds := false } else none
  | .childExits =>
      if s.status.isNone ∧ s.unwritten = [] then some (gone s setting.child.status) else none
  | .childDies =>
      if s.status.isNone ∧ s.killed then some (gone s setting.platform.killStatus) else none
  | .childStruck status => if s.status.isNone then some (gone s status) else none
  | _ => none

/-- What a read, a wait and the call for the status return to the caller. A call that fails has an
error. -/
def callerStep (s : Capturing ω) (act : CaptureAct ω) : Option (Capturing ω) :=
  match s.phase, act with
  | .reading, .reads 0 =>
      if s.mark = some 0 ∨ (s.pipe = [] ∧ s.childHolds = false ∧ setting.callerHolds = false) then
        some { s with phase := .waiting 0 }
      else none
  | .reading, .reads (n + 1) =>
      if n + 1 ≤ min captureBufferSize s.pipe.length ∧ ∀ before ∈ s.mark, n + 1 ≤ before then
        some { s with
          pipe := s.pipe.drop (n + 1)
          mark := s.mark.map fun before => before - (n + 1)
          output := s.output ++ s.pipe.take (appended (n + 1) s.output.length) }
      else none
  | .reading, .readFails errno =>
      if errno = 0 ∨ !setting.platform.isFailure errno then none
      else if setting.platform.interrupted errno then some s
      else some { s with killed := true, phase := .waiting errno }
  | .waiting readError, .waits =>
      s.status.map fun status =>
        let result := ⟨setting.platform.exitCode status, s.output⟩
        { s with phase := .ended (setting.finish readError (.ok result)) }
  | .waiting _, .waitFails errno =>
      if errno = 0 then none
      else if setting.platform.interrupted errno then some s
      else some { s with phase := .ended (.error (setting.captureError "wait for" errno)) }
  | .waiting readError, .statusFails errno =>
      if setting.platform.asksStatus ∧ s.status.isSome then
        let what := setting.captureError "GetExitCodeProcess" errno
        some { s with phase := .ended (setting.finish readError (.error what)) }
      else none
  | _, _ => none

def captureStep (s : Capturing ω) (act : CaptureAct ω) : Option (Capturing ω) :=
  match act with
  | .childWrites _ | .childWritesNothing | .childCloses | .childExits | .childDies
  | .childStruck _ => setting.childStep s act
  | _ => setting.callerStep s act

/-- The step is not a call that is made again. -/
def Productive : CaptureAct ω → Bool
  | .readFails errno | .waitFails errno => !setting.platform.interrupted errno
  | _ => true

end CaptureSetting

/-! ## What is kept -/

/-- What the place where the caller stands says of the child; `empties` allows that the caller has
stopped at a write of nothing. -/
def Capturing.Phased {ω : Type} (platform : CapturePlatform ω) (empties : Prop) (s : Capturing ω) : Prop :=
  match s.phase with
  | .reading => s.killed = false
  | .waiting readError =>
      (readError = 0 → s.killed = false ∧ (empties ∨ (s.pipe = [] ∧ s.childHolds = false))) ∧
        (readError ≠ 0 → s.killed = true)
  | .ended (.error _) => True
  | .ended (.ok result) => s.killed = false ∧ (empties ∨ (s.pipe = [] ∧ s.childHolds = false)) ∧
      ∃ status, s.status = some status ∧ result = ⟨platform.exitCode status, s.output⟩

/-- What every step keeps; `struck` allows that someone else kills the child, and `empties` that the
child writes nothing and is seen to. -/
structure Capturing.Sound {ω : Type} (setting : CaptureSetting ω) (struck empties : Prop)
    (s : Capturing ω) : Prop where
  whole : s.written ++ s.unwritten = setting.child.writes
  kept : ∃ read, s.written = read ++ s.pipe ∧ s.output = read.take outputLimit
  mark : s.mark = none ∨ empties
  holds : s.childHolds = true → s.status = none
  closed : s.childHolds = false → s.status = none → s.unwritten = []
  status : ∀ status, s.status = some status →
    (status = setting.child.status ∧ s.unwritten = []) ∨ s.killed = true ∨ struck
  phased : s.Phased setting.platform empties

/-- Nobody else kills the child, and it does not write nothing where that is seen, unless that is
allowed. -/
def CaptureSetting.Allowed {ω : Type} (setting : CaptureSetting ω) (struck empties : Prop)
    (act : CaptureAct ω) : Prop :=
  (∀ status, act = .childStruck status → struck) ∧
    (act = .childWritesNothing → setting.platform.marksEmpty = true → empties)

section Captures

variable {ω : Type} {setting : CaptureSetting ω} {struck empties : Prop} {s s' : Capturing ω}
  {act : CaptureAct ω}

theorem sound_start (hchild : setting.childHolds = true) :
    setting.start.Sound setting struck empties where
  whole := rfl
  kept := ⟨[], rfl, rfl⟩
  mark := .inl rfl
  holds _ := rfl
  closed hclosed := absurd (hchild.symm.trans hclosed) nofun
  status _ := nofun
  phased := rfl

/-- A child that is gone leaves the pipe and the caller as they are. -/
theorem Capturing.Sound.gone {status : ω} (h : s.Sound setting struck empties)
    (hstatus : s.status = none)
    (hcause : (status = setting.child.status ∧ s.unwritten = []) ∨ s.killed = true ∨ struck) :
    (CaptureSetting.gone s status).Sound setting struck empties where
  whole := h.whole
  kept := h.kept
  mark := h.mark
  holds := nofun
  closed _ := nofun
  status other hother := by
    obtain rfl := Option.some.inj hother
    exact hcause
  phased := by
    have hphased := h.phased
    unfold Capturing.Phased at hphased ⊢
    rw [show (CaptureSetting.gone s status).phase = s.phase from rfl]
    cases hphase : s.phase with
    | reading =>
        rw [hphase] at hphased
        exact hphased
    | waiting readError =>
        rw [hphase] at hphased
        refine ⟨fun hzero => (hphased.1 hzero).imp_right fun hend => ?_, hphased.2⟩
        exact hend.imp_right fun hclosed => ⟨hclosed.1, rfl⟩
    | ended outcome =>
        rw [hphase] at hphased
        cases outcome with
        | error what => trivial
        | ok result =>
            obtain ⟨-, -, other, hother, -⟩ := hphased
            exact absurd (hstatus.symm.trans hother) nofun

/-- What the child does, in a form that says all of it. -/
theorem childStep_cases (h : setting.childStep s act = some s') :
    (∃ n, act = .childWrites n ∧ s.childHolds = true ∧ 0 < n ∧ n ≤ s.unwritten.length ∧ s' = { s with
      unwritten := s.unwritten.drop n
      written := s.written ++ s.unwritten.take n
      pipe := s.pipe ++ s.unwritten.take n }) ∨
    (act = .childWritesNothing ∧ setting.platform.marksEmpty = true ∧ s.childHolds = true ∧
      s.mark = none ∧ s' = { s with mark := some s.pipe.length }) ∨
    (act = .childCloses ∧ s.childHolds = true ∧ s.unwritten = [] ∧
      s' = { s with childHolds := false }) ∨
    (s.status = none ∧ ∃ status, s' = CaptureSetting.gone s status ∧
      ((act = .childExits ∧ status = setting.child.status ∧ s.unwritten = []) ∨
        (act = .childDies ∧ s.killed = true) ∨ act = .childStruck status)) := by
  cases act with
  | childWrites n =>
      obtain ⟨⟨hholds, hpos, hle, -⟩, h⟩ := Option.ite_none_right_eq_some.mp h
      exact .inl ⟨n, rfl, hholds, hpos, hle, (Option.some.inj h).symm⟩
  | childWritesNothing =>
      obtain ⟨⟨hmarks, hholds, hmark⟩, h⟩ := Option.ite_none_right_eq_some.mp h
      exact .inr (.inl ⟨rfl, hmarks, hholds, hmark, (Option.some.inj h).symm⟩)
  | childCloses =>
      obtain ⟨⟨hholds, hall⟩, h⟩ := Option.ite_none_right_eq_some.mp h
      exact .inr (.inr (.inl ⟨rfl, hholds, hall, (Option.some.inj h).symm⟩))
  | childExits =>
      obtain ⟨⟨hstatus, hall⟩, h⟩ := Option.ite_none_right_eq_some.mp h
      have hnone := Option.isNone_iff_eq_none.mp hstatus
      exact .inr (.inr (.inr ⟨hnone, _, (Option.some.inj h).symm, .inl ⟨rfl, rfl, hall⟩⟩))
  | childDies =>
      obtain ⟨⟨hstatus, hkilled⟩, h⟩ := Option.ite_none_right_eq_some.mp h
      have hnone := Option.isNone_iff_eq_none.mp hstatus
      exact .inr (.inr (.inr ⟨hnone, _, (Option.some.inj h).symm, .inr (.inl ⟨rfl, hkilled⟩)⟩))
  | childStruck status =>
      obtain ⟨hstatus, h⟩ := Option.ite_none_right_eq_some.mp h
      have hnone := Option.isNone_iff_eq_none.mp hstatus
      exact .inr (.inr (.inr ⟨hnone, _, (Option.some.inj h).symm, .inr (.inr rfl)⟩))
  | reads n => cases h
  | readFails errno => cases h
  | waits => cases h
  | waitFails errno => cases h
  | statusFails errno => cases h

/-- What the caller does. -/
theorem callerStep_cases (h : setting.callerStep s act = some s') :
    (s.phase = .reading ∧ (s.mark = some 0 ∨ (s.pipe = [] ∧ s.childHolds = false)) ∧
      s' = { s with phase := .waiting 0 }) ∨
    (∃ n, s.phase = .reading ∧ n + 1 ≤ s.pipe.length ∧ s' = { s with
      pipe := s.pipe.drop (n + 1)
      mark := s.mark.map fun before => before - (n + 1)
      output := s.output ++ s.pipe.take (CaptureSetting.appended (n + 1) s.output.length) }) ∨
    (setting.Productive act = false ∧ s' = s) ∨
    (∃ errno, errno ≠ 0 ∧ s.phase = .reading ∧
      s' = { s with killed := true, phase := .waiting errno }) ∨
    (∃ readError, s.phase = .waiting readError ∧
      ((∃ status result, s.status = some status ∧
        result = ⟨setting.platform.exitCode status, s.output⟩ ∧
        s' = { s with phase := .ended (setting.finish readError (.ok result)) }) ∨
      ∃ what, s' = { s with phase := .ended (.error what) })) := by
  unfold CaptureSetting.callerStep at h
  split at h
  next hphase =>
    obtain ⟨hend, h⟩ := Option.ite_none_right_eq_some.mp h
    refine .inl ⟨hphase, hend.imp_right fun hclosed => ⟨hclosed.1, hclosed.2.1⟩, ?_⟩
    exact (Option.some.inj h).symm
  next n hphase =>
    obtain ⟨⟨hle, -⟩, h⟩ := Option.ite_none_right_eq_some.mp h
    exact .inr (.inl ⟨n, hphase, by omega, (Option.some.inj h).symm⟩)
  next errno hphase =>
    split at h
    · cases h
    next hfailure =>
      split at h
      next hinterrupted =>
        have hidle : setting.Productive (.readFails errno) = false := by
          simp [CaptureSetting.Productive, hinterrupted]
        exact .inr (.inr (.inl ⟨hidle, (Option.some.inj h).symm⟩))
      next =>
        refine .inr (.inr (.inr (.inl ⟨errno, fun hzero => hfailure (.inl hzero), hphase, ?_⟩)))
        exact (Option.some.inj h).symm
  next readError hphase =>
    obtain ⟨status, hstatus, h⟩ := Option.map_eq_some_iff.mp h
    exact .inr (.inr (.inr (.inr ⟨readError, hphase, .inl ⟨status, _, hstatus, rfl, h.symm⟩⟩)))
  next errno hphase =>
    split at h
    · cases h
    next =>
      split at h
      next hinterrupted =>
        have hidle : setting.Productive (.waitFails errno) = false := by
          simp [CaptureSetting.Productive, hinterrupted]
        exact .inr (.inr (.inl ⟨hidle, (Option.some.inj h).symm⟩))
      next =>
        refine .inr (.inr (.inr (.inr ⟨_, hphase, .inr ?_⟩)))
        exact ⟨_, (Option.some.inj h).symm⟩
  next readError errno hphase =>
    obtain ⟨-, h⟩ := Option.ite_none_right_eq_some.mp h
    refine .inr (.inr (.inr (.inr ⟨readError, hphase, .inr ?_⟩)))
    dsimp only at h
    rw [CaptureSetting.finish] at h
    split at h
    · exact ⟨_, (Option.some.inj h).symm⟩
    · exact ⟨_, (Option.some.inj h).symm⟩
  · cases h

theorem appended_eq {n size : Nat} (h : size ≤ outputLimit) :
    CaptureSetting.appended n size = min n (outputLimit - size) := by
  simp only [CaptureSetting.appended, outputLimit] at h ⊢
  omega

theorem take_appended (read piece : Bytes) :
    (read ++ piece).take outputLimit = read.take outputLimit ++
      piece.take (CaptureSetting.appended piece.length (read.take outputLimit).length) := by
  have hlength : (read.take outputLimit).length ≤ outputLimit := List.length_take_le _ _
  rw [appended_eq hlength, List.take_append, List.length_take]
  congr 1
  rcases Nat.le_total read.length outputLimit with hle | hle
  · rw [Nat.min_eq_right hle, Nat.min_comm, ← List.take_take, List.take_length]
  · rw [Nat.min_eq_left hle, Nat.sub_self, Nat.min_zero, Nat.sub_eq_zero_of_le hle]

theorem Capturing.Sound.childStep (h : s.Sound setting struck empties)
    (hallowed : setting.Allowed struck empties act) (hstep : setting.childStep s act = some s') :
    s'.Sound setting struck empties := by
  obtain ⟨n, rfl, hholds, -, -, rfl⟩ | ⟨rfl, hmarks, -, -, rfl⟩ | ⟨rfl, hholds, hall, rfl⟩ |
    ⟨hstatus, status, rfl, hcause⟩ := childStep_cases hstep
  · obtain ⟨read, hwritten, houtput⟩ := h.kept
    exact {
      whole := by
        change s.written ++ s.unwritten.take n ++ s.unwritten.drop n = _
        rw [List.append_assoc, List.take_append_drop]
        exact h.whole
      kept := ⟨read, by simp [hwritten], houtput⟩
      mark := h.mark
      holds := fun _ => h.holds hholds
      closed := fun hclosed => absurd (hholds.symm.trans hclosed) nofun
      status := fun status hstatus => absurd ((h.holds hholds).symm.trans hstatus) nofun
      phased := by
        have hphased := h.phased
        unfold Capturing.Phased at hphased ⊢
        dsimp only
        split <;> simp_all }
  · exact { h with mark := .inr (hallowed.2 rfl hmarks) }
  · exact { h with
      holds := nofun
      closed := fun _ _ => hall
      phased := by
        have hphased := h.phased
        unfold Capturing.Phased at hphased ⊢
        dsimp only
        split <;> simp_all }
  · refine h.gone hstatus ?_
    obtain ⟨-, rfl, hall⟩ | ⟨-, hkilled⟩ | rfl := hcause
    · exact .inl ⟨rfl, hall⟩
    · exact .inr (.inl hkilled)
    · exact .inr (.inr (hallowed.1 status rfl))

theorem Capturing.Sound.callerStep (h : s.Sound setting struck empties)
    (hstep : setting.callerStep s act = some s') : s'.Sound setting struck empties := by
  have hphased := h.phased
  unfold Capturing.Phased at hphased
  obtain ⟨hphase, hend, rfl⟩ | ⟨n, hphase, hle, rfl⟩ | ⟨-, rfl⟩ | ⟨errno, hzero, hphase, rfl⟩ |
    ⟨readError, hphase, hwait⟩ := callerStep_cases hstep
  · rw [hphase] at hphased
    have hcause : empties ∨ (s.pipe = [] ∧ s.childHolds = false) := by
      rcases hend with hmark | hclosed
      · exact .inl (h.mark.resolve_left (by simp [hmark]))
      · exact .inr hclosed
    exact { h with phased := ⟨fun _ => ⟨hphased, hcause⟩, fun hne => absurd rfl hne⟩ }
  · rw [hphase] at hphased
    obtain ⟨read, hwritten, houtput⟩ := h.kept
    have hlength : (s.pipe.take (n + 1)).length = n + 1 := List.length_take_of_le hle
    have hpiece := take_appended read (s.pipe.take (n + 1))
    rw [hlength, ← houtput, List.take_take] at hpiece
    have hfew : CaptureSetting.appended (n + 1) s.output.length ≤ n + 1 := Nat.min_le_left _ _
    rw [Nat.min_eq_left hfew] at hpiece
    exact { h with
      kept := ⟨read ++ s.pipe.take (n + 1), by simp [hwritten], hpiece.symm⟩
      mark := h.mark.imp_left fun hmark => by simp [hmark]
      phased := by
        unfold Capturing.Phased
        rwa [hphase] }
  · exact h
  · exact { h with
      status := fun status hstatus => (h.status status hstatus).imp_right fun _ => .inl rfl
      phased := ⟨fun hno => absurd hno hzero, fun _ => rfl⟩ }
  · rw [hphase] at hphased
    obtain ⟨status, result, hstatus, rfl, rfl⟩ | ⟨what, rfl⟩ := hwait
    · refine { h with phased := ?_ }
      unfold Capturing.Phased
      rw [CaptureSetting.finish]
      by_cases hzero : readError = 0
      · obtain ⟨hkilled, hcause⟩ := hphased.1 hzero
        rw [if_neg (not_not.mpr hzero)]
        exact ⟨hkilled, hcause, status, hstatus, rfl⟩
      · rw [if_pos hzero]
        trivial
    · exact { h with phased := trivial }

theorem captureStep_eq : setting.captureStep s act = setting.childStep s act ∨
    setting.captureStep s act = setting.callerStep s act := by
  cases act with
  | childWrites n => exact .inl rfl
  | childWritesNothing => exact .inl rfl
  | childCloses => exact .inl rfl
  | childExits => exact .inl rfl
  | childDies => exact .inl rfl
  | childStruck status => exact .inl rfl
  | reads n => exact .inr rfl
  | readFails errno => exact .inr rfl
  | waits => exact .inr rfl
  | waitFails errno => exact .inr rfl
  | statusFails errno => exact .inr rfl

theorem Capturing.Sound.step (h : s.Sound setting struck empties)
    (hallowed : setting.Allowed struck empties act) (hstep : setting.captureStep s act = some s') :
    s'.Sound setting struck empties := by
  have hcases : setting.captureStep s act = setting.childStep s act ∨
    setting.captureStep s act = setting.callerStep s act := captureStep_eq
  rcases hcases with heq | heq
  · exact h.childStep hallowed (heq ▸ hstep)
  · exact h.callerStep (heq ▸ hstep)

/-! ## That it goes on, and ends -/

/-- Nobody waits for anybody for ever: until the caller has ended, the child or the caller has a
step of its own. -/
theorem Capturing.Sound.goesOn (h : s.Sound setting struck empties) (hempties : ¬ empties)
    (hcaller : setting.callerHolds = false) (hends : ∀ outcome, s.phase ≠ .ended outcome) :
    ∃ act, act.Own = true ∧ (setting.captureStep s act).isSome = true := by
  have hphased := h.phased
  unfold Capturing.Phased at hphased
  cases hphase : s.phase with
  | ended outcome => exact absurd hphase (hends outcome)
  | reading =>
      -- What is in the pipe is read, also when it is not kept.
      by_cases hpipe : s.pipe = []
      · cases hholds : s.childHolds with
        | false =>
            refine ⟨.reads 0, rfl, ?_⟩
            simp [CaptureSetting.captureStep, CaptureSetting.callerStep, hphase, hpipe, hholds, hcaller]
        | true =>
            have hstatus := h.holds hholds
            by_cases hall : s.unwritten = []
            · refine ⟨.childExits, rfl, ?_⟩
              simp [CaptureSetting.captureStep, CaptureSetting.childStep, hstatus, hall]
            · have hpos := List.length_pos_of_ne_nil hall
              have hroom : 1 ≤ setting.capacity.1 := setting.capacity.2
              refine ⟨.childWrites 1, rfl, ?_⟩
              simp only [CaptureSetting.captureStep, CaptureSetting.childStep]
              rw [if_pos ⟨hholds, Nat.one_pos, hpos, by rw [hpipe]; exact hroom⟩]
              rfl
      · have hpos := List.length_pos_of_ne_nil hpipe
        have hmark := h.mark.resolve_right hempties
        have hone : 0 + 1 ≤ min captureBufferSize s.pipe.length := by
          rw [captureBufferSize]
          omega
        refine ⟨.reads 1, rfl, ?_⟩
        simp only [CaptureSetting.captureStep, CaptureSetting.callerStep, hphase]
        rw [if_pos ⟨hone, by simp [hmark]⟩]
        rfl
  | waiting readError =>
      rw [hphase] at hphased
      cases hstatus : s.status with
      | some status =>
          refine ⟨.waits, rfl, ?_⟩
          simp [CaptureSetting.captureStep, CaptureSetting.callerStep, hphase, hstatus]
      | none =>
          by_cases hzero : readError = 0
          · have hclosed := (hphased.1 hzero).2.resolve_left hempties
            have hall := h.closed hclosed.2 hstatus
            refine ⟨.childExits, rfl, ?_⟩
            simp [CaptureSetting.captureStep, CaptureSetting.childStep, hstatus, hall]
          · have hkilled := hphased.2 hzero
            refine ⟨.childDies, rfl, ?_⟩
            simp [CaptureSetting.captureStep, CaptureSetting.childStep, hstatus, hkilled]

/-- The steps that the caller has before it. -/
def CapturePhase.ahead : CapturePhase → Nat
  | .reading => 2
  | .waiting _ => 1
  | .ended _ => 0

/-- An octet is to be written and to be read, and what can happen once is ahead or is not. -/
def Capturing.measure (s : Capturing ω) : Nat :=
  2 * s.unwritten.length + s.pipe.length + s.mark.isNone.toNat + s.childHolds.toNat +
    s.status.isNone.toNat + s.phase.ahead

theorem childStep_measure (h : setting.childStep s act = some s') : s'.measure + 1 ≤ s.measure := by
  obtain ⟨n, rfl, hholds, hpos, hle, rfl⟩ | ⟨rfl, -, -, hmark, rfl⟩ | ⟨rfl, hholds, hall, rfl⟩ |
    ⟨hstatus, status, rfl, -⟩ := childStep_cases h
  · simp only [Capturing.measure, List.length_append, List.length_take, List.length_drop]
    omega
  · simp only [Capturing.measure, hmark, Option.isNone_none, Option.isNone_some, Bool.toNat_true,
      Bool.toNat_false]
    omega
  · simp only [Capturing.measure, hholds, Bool.toNat_true, Bool.toNat_false]
    omega
  · have hle := Bool.toNat_le s.childHolds
    simp only [Capturing.measure, CaptureSetting.gone, hstatus, Option.isNone_none,
      Option.isNone_some, Bool.toNat_true, Bool.toNat_false]
    omega

theorem callerStep_measure (h : setting.callerStep s act = some s') :
    s'.measure + (if setting.Productive act then 1 else 0) ≤ s.measure := by
  have hone : (if setting.Productive act then 1 else 0) ≤ 1 := by split <;> omega
  obtain ⟨hphase, -, rfl⟩ | ⟨n, hphase, hle, rfl⟩ | ⟨hidle, rfl⟩ | ⟨errno, -, hphase, rfl⟩ |
    ⟨readError, hphase, hwait⟩ := callerStep_cases h
  · simp only [Capturing.measure, hphase, CapturePhase.ahead]
    omega
  · simp only [Capturing.measure, List.length_drop, Option.isNone_map]
    omega
  · rw [hidle]
    simp
  · simp only [Capturing.measure, hphase, CapturePhase.ahead]
    omega
  · obtain ⟨status, result, -, -, rfl⟩ | ⟨what, rfl⟩ := hwait
    · simp only [Capturing.measure, hphase, CapturePhase.ahead]
      omega
    · simp only [Capturing.measure, hphase, CapturePhase.ahead]
      omega

theorem captureStep_measure (h : setting.captureStep s act = some s') :
    s'.measure + (if setting.Productive act then 1 else 0) ≤ s.measure := by
  have hcases : setting.captureStep s act = setting.childStep s act ∨
    setting.captureStep s act = setting.callerStep s act := captureStep_eq
  rcases hcases with heq | heq
  · have hchild := childStep_measure (heq ▸ h)
    split <;> omega
  · exact callerStep_measure (heq ▸ h)

end Captures

/-! ## Whole runs -/

/-- What is captured, whatever is going on between the child and the caller. -/
structure Captured {ω : Type} (setting : CaptureSetting ω) (struck empties : Prop) (s : Capturing ω) :
    Prop where
  front : s.written <+: setting.child.writes
  /-- Of what has been read the caller has the first octets. -/
  kept : ∃ read, s.written = read ++ s.pipe ∧ s.output = read.take outputLimit
  /-- A result has the status of a child that is gone, which is its own unless someone else has
  killed it, and the first octets of what has been read, which is all that the child has written
  unless it has written nothing where that is seen. -/
  result : ∀ result, s.phase = .ended (.ok result) → ∃ status, s.status = some status ∧
    result = ⟨setting.platform.exitCode status, s.output⟩ ∧
    ((status = setting.child.status ∧ s.written = setting.child.writes) ∨ struck) ∧
    (s.output = s.written.take outputLimit ∨ empties)
  goesOn : (∀ outcome, s.phase ≠ .ended outcome) → ¬ empties →
    ∃ act, act.Own = true ∧ (setting.captureStep s act).isSome = true

theorem Capturing.Sound.captured {ω : Type} {setting : CaptureSetting ω} {struck empties : Prop}
    {s : Capturing ω} (h : s.Sound setting struck empties) (hcaller : setting.callerHolds = false) :
    Captured setting struck empties s where
  front := ⟨s.unwritten, h.whole⟩
  kept := h.kept
  result result hphase := by
    have hphased := h.phased
    unfold Capturing.Phased at hphased
    rw [hphase] at hphased
    obtain ⟨hkilled, hend, status, hstatus, rfl⟩ := hphased
    refine ⟨status, hstatus, rfl, ?_, ?_⟩
    · rcases h.status status hstatus with ⟨hown, hall⟩ | hdead | hstruck
      · have hwhole := h.whole
        rw [hall, List.append_nil] at hwhole
        exact .inl ⟨hown, hwhole⟩
      · exact absurd (hkilled.symm.trans hdead) nofun
      · exact .inr hstruck
    · rcases hend with hempties | ⟨hpipe, -⟩
      · exact .inr hempties
      · obtain ⟨read, hwritten, houtput⟩ := h.kept
        rw [hpipe, List.append_nil] at hwritten
        exact .inl (by rw [houtput, hwritten])
  goesOn hends hempties := h.goesOn hempties hcaller hends

/-- Every run of a capture keeps what it must, and it is not longer than two steps for an octet and
five more, besides the calls that are made again. -/
theorem captures {ω : Type} {setting : CaptureSetting ω} (hchild : setting.childHolds = true)
    (hcaller : setting.callerHolds = false) :
    (∀ struck empties s, Reaches setting.captureStep (fun _ => setting.Allowed struck empties)
      setting.start s → Captured setting struck empties s) ∧
    ∀ acts s, steps setting.captureStep setting.start acts = some s →
      acts.countP setting.Productive ≤ 2 * setting.child.writes.length + 5 := by
  refine ⟨fun struck empties s hreaches => ?_, fun acts s hsteps => ?_⟩
  · refine Capturing.Sound.captured ?_ hcaller
    exact hreaches.invariant (sound_start hchild) fun _ _ _ hsound => hsound.step
  · have hle := countP_add_measure_le (fun _ => True) Capturing.measure setting.Productive
      (fun _ _ _ _ hstep => ⟨trivial, captureStep_measure hstep⟩) trivial hsteps
    have hstart : setting.start.measure = 2 * setting.child.writes.length + 5 := by
      simp [Capturing.measure, CaptureSetting.start, hchild, CapturePhase.ahead]
    omega

end AasSign
