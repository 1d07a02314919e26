import AasSign.Platform.Capture
import AasSign.Platform.Copy
import AasSign.Platform.Spawn

/-! # Running a child on POSIX

The start of a child and the capture of its output, put together.
-/

namespace AasSign

open Foundation Program

namespace Posix

/-- What `waitpid` says of a process that is gone. -/
inductive WaitStatus where
  | exited (code : UInt8)
  | signaled (signal : Fin 128)
  deriving DecidableEq

/-- `WIFEXITED(status) ? WEXITSTATUS(status) : 128 + WTERMSIG(status)`. -/
def WaitStatus.exitCode : WaitStatus → Int
  | .exited code => code.toNat
  | .signaled signal => 128 + signal

def sigkill : Fin 128 := 9

/-- A `read` or a `waitpid` that is interrupted is made again, and a write of nothing is not seen. -/
def capturePlatform : CapturePlatform WaitStatus where
  interrupted errno := errno = eintr
  isFailure _ := true
  marksEmpty := false
  asksStatus := false
  killStatus := .signaled sigkill
  exitCode := WaitStatus.exitCode

/-- What a capture of the output of this child takes place under. -/
def captureSetting (calls : SpawnCalls) (executable : Bytes) (spawned : Spawned) (t : Descriptors)
    (child : ChildScript WaitStatus) (capacity : { n : Nat // 0 < n }) : CaptureSetting WaitStatus where
  platform := capturePlatform
  executable := executable
  message := calls.strerror
  child := child
  capacity := capacity
  childHolds := spawned.image.fds 1 = some .writeEnd || spawned.image.fds 2 = some .writeEnd
  callerHolds := t.holdsWriteEnd

theorem Started.callerHolds {calls : SpawnCalls} {caller : Caller} {executable : Bytes}
    {args : List Bytes} {spawned : Spawned} {t : Descriptors}
    (h : Started calls caller executable args spawned t) : t.holdsWriteEnd = false := by
  refine Slots.any_eq_false.mpr fun fd d hslot => decide_eq_false fun hhandle => ?_
  rw [h.slots, Function.update_apply] at hslot
  split at hslot
  · obtain rfl := Option.some.inj hslot
    cases hhandle
  · obtain ⟨id, hid⟩ := caller.foreign fd d hslot
    rw [hid] at hhandle
    cases hhandle

/-- On POSIX a child cannot end the capture by writing nothing. -/
theorem allowed_of_unseen {setting : CaptureSetting WaitStatus} {struck : Prop}
    {act : CaptureAct WaitStatus} (hplatform : setting.platform = capturePlatform)
    (h : ∀ status, act = .childStruck status → struck) : setting.Allowed struck False act :=
  ⟨h, fun _ hmarks => by rw [hplatform] at hmarks; cases hmarks⟩

/-- A start that fails leaves no descriptor behind. A child that is started has the arguments that it
is meant to have, the environment without the private entries and standard descriptors of its own;
while it runs the caller and the child never wait for each other for ever, however much it writes
and however little the pipe holds; a result is the status of the child and the first octets of
what it has written; and when the caller lets go of the pipe its descriptors are what they were. -/
theorem runProcess_captures (calls : SpawnCalls) (caller : Caller) (executable : Bytes)
    (args : List Bytes) :
    Ends (calls.spawnChild executable args) caller.table
      (fun spawned t => Started calls caller executable args spawned t ∧
        (t.close spawned.readEnd).slot = caller.table.slot ∧
        ∀ child capacity,
          let setting := captureSetting calls executable spawned t child capacity
          (∀ struck s, Reaches setting.captureStep
            (fun _ act => ∀ status, act = .childStruck status → struck) setting.start s →
            Captured setting struck False s) ∧
          ∀ acts s, steps setting.captureStep setting.start acts = some s →
            acts.countP setting.Productive ≤ 2 * child.writes.length + 5)
      (fun _ t => t.slot = caller.table.slot) := by
  refine ends_spawnChild.mono (fun spawned t h => ⟨h, ?_, fun child capacity => ?_⟩) fun _ _ => id
  · funext fd
    change Function.update t.slot spawned.readEnd none fd = _
    rw [h.slots, Function.update_idem, ← h.readEnd, Function.update_eq_self]
  · intro setting
    have hchild : setting.childHolds = true := by
      change (decide (spawned.image.fds 1 = _) || _) = true
      rw [h.fds]
      rfl
    obtain ⟨hcaptured, hbound⟩ := captures hchild h.callerHolds
    refine ⟨fun struck s hreaches => hcaptured struck False s (hreaches.mono ?_), hbound⟩
    exact fun _ _ hallowed => allowed_of_unseen rfl hallowed

end Posix

end AasSign
