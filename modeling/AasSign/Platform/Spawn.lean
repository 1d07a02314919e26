import AasSign.Foundation.Program
import AasSign.Foundation.Slots
import AasSign.Platform.Companion
import AasSign.Platform.Environment

/-! # Starting a child

`run_process` on POSIX up to the moment the child runs, descriptor by descriptor. The caller may
have closed its standard descriptors; the child has its own all the same, and of the pipe between
the two it has the end that is written to, and only as its standard output and its standard error.
-/

namespace AasSign

open Foundation Program

namespace Posix

/-! ## Descriptors -/

/-- What a descriptor stands for: an end of the pipe to the child, the null device that the child is
given, or something of the caller. -/
inductive Handle where
  | readEnd
  | writeEnd
  | devNull
  | other (id : Nat)
  deriving DecidableEq

structure Descriptor where
  handle : Handle
  cloexec : Bool

/-- The open descriptors of a process. -/
abbrev Descriptors := Slots Descriptor

namespace Descriptors

variable (t : Descriptors)

def closeFrom (least : Nat) : Descriptors where
  slot n := if least ≤ n then none else t.slot n
  limit := t.limit
  free n hn := by rw [t.free n hn, ite_self]

/-- `POSIX_SPAWN_CLOEXEC_DEFAULT`. -/
def cloexecAll : Descriptors where
  slot n := (t.slot n).map fun d => { d with cloexec := true }
  limit := t.limit
  free n hn := by rw [t.free n hn, Option.map_none]

/-- What a new program finds open. -/
def exec (n : Nat) : Option Handle := ((t.slot n).filter fun d => !d.cloexec).map Descriptor.handle

def holdsWriteEnd : Bool := t.any fun d => d.handle = .writeEnd

end Descriptors

/-! ## The calls -/

/-- How a child is kept from the descriptors that it is not given. -/
inductive Inheritance where
  | closeFrom
  | cloexecDefault
  | plain
  deriving DecidableEq

/-- What the calls of a start meet. -/
structure SpawnCalls where
  companion : CompanionEnv
  strerror : Nat → Bytes
  environ : Option (List Bytes)
  /-- `pipe2(descriptors, O_CLOEXEC)`. -/
  pipeCloexec : Bool
  inheritance : Inheritance
  pipeError : Option Nat
  dupError : Handle → Option Nat
  /-- The calls that set the file actions and the attributes up, in order. -/
  setupError : Nat → Option Nat
  spawnError : Option Nat

inductive FileAction where
  | open (fd : Nat) (handle : Handle)
  | dup2 (source target : Nat)
  | close (fd : Nat)
  | closeFrom (least : Nat)

/-- Done in the child; none if the call fails there. -/
def FileAction.apply (t : Descriptors) : FileAction → Option Descriptors
  | .open fd handle => some (t.put fd ⟨handle, false⟩)
  | .dup2 source target => (t.slot source).map fun d => t.put target ⟨d.handle, false⟩
  | .close fd => some (t.close fd)
  | .closeFrom least => some (t.closeFrom least)

/-- What runs in the child. -/
structure ChildImage where
  path : Bytes
  argv : List Bytes
  envp : List Bytes
  fds : Nat → Option Handle

/-- The child runs, and the caller reads from this descriptor. -/
structure Spawned where
  image : ChildImage
  readEnd : Nat

abbrev SpawnProgram (α : Type) := Program Descriptors Bytes α

/-- The characters up to the NUL that ends a C string. -/
def cString (text : Bytes) : Bytes := text.takeWhile (· ≠ 0)

def ebadf : Nat := 9

namespace SpawnCalls

variable (calls : SpawnCalls)

/-- `op + executable + ": " + strerror(errno)`. -/
def callError (op : String) (executable : Bytes) (errno : Nat) : Bytes :=
  ascii op ++ ascii " " ++ executable ++ ascii ": " ++ calls.strerror errno

def checkCall (fault : Option Nat) (op : String) (executable : Bytes) : SpawnProgram Unit :=
  match fault with
  | some errno => raise (calls.callError op executable errno)
  | none => pure ()

/-- `pipe` or `pipe2`: the two lowest descriptors. -/
def openPipe (executable : Bytes) : SpawnProgram (Nat × Nat) := do
  calls.checkCall calls.pipeError "pipe for" executable
  let s ← current
  let readEnd := s.lowestFree 0
  let s' := s.put readEnd ⟨.readEnd, calls.pipeCloexec⟩
  let writeEnd := s'.lowestFree 0
  change fun _ => s'.put writeEnd ⟨.writeEnd, calls.pipeCloexec⟩
  return (readEnd, writeEnd)

/-- `fcntl(fd, F_DUPFD_CLOEXEC, 3)`, and the end of the descriptor it replaces. -/
def duplicate (executable : Bytes) (fd : Nat) : SpawnProgram Nat := do
  let s ← current
  match s.slot fd with
  | none => raise (calls.callError "duplicate pipe for" executable ebadf)
  | some d =>
      calls.checkCall (calls.dupError d.handle) "duplicate pipe for" executable
      let replacement := s.lowestFree 3
      change fun s => (s.put replacement ⟨d.handle, true⟩).close fd
      return replacement

/-- The ends of two `ScopedFd`s, when the body throws. -/
def orClose {α : Type} (fds : List Nat) (body : SpawnProgram α) : SpawnProgram α := fun s =>
  match body s with
  | (.error what, s') => (.error what, fds.foldl Slots.close s')
  | run => run

def fileActions (readEnd writeEnd : Nat) : List FileAction :=
  [.open 0 .devNull, .dup2 writeEnd 1, .dup2 writeEnd 2, .close readEnd, .close writeEnd] ++
    if calls.inheritance = .closeFrom then [.closeFrom 3] else []

/-- What is set up, call by call: the file actions, one call for each and one before them, and the
attributes. -/
def setup (executable : Bytes) (actions : List FileAction) : SpawnProgram Unit :=
  let count := actions.length + if calls.inheritance = .cloexecDefault then 3 else 2
  calls.checkCall ((List.range count).findSome? calls.setupError) "spawn actions" executable

/-- `posix_spawn`. -/
def posixSpawn (executable resolved : Bytes) (args : List Bytes) (actions : List FileAction) :
    SpawnProgram ChildImage := do
  calls.checkCall calls.spawnError "execute" executable
  let s ← current
  let start := if calls.inheritance = .cloexecDefault then s.cloexecAll else s
  match actions.foldlM FileAction.apply start with
  | none => raise (calls.callError "execute" executable ebadf)
  | some t =>
      return {
        path := cString resolved
        argv := (resolved :: args).map cString
        envp := readEnvp (childEnvp calls.environ)
        fds := t.exec }

/-- `run_process`, up to the end of `spawn_mutex`. -/
def spawnChild (executable : Bytes) (args : List Bytes) : SpawnProgram Spawned := do
  let resolved ← lift (findExecutable calls.companion executable)
  raiseIf (∃ arg ∈ args, 0 ∈ arg)
    (ascii "execute " ++ executable ++ ascii ": argument contains NUL")
  let (first, second) ← calls.openPipe executable
  let readEnd ← orClose [first, second] (calls.duplicate executable first)
  let writeEnd ← orClose [readEnd, second] (calls.duplicate executable second)
  orClose [readEnd, writeEnd] do
    let actions := calls.fileActions readEnd writeEnd
    calls.setup executable actions
    let image ← calls.posixSpawn executable resolved args actions
    change fun s => s.close writeEnd
    return ⟨image, readEnd⟩

end SpawnCalls

/-! ## What is left of a start -/

/-- A caller that has nothing of the pipe yet. -/
structure Caller where
  table : Descriptors
  foreign : ∀ fd d, table.slot fd = some d → ∃ id, d.handle = .other id

/-- The descriptors of a child: those it is given, and, if nothing keeps it from them, those that its
caller did not mark. -/
def inherited (inheritance : Inheritance) (s : Descriptors) : Nat → Option Handle
  | 0 => some .devNull
  | 1 | 2 => some .writeEnd
  | fd => if inheritance = .plain then s.exec fd else none

/-! ## What the child is given -/

section Children

variable {s t start : Descriptors} {readEnd writeEnd fd : Nat}

/-- The table of a child that has been given its standard descriptors and has let go of the pipe. -/
def standardSlots (start : Descriptors) (readEnd writeEnd fd : Nat) : Option Descriptor :=
  if fd = 0 then some ⟨.devNull, false⟩
  else if fd = 1 ∨ fd = 2 then some ⟨.writeEnd, false⟩
  else if fd = readEnd ∨ fd = writeEnd then none
  else start.slot fd

theorem apply_standard (hread : 3 ≤ readEnd) (hwrite : 3 ≤ writeEnd) {cloexec : Bool}
    (hslot : start.slot writeEnd = some ⟨.writeEnd, cloexec⟩) :
    ∃ t', [FileAction.open 0 .devNull, .dup2 writeEnd 1, .dup2 writeEnd 2, .close readEnd,
      .close writeEnd].foldlM FileAction.apply start = some t' ∧
      t'.slot = standardSlots start readEnd writeEnd := by
  have hzero : (start.put 0 ⟨.devNull, false⟩).slot writeEnd = some ⟨.writeEnd, cloexec⟩ :=
    (Function.update_of_ne (by omega) _ _).trans hslot
  have hone : ((start.put 0 ⟨.devNull, false⟩).put 1 ⟨.writeEnd, false⟩).slot writeEnd =
      some ⟨.writeEnd, cloexec⟩ := (Function.update_of_ne (by omega) _ _).trans hzero
  refine ⟨_, by simp [FileAction.apply, hzero, hone]; rfl, ?_⟩
  funext fd
  simp only [standardSlots, Slots.close, Slots.put, Function.update_apply]
  split_ifs <;> first | rfl | omega

theorem standardSlots_eq {d d' : Descriptor} (h : AddsTwo s t readEnd writeEnd d d') (hfd : 3 ≤ fd) :
    standardSlots t readEnd writeEnd fd = s.slot fd := by
  rw [standardSlots, if_neg (by omega), if_neg (by omega)]
  split
  next hend =>
    rcases hend with rfl | rfl
    · exact h.freeFirst.symm
    · exact h.freeSecond.symm
  next hend =>
    rw [not_or] at hend
    exact h.slot_ne hend.1 hend.2

/-- Whatever the caller has open, the child has its standard descriptors; the two ends of the pipe
that the caller holds are marked, and are above them. -/
theorem child_descriptors (calls : SpawnCalls)
    (h : AddsTwo s t readEnd writeEnd ⟨.readEnd, true⟩ ⟨.writeEnd, true⟩) (hread : 3 ≤ readEnd)
    (hwrite : 3 ≤ writeEnd) :
    ∃ t', (calls.fileActions readEnd writeEnd).foldlM FileAction.apply
        (if calls.inheritance = .cloexecDefault then t.cloexecAll else t) = some t' ∧
      t'.exec = inherited calls.inheritance s := by
  have hslot : ∀ start : Descriptors, (start = t ∨ start = t.cloexecAll) →
      start.slot writeEnd = some ⟨.writeEnd, true⟩ := by
    rintro start (rfl | rfl)
    · exact h.slot_second
    · change (t.slot writeEnd).map _ = _
      rw [h.slot_second]
      rfl
  rw [SpawnCalls.fileActions]
  cases hinheritance : calls.inheritance with
  | plain =>
      obtain ⟨t', hactions, hslots⟩ := apply_standard hread hwrite (hslot t (.inl rfl))
      refine ⟨t', by simpa using hactions, ?_⟩
      funext fd
      rw [Descriptors.exec, hslots]
      match fd with
      | 0 => rfl
      | 1 => rfl
      | 2 => rfl
      | fd + 3 =>
          rw [standardSlots_eq h (by omega)]
          simp [inherited, Descriptors.exec]
  | closeFrom =>
      obtain ⟨t', hactions, hslots⟩ := apply_standard hread hwrite (hslot t (.inl rfl))
      refine ⟨t'.closeFrom 3, ?_, ?_⟩
      · rw [List.foldlM_append]
        simp [hactions, FileAction.apply]
      · funext fd
        change ((if 3 ≤ fd then none else t'.slot fd).filter _).map _ = _
        rw [hslots]
        match fd with
        | 0 => rfl
        | 1 => rfl
        | 2 => rfl
        | fd + 3 => simp [inherited]
  | cloexecDefault =>
      obtain ⟨t', hactions, hslots⟩ := apply_standard hread hwrite (hslot t.cloexecAll (.inr rfl))
      refine ⟨t', by simpa using hactions, ?_⟩
      funext fd
      rw [Descriptors.exec, hslots]
      match fd with
      | 0 => rfl
      | 1 => rfl
      | 2 => rfl
      | fd + 3 =>
          simp only [standardSlots, inherited, Descriptors.cloexecAll]
          cases t.slot (fd + 3) <;> split_ifs <;> simp_all

end Children

/-! ## The start -/

/-- A child has been started for a caller. -/
structure Started (calls : SpawnCalls) (caller : Caller) (executable : Bytes) (args : List Bytes)
    (spawned : Spawned) (t : Descriptors) : Prop where
  program : ∃ resolved, findExecutable calls.companion executable = .ok resolved ∧
    spawned.image.path = cString resolved ∧ spawned.image.argv = cString resolved :: args
  envp : spawned.image.envp = readEnvp (childEnvp calls.environ)
  fds : spawned.image.fds = inherited calls.inheritance caller.table
  /-- The caller has the end that is read from, and nothing else is new. -/
  readEnd : caller.table.slot spawned.readEnd = none
  slots : t.slot =
    Function.update caller.table.slot spawned.readEnd (some ⟨.readEnd, true⟩)

section Starts

variable {calls : SpawnCalls} {caller : Caller} {s t : Descriptors} {executable resolved : Bytes}
  {args : List Bytes} {first second : Nat} {d d' : Descriptor} {α : Type}

theorem ends_checkCall {fault : Option Nat} {op : String} {Q : Unit → Descriptors → Prop}
    {E : Bytes → Descriptors → Prop} (hQ : Q () s) (hE : ∀ what, E what s) :
    Ends (calls.checkCall fault op executable) s Q E := by
  unfold SpawnCalls.checkCall
  split
  · exact hE _
  · exact hQ

theorem ends_orClose {fds : List Nat} {body : SpawnProgram α} {Q : α → Descriptors → Prop}
    {E : Bytes → Descriptors → Prop}
    (h : Ends body s Q fun what s' => E what (fds.foldl Slots.close s')) :
    Ends (SpawnCalls.orClose fds body) s Q E := by
  unfold Ends at h ⊢
  rw [SpawnCalls.orClose]
  rcases hrun : body s with ⟨outcome, s'⟩
  rw [hrun] at h
  cases outcome <;> exact h

theorem ends_duplicate (h : AddsTwo s t first second d d') {Q : Nat → Descriptors → Prop}
    {E : Bytes → Descriptors → Prop}
    (hQ : ∀ fd t', 3 ≤ fd → AddsTwo s t' fd second ⟨d.handle, true⟩ d' → Q fd t')
    (hE : ∀ what, E what t) : Ends (calls.duplicate executable first) t Q E := by
  rw [SpawnCalls.duplicate, ends_bind, ends_current, h.slot_first]
  dsimp only
  rw [ends_bind]
  refine ends_checkCall ?_ hE
  rw [ends_bind, ends_change, ends_pure]
  exact hQ _ _ Slots.le_lowestFree (h.duplicate Slots.lowestFree_free)

theorem ends_posixSpawn
    (h : AddsTwo s t first second ⟨.readEnd, true⟩ ⟨.writeEnd, true⟩) (hfirst : 3 ≤ first)
    (hsecond : 3 ≤ second) {Q : ChildImage → Descriptors → Prop} {E : Bytes → Descriptors → Prop}
    (hQ : Q {
      path := cString resolved
      argv := (resolved :: args).map cString
      envp := readEnvp (childEnvp calls.environ)
      fds := inherited calls.inheritance s } t)
    (hE : ∀ what, E what t) :
    Ends (calls.posixSpawn executable resolved args (calls.fileActions first second)) t Q E := by
  obtain ⟨t', hactions, hexec⟩ := child_descriptors calls h hfirst hsecond
  rw [SpawnCalls.posixSpawn, ends_bind]
  refine ends_checkCall ?_ hE
  rw [ends_bind, ends_current]
  dsimp only
  rw [hactions]
  rw [← hexec] at hQ
  exact hQ

theorem cString_eq {text : Bytes} (h : 0 ∉ text) : cString text = text := by
  refine List.takeWhile_eq_self_iff.mpr fun c hc => ?_
  simpa using fun hzero : c = 0 => h (hzero ▸ hc)

/-- A start that fails leaves the descriptors of the caller as they were, and one that does not
adds the end that is read from. -/
theorem ends_spawnChild : Ends (calls.spawnChild executable args) caller.table
    (Started calls caller executable args) (fun _ t => t.slot = caller.table.slot) := by
  rw [SpawnCalls.spawnChild, ends_bind]
  refine ends_lift_of (fun resolved hresolved => ?_) fun _ => rfl
  rw [ends_bind, ends_raiseIf]
  refine ⟨fun _ => rfl, fun hclean => ?_⟩
  rw [ends_bind, SpawnCalls.openPipe, ends_bind]
  refine ends_checkCall ?_ fun _ => rfl
  rw [ends_bind, ends_current, ends_bind, ends_change, ends_pure]
  have hpipe : AddsTwo caller.table _ _ _ ⟨.readEnd, calls.pipeCloexec⟩ ⟨.writeEnd, calls.pipeCloexec⟩ :=
    addsTwo_lowest
  dsimp only
  rw [ends_bind]
  refine ends_orClose (ends_duplicate hpipe (fun readEnd t hread hadds => ?_) fun _ => hpipe.close_both)
  rw [ends_bind]
  refine ends_orClose (ends_duplicate hadds.swap (fun writeEnd t' hwrite hadds' => ?_)
    fun _ => hadds.close_both)
  have hboth := hadds'.swap
  refine ends_orClose ?_
  rw [ends_bind, SpawnCalls.setup]
  refine ends_checkCall ?_ fun _ => hboth.close_both
  rw [ends_bind]
  refine ends_posixSpawn hboth hread hwrite ?_ fun _ => hboth.close_both
  rw [ends_bind, ends_change, ends_pure]
  have hargs : args.map cString = args := by
    refine (List.map_congr_left fun arg harg => ?_).trans (List.map_id args)
    exact cString_eq fun hzero => hclean ⟨arg, harg, hzero⟩
  exact {
    program := ⟨resolved, hresolved, rfl, by rw [List.map_cons, hargs]⟩
    envp := rfl
    fds := rfl
    readEnd := hboth.freeFirst
    slots := hboth.close_second }

end Starts

end Posix

end AasSign
