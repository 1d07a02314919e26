import AasSign.Foundation.Conversation
import AasSign.Platform.ReplaceSafety

/-! # Copying a file

`copy_file` on POSIX, system call by system call: reads and writes may move fewer octets than they
are asked to, or be interrupted, and any call may fail. A copy is whole or it is gone, and nothing
else is touched.
-/

namespace AasSign

open Foundation Program

namespace Posix

/-! ## The loops -/

def eintr : Nat := 4

def eexist : Nat := 17

/-- `sizeof(buffer)`. -/
def copyBufferSize : Nat := 65536

/-- What a `read` and a `write` would return at one moment, none for -1, and `errno` after it. A
`read` that does not fail moves one octet more than is said here, as far as there are some. -/
structure Moment where
  read : Option Nat
  write : Option Nat
  errno : Nat

/-- No call fails at the moment. -/
def Moment.Productive (m : Moment) : Bool := m.read.isSome && m.write.isSome

/-- The loops of a copy: what is not read yet, what is in the buffer from `offset` on, and what is in
the target. -/
structure Copying where
  rest : Bytes
  pending : Bytes
  out : Bytes
  ended : Bool

def Copying.start (contents : Bytes) : Copying := ⟨contents, [], [], false⟩

/-- Enter a new file. -/
def Files.addFile (s : Files) (entry inode : Nat) (node : Node) : Files where
  resolve := s.resolve
  entry := Function.update s.entry entry (some inode)
  node := Function.update s.node inode node

/-- How a copy stops: with an exception, or not yet. -/
inductive CopyStop where
  | threw (what : Bytes)
  | waiting
  deriving DecidableEq

section Loops

variable (strerror : Nat → Bytes) (source target : Bytes)

/-- `errno_msg`. -/
def copyError (op : String) (path : Bytes) (errno : Nat) : Bytes :=
  ascii op ++ ascii " " ++ path ++ ascii ": " ++ strerror errno

/-- A `write` of what is left in the buffer. -/
def Copying.write (s : Copying) (m : Moment) : Except Bytes Copying :=
  match m.write with
  | none =>
      if m.errno = eintr then .ok s else .error (copyError strerror "write(copy)" target m.errno)
  | some 0 => .error (copyError strerror "write(copy)" target m.errno)
  | some (n + 1) => .ok { s with pending := s.pending.drop (n + 1), out := s.out ++ s.pending.take (n + 1) }

/-- A `read` into the empty buffer; nothing is read at the end of the source. -/
def Copying.read (s : Copying) (m : Moment) : Except Bytes Copying :=
  match m.read with
  | none =>
      if m.errno = eintr then .ok s else .error (copyError strerror "read(copy)" source m.errno)
  | some n =>
      if s.rest = [] then .ok { s with ended := true }
      else .ok { s with
        rest := s.rest.drop (min (n + 1) copyBufferSize)
        pending := s.rest.take (min (n + 1) copyBufferSize) }

/-- One pass of the inner loop, if there is something to write, and else of the outer one. -/
def copyTurn (s : Copying) : LoopTurn Copying Moment Bytes Unit :=
  if s.pending ≠ [] then .ask (s.write strerror target)
  else if s.ended then .leave (.ok ())
  else .ask (s.read strerror source)

end Loops

/-! ## The command -/

/-- What the calls of a copy meet in these files. -/
structure CopyCalls (files : Files) where
  strerror : Nat → Bytes
  /-- `open` of the source, links followed. -/
  openSource : Except Nat { inode : Nat // ∃ entry, files.entry entry = some inode }
  fstatError : Option Nat
  createError : Option Nat
  /-- The inode of a new file. -/
  fresh : { inode : Nat // ∀ entry, files.entry entry ≠ some inode }
  caller : Credentials
  /-- The group of a new file: the caller's, or that of the directory. -/
  gid : Nat
  moments : List Moment
  fchmodError : Option Nat
  closeError : Option Nat
  /-- The removal of a copy that is not whole works. -/
  unlinks : Bool

abbrev CopyProgram (α : Type) := Program Files CopyStop α

namespace CopyCalls

variable {files : Files} (calls : CopyCalls files)

/-- `if (call < 0) throw`. -/
def check (fault : Option Nat) (op : String) (path : Bytes) : CopyProgram Unit :=
  match fault with
  | some errno => raise (.threw (copyError calls.strerror op path errno))
  | none => pure ()

/-- A file of the caller. -/
def ownNode (contents : Bytes) (mode : BitVec 12) : Node where
  kind := .regular
  contents := contents
  uid := calls.caller.uid
  gid := calls.gid
  mode := mode

/-- `open(to, O_WRONLY | O_CREAT | O_EXCL | O_CLOEXEC, 0600)`. -/
def createFile (target : Bytes) : CopyProgram Unit := do
  calls.check calls.createError "create(copy)" target
  let s ← current
  match s.resolve target with
  | none => calls.check (some enoent) "create(copy)" target
  | some entry =>
      if (s.entry entry).isSome then calls.check (some eexist) "create(copy)" target
      else change fun s => s.addFile entry calls.fresh.1 (calls.ownNode [] 0o600#12)

/-- The two loops; what they have written is in the target, however they stop. -/
def transfer (source target : Bytes) (contents : Bytes) : CopyProgram Unit := fun s =>
  let standing := converse (copyTurn calls.strerror source target) calls.moments (.start contents)
  let s' := s.setNode calls.fresh.1 { s.node calls.fresh.1 with contents := standing.state.out }
  match standing.outcome with
  | none => (.error .waiting, s')
  | some (.error what) => (.error (.threw what), s')
  | some (.ok _) => (.ok (), s')

/-- The file is the caller's own. -/
def fchmod (target : Bytes) (mode : BitVec 12) : CopyProgram Unit := do
  calls.check calls.fchmodError "fchmod(copy)" target
  change fun s => s.setNode calls.fresh.1
    { s.node calls.fresh.1 with mode := calls.caller.grantedMode (s.node calls.fresh.1).gid mode }

/-- `unlink(to)`. -/
def unlink (target : Bytes) (s : Files) : Files :=
  match s.resolve target with
  | some entry =>
      if calls.unlinks then { s with entry := Function.update s.entry entry none } else s
  | none => s

/-- `try { .. } catch (...) { unlink(to); throw; }` -/
def orUnlink (target : Bytes) (body : CopyProgram Unit) : CopyProgram Unit := fun s =>
  match body s with
  | (.error (.threw what), s') => (.error (.threw what), calls.unlink target s')
  | run => run

/-- `copy_file`. -/
def copyFile (source target : Bytes) : CopyProgram Unit :=
  match calls.openSource with
  | .error errno => raise (.threw (copyError calls.strerror "open(copy)" source errno))
  | .ok opened => do
      calls.check calls.fstatError "fstat" source
      let s ← current
      let st := s.node opened.1
      raiseIf (st.kind ≠ .regular) (.threw (ascii "copy " ++ source ++ ascii ": not a regular file"))
      calls.createFile target
      calls.orUnlink target do
        calls.transfer source target st.contents
        calls.fchmod target st.mode
        calls.check calls.closeError "close(copy)" target

end CopyCalls

/-! ## The loops, whatever is moved -/

/-- Nothing is lost and nothing is made up between the source and the target. -/
def Copying.Of (s : Copying) (contents : Bytes) : Prop :=
  s.out ++ s.pending ++ s.rest = contents ∧ (s.ended = true → s.rest = [])

/-- How far a copy has to go. -/
def Copying.measure (s : Copying) : Nat :=
  2 * s.rest.length + s.pending.length + if s.ended then 0 else 1

section Loops

variable {strerror : Nat → Bytes} {source target contents : Bytes} {s s' : Copying} {m : Moment}
  {next : Moment → Except Bytes Copying} {moments : List Moment}

theorem Copying.write_ok (h : s.write strerror target m = .ok s') :
    m.write = none ∧ s' = s ∨ ∃ n, 0 < n ∧
      s' = { s with pending := s.pending.drop n, out := s.out ++ s.pending.take n } := by
  unfold Copying.write at h
  split at h
  next hwrite =>
    split_ifs at h
    cases h
    exact .inl ⟨hwrite, rfl⟩
  · cases h
  next n hwrite =>
    cases h
    exact .inr ⟨n + 1, Nat.succ_pos n, rfl⟩

theorem Copying.read_ok (h : s.read strerror source m = .ok s') :
    m.read = none ∧ s' = s ∨ s.rest = [] ∧ s' = { s with ended := true } ∨
      s.rest ≠ [] ∧ ∃ n, 0 < n ∧ s' = { s with rest := s.rest.drop n, pending := s.rest.take n } := by
  unfold Copying.read at h
  split at h
  next hread =>
    split_ifs at h
    cases h
    exact .inl ⟨hread, rfl⟩
  · split_ifs at h with hrest
    · cases h
      exact .inr (.inl ⟨hrest, rfl⟩)
    · cases h
      exact .inr (.inr ⟨hrest, _, by simp [copyBufferSize], rfl⟩)

theorem copyTurn_ask (h : copyTurn strerror source target s = .ask next) :
    s.pending ≠ [] ∧ next = s.write strerror target ∨
      s.pending = [] ∧ s.ended = false ∧ next = s.read strerror source := by
  unfold copyTurn at h
  split_ifs at h with hpending hended
  · cases h
    exact .inl ⟨hpending, rfl⟩
  · cases h
    exact .inr ⟨not_not.mp hpending, Bool.eq_false_iff.mpr hended, rfl⟩

theorem copyTurn_leave {outcome : Except Bytes Unit}
    (h : copyTurn strerror source target s = .leave outcome) : s.pending = [] ∧ s.ended = true := by
  unfold copyTurn at h
  split_ifs at h with hpending hended
  exact ⟨not_not.mp hpending, hended⟩

/-- A pass loses nothing. -/
theorem copyTurn_of (hturn : copyTurn strerror source target s = .ask next) (hnext : next m = .ok s')
    (h : s.Of contents) : s'.Of contents := by
  obtain ⟨hcontents, hended⟩ := h
  rcases copyTurn_ask hturn with ⟨hpending, rfl⟩ | ⟨hpending, hopen, rfl⟩
  · rcases Copying.write_ok hnext with ⟨-, rfl⟩ | ⟨n, -, rfl⟩
    · exact ⟨hcontents, hended⟩
    · refine ⟨?_, hended⟩
      rw [List.append_assoc s.out, List.take_append_drop]
      exact hcontents
  · rcases Copying.read_ok hnext with ⟨-, rfl⟩ | ⟨hrest, rfl⟩ | ⟨-, n, -, rfl⟩
    · exact ⟨hcontents, hended⟩
    · exact ⟨hcontents, fun _ => hrest⟩
    · rw [hpending, List.append_nil] at hcontents
      refine ⟨?_, fun hended' => ?_⟩
      · rw [List.append_assoc, List.take_append_drop]
        exact hcontents
      · rw [hopen] at hended'
        cases hended'

/-- A call that moves something gets the copy further. -/
theorem copyTurn_measure (hturn : copyTurn strerror source target s = .ask next)
    (hnext : next m = .ok s') :
    s'.measure ≤ s.measure ∧ (m.Productive = true → s'.measure < s.measure) := by
  have hidle : (m.read = none ∨ m.write = none) → m.Productive ≠ true := by
    rintro (hnone | hnone) <;> simp [Moment.Productive, hnone]
  have hless : ∀ {t : Copying}, t.measure < s.measure →
      t.measure ≤ s.measure ∧ (m.Productive = true → t.measure < s.measure) :=
    fun h => ⟨h.le, fun _ => h⟩
  rcases copyTurn_ask hturn with ⟨hpending, rfl⟩ | ⟨hpending, hopen, rfl⟩
  · rcases Copying.write_ok hnext with ⟨hnone, rfl⟩ | ⟨n, hn, rfl⟩
    · exact ⟨le_rfl, fun hproductive => absurd hproductive (hidle (.inr hnone))⟩
    · apply hless
      have hlength := List.length_pos_iff.mpr hpending
      simp only [Copying.measure, List.length_drop]
      omega
  · rcases Copying.read_ok hnext with ⟨hnone, rfl⟩ | ⟨hrest, rfl⟩ | ⟨hrest, n, hn, rfl⟩
    · exact ⟨le_rfl, fun hproductive => absurd hproductive (hidle (.inl hnone))⟩
    · apply hless
      simp [Copying.measure, hopen]
    · apply hless
      have hlength := List.length_pos_iff.mpr hrest
      simp only [Copying.measure, hpending, List.length_drop, List.length_take, List.length_nil]
      omega

theorem copyTurn_pos (hturn : copyTurn strerror source target s = .ask next) : 0 < s.measure := by
  rcases copyTurn_ask hturn with ⟨hpending, -⟩ | ⟨-, hopen, -⟩
  · have hlength := List.length_pos_iff.mpr hpending
    simp only [Copying.measure]
    omega
  · simp [Copying.measure, hopen]

/-- What the loops leave in the target: a front of the source, and all of it if they end. -/
theorem copied_front (strerror : Nat → Bytes) (source target contents : Bytes) (moments : List Moment) :
    (converse (copyTurn strerror source target) moments (.start contents)).state.out <+: contents ∧
      ((converse (copyTurn strerror source target) moments (.start contents)).outcome = some (.ok ()) →
        (converse (copyTurn strerror source target) moments (.start contents)).state.out = contents) := by
  have hof : (converse (copyTurn strerror source target) moments (.start contents)).state.Of contents :=
    converse_invariant (fun s : Copying => s.Of contents) (fun _ _ _ _ => copyTurn_of) ⟨rfl, nofun⟩
  refine ⟨⟨_, (List.append_assoc _ _ _).symm.trans hof.1⟩, fun hdone => ?_⟩
  obtain ⟨hpending, hended⟩ := copyTurn_leave (converse_ok hdone)
  have hrest := hof.2 hended
  rw [Copying.Of, hpending, hrest, List.append_nil, List.append_nil] at hof
  exact hof.1

/-- The loops do not wait for more than two calls an octet, and one, that move something. -/
theorem copy_ends (strerror : Nat → Bytes) (source target : Bytes)
    (h : 2 * contents.length + 1 ≤ moments.countP Moment.Productive) :
    (converse (copyTurn strerror source target) moments (.start contents)).outcome ≠ none :=
  converse_outcome Copying.measure Moment.Productive (fun _ _ _ _ => copyTurn_measure)
    (fun _ _ => copyTurn_pos) (by simpa [Copying.measure, Copying.start] using h)

end Loops

/-! ## The copy -/

/-- How a copy that has made its target ends, before anything is removed. -/
inductive Transferred (s : Files) (calls : CopyCalls s) (entry : Entry) (contents : Bytes)
    (mode : BitVec 12) : Except CopyStop Unit → Files → Prop where
  | whole : Transferred s calls entry contents mode (.ok ())
      (s.addFile entry calls.fresh.1
        (calls.ownNode contents (calls.caller.grantedMode calls.gid mode)))
  | threw (what : Bytes) {node : Node} (hfront : node.contents <+: contents) :
      Transferred s calls entry contents mode (.error (.threw what)) (s.addFile entry calls.fresh.1 node)
  | waiting {node : Node} (hfront : node.contents <+: contents)
      (hcount : calls.moments.countP Moment.Productive ≤ 2 * contents.length) :
      Transferred s calls entry contents mode (.error .waiting) (s.addFile entry calls.fresh.1 node)

/-- What a copy does to the files. -/
structure CopyRun (s : Files) (calls : CopyCalls s) (target : Bytes) (outcome : Except CopyStop Unit)
    (s' : Files) : Prop where
  /-- A copy that returns is whole, in a new file with the mode of the source, less `S_ISGID` where
  the caller is neither privileged nor in the group of the new file. -/
  whole : outcome = .ok () → ∃ opened, calls.openSource = .ok opened ∧
    (s.node opened.1).kind = .regular ∧ s.find target = none ∧ s'.find target = some calls.fresh.1 ∧
    s'.node calls.fresh.1 = calls.ownNode (s.node opened.1).contents
      (calls.caller.grantedMode calls.gid (s.node opened.1).mode)
  /-- After an exception every name is what it was, unless the removal fails. -/
  gone : ∀ what, outcome = .error (.threw what) → calls.unlinks = true →
    ∀ path, s'.find path = s.find path
  /-- What there is of the copy is a front of the source. -/
  front : s'.find target = some calls.fresh.1 → ∃ opened, calls.openSource = .ok opened ∧
    (s'.node calls.fresh.1).contents <+: (s.node opened.1).contents
  /-- A copy that has not ended has not moved everything. -/
  waiting : outcome = .error .waiting → ∃ opened, calls.openSource = .ok opened ∧
    calls.moments.countP Moment.Productive ≤ 2 * (s.node opened.1).contents.length
  names : ∀ path, s.resolve path ≠ s.resolve target → s'.find path = s.find path
  nodes : ∀ inode, inode ≠ calls.fresh.1 → s'.node inode = s.node inode

section Copies

variable {s : Files} {calls : CopyCalls s} {source target contents what : Bytes} {entry : Entry}
  {inode : Nat} {node node' : Node} {mode : BitVec 12}

theorem setNode_addFile : (s.addFile entry inode node).setNode inode node' =
    s.addFile entry inode node' := by
  simp only [Files.addFile, Files.setNode, Function.update_idem]

@[simp] theorem addFile_node : (s.addFile entry inode node).node inode = node :=
  Function.update_self _ _ _

theorem find_addFile (hresolve : s.resolve target = some entry) :
    (s.addFile entry inode node).find target = some inode := by
  simp [Files.find, Files.addFile, hresolve]

theorem find_addFile_ne {path : Bytes} (h : s.resolve path ≠ some entry) :
    (s.addFile entry inode node).find path = s.find path := by
  simp only [Files.find, Files.addFile]
  cases hpath : s.resolve path with
  | none => rfl
  | some other =>
      have hother : other ≠ entry := fun heq => h (hpath.trans (congrArg some heq))
      simp [Function.update_of_ne hother]

/-- Without its entry a new file leaves the names as they were. -/
theorem unlink_addFile (hresolve : s.resolve target = some entry) (habsent : s.entry entry = none)
    (hunlinks : calls.unlinks = true) : calls.unlink target (s.addFile entry inode node) =
      { s with node := Function.update s.node inode node } := by
  have hentry : Function.update s.entry entry none = s.entry := by
    rw [← habsent]
    exact Function.update_eq_self entry s.entry
  simp only [CopyCalls.unlink, Files.addFile, hresolve, hunlinks, if_true, Function.update_idem, hentry]

theorem ends_copyCheck {t : Files} {fault : Option Nat} {op : String} {path : Bytes}
    {Q : Unit → Files → Prop} {E : CopyStop → Files → Prop} (hQ : Q () t) (hE : ∀ what, E (.threw what) t) :
    Ends (calls.check fault op path) t Q E := by
  unfold CopyCalls.check
  split
  · exact hE _
  · exact hQ

theorem ends_createFile {Q : Unit → Files → Prop} {E : CopyStop → Files → Prop}
    (hQ : ∀ entry, s.resolve target = some entry → s.entry entry = none →
      Q () (s.addFile entry calls.fresh.1 (calls.ownNode [] 0o600#12)))
    (hE : ∀ what, E (.threw what) s) : Ends (calls.createFile target) s Q E := by
  rw [CopyCalls.createFile, ends_bind]
  refine ends_copyCheck ?_ hE
  rw [ends_bind, ends_current]
  split
  · exact hE _
  next entry hresolve =>
    rw [ends_ite]
    refine ⟨fun _ => hE _, fun habsent => ?_⟩
    exact hQ entry hresolve (Option.not_isSome_iff_eq_none.mp habsent)

theorem ends_transfer {Q : Unit → Files → Prop} {E : CopyStop → Files → Prop}
    (hQ : Q () (s.addFile entry calls.fresh.1 { node with contents }))
    (hthrew : ∀ what front, front <+: contents →
      E (.threw what) (s.addFile entry calls.fresh.1 { node with contents := front }))
    (hwaiting : ∀ front, front <+: contents →
      calls.moments.countP Moment.Productive ≤ 2 * contents.length →
      E .waiting (s.addFile entry calls.fresh.1 { node with contents := front })) :
    Ends (calls.transfer source target contents) (s.addFile entry calls.fresh.1 node) Q E := by
  obtain ⟨hfront, hwhole⟩ := copied_front calls.strerror source target contents calls.moments
  have hends : 2 * contents.length + 1 ≤ calls.moments.countP Moment.Productive →
      (converse (copyTurn calls.strerror source target) calls.moments (.start contents)).outcome ≠ none :=
    copy_ends calls.strerror source target
  unfold Ends CopyCalls.transfer
  simp only [addFile_node, setNode_addFile]
  generalize converse (copyTurn calls.strerror source target) calls.moments (.start contents) = standing
    at hfront hwhole hends
  obtain ⟨final, outcome⟩ := standing
  cases outcome with
  | none => exact hwaiting _ hfront (by by_contra hmany; exact hends (by omega) rfl)
  | some outcome =>
      cases outcome with
      | error what => exact hthrew what _ hfront
      | ok _ =>
          rw [← hwhole rfl] at hQ
          exact hQ

/-- The body of the copy, in the files with the new target. -/
theorem ends_copyBody : Ends (do
      calls.transfer source target contents
      calls.fchmod target mode
      calls.check calls.closeError "close(copy)" target)
    (s.addFile entry calls.fresh.1 (calls.ownNode [] 0o600#12))
    (fun _ => Transferred s calls entry contents mode (.ok ()))
    fun e => Transferred s calls entry contents mode (.error e) := by
  rw [ends_bind]
  refine ends_transfer ?_ (fun what _ hfront => .threw what hfront) fun _ hfront => .waiting hfront
  have hthrew : ∀ what mode', Transferred s calls entry contents mode (.error (.threw what))
      (s.addFile entry calls.fresh.1 (calls.ownNode contents mode')) :=
    fun what _ => .threw what (List.prefix_refl _)
  rw [ends_bind, CopyCalls.fchmod, ends_bind]
  refine ends_copyCheck ?_ fun what => hthrew what 0o600#12
  rw [ends_change, addFile_node, setNode_addFile]
  exact ends_copyCheck .whole fun what => hthrew what _

theorem find_ne_fresh (path : Bytes) : s.find path ≠ some calls.fresh.1 := by
  intro hfind
  obtain ⟨entry, -, hentry⟩ := Option.bind_eq_some_iff.mp hfind
  exact calls.fresh.2 entry hentry

theorem copyRun_untouched : CopyRun s calls target (.error (.threw what)) s where
  whole := nofun
  gone _ _ _ _ := rfl
  front hfind := absurd hfind (find_ne_fresh target)
  waiting := nofun
  names _ _ := rfl
  nodes _ _ := rfl

theorem ends_orUnlink {t : Files} {body : CopyProgram Unit} {Q : Unit → Files → Prop}
    {E : CopyStop → Files → Prop} (h : Ends body t Q fun e t' =>
      match e with
      | .threw what => E (.threw what) (calls.unlink target t')
      | .waiting => E .waiting t') : Ends (calls.orUnlink target body) t Q E := by
  unfold Ends at h ⊢
  rw [CopyCalls.orUnlink]
  rcases hrun : body t with ⟨outcome, t'⟩
  rw [hrun] at h
  cases outcome with
  | ok _ => exact h
  | error e => cases e <;> exact h

section Opened

variable {opened : { inode : Nat // ∃ entry, s.entry entry = some inode }} {t : Files}

/-- The files with a new target, of which a front is written. -/
theorem copyRun_partial (hopen : calls.openSource = .ok opened) (hresolve : s.resolve target = some entry)
    (hfront : node.contents <+: (s.node opened.1).contents) {e : CopyStop}
    (hgone : ∀ what, e = .threw what → calls.unlinks ≠ true)
    (hwaiting : e = .waiting →
      calls.moments.countP Moment.Productive ≤ 2 * (s.node opened.1).contents.length) :
    CopyRun s calls target (.error e) (s.addFile entry calls.fresh.1 node) where
  whole := nofun
  gone what he hunlinks := absurd hunlinks (hgone what (Except.error.inj he))
  front _ := ⟨opened, hopen, by rwa [addFile_node]⟩
  waiting he := ⟨opened, hopen, hwaiting (Except.error.inj he)⟩
  names path hpath := find_addFile_ne (hresolve ▸ hpath)
  nodes _ hinode := Function.update_of_ne hinode _ _

theorem copyRun_whole (hopen : calls.openSource = .ok opened)
    (hregular : (s.node opened.1).kind = .regular) (hresolve : s.resolve target = some entry)
    (habsent : s.entry entry = none) :
    CopyRun s calls target (.ok ()) (s.addFile entry calls.fresh.1
      (calls.ownNode (s.node opened.1).contents
        (calls.caller.grantedMode calls.gid (s.node opened.1).mode))) where
  whole _ := by
    refine ⟨opened, hopen, hregular, ?_, find_addFile hresolve, addFile_node⟩
    simp [Files.find, hresolve, habsent]
  gone := nofun
  front _ := ⟨opened, hopen, by rw [addFile_node]; exact List.prefix_refl _⟩
  waiting := nofun
  names path hpath := find_addFile_ne (hresolve ▸ hpath)
  nodes _ hinode := Function.update_of_ne hinode _ _

/-- After an exception the target is removed, if that works. -/
theorem copyRun_unlink (hopen : calls.openSource = .ok opened) (hresolve : s.resolve target = some entry)
    (habsent : s.entry entry = none) (hfront : node.contents <+: (s.node opened.1).contents) :
    CopyRun s calls target (.error (.threw what))
      (calls.unlink target (s.addFile entry calls.fresh.1 node)) := by
  by_cases hunlinks : calls.unlinks = true
  · rw [unlink_addFile hresolve habsent hunlinks]
    exact {
      whole := nofun
      gone := fun _ _ _ _ => rfl
      front := fun hfind => absurd hfind (find_ne_fresh (s := s) target)
      waiting := nofun
      names := fun _ _ => rfl
      nodes := fun _ hinode => Function.update_of_ne hinode _ _ }
  · have hleft : calls.unlink target (s.addFile entry calls.fresh.1 node) =
        s.addFile entry calls.fresh.1 node := by
      simp [CopyCalls.unlink, Files.addFile, hresolve, hunlinks]
    rw [hleft]
    exact copyRun_partial hopen hresolve hfront (fun _ _ => hunlinks) nofun

end Opened

/-- However many octets a call moves, whatever is interrupted and whatever fails: a copy that returns
is whole, a copy that throws is removed, a copy that has not ended is a front of the source and has
not been given two calls an octet that move something, and no other name and no other file is
touched. -/
theorem copyFile_run (source target : Bytes) (s : Files) (calls : CopyCalls s) :
    CopyRun s calls target (calls.copyFile source target s).1 (calls.copyFile source target s).2 := by
  refine (ends_outcome (P := fun outcome s' => CopyRun s calls target outcome s')).mp ?_
  rw [CopyCalls.copyFile]
  cases hopen : calls.openSource with
  | error errno => exact copyRun_untouched
  | ok opened =>
      dsimp only
      rw [ends_bind]
      refine ends_copyCheck ?_ fun _ => copyRun_untouched
      rw [ends_bind, ends_current, ends_bind, ends_raiseIf]
      refine ⟨fun _ => copyRun_untouched, fun hregular => ?_⟩
      rw [ends_bind]
      refine ends_createFile (fun entry hresolve habsent => ?_) fun _ => copyRun_untouched
      refine ends_orUnlink (ends_copyBody.mono ?_ ?_)
      · intro _ s' h
        cases h
        exact copyRun_whole hopen (not_not.mp hregular) hresolve habsent
      · intro e s' h
        cases h with
        | threw what hfront => exact copyRun_unlink hopen hresolve habsent hfront
        | waiting hfront hcount =>
            exact copyRun_partial hopen hresolve hfront nofun fun _ => hcount

end Copies

end Posix

end AasSign
