import AasSign.Platform.Replace

/-! # Replacements that fail leave the original

On POSIX only the stage is changed before the rename, and the stage is not the
original; a replacement that returns may have lost one bit of the mode. On Windows
every error leaves the original under its name, or under the
backup name that the error tells.
-/

namespace AasSign

open Foundation Program

namespace Posix

/-- The destination is the inode that it was, and the inode holds what it held. -/
structure Kept (destination : Bytes) (s s' : Files) : Prop where
  find : s'.find destination = s.find destination
  node : ∀ inode, s.find destination = some inode → s'.node inode = s.node inode

/-- The destination is the inode of the stage, with its contents, and with the owner, the group
and the mode of the original. -/
def Replaced (staged destination : Bytes) (s s' : Files) : Prop :=
  ∃ original stage, s.find destination = some original ∧ s.find staged = some stage ∧
    s'.find destination = some stage ∧
    s'.node stage =
      { kind := .regular, contents := (s.node stage).contents, uid := (s.node original).uid,
        gid := (s.node original).gid, mode := (s.node original).mode }

/-- What a replacement that returns has done: the caller was allowed to give the stage the owner
and the mode, and the mode is the one that such a caller is granted. -/
structure Granted (caller : Credentials) (staged destination : Bytes) (s s' : Files)
    (original stage : Nat) : Prop where
  found : s.find destination = some original
  staged : s.find staged = some stage
  other : original ≠ stage
  regular : (s.node original).kind = .regular ∧ (s.node stage).kind = .regular
  owner : (s.node stage).uid = (s.node original).uid ∧ (s.node stage).gid = (s.node original).gid ∨
    caller.MayChown (s.node stage) (s.node original).uid (s.node original).gid
  chmod : caller.privileged = true ∨ caller.uid = (s.node original).uid
  find : s'.find destination = some stage
  node : s'.node stage =
    { kind := .regular, contents := (s.node stage).contents, uid := (s.node original).uid,
      gid := (s.node original).gid,
      mode := caller.grantedMode (s.node original).gid (s.node original).mode }

/-- The caller owns the original and a stage of its group, is neither privileged nor in the group,
and the original has `S_ISGID`. -/
structure LosesSetgid (caller : Credentials) (staged destination : Bytes) (s : Files)
    (original stage : Nat) : Prop where
  found : s.find destination = some original
  staged : s.find staged = some stage
  other : original ≠ stage
  regular : (s.node original).kind = .regular ∧ (s.node stage).kind = .regular
  same : (s.node stage).uid = (s.node original).uid ∧ (s.node stage).gid = (s.node original).gid
  own : caller.uid = (s.node original).uid
  unprivileged : caller.privileged = false
  foreign : (s.node original).gid ∉ caller.groups
  setgid : (s.node original).mode.getLsbD 10 = true

/-- A replacement by this caller, whatever call fails, is all or nothing, and keeps the owner, the
group and the mode. -/
def FailureAtomic (caller : Credentials) (staged destination : Bytes) (s : Files) : Prop :=
  ∀ faults, Ends (atomicReplaceFile caller faults staged destination) s
    (fun _ s' => s.find staged ≠ s.find destination ∧ Replaced staged destination s s')
    (fun _ s' => Kept destination s s' ∧ (s.find staged = s.find destination → s' = s))

theorem Credentials.grantedMode_eq_iff {caller : Credentials} {gid : Nat} {mode : BitVec 12} :
    caller.grantedMode gid mode = mode ↔
      caller.privileged = true ∨ gid ∈ caller.groups ∨ mode.getLsbD 10 = false := by
  have hbit : setgidBit = BitVec.twoPow 12 10 := by decide
  rw [← or_assoc, grantedMode]
  split
  next hgranted => exact iff_of_true rfl (.inl hgranted)
  next hforeign =>
    rw [or_iff_right hforeign, hbit]
    constructor
    · intro h
      rw [← h]
      simp
    · intro h
      apply BitVec.eq_of_getLsbD_eq
      intro i hi
      simp only [BitVec.getLsbD_and, BitVec.getLsbD_not, BitVec.getLsbD_twoPow, hi, decide_true,
        Bool.true_and]
      by_cases hten : i = 10
      · rw [hten, h]
        rfl
      · simp [Ne.symm hten]

section Calls

variable {caller : Credentials} {faults : Faults} {s : Files}

theorem ends_check {fault : Option Nat} {op : String} {path : Bytes} {Q : Unit → Files → Prop}
    {E : Bytes → Files → Prop} (hQ : Q () s) (hE : ∀ what, E what s) :
    Ends (check faults fault op path) s Q E := by
  unfold check
  split
  · exact hE _
  · exact hQ

theorem ends_lstat {path : Bytes} {Q : Nat × Node → Files → Prop} {E : Bytes → Files → Prop}
    (hQ : ∀ inode, s.find path = some inode → Q (inode, s.node inode) s) (hE : ∀ what, E what s) :
    Ends (lstat faults path) s Q E := by
  rw [lstat, ends_bind]
  refine ends_check ?_ hE
  rw [ends_bind, ends_current]
  split
  · exact hE _
  next inode hfind => exact hQ inode hfind

theorem ends_openNoFollow {path : Bytes} {Q : Nat → Files → Prop} {E : Bytes → Files → Prop}
    (hQ : ∀ inode, s.find path = some inode → Q inode s) (hE : ∀ what, E what s) :
    Ends (openNoFollow faults path) s Q E := by
  rw [openNoFollow, ends_bind]
  refine ends_check ?_ hE
  rw [ends_bind, ends_current]
  split
  · exact hE _
  next inode hfind =>
    rw [ends_ite]
    exact ⟨fun _ => hE _, fun _ => hQ inode hfind⟩

theorem ends_fstat {fd : Nat} {path : Bytes} {Q : Node → Files → Prop} {E : Bytes → Files → Prop}
    (hQ : Q (s.node fd) s) (hE : ∀ what, E what s) : Ends (fstat faults fd path) s Q E := by
  rw [fstat, ends_bind]
  refine ends_check ?_ hE
  rw [ends_bind, ends_current]
  exact hQ

/-- The stage with the owner and the group of the original. -/
theorem ends_matchOwner {fd : Nat} {path : Bytes} {original : Node}
    {Q : Unit → Files → Prop} {E : Bytes → Files → Prop}
    (hQ : ∀ mode, (s.node fd).uid = original.uid ∧ (s.node fd).gid = original.gid ∨
      caller.MayChown (s.node fd) original.uid original.gid →
      Q () (s.setNode fd { s.node fd with uid := original.uid, gid := original.gid, mode }))
    (hE : ∀ what, E what s) : Ends (matchOwner caller faults fd path (s.node fd) original) s Q E := by
  unfold matchOwner
  split
  · rw [fchown, ends_bind]
    refine ends_check ?_ hE
    rw [ends_bind, ends_current, ends_ite]
    exact ⟨fun hmay => hQ _ (.inr hmay), fun _ => hE _⟩
  next hsame =>
    obtain ⟨huid, hgid⟩ := not_or.mp hsame
    have hself : s.setNode fd { s.node fd with uid := original.uid, gid := original.gid } = s := by
      rw [← not_not.mp huid, ← not_not.mp hgid]
      exact congrArg (fun node => { s with node }) (Function.update_eq_self fd s.node)
    have h := hQ (s.node fd).mode (.inl ⟨not_not.mp huid, not_not.mp hgid⟩)
    rwa [hself] at h

theorem ends_fchmod {fd : Nat} {path : Bytes} {mode : BitVec 12} {Q : Unit → Files → Prop}
    {E : Bytes → Files → Prop}
    (hQ : caller.MayChmod (s.node fd) →
      Q () (s.setNode fd { s.node fd with mode := caller.grantedMode (s.node fd).gid mode }))
    (hE : ∀ what, E what s) : Ends (fchmod caller faults fd path mode) s Q E := by
  rw [fchmod, ends_bind]
  refine ends_check ?_ hE
  rw [ends_bind, ends_current, ends_ite]
  exact ⟨hQ, fun _ => hE _⟩

end Calls

@[simp] theorem setNode_find (s : Files) (inode : Nat) (node : Node) (path : Bytes) :
    (s.setNode inode node).find path = s.find path := rfl

@[simp] theorem setNode_node (s : Files) (inode : Nat) (node : Node) :
    (s.setNode inode node).node inode = node := Function.update_self _ _ _

@[simp] theorem setNode_setNode (s : Files) (inode : Nat) (node node' : Node) :
    (s.setNode inode node).setNode inode node' = s.setNode inode node' :=
  congrArg (fun node => { s with node }) (Function.update_idem _ _ _)

@[simp] theorem moveEntry_node (s : Files) (source target : Bytes) :
    (s.moveEntry source target).node = s.node := by
  unfold Files.moveEntry
  split
  · split <;> rfl
  · rfl

/-- A rename gives the target the inode of the source. -/
theorem find_moveEntry {s : Files} {source target : Bytes} {a b : Nat}
    (hsource : s.find source = some a) (htarget : s.find target = some b) :
    (s.moveEntry source target).find target = some a := by
  obtain ⟨entry, hresolve, hentry⟩ := Option.bind_eq_some_iff.mp hsource
  obtain ⟨entry', hresolve', hentry'⟩ := Option.bind_eq_some_iff.mp htarget
  simp only [Files.moveEntry, hresolve, hresolve']
  split
  next hsame => rw [htarget, ← hentry', ← hsame, hentry]
  next => simp [Files.find, hresolve', hentry]

theorem Kept.refl (destination : Bytes) (s : Files) : Kept destination s s := ⟨rfl, fun _ _ => rfl⟩

/-- What is done to the stage is not done to the original. -/
theorem kept_setNode {destination : Bytes} {s : Files} {original stage : Nat} (node : Node)
    (hfind : s.find destination = some original) (hother : original ≠ stage) :
    Kept destination s (s.setNode stage node) := by
  refine ⟨rfl, fun inode hinode => ?_⟩
  obtain rfl : original = inode := Option.some.inj (hfind.symm.trans hinode)
  exact Function.update_of_ne hother _ _

section Replacing

variable {caller : Credentials} {staged destination : Bytes} {s : Files} {original stage : Nat}

/-- Up to the comparison of the two files nothing is changed. -/
theorem ends_atomicReplaceFile {faults : Faults} {Q : Unit → Files → Prop} {E : Bytes → Files → Prop}
    (hE : ∀ what, E what s)
    (hcommit : ∀ original stage, s.find destination = some original → s.find staged = some stage →
      (s.node original).kind = .regular → (s.node stage).kind = .regular → original ≠ stage → Ends (do
        matchOwner caller faults stage staged (s.node stage) (s.node original)
        fchmod caller faults stage staged (s.node original).mode
        check faults faults.fsync "fsync(replace)" staged
        rename faults staged destination) s Q E) :
    Ends (atomicReplaceFile caller faults staged destination) s Q E := by
  rw [atomicReplaceFile, ends_bind]
  refine ends_lstat (fun original horiginal => ?_) hE
  rw [ends_bind, ends_raiseIf]
  refine ⟨fun _ => hE _, fun hregular => ?_⟩
  rw [ends_bind]
  refine ends_openNoFollow (fun stage hstage => ?_) hE
  rw [ends_bind]
  refine ends_fstat ?_ hE
  rw [ends_bind, ends_raiseIf]
  refine ⟨fun _ => hE _, fun hregular' => ?_⟩
  rw [ends_bind, ends_raiseIf]
  exact ⟨fun _ => hE _,
    hcommit original stage horiginal hstage (not_not.mp hregular) (not_not.mp hregular')⟩

theorem atomicReplaceFile_granted (caller : Credentials) (faults : Faults) (staged destination : Bytes)
    (s : Files) : Ends (atomicReplaceFile caller faults staged destination) s
      (fun _ s' => ∃ original stage, Granted caller staged destination s s' original stage)
      fun _ s' => Kept destination s s' := by
  have hkept : ∀ what : Bytes, Kept destination s s := fun _ => .refl destination s
  refine ends_atomicReplaceFile hkept
    fun original stage horiginal hstage hregular hregular' hother => ?_
  -- From here on the stage is changed, and it is not the original.
  rw [ends_bind]
  refine ends_matchOwner (fun mode howner => ?_) hkept
  rw [ends_bind]
  refine ends_fchmod (fun hchmod => ?_) fun _ => kept_setNode _ horiginal hother
  rw [ends_bind, setNode_setNode]
  refine ends_check ?_ fun _ => kept_setNode _ horiginal hother
  rw [rename, ends_bind]
  refine ends_check ?_ fun _ => kept_setNode _ horiginal hother
  rw [ends_change]
  refine ⟨original, stage, horiginal, hstage, hother, ⟨hregular, hregular'⟩, howner, ?_,
    find_moveEntry hstage horiginal, ?_⟩
  · rwa [Credentials.MayChmod, setNode_node] at hchmod
  · rw [moveEntry_node, setNode_node, setNode_node, ← hregular']

/-- A stage that is the original is refused before anything is changed. -/
theorem atomicReplaceFile_alias (caller : Credentials) (faults : Faults)
    (hsame : s.find staged = s.find destination) :
    Ends (atomicReplaceFile caller faults staged destination) s (fun _ _ => False)
      fun _ s' => s' = s := by
  refine ends_atomicReplaceFile (fun _ => rfl) fun original stage horiginal hstage _ _ hother => ?_
  exact absurd (Option.some.inj (horiginal.symm.trans (hsame.symm.trans hstage))) hother

/-- However the calls go, the original stays or the stage has its place. -/
theorem atomicReplaceFile_kept (caller : Credentials) (faults : Faults) (staged destination : Bytes)
    (s : Files) : Ends (atomicReplaceFile caller faults staged destination) s
      (fun _ s' => s.find staged ≠ s.find destination ∧
        ∃ original stage, Granted caller staged destination s s' original stage)
      fun _ s' => Kept destination s s' ∧ (s.find staged = s.find destination → s' = s) := by
  have hgranted := atomicReplaceFile_granted caller faults staged destination s
  by_cases hsame : s.find staged = s.find destination
  · apply (hgranted.and (atomicReplaceFile_alias caller faults hsame)).mono
    · exact fun _ _ h => h.2.elim
    · exact fun _ _ h => ⟨h.1, fun _ => h.2⟩
  · apply hgranted.mono
    · exact fun _ _ h => ⟨hsame, h⟩
    · exact fun _ _ h => ⟨h, fun heq => absurd heq hsame⟩

/-- A mode that is granted with a bit less shows that the caller is a stranger to the group. -/
theorem Granted.losesSetgid {s' : Files} (h : Granted caller staged destination s s' original stage)
    (hmode : caller.grantedMode (s.node original).gid (s.node original).mode ≠
      (s.node original).mode) : LosesSetgid caller staged destination s original stage := by
  rw [Ne, Credentials.grantedMode_eq_iff, not_or, not_or, Bool.not_eq_true, Bool.not_eq_false] at hmode
  obtain ⟨hprivileged, hforeign, hsetgid⟩ := hmode
  have hnot : caller.privileged ≠ true := by simp [hprivileged]
  refine ⟨h.found, h.staged, h.other, h.regular, ?_, h.chmod.resolve_left hnot, hprivileged,
    hforeign, hsetgid⟩
  rcases h.owner with hsame | hmay
  · exact hsame
  · obtain ⟨-, huid, hgid⟩ := hmay.resolve_left hnot
    exact ⟨huid.symm, (hgid.resolve_right hforeign).symm⟩

/-- No call is made to fail. -/
def noFaults : Faults := ⟨fun _ => [], none, none, none, none, none, none, none⟩

/-- The caller is allowed what it asks for, and returns. -/
theorem LosesSetgid.returns (h : LosesSetgid caller staged destination s original stage) :
    Ends (atomicReplaceFile caller noFaults staged destination) s (fun _ _ => True)
      fun _ _ => False := by
  have hchmod : caller.MayChmod (s.node stage) := .inr (h.own.trans h.same.1.symm)
  simp [atomicReplaceFile, lstat, openNoFollow, fstat, matchOwner, fchmod, rename, check, noFaults,
    h.found, h.staged, h.regular, h.other, h.same, hchmod]

theorem failureAtomic_iff : FailureAtomic caller staged destination s ↔
    ¬ ∃ original stage, LosesSetgid caller staged destination s original stage := by
  constructor
  · rintro h ⟨original, stage, hloses⟩
    obtain ⟨_, s', hrun, -⟩ := hloses.returns.exists_run
    obtain ⟨-, original', stage', horiginal, hstage, -, hnode⟩ := (h noFaults).of_ok hrun
    obtain ⟨_, _, hgranted⟩ :=
      (atomicReplaceFile_granted caller noFaults staged destination s).of_ok hrun
    obtain rfl := Option.some.inj (horiginal.symm.trans hgranted.found)
    obtain rfl := Option.some.inj (hstage.symm.trans hgranted.staged)
    obtain rfl := Option.some.inj (horiginal.symm.trans hloses.found)
    -- The mode that is granted would have to be that of the original.
    have hmode := congrArg Node.mode (hgranted.node.symm.trans hnode)
    rcases Credentials.grantedMode_eq_iff.mp hmode with hprivileged | hgroup | hbit
    · rw [hloses.unprivileged] at hprivileged
      cases hprivileged
    · exact hloses.foreign hgroup
    · rw [hloses.setgid] at hbit
      cases hbit
  · intro hnone faults
    apply (atomicReplaceFile_kept caller faults staged destination s).mono
    swap
    · exact fun _ _ => id
    rintro _ s' ⟨hother, original, stage, hgranted⟩
    refine ⟨hother, original, stage, hgranted.found, hgranted.staged, hgranted.find, ?_⟩
    have hmode : caller.grantedMode (s.node original).gid (s.node original).mode =
        (s.node original).mode := by
      by_contra hless
      exact hnone ⟨original, stage, hgranted.losesSetgid hless⟩
    rw [hgranted.node, hmode]

/-- A program of mode 2755 in a group that its owner is not in, and a stage in a directory of
that group. -/
def setgidFiles : Files where
  resolve path := if path = [100] then some 0 else if path = [115] then some 1 else none
  entry := some
  node inode :=
    if inode = 0 then ⟨.regular, [1], 1000, 50, 0o2755#12⟩ else ⟨.regular, [2], 1000, 50, 0o600#12⟩

theorem setgidFiles_loses :
    LosesSetgid ⟨1000, [1000], false⟩ [115] [100] setgidFiles 0 1 := by
  constructor <;> decide

/-- The replacement returns, with the stage at mode 0755 in place of the program. -/
theorem not_failureAtomic_setgidFiles :
    (atomicReplaceFile ⟨1000, [1000], false⟩ noFaults [115] [100] setgidFiles).1 = .ok () ∧
      (atomicReplaceFile ⟨1000, [1000], false⟩ noFaults [115] [100] setgidFiles).2.find [100] =
        some 1 ∧
      ((atomicReplaceFile ⟨1000, [1000], false⟩ noFaults [115] [100] setgidFiles).2.node 1).mode =
        0o755#12 ∧
      ¬ FailureAtomic ⟨1000, [1000], false⟩ [115] [100] setgidFiles :=
  ⟨by decide, by decide, by decide, fun h => failureAtomic_iff.mp h ⟨0, 1, setgidFiles_loses⟩⟩

end Replacing

end Posix

namespace Win32

/-- The files have the names and the contents that they had. -/
structure SameNames (s s' : Files) : Prop where
  resolve : s'.resolve = s.resolve
  entry : s'.entry = s.entry
  file : s'.file = s.file

theorem SameNames.refl (s : Files) : SameNames s s := ⟨rfl, rfl, rfl⟩

theorem SameNames.find {s s' : Files} (h : SameNames s s') (path : Bytes) :
    s'.find path = s.find path := by
  rw [Files.find, h.resolve, h.entry]
  rfl

/-- The original has its name, or the backup name in the error. -/
def Preserved (os : Os) (destination : Bytes) (s : Files) (what : Bytes) (s' : Files) : Prop :=
  s'.file = s.file ∧ ∀ target, os.utf8ToWide destination = .ok target →
    s'.find target = s.find target ∨
      ∃ backup code restore, backupPath os target = .ok backup ∧
        s'.find backup = s.find target ∧ what = strandedText os destination backup code restore

/-- The destination is the file that the stage was, if nothing else had the backup name. -/
def Replaced (os : Os) (staged destination : Bytes) (s s' : Files) : Prop :=
  s'.file = s.file ∧ ∀ stage target backup, os.utf8ToWide staged = .ok stage →
    os.utf8ToWide destination = .ok target → backupPath os target = .ok backup →
    s.find backup = none → (s'.find target).isSome ∧ s'.find target = s.find stage

section Names

variable {s : Files} {source target path : Bytes}

@[simp] theorem moveEntry_resolve : (s.moveEntry source target).resolve = s.resolve := by
  unfold Files.moveEntry
  split <;> rfl

@[simp] theorem moveEntry_file : (s.moveEntry source target).file = s.file := by
  unfold Files.moveEntry
  split <;> rfl

@[simp] theorem removeEntry_file : (s.removeEntry path).file = s.file := by
  unfold Files.removeEntry
  split <;> rfl

/-- A move without a place to go to moves nothing. -/
theorem moveEntry_of_none (h : s.resolve source = none ∨ s.resolve target = none) :
    s.moveEntry source target = s := by
  unfold Files.moveEntry
  split
  next hsource htarget => simp [hsource, htarget] at h
  next => rfl

theorem find_moveEntry {a b : Entry} (hsource : s.resolve source = some a)
    (htarget : s.resolve target = some b) :
    (s.moveEntry source target).find target = s.find source := by
  simp [Files.moveEntry, Files.find, hsource, htarget]

/-- The other names stand for what they stood for. -/
theorem find_moveEntry_of_ne {a b c : Entry} (hsource : s.resolve source = some a)
    (htarget : s.resolve target = some b) (hpath : s.resolve path = some c) (ha : c ≠ a)
    (hb : c ≠ b) : (s.moveEntry source target).find path = s.find path := by
  simp [Files.moveEntry, Files.find, hsource, htarget, hpath, Function.update_of_ne, ha, hb]

theorem find_removeEntry_of_ne {c : Entry} (hpath : s.resolve path = some c)
    (hother : s.resolve target ≠ some c) : (s.removeEntry target).find path = s.find path := by
  unfold Files.removeEntry
  split
  next a htarget =>
    have hne : c ≠ a := fun h => hother (h ▸ htarget)
    simp [Files.find, hpath, Function.update_of_ne hne]
  next => rfl

theorem resolve_of_find {id : Nat} (h : s.find path = some id) : ∃ a, s.resolve path = some a := by
  obtain ⟨a, ha, -⟩ := Option.bind_eq_some_iff.mp h
  exact ⟨a, ha⟩

/-- Names of different files are different entries. -/
theorem resolve_ne_of_find_ne (h : s.find source ≠ s.find target) :
    s.resolve source ≠ s.resolve target := by
  intro heq
  apply h
  rw [Files.find, heq]
  rfl

end Names

section Calls

variable {os : Os} {s : Files}

theorem ends_requireRegular {path : Bytes} {Q : Unit → Files → Prop} {E : Bytes → Files → Prop}
    (hQ : Q () s) (hE : ∀ what, E what s) : Ends (requireRegular os path) s Q E := by
  rw [requireRegular, ends_bind, ends_current]
  split
  · exact hE _
  · exact hE _
  · rw [ends_ite]
    exact ⟨fun _ => hE _, fun _ => hQ⟩

theorem ends_createFile {fault : Option Nat} {exclusive : Bool} {wide path : Bytes}
    {Q : Nat → Files → Prop} {E : Bytes → Files → Prop}
    (hQ : ∀ id, s.find wide = some id → (exclusive → id ∉ s.opened) →
      Q id { s with opened := id :: s.opened })
    (hE : ∀ what, E what s) : Ends (createFile os fault exclusive wide path) s Q E := by
  rw [createFile, ends_bind, ends_current]
  split
  · exact hE _
  · exact hE _
  next id hfind =>
    rw [ends_ite]
    refine ⟨fun _ => hE _, fun hshared => ?_⟩
    exact hQ id hfind fun hexclusive hopened => hshared ⟨hexclusive, hopened⟩

/-- The handles change no name, and two of them are not on one file. -/
theorem ends_handles {target destination stage staged : Bytes} :
    Ends (scopedHandle (createFile os os.openOriginal false target destination)
      (scopedHandle (createFile os os.openStage true stage staged) (flushFileBuffers os staged))) s
      (fun _ s' => SameNames s s' ∧ (s.find target).isSome ∧ (s.find stage).isSome ∧
        s.find stage ≠ s.find target) fun _ s' => SameNames s s' := by
  rw [scopedHandle, ends_bind]
  refine ends_createFile (fun id hid _ => ?_) fun _ => .refl s
  rw [ends_cleanly, scopedHandle, ends_bind]
  refine ends_createFile (fun id' hid' hexclusive => ?_) fun _ => ⟨rfl, rfl, rfl⟩
  have hstage : s.find stage = some id' := hid'
  have hother : id' ≠ id := fun h => hexclusive rfl (h ▸ List.mem_cons_self)
  rw [ends_cleanly, flushFileBuffers]
  split
  · exact ⟨rfl, rfl, rfl⟩
  · refine ⟨⟨rfl, rfl, rfl⟩, by simp [hid], by simp [hstage], ?_⟩
    rw [hstage, hid]
    exact fun h => hother (Option.some.inj h)

/-- After the error that takes the original its name, the original is under one of the two. -/
theorem ends_restoreOriginal {target destination backup : Bytes} {code : Nat} {id : Nat}
    (hfind : s.find target = some id) {Q : Unit → Files → Prop} {E : Bytes → Files → Prop}
    (hback : ∀ s' : Files, s'.file = s.file → s'.find target = s.find target → Q () s')
    (hstranded : ∀ (s' : Files) restore, s'.file = s.file → s'.find backup = s.find target →
      E (strandedText os destination backup code restore) s')
    (hheld : ∀ what, E what s) :
    Ends (restoreOriginal os target destination backup code)
      (if code = errorUnableToMoveReplacement2 then s.moveEntry target backup else s) Q E := by
  unfold restoreOriginal
  by_cases hcode : code = errorUnableToMoveReplacement2
  · rw [if_pos hcode, if_pos hcode]
    obtain ⟨a, ha⟩ := resolve_of_find hfind
    cases hb : s.resolve backup with
    | none =>
        -- Without a place for the backup nothing has moved.
        rw [moveEntry_of_none (.inr hb), ends_bind, moveFile]
        split
        · rw [ends_pure]
          exact hheld _
        · rw [ends_bind, ends_current, ends_ite]
          refine ⟨fun _ => hheld _, fun habsent => ?_⟩
          simp [hfind] at habsent
    | some b =>
        have hmoved : (s.moveEntry target backup).find backup = s.find target := find_moveEntry ha hb
        rw [ends_bind, moveFile]
        split
        · rw [ends_pure]
          exact hstranded _ _ moveEntry_file hmoved
        · rw [ends_bind, ends_current, ends_ite]
          refine ⟨fun _ => hstranded _ _ moveEntry_file hmoved, fun _ => ?_⟩
          rw [ends_bind, ends_change]
          refine hback _ (by simp) ?_
          rw [find_moveEntry (by simpa using hb) (by simpa using ha), hmoved]
  · rw [if_neg hcode, if_neg hcode]
    exact hback s rfl rfl

theorem ends_replaceFile {target stage backup : Bytes} {Q : Option Nat → Files → Prop}
    {E : Bytes → Files → Prop}
    (hnone : Q none ((s.moveEntry target backup).moveEntry stage target))
    (hsome : ∀ code, Q (some code)
      (if code = errorUnableToMoveReplacement2 then s.moveEntry target backup else s)) :
    Ends (replaceFile os target stage backup) s Q E := by
  unfold replaceFile
  split
  · rw [ends_bind, ends_change]
    exact hnone
  · rw [ends_bind, ends_change]
    exact hsome _

/-- A replacement with a free backup name leaves the stage under the target. -/
theorem find_replaced {target stage backup : Bytes} {id id' : Nat} (htarget : s.find target = some id)
    (hstage : s.find stage = some id') (hother : s.find stage ≠ s.find target)
    (hfree : s.find backup = none) :
    (((s.moveEntry target backup).moveEntry stage target).removeEntry backup).find target =
      s.find stage ∧
    ((s.moveEntry target backup).moveEntry stage target).find target = s.find stage := by
  obtain ⟨a, ha⟩ := resolve_of_find htarget
  obtain ⟨c, hc⟩ := resolve_of_find hstage
  have hac : c ≠ a := fun h => resolve_ne_of_find_ne hother (by rw [hc, ha, h])
  have hbackup : s.resolve backup ≠ s.resolve target := by
    refine resolve_ne_of_find_ne ?_
    rw [hfree, htarget]
    exact (Option.some_ne_none id).symm
  have hmoved : (s.moveEntry target backup).find stage = s.find stage := by
    cases hb : s.resolve backup with
    | none => rw [moveEntry_of_none (.inr hb)]
    | some b =>
        have hbc : c ≠ b := by
          rintro rfl
          have hsame : s.find backup = s.find stage := by
            rw [Files.find, Files.find, hb, hc]
          rw [hfree, hstage] at hsame
          cases hsame
        exact find_moveEntry_of_ne ha hb hc hac hbc
  have hfound : ((s.moveEntry target backup).moveEntry stage target).find target = s.find stage := by
    rw [find_moveEntry (by simpa using hc) (by simpa using ha), hmoved]
  refine ⟨?_, hfound⟩
  rw [find_removeEntry_of_ne (show _ = some a by simpa using ha) ?_, hfound]
  simpa [ha] using hbackup

theorem atomicReplaceFile_preserved (os : Os) (staged destination : Bytes) (s : Files) :
    Ends (atomicReplaceFile os staged destination) s
      (fun _ s' => Replaced os staged destination s s') fun what s' =>
        Preserved os destination s what s' := by
  have hkept : ∀ (what : Bytes) (s' : Files), SameNames s s' → Preserved os destination s what s' :=
    fun what s' h => ⟨h.file, fun target _ => .inl (h.find target)⟩
  rw [atomicReplaceFile]
  refine ends_lift_bind (fun stage hstage => ?_) fun what => hkept what s (.refl s)
  refine ends_lift_bind (fun target htarget => ?_) fun what => hkept what s (.refl s)
  rw [ends_bind]
  refine ends_requireRegular ?_ fun what => hkept what s (.refl s)
  rw [ends_bind]
  refine ends_requireRegular ?_ fun what => hkept what s (.refl s)
  rw [ends_bind]
  refine ends_handles.mono ?_ fun what s' h => hkept what s' h
  rintro - s₁ ⟨hsame, hfound, hfound', hother⟩
  obtain ⟨id, hid⟩ := Option.isSome_iff_exists.mp hfound
  obtain ⟨id', hid'⟩ := Option.isSome_iff_exists.mp hfound'
  refine ends_lift_bind (fun backup hbackup => ?_) fun what => hkept what s₁ hsame
  have hid₁ : s₁.find target = some id := (hsame.find target).trans hid
  have hid₁' : s₁.find stage = some id' := (hsame.find stage).trans hid'
  -- The handles rename nothing, so the names are still those of the start.
  have hreplaced : ∀ s' : Files, s'.file = s₁.file →
      (s₁.find backup = none → s'.find target = s₁.find stage) →
      Replaced os staged destination s s' := by
    intro s' hfile hfind
    refine ⟨hfile.trans hsame.file, ?_⟩
    intro stage' target' backup' hstage' htarget' hbackup' hfree
    obtain rfl : stage = stage' := Except.ok.inj (hstage.symm.trans hstage')
    obtain rfl : target = target' := Except.ok.inj (htarget.symm.trans htarget')
    obtain rfl : backup = backup' := Except.ok.inj (hbackup.symm.trans hbackup')
    have h := hfind ((hsame.find backup).trans hfree)
    rw [hid₁'] at h
    exact ⟨by rw [h]; rfl, by rw [h, hid']⟩
  have hother₁ : s₁.find stage ≠ s₁.find target := by
    rw [hsame.find, hsame.find]
    exact hother
  rw [ends_bind]
  refine ends_replaceFile ?_ fun code => ?_
  · simp only [deleteFile]
    split
    · rw [ends_pure]
      exact hreplaced _ (by simp) fun hfree => (find_replaced hid₁ hid₁' hother₁ hfree).2
    · rw [ends_change]
      exact hreplaced _ (by simp) fun hfree => (find_replaced hid₁ hid₁' hother₁ hfree).1
  · simp only
    rw [ends_bind]
    refine ends_restoreOriginal hid₁ ?_ ?_ fun what => hkept what s₁ hsame
    · intro s' hfile hfind
      rw [ends_raise]
      refine ⟨hfile.trans hsame.file, fun target' htarget' => .inl ?_⟩
      obtain rfl : target = target' := Except.ok.inj (htarget.symm.trans htarget')
      rw [hfind, hsame.find]
    · intro s' restore hfile hfind
      refine ⟨hfile.trans hsame.file, fun target' htarget' => .inr ?_⟩
      obtain rfl : target = target' := Except.ok.inj (htarget.symm.trans htarget')
      exact ⟨backup, code, restore, hbackup, hfind.trans (hsame.find target), rfl⟩

end Calls

end Win32

/-- A replacement is all or nothing on both platforms. POSIX: a call that throws leaves the
destination alone, and everything if the stage is the destination; a call that returns has put
the stage there, with the owner and the group of the original and the mode that the caller is
granted, which is that of the original exactly if nobody loses `S_ISGID`. Windows: a call that
throws leaves the original under its name or under the backup name in the error. -/
theorem atomicReplaceFile_failureAtomic (staged destination : Bytes) :
    (∀ (caller : Posix.Credentials) (s : Posix.Files),
      Posix.FailureAtomic caller staged destination s ↔
        ¬ ∃ original stage, Posix.LosesSetgid caller staged destination s original stage) ∧
    (∀ (caller : Posix.Credentials) (faults : Posix.Faults) (s : Posix.Files),
      Ends (Posix.atomicReplaceFile caller faults staged destination) s
        (fun _ s' => s.find staged ≠ s.find destination ∧
          ∃ original stage, Posix.Granted caller staged destination s s' original stage)
        (fun _ s' => Posix.Kept destination s s' ∧
          (s.find staged = s.find destination → s' = s))) ∧
    ∀ (os : Win32.Os) (s : Win32.Files),
      Ends (Win32.atomicReplaceFile os staged destination) s
        (fun _ s' => Win32.Replaced os staged destination s s')
        (fun what s' => Win32.Preserved os destination s what s') :=
  ⟨fun _ _ => Posix.failureAtomic_iff,
    fun caller faults s => Posix.atomicReplaceFile_kept caller faults staged destination s,
    fun os s => Win32.atomicReplaceFile_preserved os staged destination s⟩

end AasSign
