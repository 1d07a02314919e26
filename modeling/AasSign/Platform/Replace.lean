import Mathlib.Logic.Function.Basic
import AasSign.Codec.Text
import AasSign.Foundation.Program

/-! # Replacing a file by a staged one

`atomic_replace_file` as the system calls that it makes on POSIX and on Windows,
each of which may fail. Paths stand for directory entries, and entries for files,
so that two paths can be one entry, and two entries one file.
-/

namespace AasSign

open Foundation Program

/-- An entry of a directory. -/
abbrev Entry := Nat

namespace Posix

inductive FileKind where
  | regular
  | symlink
  | other
  deriving DecidableEq

/-- What an inode holds; `mode` is the bits `07777` of `st_mode`. -/
structure Node where
  kind : FileKind
  contents : Bytes
  uid : Nat
  gid : Nat
  mode : BitVec 12
  deriving DecidableEq

/-- `S_ISGID`. -/
def setgidBit : BitVec 12 := 0o2000#12

/-- The process that makes the calls, with the groups that it is in. -/
structure Credentials where
  uid : Nat
  groups : List Nat
  privileged : Bool
  deriving DecidableEq

namespace Credentials

/-- Who may give a file another owner or another group. -/
def MayChown (caller : Credentials) (node : Node) (uid gid : Nat) : Prop :=
  caller.privileged = true ∨
    caller.uid = node.uid ∧ uid = node.uid ∧ (gid = node.gid ∨ gid ∈ caller.groups)

instance (caller : Credentials) (node : Node) (uid gid : Nat) :
    Decidable (caller.MayChown node uid gid) :=
  inferInstanceAs (Decidable (_ ∨ _))

def MayChmod (caller : Credentials) (node : Node) : Prop :=
  caller.privileged = true ∨ caller.uid = node.uid

instance (caller : Credentials) (node : Node) : Decidable (caller.MayChmod node) :=
  inferInstanceAs (Decidable (_ ∨ _))

/-- The mode that a file of this group is given: without `S_ISGID`, if the caller is neither
privileged nor in the group. That is no error. -/
def grantedMode (caller : Credentials) (gid : Nat) (mode : BitVec 12) : BitVec 12 :=
  if caller.privileged = true ∨ gid ∈ caller.groups then mode else mode &&& ~~~setgidBit

end Credentials

/-- The names and the inodes; an inode stands for a device and an inode number. -/
structure Files where
  resolve : Bytes → Option Entry
  entry : Entry → Option Nat
  node : Nat → Node

/-- The calls that are made to fail, each with its `errno`. -/
structure Faults where
  strerror : Nat → Bytes
  lstat : Option Nat
  openFile : Option Nat
  fstat : Option Nat
  fchown : Option Nat
  fchmod : Option Nat
  fsync : Option Nat
  rename : Option Nat

abbrev FileProgram (α : Type) := Program Files Bytes α

namespace Files

/-- The inode that a path names, without following a link. -/
def find (s : Files) (path : Bytes) : Option Nat := s.resolve path >>= s.entry

def setNode (s : Files) (inode : Nat) (node : Node) : Files :=
  { s with node := Function.update s.node inode node }

/-- The entry of `source` becomes that of `target`; two names of one file stay. -/
def moveEntry (s : Files) (source target : Bytes) : Files :=
  match s.resolve source, s.resolve target with
  | some a, some b =>
      if s.entry a = s.entry b then s
      else { s with entry := Function.update (Function.update s.entry a none) b (s.entry a) }
  | _, _ => s

end Files

section Calls

variable (caller : Credentials) (faults : Faults)

def errnoMsg (op : String) (path : Bytes) (errno : Nat) : Bytes :=
  ascii op ++ ascii " " ++ path ++ ascii ": " ++ faults.strerror errno

/-- `if (call < 0) throw`. -/
def check (fault : Option Nat) (op : String) (path : Bytes) : FileProgram Unit :=
  match fault with
  | some errno => raise (errnoMsg faults op path errno)
  | none => pure ()

def eperm : Nat := 1

def enoent : Nat := 2

def eloop : Nat := 40

/-- The inode of a path, and what it holds. -/
def lstat (path : Bytes) : FileProgram (Nat × Node) := do
  check faults faults.lstat "lstat(replace)" path
  let s ← current
  match s.find path with
  | none => raise (errnoMsg faults "lstat(replace)" path enoent)
  | some inode => return (inode, s.node inode)

/-- `open(path, O_RDWR | O_CLOEXEC | O_NOFOLLOW)`; a descriptor stands for its inode. -/
def openNoFollow (path : Bytes) : FileProgram Nat := do
  check faults faults.openFile "open(replace)" path
  let s ← current
  match s.find path with
  | none => raise (errnoMsg faults "open(replace)" path enoent)
  | some inode =>
      if (s.node inode).kind = .symlink then raise (errnoMsg faults "open(replace)" path eloop)
      else return inode

def fstat (fd : Nat) (path : Bytes) : FileProgram Node := do
  check faults faults.fstat "fstat(replace)" path
  let s ← current
  return s.node fd

/-- A change of the owner clears the bits that set the user or the group of a program. -/
def fchown (fd : Nat) (path : Bytes) (uid gid : Nat) : FileProgram Unit := do
  check faults faults.fchown "fchown(replace)" path
  let s ← current
  if caller.MayChown (s.node fd) uid gid then
    change fun s =>
      s.setNode fd { s.node fd with uid, gid, mode := (s.node fd).mode &&& 0x3ff#12 }
  else raise (errnoMsg faults "fchown(replace)" path eperm)

/-- Give the file the owner and the group of the original, if it has others. -/
def matchOwner (fd : Nat) (path : Bytes) (st original : Node) : FileProgram Unit :=
  if st.uid ≠ original.uid ∨ st.gid ≠ original.gid then
    fchown caller faults fd path original.uid original.gid
  else pure ()

def fchmod (fd : Nat) (path : Bytes) (mode : BitVec 12) : FileProgram Unit := do
  check faults faults.fchmod "fchmod(replace)" path
  let s ← current
  if caller.MayChmod (s.node fd) then
    change fun s =>
      s.setNode fd { s.node fd with mode := caller.grantedMode (s.node fd).gid mode }
  else raise (errnoMsg faults "fchmod(replace)" path eperm)

def rename (source target : Bytes) : FileProgram Unit := do
  check faults faults.rename "rename(replace)" target
  change fun s => s.moveEntry source target

/-- `atomic_replace_file`. The flush of the directory behind the rename changes nothing that
is modelled and its failure is ignored. -/
def atomicReplaceFile (staged destination : Bytes) : FileProgram Unit := do
  let original ← lstat faults destination
  raiseIf (original.2.kind ≠ .regular)
    (ascii "replace " ++ destination ++ ascii ": not a regular file")
  let stage ← openNoFollow faults staged
  let st ← fstat faults stage staged
  raiseIf (st.kind ≠ .regular) (ascii "replace " ++ staged ++ ascii ": not a regular file")
  raiseIf (original.1 = stage)
    (ascii "replace " ++ destination ++ ascii ": stage is the original file")
  matchOwner caller faults stage staged st original.2
  fchmod caller faults stage staged original.2.mode
  check faults faults.fsync "fsync(replace)" staged
  rename faults staged destination

end Calls

end Posix

namespace Win32

/-- A file, as `GetFileAttributesW` and a reader see it. -/
structure NtFile where
  directory : Bool
  reparsePoint : Bool
  contents : Bytes
  deriving DecidableEq

/-- The names, the files, and the files that are open. -/
structure Files where
  resolve : Bytes → Option Entry
  entry : Entry → Option Nat
  file : Nat → NtFile
  opened : List Nat

/-- What the system does besides; a number is the error that a call is made to fail with. -/
structure Os where
  utf8ToWide : Bytes → Except Bytes Bytes
  fromWide : Bytes → Bytes
  winError : Nat → Bytes
  randomSuffix : Except Bytes Bytes
  getFileAttributes : Bytes → Option Nat
  openOriginal : Option Nat
  openStage : Option Nat
  flushFileBuffers : Option Nat
  replaceFile : Option Nat
  moveFile : Option Nat
  deleteFile : Option Nat

abbrev FileProgram (α : Type) := Program Files Bytes α

namespace Files

def find (s : Files) (path : Bytes) : Option Nat := s.resolve path >>= s.entry

/-- The file under `source` gets the name `target` instead. -/
def moveEntry (s : Files) (source target : Bytes) : Files :=
  match s.resolve source, s.resolve target with
  | some a, some b =>
      { s with entry := Function.update (Function.update s.entry a none) b (s.entry a) }
  | _, _ => s

def removeEntry (s : Files) (path : Bytes) : Files :=
  match s.resolve path with
  | some a => { s with entry := Function.update s.entry a none }
  | none => s

end Files

def errorFileNotFound : Nat := 2

def errorSharingViolation : Nat := 32

def errorAlreadyExists : Nat := 183

def errorUnableToMoveReplacement2 : Nat := 1177

section Calls

variable (os : Os)

def requireRegular (path : Bytes) : FileProgram Unit := do
  let s ← current
  match os.getFileAttributes path, s.find path with
  | some code, _ =>
      raise (ascii "replace " ++ os.fromWide path ++ ascii ": " ++ os.winError code)
  | none, none =>
      raise (ascii "replace " ++ os.fromWide path ++ ascii ": " ++ os.winError errorFileNotFound)
  | none, some id =>
      if (s.file id).directory ∨ (s.file id).reparsePoint then
        raise (ascii "replace " ++ os.fromWide path ++ ascii ": not a regular file")
      else pure ()

/-- `CreateFileW` on an existing file. A handle that shares nothing is refused while any other
handle is open on the file. -/
def createFile (fault : Option Nat) (exclusive : Bool) (wide path : Bytes) : FileProgram Nat := do
  let s ← current
  match fault, s.find wide with
  | some code, _ => raise (ascii "open(replace) " ++ path ++ ascii ": " ++ os.winError code)
  | none, none =>
      raise (ascii "open(replace) " ++ path ++ ascii ": " ++ os.winError errorFileNotFound)
  | none, some id =>
      if exclusive ∧ id ∈ s.opened then
        raise (ascii "open(replace) " ++ path ++ ascii ": " ++ os.winError errorSharingViolation)
      else do
        change fun s => { s with opened := id :: s.opened }
        return id

/-- A `ScopedHandle`: closed at the end of its scope, also by an exception. -/
def scopedHandle (handle : FileProgram Nat) (body : FileProgram Unit) : FileProgram Unit := do
  let id ← handle
  body.cleanly fun s => { s with opened := s.opened.erase id }

def flushFileBuffers (path : Bytes) : FileProgram Unit :=
  match os.flushFileBuffers with
  | some code => raise (ascii "FlushFileBuffers " ++ path ++ ascii ": " ++ os.winError code)
  | none => pure ()

/-- `ReplaceFileW` with a backup name: the error, if it fails. Only one error leaves the names
other than they were, and the original under the backup name. -/
def replaceFile (target stage backup : Bytes) : FileProgram (Option Nat) :=
  match os.replaceFile with
  | none => do
      change fun s => (s.moveEntry target backup).moveEntry stage target
      return none
  | some code => do
      change fun s =>
        if code = errorUnableToMoveReplacement2 then s.moveEntry target backup else s
      return some code

/-- `MoveFileExW` without leave to replace: the error, if it fails. -/
def moveFile (source target : Bytes) : FileProgram (Option Nat) :=
  match os.moveFile with
  | some code => return some code
  | none => do
      let s ← current
      if (s.find target).isSome then
        return some errorAlreadyExists
      else
        change fun s => s.moveEntry source target
        return none

/-- `DeleteFileW`, whose failure is ignored. -/
def deleteFile (path : Bytes) : FileProgram Unit :=
  match os.deleteFile with
  | some _ => pure ()
  | none => change fun s => s.removeEntry path

/-- The name under which the original waits during the replacement. -/
def backupPath (target : Bytes) : Except Bytes Bytes := do
  let suffix ← os.randomSuffix
  let wide ← os.utf8ToWide suffix
  return target ++ ascii ".aas-sign-backup-" ++ wide

/-- The error of a replacement whose original stays under the backup name. -/
def strandedText (destination backup : Bytes) (code restore : Nat) : Bytes :=
  ascii "ReplaceFileW " ++ destination ++ ascii ": " ++ os.winError code ++
    ascii "; restoring original failed: " ++ os.winError restore ++
    ascii "; original preserved at " ++ os.fromWide backup

/-- Give the original its name back, if the error is the one that takes it. -/
def restoreOriginal (target destination backup : Bytes) (code : Nat) : FileProgram Unit :=
  if code = errorUnableToMoveReplacement2 then do
    let failed ← moveFile os backup target
    match failed with
    | some restore => raise (strandedText os destination backup code restore)
    | none => pure ()
  else pure ()

def atomicReplaceFile (staged destination : Bytes) : FileProgram Unit := do
  let stage ← lift (os.utf8ToWide staged)
  let target ← lift (os.utf8ToWide destination)
  requireRegular os stage
  requireRegular os target
  -- With the original open, the exclusive handle is refused to another name of it.
  scopedHandle (createFile os os.openOriginal false target destination)
    (scopedHandle (createFile os os.openStage true stage staged) (flushFileBuffers os staged))
  let backup ← lift (backupPath os target)
  let failed ← replaceFile os target stage backup
  match failed with
  | none => deleteFile os backup
  | some code => do
      restoreOriginal os target destination backup code
      raise (ascii "ReplaceFileW " ++ destination ++ ascii ": " ++ os.winError code)

end Calls

end Win32

end AasSign
