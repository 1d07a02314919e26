import Mathlib.Data.Finset.Erase
import Mathlib.Data.Finset.Insert
import AasSign.Foundation.Transition
import AasSign.Msi.Cabinet

/-! # Cabinet extraction through callbacks

`extract_cabinet` on Windows: the system unpacks, and calls back to open, write and
close the members. `CabinetContext` keeps the account; what the system calls, and in
which order, and what the C runtime returns is arbitrary.
-/

namespace AasSign

open Foundation

namespace Fdi

/-- A descriptor of the C runtime. -/
abbrev Fd := Int

structure CabinetContext where
  cabinet : Path
  /-- The expected members; under one name the first counts. -/
  members : List CabinetMember
  remaining : Fd → Option Nat
  extracted : List Bytes
  handles : Finset Fd
  error : Bytes

/-- An open file: where it is read and written next, the member that it was opened for, and
what writes have put into it. -/
structure Descriptor where
  path : Path
  pos : Nat
  member : Option CabinetMember
  written : Bytes
  deriving DecidableEq

/-- The context, the process around it, and the record of the run. -/
structure Extraction where
  ctx : CabinetContext
  descriptors : Fd → Option Descriptor
  files : Path → Option Bytes
  /-- The names of the members opened so far. -/
  opened : List Bytes
  /-- The members that `CLOSE_FILE_INFO` has closed, and what was written of them. -/
  closed : List (CabinetMember × Bytes)
  /-- A notification has returned -1, upon which `FDICopy` fails. -/
  aborted : Bool

/-- What `_wopen` does, or the conversion of the path before it. -/
inductive Opening where
  | opened (fd : Fd)
  | failed (strerror : Bytes)
  | threw (what : Bytes)
  deriving DecidableEq

/-- What `_close` does; a descriptor may be gone after a failure. -/
inductive Closing where
  | closed
  | failed (freed : Bool)
  deriving DecidableEq

/-- The calls of the system, with what the C runtime returns in them. -/
inductive Callback where
  | copyFile (name : Bytes) (cb : Int) (opening : Opening)
  | closeFileInfo (hf : Fd) (closing : Closing)
  | nextCabinet
  | partialFile
  | otherNotification
  | openFile (name : Bytes) (clears : Bool) (opening : Opening)
  | read (fd : Fd) (n : Int)
  | write (fd : Fd) (buffer : Bytes) (n : Int)
  | seek (fd : Fd) (pos : Option Nat)
  | close (fd : Fd) (closing : Closing)

/-- `long(size)`, of 32 bits. -/
def toLong (size : Nat) : Int := (BitVec.ofNat 32 size).toInt

/-- `pwrite` at an offset, with zeros up to it. -/
def writeAt (file : Bytes) (pos : Nat) (chunk : Bytes) : Bytes :=
  file.take pos ++ List.replicate (pos - file.length) 0 ++ chunk ++ file.drop (pos + chunk.length)

namespace Extraction

variable (s : Extraction)

/-- `ctx.error = what`. -/
def fail (what : Bytes) : Extraction := { s with ctx := { s.ctx with error := what } }

/-- `aliases`: the file that a path stands for in `CabinetContext::open`. -/
def target (path : Path) : Path :=
  if path = .user (ascii "input.cab") then s.ctx.cabinet else path

/-- What a descriptor from `_wopen` is: a number that no open file has. -/
def Fresh (fd : Fd) : Prop := 0 ≤ fd ∧ s.descriptors fd = none

instance (fd : Fd) : Decidable (s.Fresh fd) :=
  inferInstanceAs (Decidable (_ ∧ s.descriptors fd = none))

/-- `_wopen` with success: `handles` and the descriptors grow, and the file may be emptied. -/
def insertHandle (fd : Fd) (path : Path) (member : Option CabinetMember) (clears : Bool) :
    Extraction :=
  { s with
    ctx := { s.ctx with handles := insert fd s.ctx.handles }
    descriptors := Function.update s.descriptors fd
      (some { path := s.target path, pos := 0, member, written := [] })
    files := if clears then Function.update s.files (s.target path) (some []) else s.files }

/-- The text of a failed `CabinetContext::open`. -/
def openText (path : Path) (strerror : Bytes) : Bytes :=
  ascii "open cabinet file " ++ (s.target path).name ++ ascii ": " ++ strerror

/-- `remaining.emplace`, which keeps an entry that is there. -/
def emplaceRemaining (fd : Fd) (size : Nat) : Extraction :=
  { s with ctx := { s.ctx with
      remaining := Function.update s.ctx.remaining fd (some ((s.ctx.remaining fd).getD size)) } }

def recordOpened (name : Bytes) : Extraction := { s with opened := name :: s.opened }

def recordClosed (record : Option (CabinetMember × Bytes)) : Extraction :=
  { s with closed := record.toList ++ s.closed }

/-- `extracted.insert`. -/
def insertExtracted (name : Bytes) : Extraction :=
  { s with ctx := { s.ctx with extracted := name :: s.ctx.extracted } }

/-- `CabinetContext::close`. -/
def closeHandle (fd : Fd) (closing : Closing) : Extraction :=
  { s with
    ctx := { s.ctx with
      remaining := Function.update s.ctx.remaining fd none
      handles := s.ctx.handles.erase fd }
    descriptors :=
      if closing = .failed false then s.descriptors else Function.update s.descriptors fd none }

/-- `_close` returns zero for an open descriptor only. -/
def MayClose (fd : Fd) (closing : Closing) : Prop :=
  closing = .closed → (s.descriptors fd).isSome

instance (fd : Fd) (closing : Closing) : Decidable (s.MayClose fd closing) :=
  inferInstanceAs (Decidable (_ → _))

/-- `fdintCOPY_FILE`. -/
def copyFile (name : Bytes) (cb : Int) (opening : Opening) : Option (Int × Extraction) :=
  let mismatch := ascii "cabinet member mapping mismatch"
  match s.ctx.members.find? (·.name = name) with
  | none => some (-1, s.fail mismatch)
  | some member =>
      if name ∈ s.ctx.extracted then some (-1, s.fail mismatch)
      else
        let s := s.insertExtracted name
        if cb ≠ toLong member.size then some (-1, s.fail mismatch)
        else
          match opening with
          | .failed strerror => some (-1, s.fail (s.openText member.path strerror))
          | .threw what => some (-1, s.fail what)
          -- `_O_CREAT | _O_EXCL`: the file is new.
          | .opened fd =>
              if s.Fresh fd ∧ s.files (s.target member.path) = none then
                some (fd, (s.insertHandle fd member.path (some member) true).emplaceRemaining fd
                  member.size |>.recordOpened name)
              else none

/-- `fdintCLOSE_FILE_INFO`. -/
def closeFileInfo (hf : Fd) (closing : Closing) : Option (Int × Extraction) :=
  match s.ctx.remaining hf with
  | some 0 =>
      if s.MayClose hf closing then
        if closing = .closed then
          let record := (s.descriptors hf).bind fun d => d.member.map fun member => (member, d.written)
          some (1, (s.closeHandle hf closing).recordClosed record)
        else some (0, s.closeHandle hf closing)
      else none
  | _ => some (-1, s.fail (ascii "truncated cabinet member"))

/-- `fdi_open`. -/
def openFile (name : Bytes) (clears : Bool) (opening : Opening) : Option (Int × Extraction) :=
  match opening with
  | .failed strerror => some (-1, s.fail (s.openText (.user name) strerror))
  | .threw what => some (-1, s.fail what)
  | .opened fd =>
      if s.Fresh fd then some (fd, s.insertHandle fd (.user name) none clears) else none

/-- A write that `_write` has taken `chunk` of. -/
def putChunk (fd : Fd) (d : Descriptor) (left : Nat) (chunk : Bytes) : Extraction :=
  { s with
    ctx := { s.ctx with remaining := Function.update s.ctx.remaining fd (some (left - chunk.length)) }
    descriptors := Function.update s.descriptors fd
      (some { d with pos := d.pos + chunk.length, written := d.written ++ chunk })
    files := Function.update s.files d.path
      (some (writeAt ((s.files d.path).getD []) d.pos chunk)) }

/-- `fdi_write`: `_write` takes as much of the buffer as it likes, or fails. -/
def write (fd : Fd) (buffer : Bytes) (n : Int) : Option (Int × Extraction) :=
  match s.ctx.remaining fd with
  | none => some (-1, s.fail (ascii "cabinet member exceeds declared size"))
  | some left =>
      if left < buffer.length then
        some (-1, s.fail (ascii "cabinet member exceeds declared size"))
      else if n ≤ 0 then some (n, s)
      else
        match s.descriptors fd with
        | none => none
        | some d =>
            if n ≤ buffer.length then some (n, s.putChunk fd d left (buffer.take n.toNat)) else none

/-- `cab_read`; a member is open for writing only. -/
def read (fd : Fd) (n : Int) : Option (Int × Extraction) :=
  if n ≤ 0 then some (n, s)
  else
    match s.descriptors fd with
    | none => none
    | some d =>
        if d.member.isSome then none
        else
          let d := { d with pos := d.pos + n.toNat }
          some (n, { s with descriptors := Function.update s.descriptors fd (some d) })

/-- `cab_seek`. -/
def seek (fd : Fd) (pos : Option Nat) : Option (Int × Extraction) :=
  match pos, s.descriptors fd with
  | none, _ => some (-1, s)
  | some _, none => none
  | some pos, some d =>
      some (pos, { s with descriptors := Function.update s.descriptors fd (some { d with pos }) })

/-- `fdi_close`. -/
def close (fd : Fd) (closing : Closing) : Option (Int × Extraction) :=
  if s.MayClose fd closing then
    some (if closing = .closed then 0 else -1, s.closeHandle fd closing)
  else none

end Extraction

/-- What a callback returns to the system, and what it does. -/
def call (s : Extraction) : Callback → Option (Int × Extraction)
  | .copyFile name cb opening => s.copyFile name cb opening
  | .closeFileInfo hf closing => s.closeFileInfo hf closing
  | .nextCabinet => some (-1, s.fail (ascii "spanning cabinet is unsupported"))
  | .partialFile => some (-1, s.fail (ascii "spanning cabinet is unsupported"))
  | .otherNotification => some (0, s)
  | .openFile name clears opening => s.openFile name clears opening
  | .read fd n => s.read fd n
  | .write fd buffer n => s.write fd buffer n
  | .seek fd pos => s.seek fd pos
  | .close fd closing => s.close fd closing

/-- The callback is a notification, whose result can abort the copy. -/
def Callback.Notifies : Callback → Bool
  | .copyFile .. => true
  | .closeFileInfo .. => true
  | .nextCabinet => true
  | .partialFile => true
  | .otherNotification => true
  | _ => false

/-- The state after a callback. -/
def step (s : Extraction) (callback : Callback) : Option Extraction :=
  (call s callback).map fun result =>
    { result.2 with aborted := result.2.aborted || (callback.Notifies && result.1 = -1) }

/-- The context of `extract_cabinet` before the copy, in a process with other files open. -/
def start (cabinet : Path) (members : List CabinetMember) (others : Fd → Option Path)
    (files : Path → Option Bytes) : Extraction where
  ctx :=
    { cabinet, members, remaining := fun _ => none, extracted := [], handles := ∅, error := [] }
  descriptors := fun fd => (others fd).map fun path => { path, pos := 0, member := none, written := [] }
  files := files
  opened := []
  closed := []
  aborted := false

/-- The end of `extract_cabinet`, from the result of `FDICopy`. -/
def extractCabinet (s : Extraction) (result : Bool) (erfOper : Int) : Except Bytes Unit :=
  if ¬ result ∨ s.ctx.extracted.length ≠ s.ctx.members.length then
    .error (ascii "extract cabinet " ++ s.ctx.cabinet.name ++ ascii ": " ++
      if s.ctx.error = [] then ascii "FDI error " ++ ascii (toString erfOper) else s.ctx.error)
  else .ok ()

end Fdi

end AasSign
