import Mathlib.Logic.Function.Basic
import AasSign.Foundation.Transition
import AasSign.Runtime

/-! # Private files, written atomically

`atomic_write_private_file` on POSIX, at the level of inodes. Any number of calls
on one path share the sibling temporary name; opening it truncates the file that
is there, writes go through the descriptor, and a rename publishes whatever the
temporary name stands for. Readers open the destination and read in pieces.
-/

namespace AasSign

open Foundation

abbrev Inode := Nat

/-- Where one call of `atomic_write_private_file` stands. -/
inductive CallPhase where
  | idle
  | writing (inode : Inode) (off : Nat)
  | closed
  | returned
  | threw
  deriving DecidableEq, Repr

/-- Where one reader of the destination stands; `none` is a missing file. -/
inductive ReaderPhase where
  | waiting
  | reading (inode : Inode) (seen : Bytes)
  | saw (contents : Option Bytes)
  deriving DecidableEq, Repr

/-- The destination, its sibling temporary name, and those who use them. -/
structure PrivateFile (ι ρ : Type) where
  contents : Inode → Bytes
  fresh : Inode
  dest : Option Inode
  tmp : Option Inode
  call : ι → CallPhase
  reader : ρ → ReaderPhase

/-- The atomic steps; `ok` is the success of a system call. -/
inductive FileAction (ι ρ : Type) where
  | openTmp (i : ι) (ok : Bool)
  | write (i : ι) (n : Nat)
  | writeFails (i : ι)
  | close (i : ι) (ok : Bool)
  | rename (i : ι) (ok : Bool)
  | readerOpens (r : ρ)
  | readerReads (r : ρ) (n : Nat)

/-- `pwrite`: the chunk at an offset, with zeros up to it. -/
def overwrite (file : Bytes) (off : Nat) (chunk : Bytes) : Bytes :=
  file.take off ++ List.replicate (off - file.length) 0 ++ chunk ++ file.drop (off + chunk.length)

namespace PrivateFile

variable {ι ρ : Type}

section Steps

variable [DecidableEq ι] [DecidableEq ρ]

def setCall (s : PrivateFile ι ρ) (i : ι) (phase : CallPhase) : PrivateFile ι ρ :=
  { s with call := Function.update s.call i phase }

def setReader (s : PrivateFile ι ρ) (r : ρ) (phase : ReaderPhase) : PrivateFile ι ρ :=
  { s with reader := Function.update s.reader r phase }

def setContents (s : PrivateFile ι ρ) (inode : Inode) (bytes : Bytes) : PrivateFile ι ρ :=
  { s with contents := Function.update s.contents inode bytes }

/-- `open(tmp, O_WRONLY | O_CREAT | O_TRUNC)`. -/
def openTruncated (s : PrivateFile ι ρ) (i : ι) : PrivateFile ι ρ :=
  match s.tmp with
  | some inode => (s.setContents inode []).setCall i (.writing inode 0)
  | none =>
      { (s.setContents s.fresh []).setCall i (.writing s.fresh 0) with
        tmp := some s.fresh, fresh := s.fresh + 1 }

/-- `rename(tmp, path)`, which fails when another call has moved `tmp` away. -/
def renameTmp (s : PrivateFile ι ρ) (i : ι) : PrivateFile ι ρ :=
  match s.tmp with
  | some inode => { s.setCall i .returned with dest := some inode, tmp := none }
  | none => s.setCall i .threw

/-- One step of the calls with contents `data` and of the readers. -/
def step (data : ι → Bytes) (s : PrivateFile ι ρ) : FileAction ι ρ → Option (PrivateFile ι ρ)
  | .openTmp i ok =>
      if s.call i = .idle then
        some (if ok then s.openTruncated i else s.setCall i .threw)
      else none
  | .write i n =>
      match s.call i with
      | .writing inode off =>
          if off < (data i).length ∧ n ≤ (data i).length - off then
            some ((s.setContents inode (overwrite (s.contents inode) off
              (((data i).drop off).take n))).setCall i (.writing inode (off + n)))
          else none
      | _ => none
  | .writeFails i =>
      match s.call i with
      | .writing _ off => if off < (data i).length then some (s.setCall i .threw) else none
      | _ => none
  | .close i ok =>
      match s.call i with
      | .writing _ off =>
          if off < (data i).length then none
          else some (s.setCall i (if ok then .closed else .threw))
      | _ => none
  | .rename i ok =>
      if s.call i = .closed then
        some (if ok then s.renameTmp i else s.setCall i .threw)
      else none
  | .readerOpens r =>
      if s.reader r = .waiting then
        some (s.setReader r
          (match s.dest with
            | none => .saw none
            | some inode => .reading inode []))
      else none
  | .readerReads r n =>
      match s.reader r with
      | .reading inode seen =>
          -- A read at the end of the file returns nothing, and ends the reading.
          some (s.setReader r
            (if seen.length < (s.contents inode).length then
              .reading inode (seen ++ ((s.contents inode).drop seen.length).take (n + 1))
            else .saw (some seen)))
      | _ => none

end Steps

/-- What a reader finds that opens the destination now and reads undisturbed. -/
def view (s : PrivateFile ι ρ) : Option Bytes := s.dest.map s.contents

/-- The call has opened the temporary name and has neither renamed it nor given up. -/
def Active (s : PrivateFile ι ρ) (i : ι) : Prop :=
  s.call i = .closed ∨ ∃ inode off, s.call i = .writing inode off

/-- Nobody has started, and the temporary name, if a crash has left one behind,
is not another name of the destination. -/
structure Start (s : PrivateFile ι ρ) : Prop where
  calls : ∀ i, s.call i = .idle
  readers : ∀ r, s.reader r = .waiting
  apart : ∀ inode, s.tmp = some inode → s.dest ≠ some inode
  freshTmp : ∀ inode, s.tmp = some inode → inode < s.fresh
  freshDest : ∀ inode, s.dest = some inode → inode < s.fresh

/-- The file before the calls, or the complete data of one of them. -/
def Complete (data : ι → Bytes) (before : Option Bytes) (seen : Option Bytes) : Prop :=
  seen = before ∨ ∃ i, seen = some (data i)

/-- The temporary name is not opened while another call is active. -/
def Exclusive (s : PrivateFile ι ρ) : FileAction ι ρ → Prop
  | .openTmp i true => ∀ j, j ≠ i → ¬ s.Active j
  | _ => True

end PrivateFile

end AasSign
