import Mathlib.Data.List.Sort
import AasSign.Platform.Files

/-! # Cabinet files

`inspect_cabinet` on the bytes of a cabinet, and the per-record part of
`preserve_cabinet_metadata`. Both walk the file table record by record.
-/

namespace AasSign

open Foundation

def expansionLimit : Nat := 1024 * 1024 * 1024

def memberLimit : Nat := 65535

/-- `invalid(reason)`, unless the condition fails. -/
def invalidIf (condition : Prop) [Decidable condition] (reason : String) : Except Exn Unit :=
  throwIf condition ("recursive MSI: " ++ reason)

/-- `p[i] | p[i + 1] << 8`. -/
def u16 (p : Bytes) (i : Nat) : Nat := (p.getD i 0).toNat ||| (p.getD (i + 1) 0).toNat <<< 8

def u32 (p : Bytes) (i : Nat) : Nat := u16 p i ||| u16 p (i + 2) <<< 16

/-- `File::read_at`. -/
def readAt (path : Path) (file : Bytes) (offset len : Nat) : Except Exn Bytes :=
  if len = 0 ∨ offset + len ≤ file.length then .ok ((file.drop offset).take len)
  else .error (.error ("pread " ++ path.text ++ ": unexpected EOF"))

/-- Payload names are identifiers, never destination paths. -/
def safeName (name : Bytes) : Prop :=
  name ≠ [] ∧ name ≠ [46] ∧ name ≠ [46, 46] ∧
    ∀ c ∈ name, c ≠ 47 ∧ c ≠ 92 ∧ c ≠ 58 ∧ 32 ≤ c ∧ c ≠ 127

instance (name : Bytes) : Decidable (safeName name) := inferInstanceAs (Decidable (_ ∧ _))

/-- "MSCF". -/
def cabinetMagic : Bytes := [77, 83, 67, 70]

structure CabinetMember where
  name : Bytes
  path : Path
  size : Nat
  date : Nat
  time : Nat
  attributes : Nat
  deriving DecidableEq, Repr

/-- The staging path of the payload with a number. -/
def payloadPath (workspace number : Nat) : Path :=
  .temp workspace (ascii "payload-" ++ ascii (toString number))

/-! ## The walk over a name -/

/-- Read a name up to its zero; the cursor ends behind the zero. -/
def readName (path : Path) (file : Bytes) (reason : String) (cursor : Nat) :
    Except Exn (Bytes × Nat) :=
  loop (fun (name, cursor) => do
      invalidIf (file.length ≤ cursor ∨ 255 < name.length) reason
      let ch ← readAt path file cursor 1
      if ch = [0] then
        return .leave (name, cursor + 1)
      else
        return .again (name ++ ch, cursor + 1))
    (.fault .diverges) 257 ([], cursor)

/-! ## Inspection -/

structure CabinetHeader where
  folders : Nat
  files : Nat
  /-- Where the folder table starts. -/
  pos : Nat
  folderReserve : Nat
  dataReserve : Nat
  table : Nat
  deriving DecidableEq, Repr

structure CabinetFolder where
  start : Nat
  finish : Nat
  expanded : Nat
  files : List (Nat × Nat)
  deriving DecidableEq, Repr

section Inspect

variable (path : Path) (cabinet : Bytes) (file : Bytes)

/-- The end of the header and the two sizes reserved behind it. -/
def inspectReserve (flags : Nat) : Except Exn (Nat × Nat × Nat) :=
  if flags &&& 4 ≠ 0 then do
    invalidIf (file.length < 40) "truncated cabinet reserve header"
    let r ← readAt path file 36 4
    return (40 + u16 r 0, (r.getD 2 0).toNat, (r.getD 3 0).toNat)
  else
    return (36, 0, 0)

def inspectHeader : Except Exn CabinetHeader := do
  invalidIf (file.length < 36 ∨ expansionLimit < file.length)
    ("invalid cabinet size: " ++ latin1 cabinet)
  let h ← readAt path file 0 36
  invalidIf (h.take 4 ≠ cabinetMagic ∨ u32 h 8 ≠ file.length)
    ("invalid cabinet header: " ++ latin1 cabinet)
  let flags := u16 h 30
  let folders := u16 h 26
  let files := u16 h 28
  invalidIf (flags &&& 3 ≠ 0) ("spanning cabinets are unsupported: " ++ latin1 cabinet)
  -- `flags & ~uint16_t(7)`
  invalidIf (flags &&& 0xfff8 ≠ 0) ("unsupported cabinet flags: " ++ latin1 cabinet)
  let (pos, folderReserve, dataReserve) ← inspectReserve path file flags
  invalidIf (file.length < pos + folders * (8 + folderReserve)) "truncated cabinet folders"
  return { folders, files, pos, folderReserve, dataReserve, table := u32 h 16 }

/-- One data block of a folder. -/
def inspectBlock (dataReserve : Nat) (folder : CabinetFolder) : Except Exn CabinetFolder := do
  let left ← usub file.length folder.finish
  invalidIf (left < 8 + dataReserve) "truncated cabinet data block"
  let data ← readAt path file folder.finish 8
  let packed := u16 data 4
  let unpacked := u16 data 6
  invalidIf (unpacked = 0 ∨ 32768 < unpacked ∨ packed = 0)
    "invalid or spanning cabinet data block"
  let block := 8 + dataReserve + packed
  invalidIf (left < block) "truncated cabinet data"
  return { folder with finish := folder.finish + block, expanded := folder.expanded + unpacked }

/-- The folders read, the bytes they expand to, and where the next record is. -/
structure FolderScan where
  folders : List CabinetFolder
  expanded : Nat
  pos : Nat
  deriving DecidableEq, Repr

def inspectFolder (header : CabinetHeader) (scan : FolderScan) : Except Exn FolderScan := do
  let f ← readAt path file scan.pos 8
  let compression := u16 f 6 &&& 15
  invalidIf (compression ≠ 0 ∧ compression ≠ 1 ∧ compression ≠ 3)
    ("unsupported cabinet compression: " ++ latin1 cabinet)
  invalidIf (file.length < u32 f 0) "cabinet folder lies outside file"
  let folder ← (List.range (u16 f 4)).foldlM
    (fun folder _ => inspectBlock path file header.dataReserve folder)
    { start := u32 f 0, finish := u32 f 0, expanded := 0, files := [] }
  let room ← usub expansionLimit scan.expanded
  invalidIf (room < folder.expanded) "expanded cabinet exceeds 1 GiB"
  return { folders := scan.folders ++ [folder], expanded := scan.expanded + folder.expanded,
           pos := scan.pos + (8 + header.folderReserve) }

/-- The members read, the folders with their ranges, and where the next record is. -/
structure MemberScan where
  folders : List CabinetFolder
  members : List CabinetMember
  count : Nat
  cursor : Nat
  deriving DecidableEq, Repr

def inspectMember (workspace : Nat) (header : CabinetHeader) (scan : MemberScan) :
    Except Exn MemberScan := do
  let left ← usub file.length scan.cursor
  invalidIf (left < 17) "truncated cabinet file record"
  let f ← readAt path file scan.cursor 16
  invalidIf (header.folders ≤ u16 f 8) "spanning or invalid cabinet member"
  let size := u32 f 0
  let index := u16 f 8
  let offset := u32 f 4
  match scan.folders[index]? with
  | none => .error (.fault .outOfBounds)
  | some folder => do
      invalidIf (folder.expanded < offset) "cabinet member exceeds folder data"
      let room ← usub folder.expanded offset
      invalidIf (room < size) "cabinet member exceeds folder data"
      let (name, cursor) ← readName path file "invalid cabinet member name" (scan.cursor + 16)
      invalidIf (¬ safeName name ∨ name ∈ scan.members.map CabinetMember.name)
        ("unsafe or duplicate cabinet member name: " ++ latin1 name)
      let member : CabinetMember :=
        { name, path := payloadPath workspace scan.count, size,
          date := u16 f 10, time := u16 f 12, attributes := u16 f 14 }
      return { folders := scan.folders.set index
                 { folder with files := folder.files ++ [(offset, offset + size)] },
               members := scan.members ++ [member], count := scan.count + 1, cursor }

/-- Ranges in their order, none of which starts before the end of the one before. -/
def scanRanges (reason : String) (start : Nat) (ranges : List (Nat × Nat)) : Except Exn Nat :=
  ranges.foldlM (fun finish range => do
    invalidIf (range.1 < finish) reason
    return range.2) start

/-- `std::pair`'s order. -/
def rangeLe (a b : Nat × Nat) : Prop := a.1 < b.1 ∨ (a.1 = b.1 ∧ a.2 ≤ b.2)

instance : DecidableRel rangeLe := fun _ _ => inferInstanceAs (Decidable (_ ∨ _))

def inspectLayout (cursor : Nat) (folders : List CabinetFolder) : Except Exn Unit := do
  let ranges ← folders.foldlM (fun ranges folder => do
    invalidIf (folder.start < cursor) "cabinet data overlaps metadata"
    let _ ← scanRanges "overlapping cabinet members" 0 (folder.files.insertionSort rangeLe)
    return ranges ++ [(folder.start, folder.finish)]) []
  let _ ← scanRanges "overlapping cabinet folders" cursor (ranges.insertionSort rangeLe)

/-- What `inspect_cabinet` leaves in its arguments. -/
structure Inspected where
  members : List CabinetMember
  total : Nat
  count : Nat
  deriving DecidableEq, Repr

def inspectCabinet (workspace total count : Nat) : Except Exn Inspected := do
  let header ← inspectHeader path cabinet file
  let scan ← (List.range header.folders).foldlM
    (fun scan _ => inspectFolder path cabinet file header scan)
    { folders := [], expanded := 0, pos := header.pos }
  invalidIf (header.table < scan.pos ∨ file.length < header.table) "invalid cabinet file table"
  let room ← usub memberLimit count
  invalidIf (room < header.files) "more than 65535 payload members"
  let found ← (List.range header.files).foldlM
    (fun found _ => inspectMember path file workspace header found)
    { folders := scan.folders, members := [], count, cursor := header.table }
  let room ← usub expansionLimit total
  invalidIf (room < scan.expanded) "expanded payload exceeds 1 GiB"
  inspectLayout found.cursor found.folders
  return { members := found.members, total := total + scan.expanded, count := found.count }

end Inspect

end AasSign
