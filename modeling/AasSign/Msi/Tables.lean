import Mathlib.Data.Int.Bitwise
import AasSign.Msi.Cabinet
import AasSign.Msi.Contents

/-! # Media ranges and File rows

The part of the preflight of `rewrite_msi_payload` that reads the tables: the
cabinets of the Media table, the rows of the File table, and the rows that the
members of a cabinet stand for.
-/

namespace AasSign

open Foundation

/-- The number that decimal digits write. -/
def decimal (digits : Bytes) : Nat := digits.foldl (fun value d => value * 10 + (d.toNat - 48)) 0

/-- `integer`: `std::from_chars` into an `int32_t`, over the whole text. -/
def integer (value : Bytes) : Except Exn Int :=
  if value = [] then .ok 0
  else
    let digits := if value.head? = some 45 then value.drop 1 else value
    let result : Int := if value.head? = some 45 then -(decimal digits : Int) else decimal digits
    if digits = [] ∨ (∃ d ∈ digits, ¬ isDigit d) ∨ result < -2 ^ 31 ∨ 2 ^ 31 ≤ result then
      .error (.error "recursive MSI: invalid integer in database")
    else .ok result

structure Cabinet where
  name : Bytes
  path : Path
  first : Int
  last : Int
  members : List CabinetMember
  deriving DecidableEq, Repr

def cabinetPath (workspace number : Nat) : Path :=
  .temp workspace (ascii "cab-" ++ ascii (toString number))

/-- One Media row; the cabinets so far come with the last sequence number of theirs. -/
def mediaCabinet (workspace : Nat) (scan : List Cabinet × Int) (row : MediaRow) :
    Except Exn (List Cabinet × Int) := do
  let last ← integer row.lastSequence
  invalidIf (last < scan.2) "Media sequence ranges are not ordered"
  invalidIf (row.cabinet.head? ≠ some 35 ∨ row.cabinet.length = 1)
    "external cabinets and loose source media are unsupported"
  let name := row.cabinet.drop 1
  invalidIf (name ∈ scan.1.map Cabinet.name) "duplicate Media cabinet reference"
  let cabinet : Cabinet :=
    { name, path := cabinetPath workspace scan.1.length, first := scan.2 + 1, last, members := [] }
  return (scan.1 ++ [cabinet], last)

def mediaCabinets (workspace : Nat) (rows : List MediaRow) : Except Exn (List Cabinet) := do
  let scan ← rows.foldlM (mediaCabinet workspace) ([], 0)
  return scan.1

/-- An entry of the `files` map. -/
structure FileRow where
  name : Bytes
  size : Int
  sequence : Int
  version : Bytes
  found : Bool
  deriving DecidableEq, Repr

def fileRow (compressed : Bool) (files : List FileRow) (row : FileTableRow) :
    Except Exn (List FileRow) := do
  let attr ← integer row.attributes
  invalidIf (attr.testBit 13 ∨ (¬ attr.testBit 14 ∧ ¬ compressed))
    ("loose source file is unsupported: " ++ latin1 row.file)
  let sequence ← integer row.sequence
  let size ← integer row.fileSize
  invalidIf (sequence ≤ 0 ∨ size < 0 ∨ sequence ∈ files.map FileRow.sequence)
    "invalid or duplicate File sequence/size"
  invalidIf (row.file ∈ files.map FileRow.name) "duplicate File identifier"
  return files ++ [{ name := row.file, size, sequence, version := row.version, found := false }]

def fileRows (compressed : Bool) (rows : List FileTableRow) : Except Exn (List FileRow) :=
  rows.foldlM (fileRow compressed) []

/-- The member takes the File row of its name. -/
def mapMember (cabinet : Cabinet) (files : List FileRow) (member : CabinetMember) :
    Except Exn (List FileRow) :=
  match files.find? fun row => row.name = member.name with
  | none => .error (.error ("recursive MSI: CAB/File table mapping mismatch: " ++ latin1 member.name))
  | some row => do
      invalidIf (row.found ∨ row.sequence < cabinet.first ∨ cabinet.last < row.sequence ∨
          row.size ≠ member.size)
        ("CAB/File table mapping mismatch: " ++ latin1 member.name)
      return files.map fun row =>
        if row.name = member.name then { row with found := true } else row

def mapMembers (cabinet : Cabinet) (files : List FileRow) (members : List CabinetMember) :
    Except Exn (List FileRow) :=
  members.foldlM (mapMember cabinet) files

/-- The sweep over the `files` map, in the order of its keys. -/
def checkFound (files : List FileRow) : Except Exn Unit :=
  (files.insertionSort fun a b => a.name ≤ b.name).foldlM
    (fun _ row => invalidIf (¬ row.found)
      ("File row has no embedded cabinet member: " ++ latin1 row.name)) ()

/-- The rows of `MsiFileHash`. -/
def hashRows (rows : List HashRow) : Except Exn (List Bytes) :=
  rows.foldlM (fun names row => do
    let options ← integer row.options
    invalidIf (options ≠ 0) "unsupported MsiFileHash options"
    return names ++ [row.file]) []

end AasSign
