import Mathlib.Logic.Function.Basic
import AasSign.Msi.Preflight

/-! # Revisions

What a run of updates makes of a database: new cells, found by the keys of their
rows. Everything that has no new cell stays as it was.
-/

namespace AasSign

/-- New cells, by the keys of the rows. -/
structure Revision where
  sizes : Bytes → Option Nat
  hashes : Bytes → Option FileHash
  streams : Bytes → Option Bytes
  binaries : Bytes → Option Bytes

namespace Revision

def none : Revision := ⟨fun _ => .none, fun _ => .none, fun _ => .none, fun _ => .none⟩

def fileRow (r : Revision) (row : FileTableRow) : FileTableRow :=
  { row with fileSize := ((r.sizes row.file).map fun size => ascii (toString size)).getD row.fileSize }

def hashRow (r : Revision) (row : HashRow) : HashRow :=
  { row with hash := (r.hashes row.file).getD row.hash }

/-- A row of data under a name. -/
def dataRow (data : Bytes → Option Bytes) (row : Bytes × Bytes) : Bytes × Bytes :=
  (row.1, (data row.1).getD row.2)

/-- The revision after one more update. -/
def update (r : Revision) : MsiUpdate → Revision
  | .fileSize size file => { r with sizes := Function.update r.sizes file (some size) }
  | .fileHash hash file => { r with hashes := Function.update r.hashes file (some hash) }
  | .stream data name => { r with streams := Function.update r.streams name (some data) }
  | .binary data name => { r with binaries := Function.update r.binaries name (some data) }

end Revision

namespace MsiContents

def revise (c : MsiContents) (r : Revision) : MsiContents :=
  { c with
    file := c.file.map r.fileRow
    fileHash := c.fileHash.map r.hashRow
    streams := c.streams.map (Revision.dataRow r.streams)
    binary := c.binary.map (Revision.dataRow r.binaries) }

section Revise

variable {c : MsiContents} {r : Revision} {name : Bytes}

theorem revise_none : c.revise .none = c := by
  have hfile : (Revision.none.fileRow : FileTableRow → FileTableRow) = id := rfl
  have hhash : (Revision.none.hashRow : HashRow → HashRow) = id := rfl
  have hstreams : Revision.dataRow Revision.none.streams = id := rfl
  have hbinaries : Revision.dataRow Revision.none.binaries = id := rfl
  simp only [revise, hfile, hhash, hstreams, hbinaries, List.map_id]

theorem updateRows_map {Row : Type} {key : Row → Bytes} {set f g : Row → Row} {rows : List Row}
    (hset : ∀ row, key (f row) = name → set (f row) = g row)
    (hother : ∀ row, key (f row) ≠ name → f row = g row) :
    updateRows key set name (rows.map f) = rows.map g := by
  rw [updateRows, List.map_map]
  apply List.map_congr_left
  intro row _
  rw [Function.comp_apply]
  split
  next hkey => exact hset row hkey
  next hkey => exact hother row hkey

/-- An update of a revised database revises it once more. -/
theorem apply_revise (update : MsiUpdate) :
    update.apply (c.revise r) = c.revise (r.update update) := by
  cases update with
  | fileSize size file =>
      simp only [MsiUpdate.apply, revise]
      rw [updateRows_map (g := (r.update (.fileSize size file)).fileRow)]
      · rfl
      · rintro row rfl
        simp [Revision.update, Revision.fileRow]
      · intro row hrow
        have hne : row.file ≠ file := hrow
        simp [Revision.update, Revision.fileRow, Function.update_of_ne hne]
  | fileHash hash file =>
      simp only [MsiUpdate.apply, revise]
      rw [updateRows_map (g := (r.update (.fileHash hash file)).hashRow)]
      · rfl
      · rintro row rfl
        simp [Revision.update, Revision.hashRow]
      · intro row hrow
        have hne : row.file ≠ file := hrow
        simp [Revision.update, Revision.hashRow, Function.update_of_ne hne]
  | stream data name =>
      simp only [MsiUpdate.apply, revise]
      rw [updateRows_map (g := Revision.dataRow (r.update (.stream data name)).streams)]
      · rfl
      · rintro row rfl
        simp [Revision.update, Revision.dataRow]
      · intro row hrow
        have hne : row.1 ≠ name := hrow
        simp [Revision.update, Revision.dataRow, Function.update_of_ne hne]
  | binary data name =>
      simp only [MsiUpdate.apply, revise]
      rw [updateRows_map (g := Revision.dataRow (r.update (.binary data name)).binaries)]
      · rfl
      · rintro row rfl
        simp [Revision.update, Revision.dataRow]
      · intro row hrow
        have hne : row.1 ≠ name := hrow
        simp [Revision.update, Revision.dataRow, Function.update_of_ne hne]

theorem filter_dataRow {data : Bytes → Option Bytes} {rows : List (Bytes × Bytes)} :
    ((rows.map (Revision.dataRow data)).filter fun row => row.1 = name).map Prod.snd =
      ((rows.filter fun row => row.1 = name).map Prod.snd).map fun old => (data name).getD old := by
  induction rows with
  | nil => rfl
  | cons row rows ih =>
      by_cases hname : row.1 = name
      · subst hname
        simpa [Revision.dataRow] using ih
      · simpa [Revision.dataRow, hname] using ih

theorem select_revise_cabinet : (c.revise r).select (.cabinet name) =
    (c.select (.cabinet name)).map fun old => (r.streams name).getD old :=
  filter_dataRow

theorem select_revise_binary : (c.revise r).select (.binary name) =
    (c.select (.binary name)).map fun old => (r.binaries name).getD old :=
  filter_dataRow

theorem rowsIf_revise {Row : Type} {table : String} {f : Row → Row} {rows : List Row} :
    (c.revise r).rowsIf table (rows.map f) = (c.rowsIf table rows).map f := by
  have htables : (c.revise r).tables = c.tables := rfl
  by_cases htable : ascii table ∈ c.tables
  · rw [rowsIf, htables, if_pos htable, rowsIf, if_pos htable]
  · rw [rowsIf, htables, if_neg htable, rowsIf, if_neg htable, List.map_nil]

theorem fileRows_revise : (c.revise r).fileRows = c.fileRows.map r.fileRow := rowsIf_revise

theorem hashTableRows_revise : (c.revise r).hashTableRows = c.hashTableRows.map r.hashRow :=
  rowsIf_revise

theorem binaryRows_revise :
    (c.revise r).binaryRows = c.binaryRows.map (Revision.dataRow r.binaries) := rowsIf_revise

end Revise

end MsiContents

end AasSign
