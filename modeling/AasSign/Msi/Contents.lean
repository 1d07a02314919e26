import AasSign.Codec.Text

/-! # The contents of an installer database

The tables and streams of an MSI that the recursive mode looks at, the queries
and updates it makes, and the text of each as the database engine is given it.
Cells hold the text that the engine returns for them. Cabinet streams and the
streams of the Binary table are kept apart; tables that nothing reads are one value.
-/

namespace AasSign

structure MediaRow where
  diskId : Int
  lastSequence : Bytes
  cabinet : Bytes
  deriving DecidableEq, Repr

structure FileTableRow where
  file : Bytes
  fileSize : Bytes
  version : Bytes
  attributes : Bytes
  sequence : Bytes
  deriving DecidableEq, Repr

/-- `std::array<int32_t, 4>`. -/
abbrev FileHash := Int × Int × Int × Int

structure HashRow where
  file : Bytes
  options : Bytes
  hash : FileHash
  deriving DecidableEq, Repr

structure MsiContents where
  storages : List Bytes
  tables : List Bytes
  wordCount : Int
  packageCode : Bytes
  media : List MediaRow
  file : List FileTableRow
  binary : List (Bytes × Bytes)
  fileHash : List HashRow
  streams : List (Bytes × Bytes)
  others : List (Bytes × List (List Bytes))
  deriving DecidableEq, Repr, Inhabited

/-- The queries that read rows. -/
inductive MsiQuery where
  | storages
  | tables
  | media
  | file
  | binary
  | fileHash
  deriving DecidableEq, Repr

def MsiQuery.sql : MsiQuery → String
  | storages => "SELECT `Name` FROM `_Storages`"
  | tables => "SELECT `Name` FROM `_Tables`"
  | media => "SELECT `DiskId`, `LastSequence`, `Cabinet` FROM `Media` ORDER BY `DiskId`"
  | file => "SELECT `File`, `FileSize`, `Version`, `Attributes`, `Sequence` FROM `File`"
  | binary => "SELECT `Name` FROM `Binary`"
  | fileHash => "SELECT `File_`, `Options` FROM `MsiFileHash`"

/-- The streams that are extracted by name. -/
inductive MsiStream where
  | cabinet (name : Bytes)
  | binary (name : Bytes)
  deriving DecidableEq, Repr

def MsiStream.sql : MsiStream → String
  | cabinet _ => "SELECT `Data` FROM `_Streams` WHERE `Name` = ?"
  | binary _ => "SELECT `Data` FROM `Binary` WHERE `Name` = ?"

def MsiStream.key : MsiStream → Bytes
  | cabinet name => name
  | binary name => name

/-- The data of the rows that the query for a stream selects. -/
def MsiContents.select (c : MsiContents) : MsiStream → List Bytes
  | .cabinet name => (c.streams.filter fun row => row.1 = name).map Prod.snd
  | .binary name => (c.binary.filter fun row => row.1 = name).map Prod.snd

/-- The updates; a stream parameter stands for the bytes of the file it names. -/
inductive MsiUpdate where
  | fileSize (size : Nat) (file : Bytes)
  | fileHash (hash : FileHash) (file : Bytes)
  | stream (data : Bytes) (name : Bytes)
  | binary (data : Bytes) (name : Bytes)
  deriving DecidableEq, Repr

def MsiUpdate.sql : MsiUpdate → String
  | fileSize _ _ => "UPDATE `File` SET `FileSize` = ? WHERE `File` = ?"
  | fileHash _ _ => "UPDATE `MsiFileHash` SET `HashPart1` = ?, `HashPart2` = ?, " ++
      "`HashPart3` = ?, `HashPart4` = ? WHERE `File_` = ?"
  | stream _ _ => "UPDATE `_Streams` SET `Data` = ? WHERE `Name` = ?"
  | binary _ _ => "UPDATE `Binary` SET `Data` = ? WHERE `Name` = ?"

/-- `UPDATE … SET … WHERE key = ?` on the rows of a table. -/
def updateRows {Row : Type} (key : Row → Bytes) (set : Row → Row) (name : Bytes)
    (rows : List Row) : List Row :=
  rows.map fun row => if key row = name then set row else row

def MsiUpdate.apply (c : MsiContents) : MsiUpdate → MsiContents
  | fileSize size file =>
      { c with file := updateRows FileTableRow.file (fun row =>
          { row with fileSize := ascii (toString size) }) file c.file }
  | fileHash hash file =>
      { c with fileHash := updateRows HashRow.file (fun row => { row with hash }) file c.fileHash }
  | stream data name =>
      { c with streams := updateRows Prod.fst (fun row => (row.1, data)) name c.streams }
  | binary data name =>
      { c with binary := updateRows Prod.fst (fun row => (row.1, data)) name c.binary }

end AasSign
