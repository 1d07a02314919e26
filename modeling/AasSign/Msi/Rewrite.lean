import AasSign.Msi.Tables
import AasSign.Platform.AtomicWrite

/-! # Recursive rewriting of an installer

`rewrite_msi_payload` over the files of its workspace and an open database. The
database and cabinet libraries are parameters. A log keeps every step together
with the budget at that point.
-/

namespace AasSign

open Foundation Program

structure UnpackedFile where
  name : Bytes
  size : Nat
  data : Bytes
  deriving DecidableEq, Repr

structure PackedFile where
  name : Bytes
  data : Bytes
  date : Nat
  time : Nat
  attributes : Nat
  deriving DecidableEq, Repr

/-- The database and cabinet libraries. -/
structure MsiLibrary where
  openMsi : Bytes → Except String MsiContents
  storeMsi : MsiContents → Bytes
  packageCode : Nat → Bytes
  unpack : Bytes → Except String (List UnpackedFile)
  pack : List PackedFile → Except String Bytes
  md5 : Bytes → Bytes

/-- What `rewrite_msi_payload` does to its database and its payloads. -/
inductive MsiEvent where
  | queried (query : MsiQuery)
  | extracted (stream : MsiStream)
  | inspected (cabinet : Bytes)
  | unpacked (cabinet : Bytes)
  | mapped
  | optionsChecked
  | called (container : MsiStream) (path : Path) (name : Bytes)
  | returned (container : MsiStream) (path : Path) (signed : Bool) (left : Option Bytes)
  | accounted (path : Path)
  | updated (update : MsiUpdate)
  | renewed
  | committed
  deriving DecidableEq, Repr

/-- An event with the budget and the bytes in the payload files after it. -/
structure MsiStep where
  event : MsiEvent
  count : Nat
  expanded : Nat
  payloadBytes : Nat
  deriving DecidableEq, Repr

/-- The variables of `rewrite_msi_payload` that change while it runs. -/
structure Rewrite where
  world : World
  db : MsiContents
  count : Nat
  expanded : Nat
  signedFiles : Nat
  preservedFiles : Nat
  log : List MsiStep

def Rewrite.start (w : World) : Rewrite := ⟨w, default, 0, 0, 0, 0, []⟩

def Rewrite.events (s : Rewrite) : List MsiEvent := s.log.map MsiStep.event

abbrev Rewriting := Program Rewrite Exn

/-- `sign_if_unsigned`: the path of a payload and its name for display. -/
abbrev Callback := Path → Bytes → Prog Bool

def onWorld {α : Type} (m : Prog α) : Rewriting α :=
  m.within Rewrite.world fun world s => { s with world }

def invalid {α : Type} (reason : String) : Rewriting α :=
  raise (.error ("recursive MSI: " ++ reason))

def fileSize (w : World) (path : Path) : Nat := ((w.files path).getD []).length

/-- The sizes of the payload files that have been given a path. -/
def payloadBytes (workspace count : Nat) (w : World) : Nat :=
  ((List.range count).map fun number => fileSize w (payloadPath workspace number)).sum

section Steps

variable (env : Env) (lib : MsiLibrary) (workspace : Nat)

def Rewrite.noted (event : MsiEvent) (s : Rewrite) : Rewrite :=
  { s with
    log := s.log ++ [⟨event, s.count, s.expanded, payloadBytes workspace s.count s.world⟩] }

def note (event : MsiEvent) : Rewriting Unit := change (Rewrite.noted workspace event)

def liftLibrary {α : Type} (x : Except String α) : Except Exn α := x.mapError .error

/-- `MsiDatabase::query`. -/
def query {Row : Type} (q : MsiQuery) (rows : MsiContents → List Row) : Rewriting (List Row) := do
  onWorld (attempt env)
  let s ← current
  lift (throwIf (65535 < (rows s.db).length) ("MSI query exceeds 65535 rows: " ++ q.sql))
  note workspace (.queried q)
  return rows s.db

/-- `MsiDatabase::execute`. -/
def execute (update : MsiUpdate) : Rewriting Unit := do
  onWorld (attempt env)
  change fun s => { s with db := update.apply s.db }
  note workspace (.updated update)

/-- A read of `extract_stream` after which the stream goes on. -/
def copyRead (key : Bytes) (limit total n : Nat) : Except Exn Nat := do
  let room ← usub limit total
  throwIf (room < n) ("MSI stream exceeds extraction limit: " ++ latin1 key)
  return total + n

/-- The loop of `extract_stream`, over the sizes of its reads. -/
def copyLimited (key : Bytes) (limit : Nat) (sizes : List Nat) : Except Exn Nat :=
  sizes.foldlM (copyRead key limit) 0

/-- `MsiDatabase::extract_stream`. -/
def extractStream (stream : MsiStream) (output : Path) (limit : Nat) : Rewriting Nat := do
  onWorld (attempt env)
  let s ← current
  match s.db.select stream with
  | [] => raise (.error ("read MSI stream " ++ latin1 stream.key))
  | data :: duplicates => do
      let reads := env.streamReads s.world.clock data.length
      let total ← lift (copyLimited stream.key limit reads.sizes)
      onWorld (writeFile env output data)
      lift (throwIf (duplicates ≠ []) ("ambiguous MSI stream " ++ latin1 stream.key))
      return total

/-- A file of a cabinet takes the member that expects it. -/
def matchFile (path : Path) (scan : List CabinetMember × List (Path × Bytes))
    (file : UnpackedFile) : Except Exn (List CabinetMember × List (Path × Bytes)) :=
  match scan.1.find? fun member => member.name = file.name with
  | none => .error (.error ("cabinet metadata mismatch: " ++ path.text))
  | some member => do
      throwIf (file.size ≠ member.size) ("cabinet metadata mismatch: " ++ path.text)
      return (scan.1.filter fun other => other.name ≠ file.name,
        scan.2 ++ [(member.path, file.data)])

/-- Where the files of a cabinet go. -/
def matchFiles (path : Path) (members : List CabinetMember) (files : List UnpackedFile) :
    Except Exn (List (Path × Bytes)) := do
  let scan ← files.foldlM (matchFile path) (members, [])
  throwIf (scan.1 ≠ [] ∨ scan.2.length ≠ members.length) ("missing cabinet member: " ++ path.text)
  return scan.2

def extractCabinet (path : Path) (members : List CabinetMember) : Prog Unit := do
  let file ← readFile env path
  let files ← lift (liftLibrary (lib.unpack file))
  let targets ← lift (matchFiles path members files)
  foldItems (fun _ target => writeFile env target.1 target.2) () targets

def packMember (member : CabinetMember) (data : Bytes) : PackedFile :=
  ⟨member.name, data, member.date, member.time, member.attributes⟩

def createCabinet (path : Path) (members : List CabinetMember) : Prog Unit := do
  let contents ← foldItems (fun packed member => do
      let data ← readFile env member.path
      return packed ++ [packMember member data]) [] members
  let cabinet ← lift (liftLibrary (lib.pack contents))
  writeFile env path cabinet

/-- `uint8_t(value), uint8_t(value >> 8)`. -/
def octets16 (value : Nat) : Bytes := [UInt8.ofNat value, UInt8.ofNat (value >>> 8)]

def metadata (member : CabinetMember) : Bytes :=
  octets16 member.date ++ octets16 member.time ++ octets16 member.attributes

/-- One record of the file table; its metadata words are written back. -/
def restoreMember (path : Path) (cursor : Nat) (member : CabinetMember) : Prog Nat := do
  let file ← readFile env path
  lift (invalidIf (file.length < cursor) "truncated rebuilt cabinet file record")
  let left ← lift (usub file.length cursor)
  lift (invalidIf (left < 17) "truncated rebuilt cabinet file record")
  let f ← lift (readAt path file cursor 16)
  let payload ← readFile env member.path
  lift (invalidIf (u32 f 0 ≠ payload.length) "rebuilt cabinet member size mismatch")
  let (name, next) ← lift (readName path file "invalid rebuilt cabinet name" (cursor + 16))
  lift (invalidIf (name ≠ member.name) "rebuilt cabinet member order mismatch")
  writeFile env path (overwrite file (cursor + 10) (metadata member))
  return next

def preserveCabinetMetadata (path : Path) (members : List CabinetMember) : Prog Unit := do
  let file ← readFile env path
  lift (invalidIf (file.length < 36) "truncated rebuilt cabinet")
  let h ← lift (readAt path file 0 36)
  lift (invalidIf (h.take 4 ≠ cabinetMagic ∨ u16 h 28 ≠ members.length)
    "rebuilt cabinet member count mismatch")
  let _ ← foldItems (restoreMember env path) (u32 h 16) members
  attempt env

/-- A little-endian double word of the digest, as an `int32_t`. -/
def hashPart (digest : Bytes) (i : Nat) : Int := (Int.ofNat (u32 digest (4 * i))).bmod (2 ^ 32)

/-- `msi_file_hash`; empty files have the all-zero hash. -/
def msiFileHash (data : Bytes) : FileHash :=
  if data = [] then (0, 0, 0, 0)
  else
    let digest := lib.md5 data
    (hashPart digest 0, hashPart digest 1, hashPart digest 2, hashPart digest 3)

/-! ## Preflight -/

/-- What the preflight hands to the signing. -/
structure Plan where
  cabinets : List Cabinet
  files : List FileRow
  binaries : List (Bytes × Path)
  hashRows : List Bytes
  deriving DecidableEq, Repr

/-- `files.at(name).version`. -/
def Plan.version (plan : Plan) (name : Bytes) : Option Bytes :=
  (plan.files.find? fun row => row.name = name).map FileRow.version

def checkSize (_ : Unit) (member : CabinetMember) : Prog Unit := do
  let file ← readFile env member.path
  lift (invalidIf (file.length ≠ member.size)
    ("extracted cabinet member size mismatch: " ++ latin1 member.name))

def preflightCabinet (scan : List Cabinet × List FileRow) (cabinet : Cabinet) :
    Rewriting (List Cabinet × List FileRow) := do
  let _ ← extractStream env (.cabinet cabinet.name) cabinet.path expansionLimit
  note workspace (.extracted (.cabinet cabinet.name))
  let file ← onWorld (readFile env cabinet.path)
  let s ← current
  let inspected ← lift (inspectCabinet cabinet.path cabinet.name file workspace s.expanded s.count)
  change fun s => { s with count := inspected.count, expanded := inspected.total }
  note workspace (.inspected cabinet.name)
  let files ← lift (mapMembers cabinet scan.2 inspected.members)
  onWorld (extractCabinet env lib cabinet.path inspected.members)
  onWorld (foldItems (checkSize env) () inspected.members)
  note workspace (.unpacked cabinet.name)
  return (scan.1 ++ [{ cabinet with members := inspected.members }], files)

def preflightBinary (binaries : List (Bytes × Path)) (row : Bytes × Bytes) :
    Rewriting (List (Bytes × Path)) := do
  let s ← current
  lift (invalidIf (memberLimit ≤ s.count) "more than 65535 payload members")
  let path := payloadPath workspace s.count
  change fun s => { s with count := s.count + 1 }
  let limit ← lift (usub expansionLimit s.expanded)
  let total ← extractStream env (.binary row.1) path limit
  change fun s => { s with expanded := s.expanded + total }
  note workspace (.extracted (.binary row.1))
  return binaries ++ [(row.1, path)]

/-- The rows of a table, none if there is no such table. -/
def queryIf {Row : Type} (present : Bool) (q : MsiQuery) (rows : MsiContents → List Row) :
    Rewriting (List Row) :=
  if present then query env workspace q rows else return []

/-- The media in the order of their disks. -/
def MsiContents.mediaByDisk (c : MsiContents) : List MediaRow :=
  c.media.insertionSort fun a b => a.diskId ≤ b.diskId

/-- Everything before the first callback. -/
def preflight : Rewriting Plan := do
  let storages ← query env workspace .storages MsiContents.storages
  lift (invalidIf (storages ≠ [])
    "embedded transforms or nested database storages are unsupported")
  let tables ← query env workspace .tables MsiContents.tables
  onWorld (attempt env)
  let s ← current
  let compressed := s.db.wordCount.testBit 1
  let media ← queryIf env workspace (ascii "Media" ∈ tables) .media MsiContents.mediaByDisk
  let cabinets ← lift (mediaCabinets workspace media)
  let rows ← queryIf env workspace (ascii "File" ∈ tables) .file MsiContents.file
  let files ← lift (fileRows compressed rows)
  let (cabinets, files) ← foldItems (preflightCabinet env lib workspace) ([], files) cabinets
  lift (checkFound files)
  note workspace .mapped
  let names ← queryIf env workspace (ascii "Binary" ∈ tables) .binary MsiContents.binary
  let binaries ← foldItems (preflightBinary env workspace) [] names
  let hashes ← queryIf env workspace (ascii "MsiFileHash" ∈ tables) .fileHash MsiContents.fileHash
  let hashRows ← lift (hashRows hashes)
  note workspace .optionsChecked
  return { cabinets, files, binaries, hashRows }

/-! ## Signing -/

/-- `pe_candidate`. -/
def peCandidate (file : Bytes) : Bool := file.take 2 = [77, 90]

def noteReturned (container : MsiStream) (path : Path) (signed : Bool) : Rewriting Unit := do
  let s ← current
  note workspace (.returned container path signed (s.world.files path))

/-- The `sign` lambda. -/
def sign (signIfUnsigned : Callback) (container : MsiStream) (path : Path) (name : Bytes) :
    Rewriting Bool := do
  let candidate ← onWorld (readFile env path)
  if peCandidate candidate then
    let before ← onWorld (readFile env path)
    note workspace (.called container path name)
    let signed ← onWorld (signIfUnsigned path name)
    noteReturned workspace container path signed
    if signed then
      let file ← onWorld (readFile env path)
      let s ← current
      let others ← lift (usub s.expanded before.length)
      let room ← lift (usub expansionLimit others)
      lift (invalidIf (room < file.length) "signed payload exceeds 1 GiB expansion limit")
      change fun s => { s with
        expanded := others + file.length, signedFiles := s.signedFiles + 1 }
      note workspace (.accounted path)
      return true
    else
      change fun s => { s with preservedFiles := s.preservedFiles + 1 }
      return false
  else
    return false

/-- The rows of a signed member are brought up to date. -/
def updateMember (plan : Plan) (member : CabinetMember) : Rewriting Unit := do
  let file ← onWorld (readFile env member.path)
  lift (invalidIf (2 ^ 31 - 1 < file.length) "signed payload exceeds MSI FileSize range")
  execute env workspace (.fileSize file.length member.name)
  if member.name ∈ plan.hashRows ∧ plan.version member.name = some [] then
    let data ← onWorld (readFile env member.path)
    execute env workspace (.fileHash (msiFileHash lib data) member.name)

def signMember (signIfUnsigned : Callback) (plan : Plan) (cabinet : Cabinet) (changed : Bool)
    (member : CabinetMember) : Rewriting Bool := do
  let signed ← sign env workspace signIfUnsigned (.cabinet cabinet.name) member.path
    (ascii "CAB " ++ cabinet.name ++ ascii "/" ++ member.name)
  if signed then
    updateMember env lib workspace plan member
    return true
  else
    return changed

/-- A changed cabinet is built again and its stream replaced. -/
def rebuildCabinet (cabinet : Cabinet) : Rewriting Unit := do
  let output := cabinet.path.append (ascii ".rebuilt")
  onWorld (createCabinet env lib output cabinet.members)
  onWorld (preserveCabinetMetadata env output cabinet.members)
  let data ← onWorld (readFile env output)
  execute env workspace (.stream data cabinet.name)

def signCabinet (signIfUnsigned : Callback) (plan : Plan) (_ : Unit) (cabinet : Cabinet) :
    Rewriting Unit := do
  let changed ← foldItems (signMember env lib workspace signIfUnsigned plan cabinet) false
    cabinet.members
  if changed then
    rebuildCabinet env lib workspace cabinet

def signBinary (signIfUnsigned : Callback) (_ : Unit) (binary : Bytes × Path) :
    Rewriting Unit := do
  let signed ← sign env workspace signIfUnsigned (.binary binary.1) binary.2
    (ascii "Binary/" ++ binary.1)
  if signed then
    let data ← onWorld (readFile env binary.2)
    execute env workspace (.binary data binary.1)

def signPayloads (signIfUnsigned : Callback) (plan : Plan) : Rewriting Unit := do
  foldItems (signCabinet env lib workspace signIfUnsigned plan) () plan.cabinets
  foldItems (signBinary env workspace signIfUnsigned) () plan.binaries

/-! ## Commit -/

/-- `renew_package_code`. -/
def renewPackageCode : Rewriting Unit := do
  onWorld (attempt env)
  change fun s => { s with db := { s.db with packageCode := lib.packageCode s.world.clock } }
  note workspace .renewed

/-- `commit`: the edits become visible in the file, all at once. -/
def commitFile (path : Path) (data : Bytes) : Prog Unit := do
  attempt env
  change fun w => w.set path (some data)

def commit (staged : Path) : Rewriting Unit := do
  let s ← current
  onWorld (commitFile env staged (lib.storeMsi s.db))
  note workspace .committed

structure MsiRewriteResult where
  signedFiles : Nat
  preservedFiles : Nat
  deriving DecidableEq, Repr

def finish (staged : Path) : Rewriting MsiRewriteResult := do
  let s ← current
  if s.signedFiles ≠ 0 then
    renewPackageCode env lib workspace
    commit env lib workspace staged
  return ⟨s.signedFiles, s.preservedFiles⟩

/-- `MsiDatabase db(staged_msi)`. -/
def openDatabase (staged : Path) : Rewriting Unit := do
  let file ← onWorld (readFile env staged)
  let db ← lift (liftLibrary (lib.openMsi file))
  change fun s => { s with db }

def rewriteIn (staged : Path) (signIfUnsigned : Callback) : Rewriting MsiRewriteResult := do
  openDatabase env lib staged
  let plan ← preflight env lib workspace
  signPayloads env lib workspace signIfUnsigned plan
  finish env lib workspace staged

end Steps

def rewriteMsiPayload (env : Env) (lib : MsiLibrary) (staged : Path) (signIfUnsigned : Callback) :
    Rewriting MsiRewriteResult := do
  onWorld (attempt env)
  let s ← current
  onWorld (change World.makeDir)
  (rewriteIn env lib s.world.nextDir staged signIfUnsigned).cleanly fun s' =>
    { s' with world := s'.world.endDir env s.world.nextDir }

end AasSign
