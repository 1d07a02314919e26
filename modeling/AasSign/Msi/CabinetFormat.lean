import AasSign.Foundation.Ranges
import AasSign.Foundation.Walk
import AasSign.Msi.CabinetLayout

/-! # The cabinet format

The layout of a cabinet that `inspect_cabinet` accepts, as records found at their
places in the file, and for each step of the inspection the record that it reads.
The tables are walks: blocks in a folder, folders behind the header, and file
records that each point into a folder.
-/

namespace AasSign

open Foundation

/-! ## Records -/

/-- The header, with the reserved area that may follow it. -/
structure CabinetHeader.Says (header : CabinetHeader) (file : Bytes) : Prop where
  long : 36 ≤ file.length
  limit : file.length ≤ expansionLimit
  magic : file.take 4 = cabinetMagic
  size : u32 file 8 = file.length
  alone : u16 file 30 &&& 3 = 0
  known : u16 file 30 &&& 0xfff8 = 0
  folders : header.folders = u16 file 26
  files : header.files = u16 file 28
  table : header.table = u32 file 16
  reserve : if u16 file 30 &&& 4 ≠ 0 then 40 ≤ file.length ∧ header.pos = 40 + u16 file 36 ∧
      header.folderReserve = (file.getD 38 0).toNat ∧ header.dataReserve = (file.getD 39 0).toNat
    else header.pos = 36 ∧ header.folderReserve = 0 ∧ header.dataReserve = 0
  inside : header.pos + header.folders * (8 + header.folderReserve) ≤ file.length

/-- A data block: how many octets it takes up and how many it expands to. -/
structure DataBlock where
  packed : Nat
  unpacked : Nat
  deriving DecidableEq, Repr

structure DataBlock.At (block : DataBlock) (file : Bytes) (dataReserve pos : Nat) : Prop where
  packed : block.packed = u16 file (pos + 4)
  unpacked : block.unpacked = u16 file (pos + 6)
  notEmpty : block.packed ≠ 0
  notSpanning : block.unpacked ≠ 0
  small : block.unpacked ≤ 32768
  inside : pos + (8 + dataReserve + block.packed) ≤ file.length

/-- The blocks of a folder, one behind the other. -/
def DataBlocks (file : Bytes) (dataReserve : Nat) : Nat → List DataBlock → Nat → Prop :=
  Walk fun _ pos block next => block.At file dataReserve pos ∧
    next = pos + (8 + dataReserve + block.packed)

def unpackedBytes (blocks : List DataBlock) : Nat := (blocks.map DataBlock.unpacked).sum

/-- The record of a folder, and the blocks it counts. -/
structure CabinetFolder.At (folder : CabinetFolder) (file : Bytes) (dataReserve pos : Nat) :
    Prop where
  record : pos + 8 ≤ file.length
  compression : u16 file (pos + 6) &&& 15 = 0 ∨ u16 file (pos + 6) &&& 15 = 1 ∨
    u16 file (pos + 6) &&& 15 = 3
  start : folder.start = u32 file pos
  inside : folder.start ≤ file.length
  blocks : ∃ blocks, DataBlocks file dataReserve folder.start blocks folder.finish ∧
    blocks.length = u16 file (pos + 4) ∧ folder.expanded = unpackedBytes blocks
  fresh : folder.files = []

def expandedBytes (folders : List CabinetFolder) : Nat :=
  (folders.map CabinetFolder.expanded).sum

/-- The folder table behind the header; the folders fit the limit together. -/
def FolderTable (file : Bytes) (header : CabinetHeader) : Nat → List CabinetFolder → Nat → Prop :=
  Walk fun folders pos folder next => folder.At file header.dataReserve pos ∧
    expandedBytes (folders ++ [folder]) ≤ expansionLimit ∧ next = pos + (8 + header.folderReserve)

/-- A member and where its data lies: in which folder, and from which offset on. -/
structure Placement where
  member : CabinetMember
  folder : Nat
  offset : Nat
  deriving DecidableEq, Repr

def Placement.range (placement : Placement) : Nat × Nat :=
  (placement.offset, placement.offset + placement.member.size)

structure Placement.At (placement : Placement) (file : Bytes) (folders : List CabinetFolder)
    (cursor next : Nat) : Prop where
  record : RecordAt file cursor placement.member.entry next
  folder : placement.folder = u16 file (cursor + 8)
  offset : placement.offset = u32 file (cursor + 4)
  inside : ∃ folder, folders[placement.folder]? = some folder ∧
    placement.range.2 ≤ folder.expanded
  safe : safeName placement.member.name
  short : placement.member.name.length ≤ 255

/-- The file table; names differ, and staging paths are given in order. -/
def MemberTable (file : Bytes) (folders : List CabinetFolder) (workspace count : Nat) :
    Nat → List Placement → Nat → Prop :=
  Walk fun placements cursor placement next => placement.At file folders cursor next ∧
    placement.member.name ∉ placements.map (CabinetMember.name ∘ Placement.member) ∧
    placement.member.path = payloadPath workspace (count + placements.length)

/-- The ranges of the members in a folder. -/
def rangesIn (placements : List Placement) (index : Nat) : List (Nat × Nat) :=
  (placements.filter fun placement => placement.folder = index).map Placement.range

/-! ## Reading -/

section Reading

variable {path : Path} {cabinet file : Bytes} {reason : String} {offset len pos i : Nat}

theorem invalidIf_eq_ok {condition : Prop} [Decidable condition] {u : Unit} :
    invalidIf condition reason = .ok u ↔ ¬ condition := throwIf_eq_ok

theorem readAt_eq_ok_iff (hlen : len ≠ 0) {data : Bytes} :
    readAt path file offset len = .ok data ↔
      offset + len ≤ file.length ∧ data = (file.drop offset).take len := by
  unfold readAt
  split <;> simp_all [eq_comm]

theorem u16_part (h : i + 2 ≤ len) : u16 ((file.drop pos).take len) i = u16 file (pos + i) := by
  apply u16_congr
  intro k hk
  rw [getElem?_take_zero (by omega), List.getElem?_drop, Nat.add_assoc]

theorem u32_part (h : i + 4 ≤ len) : u32 ((file.drop pos).take len) i = u32 file (pos + i) := by
  apply u32_congr
  intro k hk
  rw [getElem?_take_zero (by omega), List.getElem?_drop, Nat.add_assoc]

theorem getD_part (h : i < len) : ((file.drop pos).take len).getD i 0 = file.getD (pos + i) 0 := by
  rw [List.getD_eq_getElem?_getD, List.getD_eq_getElem?_getD, getElem?_take_zero h,
    List.getElem?_drop]

theorem inspectReserve_eq_ok {flags : Nat} {reserve : Nat × Nat × Nat} :
    inspectReserve path file flags = .ok reserve ↔
      if flags &&& 4 ≠ 0 then 40 ≤ file.length ∧ reserve.1 = 40 + u16 file 36 ∧
        reserve.2.1 = (file.getD 38 0).toNat ∧ reserve.2.2 = (file.getD 39 0).toNat
      else reserve.1 = 36 ∧ reserve.2.1 = 0 ∧ reserve.2.2 = 0 := by
  obtain ⟨front, folderReserve, dataReserve⟩ := reserve
  unfold inspectReserve
  split
  · simp only [bind_eq_ok, invalidIf_eq_ok, Nat.not_lt, readAt_eq_ok_iff (show 4 ≠ 0 by decide)]
    constructor
    · rintro ⟨_, hlong, r, ⟨-, rfl⟩, hreserve⟩
      obtain ⟨rfl, rfl, rfl⟩ : 40 + u16 ((file.drop 36).take 4) 0 = front ∧
          (((file.drop 36).take 4).getD 2 0).toNat = folderReserve ∧
          (((file.drop 36).take 4).getD 3 0).toNat = dataReserve := by
        simpa [pure, Except.pure] using hreserve
      exact ⟨hlong, by rw [u16_part (by omega)], by rw [getD_part (by omega)],
        by rw [getD_part (by omega)]⟩
    · rintro ⟨hlong, rfl, rfl, rfl⟩
      refine ⟨(), hlong, _, ⟨hlong, rfl⟩, ?_⟩
      rw [u16_part (by omega), getD_part (by omega), getD_part (by omega)]
      rfl
  · simp only [pure, Except.pure, Except.ok.injEq, Prod.mk.injEq, eq_comm]

theorem inspectHeader_eq_ok {header : CabinetHeader} :
    inspectHeader path cabinet file = .ok header ↔ header.Says file := by
  have hword16 {i : Nat} (h : i + 2 ≤ 36) : u16 ((file.drop 0).take 36) i = u16 file i := by
    rw [u16_part h, Nat.zero_add]
  have hword32 {i : Nat} (h : i + 4 ≤ 36) : u32 ((file.drop 0).take 36) i = u32 file i := by
    rw [u32_part h, Nat.zero_add]
  have hmagic : ((file.drop 0).take 36).take 4 = file.take 4 := by
    rw [List.take_take, List.drop_zero]
    rfl
  unfold inspectHeader
  simp only [bind_eq_ok, invalidIf_eq_ok, readAt_eq_ok_iff (show 36 ≠ 0 by decide),
    inspectReserve_eq_ok, not_or, Nat.not_lt, not_not, ne_eq]
  constructor
  · rintro ⟨_, ⟨hlong, hlimit⟩, h, ⟨-, rfl⟩, _, ⟨hmagic', hsize⟩, _, halone, _, hknown, reserve,
      hreserve, _, hinside, hheader⟩
    cases hheader
    rw [hmagic] at hmagic'
    rw [hword32 (by omega)] at hsize
    rw [hword16 (by omega)] at halone hknown hreserve hinside
    exact ⟨hlong, hlimit, hmagic', hsize, halone, hknown, hword16 (by omega), hword16 (by omega),
      hword32 (by omega), hreserve, by rwa [hword16 (by omega)]⟩
  · rintro ⟨hlong, hlimit, hmagic', hsize, halone, hknown, hfolders, hfiles, htable, hreserve,
      hinside⟩
    refine ⟨(), ⟨hlong, hlimit⟩, _, ⟨hlong, rfl⟩, (), ⟨hmagic.trans hmagic', ?_⟩, (), ?_, (), ?_,
      (header.pos, header.folderReserve, header.dataReserve), ?_, (), ?_, ?_⟩
    · rw [hword32 (by omega), hsize]
    · rw [hword16 (by omega), halone]
    · rw [hword16 (by omega), hknown]
    · rwa [hword16 (by omega)]
    · rwa [hword16 (by omega), ← hfolders]
    · rw [hword16 (by omega), hword16 (by omega), hword32 (by omega), ← hfolders, ← hfiles,
        ← htable]
      rfl

/-! ## Blocks and folders -/

theorem inspectBlock_eq_ok {dataReserve : Nat} {folder folder' : CabinetFolder} :
    inspectBlock path file dataReserve folder = .ok folder' ↔
      ∃ block : DataBlock, block.At file dataReserve folder.finish ∧
        folder' = { folder with
          finish := folder.finish + (8 + dataReserve + block.packed)
          expanded := folder.expanded + block.unpacked } := by
  unfold inspectBlock
  simp only [bind_eq_ok, usub_eq_ok, invalidIf_eq_ok, readAt_eq_ok_iff (show 8 ≠ 0 by decide),
    not_or, Nat.not_lt]
  constructor
  · rintro ⟨left, ⟨hle, rfl⟩, _, hroom, data, ⟨-, rfl⟩, _, ⟨hspanning, hsmall, hempty⟩, _, hfits,
      hfolder⟩
    rw [u16_part (by omega)] at hspanning hsmall hempty hfits
    refine ⟨⟨u16 file (folder.finish + 4), u16 file (folder.finish + 6)⟩,
      ⟨rfl, rfl, hempty, hspanning, hsmall, ?_⟩, ?_⟩
    · change folder.finish + (8 + dataReserve + u16 file (folder.finish + 4)) ≤ file.length
      omega
    rw [u16_part (by omega), u16_part (by omega)] at hfolder
    exact (Except.ok.inj hfolder).symm
  · rintro ⟨⟨packed, unpacked⟩, ⟨hpacked, hunpacked, hempty, hspanning, hsmall, hinside⟩, rfl⟩
    dsimp only at hpacked hunpacked hempty hspanning hsmall hinside ⊢
    refine ⟨_, ⟨by omega, rfl⟩, (), by omega, _, ⟨by omega, rfl⟩, (), ?_, (), ?_, ?_⟩
    · rw [u16_part (by omega), u16_part (by omega), ← hpacked, ← hunpacked]
      exact ⟨hspanning, hsmall, hempty⟩
    · rw [u16_part (by omega), ← hpacked]
      omega
    · rw [u16_part (by omega), u16_part (by omega), ← hpacked, ← hunpacked]
      rfl

/-- The loop over the blocks of a folder. -/
theorem inspectBlocks_eq_ok {dataReserve start n : Nat} {folder : CabinetFolder} :
    (List.range n).foldlM (fun folder _ => inspectBlock path file dataReserve folder)
        { start, finish := start, expanded := 0, files := [] } = .ok folder ↔
      ∃ blocks finish, blocks.length = n ∧ DataBlocks file dataReserve start blocks finish ∧
        folder = { start, finish, expanded := unpackedBytes blocks, files := [] } := by
  apply foldlM_range_eq_ok (g := fun blocks finish =>
    ({ start, finish, expanded := unpackedBytes blocks, files := [] } : CabinetFolder))
  intro blocks finish folder _
  rw [inspectBlock_eq_ok]
  constructor
  · rintro ⟨block, hblock, rfl⟩
    exact ⟨block, _, ⟨hblock, rfl⟩, by simp [unpackedBytes]⟩
  · rintro ⟨block, _, ⟨hblock, rfl⟩, rfl⟩
    exact ⟨block, hblock, by simp [unpackedBytes]⟩

theorem inspectFolder_eq_ok {header : CabinetHeader} {folders : List CabinetFolder}
    {scan : FolderScan} (hlimit : expandedBytes folders ≤ expansionLimit) :
    inspectFolder path cabinet file header ⟨folders, expandedBytes folders, pos⟩ = .ok scan ↔
      ∃ folder : CabinetFolder, folder.At file header.dataReserve pos ∧
        expandedBytes (folders ++ [folder]) ≤ expansionLimit ∧
        scan = ⟨folders ++ [folder], expandedBytes (folders ++ [folder]),
          pos + (8 + header.folderReserve)⟩ := by
  have hexpanded (folder : CabinetFolder) : expandedBytes (folders ++ [folder]) =
      expandedBytes folders + folder.expanded := by
    simp [expandedBytes]
  unfold inspectFolder
  simp only [bind_eq_ok, usub_eq_ok, invalidIf_eq_ok, readAt_eq_ok_iff (show 8 ≠ 0 by decide),
    Nat.not_lt, inspectBlocks_eq_ok]
  constructor
  · rintro ⟨f, ⟨hrecord, rfl⟩, _, hcompression, _, hstart, folder, hblocks, room, ⟨-, rfl⟩, _,
      hroom, hscan⟩
    rw [u16_part (by omega)] at hcompression
    rw [u32_part (by omega), Nat.add_zero] at hstart
    rw [u32_part (by omega), u16_part (by omega), Nat.add_zero] at hblocks
    obtain ⟨blocks, finish, hlength, hwalk, rfl⟩ := hblocks
    refine ⟨⟨u32 file pos, finish, unpackedBytes blocks, []⟩,
      ⟨hrecord, by omega, rfl, hstart, ⟨blocks, hwalk, hlength, rfl⟩, rfl⟩, ?_, ?_⟩
    · rw [hexpanded]
      change expandedBytes folders + unpackedBytes blocks ≤ _
      dsimp only at hroom
      omega
    · rw [hexpanded]
      exact (Except.ok.inj hscan).symm
  · rintro ⟨folder, ⟨hrecord, hcompression, hstart, hinside, ⟨blocks, hwalk, hlength, hsum⟩,
      hfresh⟩, hsmall, rfl⟩
    obtain ⟨start, finish, expanded, files⟩ := folder
    dsimp only at hstart hinside hwalk hsum hfresh
    rw [hexpanded] at hsmall
    dsimp only at hsmall
    refine ⟨_, ⟨hrecord, rfl⟩, (), ?_, (), ?_, ⟨start, finish, expanded, files⟩, ?_, _,
      ⟨hlimit, rfl⟩, (), by dsimp only; omega, ?_⟩
    · rw [u16_part (by omega)]
      omega
    · rw [u32_part (by omega), Nat.add_zero, ← hstart]
      exact hinside
    · have hfirst : u32 ((file.drop pos).take 8) 0 = start := by
        rw [u32_part (by omega), Nat.add_zero, hstart]
      rw [hfirst, u16_part (by omega), hsum, hfresh]
      exact ⟨blocks, finish, hlength, hwalk, rfl⟩
    · rw [hexpanded]
      rfl

/-- The loop over the folder table. -/
theorem inspectFolders_eq_ok {header : CabinetHeader} {n : Nat} {scan : FolderScan} :
    (List.range n).foldlM (fun scan _ => inspectFolder path cabinet file header scan)
        ⟨[], 0, header.pos⟩ = .ok scan ↔
      ∃ folders pos, folders.length = n ∧ FolderTable file header header.pos folders pos ∧
        scan = ⟨folders, expandedBytes folders, pos⟩ := by
  apply foldlM_range_eq_ok (g := fun folders pos =>
    (⟨folders, expandedBytes folders, pos⟩ : FolderScan))
  intro folders pos scan hwalk
  have hlimit : expandedBytes folders ≤ expansionLimit :=
    hwalk.invariant (I := fun folders _ => expandedBytes folders ≤ expansionLimit)
      (Nat.zero_le _) fun _ _ _ _ _ hstep => hstep.2.1
  rw [inspectFolder_eq_ok hlimit]
  constructor
  · rintro ⟨folder, hfolder, hsmall, rfl⟩
    exact ⟨folder, _, ⟨hfolder, hsmall, rfl⟩, rfl⟩
  · rintro ⟨folder, _, ⟨hfolder, hsmall, rfl⟩, rfl⟩
    exact ⟨folder, hfolder, hsmall, rfl⟩

/-! ## Names and members -/

/-- One pass of the loop of `readName`. -/
def namePass (path : Path) (file : Bytes) (reason : String) :
    Bytes × Nat → Except Exn (Pass (Bytes × Nat) (Bytes × Nat)) := fun (name, cursor) => do
  invalidIf (file.length ≤ cursor ∨ 255 < name.length) reason
  let ch ← readAt path file cursor 1
  if ch = [0] then
    return .leave (name, cursor + 1)
  else
    return .again (name ++ ch, cursor + 1)

/-- A name that ends in the file and is short enough is read. -/
theorem readName_of_occurs {cursor : Nat} {name : Bytes}
    (h : OccursAt (name ++ [0]) file cursor) (hzero : 0 ∉ name) (hshort : name.length ≤ 255) :
    readName path file reason cursor = .ok (name, cursor + name.length + 1) := by
  suffices hloop : ∀ rest done fuel, name = done ++ rest → rest.length < fuel →
      loop (namePass path file reason) (.fault .diverges) fuel (done, cursor + done.length) =
        .ok (name, cursor + name.length + 1) by
    exact hloop name [] 257 rfl (by omega)
  have hbound := h.bound
  rw [List.length_append, List.length_singleton] at hbound
  intro rest
  -- Each pass reads the next octet of the name, the last one the zero behind it.
  induction rest with
  | nil =>
      intro done fuel hname hfuel
      rw [List.append_nil] at hname
      subst hname
      have hread : readAt path file (cursor + name.length) 1 = .ok [0] := by
        rw [readAt_of_bound (by omega)]
        exact congrArg Except.ok h.right.eq_take_drop.symm
      obtain ⟨fuel, rfl⟩ := Nat.exists_eq_succ_of_ne_zero (Nat.ne_of_gt hfuel)
      apply loop_leave
      dsimp only [namePass]
      rw [invalidIf, throwIf_of_not (by omega), ok_bind, hread]
      rfl
  | cons ch rest ih =>
      intro done fuel hname hfuel
      have hlength := congrArg List.length hname
      simp only [List.length_append, List.length_cons] at hlength
      have hread : readAt path file (cursor + done.length) 1 = .ok [ch] := by
        rw [readAt_of_bound (by omega)]
        have hch : OccursAt (done ++ ([ch] ++ (rest ++ [0]))) file cursor := by
          rw [hname] at h
          simpa using h
        exact congrArg Except.ok hch.right.left.eq_take_drop.symm
      have hch : ch ≠ 0 := by
        rintro rfl
        exact hzero (by simp [hname])
      obtain ⟨fuel, rfl⟩ := Nat.exists_eq_succ_of_ne_zero (Nat.ne_of_gt (Nat.zero_lt_of_lt hfuel))
      have hpass := ih (done ++ [ch]) fuel (by simpa using hname)
        (by simp only [List.length_cons] at hfuel; omega)
      rw [List.length_append, List.length_singleton] at hpass
      rw [← hpass]
      apply loop_again
      dsimp only [namePass]
      rw [invalidIf, throwIf_of_not (by omega), ok_bind, hread, ok_bind, if_neg (by simpa using hch)]
      rfl

theorem readName_eq_ok {cursor : Nat} {name : Bytes} {next : Nat} (hcursor : cursor ≤ file.length) :
    readName path file reason cursor = .ok (name, next) ↔
      OccursAt (name ++ [0]) file cursor ∧ 0 ∉ name ∧ name.length ≤ 255 ∧
        next = cursor + name.length + 1 := by
  constructor
  · exact fun h => (readName_safe hcursor).of_ok h
  · rintro ⟨hoccurs, hzero, hshort, rfl⟩
    exact readName_of_occurs hoccurs hzero hshort

/-- The folders with the ranges of the members put into them. -/
def place (folders : List CabinetFolder) (placements : List Placement) : List CabinetFolder :=
  folders.mapIdx fun i folder => { folder with files := folder.files ++ rangesIn placements i }

theorem rangesIn_snoc {placements : List Placement} {placement : Placement} {i : Nat} :
    rangesIn (placements ++ [placement]) i =
      rangesIn placements i ++ if placement.folder = i then [placement.range] else [] := by
  by_cases hfolder : placement.folder = i <;> simp [rangesIn, List.filter_append, hfolder]

theorem getElem?_place {folders : List CabinetFolder} {placements : List Placement} {i : Nat} :
    (place folders placements)[i]? = folders[i]?.map fun folder =>
      { folder with files := folder.files ++ rangesIn placements i } := by
  simp [place]

/-- Placing one more member changes the folder that it is in. -/
theorem place_snoc {folders : List CabinetFolder} {placements : List Placement}
    {placement : Placement} {folder : CabinetFolder}
    (hfolder : (place folders placements)[placement.folder]? = some folder) :
    place folders (placements ++ [placement]) = (place folders placements).set placement.folder
      { folder with files := folder.files ++ [placement.range] } := by
  apply List.ext_getElem?
  intro i
  rw [List.getElem?_set]
  split
  next hi =>
    subst hi
    rw [getElem?_place] at hfolder ⊢
    obtain ⟨base, hbase, rfl⟩ := Option.map_eq_some_iff.mp hfolder
    have hlength : placement.folder < (place folders placements).length := by
      rw [place, List.length_mapIdx]
      exact (List.getElem?_eq_some_iff.mp hbase).1
    simp [hbase, rangesIn_snoc, hlength]
  next hi =>
    rw [getElem?_place, getElem?_place]
    simp [rangesIn_snoc, hi]

theorem place_nil {folders : List CabinetFolder} : place folders [] = folders := by
  apply List.ext_getElem?
  intro i
  rw [getElem?_place]
  simp [rangesIn]

/-- What the member loop has read after some records. -/
def scanned (folders : List CabinetFolder) (count : Nat) (placements : List Placement)
    (cursor : Nat) : MemberScan where
  folders := place folders placements
  members := placements.map Placement.member
  count := count + placements.length
  cursor

theorem inspectMember_eq_ok {workspace count cursor : Nat} {header : CabinetHeader}
    {folders : List CabinetFolder} {placements : List Placement} {scan : MemberScan}
    (hfolders : header.folders = folders.length) (hcursor : cursor ≤ file.length) :
    inspectMember path file workspace header (scanned folders count placements cursor) =
        .ok scan ↔
      ∃ (placement : Placement) (next : Nat), placement.At file folders cursor next ∧
        placement.member.name ∉ placements.map (CabinetMember.name ∘ Placement.member) ∧
        placement.member.path = payloadPath workspace (count + placements.length) ∧
        scan = scanned folders count (placements ++ [placement]) next := by
  have hword16 {i : Nat} (h : i + 2 ≤ 16) :
      u16 ((file.drop cursor).take 16) i = u16 file (cursor + i) := u16_part h
  have hword32 {i : Nat} (h : i + 4 ≤ 16) :
      u32 ((file.drop cursor).take 16) i = u32 file (cursor + i) := u32_part h
  unfold inspectMember scanned
  simp only [bind_eq_ok, usub_eq_ok, invalidIf_eq_ok, readAt_eq_ok_iff (show 16 ≠ 0 by decide),
    Nat.not_lt, Nat.not_le]
  constructor
  · rintro ⟨left, ⟨-, rfl⟩, _, hroom, f, ⟨hrecord, rfl⟩, _, hindex, hrest⟩
    cases hfolder : (place folders placements)[u16 ((file.drop cursor).take 16) 8]? with
    | none =>
        rw [hfolder] at hrest
        cases hrest
    | some folder =>
        rw [hfolder] at hrest
        simp only [bind_eq_ok, usub_eq_ok, invalidIf_eq_ok, Nat.not_lt, not_or, not_not] at hrest
        obtain ⟨_, hoffset, room, ⟨-, rfl⟩, _, hsize, ⟨name, next⟩, hname, _, ⟨hsafe, hfresh⟩,
          hscan⟩ := hrest
        rw [readName_eq_ok (by omega)] at hname
        obtain ⟨hoccurs, hzero, hshort, rfl⟩ := hname
        -- The record is the fixed part with the name behind it, as one piece of the file.
        have hfixed : ((file.drop cursor).take 16).length = 16 := by
          rw [List.length_take, List.length_drop]
          omega
        have hfile : OccursAt ((file.drop cursor).take 16 ++ (name ++ [0])) file cursor := by
          refine OccursAt.append (OccursAt.of_bound (by omega)) ?_
          rwa [hfixed]
        obtain ⟨base, hbase, hplaced⟩ := Option.map_eq_some_iff.mp (getElem?_place.symm.trans hfolder)
        have hexpanded : base.expanded = folder.expanded := by rw [← hplaced]
        rw [hword16 (by omega)] at hbase
        refine ⟨⟨⟨name, payloadPath workspace (count + placements.length),
          u32 ((file.drop cursor).take 16) 0, u16 ((file.drop cursor).take 16) 10,
          u16 ((file.drop cursor).take 16) 12, u16 ((file.drop cursor).take 16) 14⟩,
          u16 file (cursor + 8), u32 file (cursor + 4)⟩, cursor + 16 + name.length + 1,
          ⟨⟨_, hfixed, hfile, hzero, rfl, rfl, rfl, rfl, ?_⟩, rfl, rfl, ⟨base, hbase, ?_⟩, hsafe,
            hshort⟩, by simpa using hfresh, rfl, ?_⟩
        · change _ = cursor + 17 + name.length
          omega
        · change u32 file (cursor + 4) + u32 ((file.drop cursor).take 16) 0 ≤ base.expanded
          rw [hword32 (i := 4) (by omega)] at hoffset hsize
          omega
        · rw [place_snoc (by rw [hword16 (by omega)] at hfolder; exact hfolder)]
          rw [hword16 (by omega), hword32 (i := 4) (by omega)] at hscan
          rw [← Except.ok.inj hscan]
          simp [Placement.range, Nat.add_assoc]
  · rintro ⟨⟨⟨name, path', size, date, time, attributes⟩, index, offset⟩, next, ⟨hrecord, hindex,
      hoffset, ⟨folder, hfolder, hinside⟩, hsafe, hshort⟩, hfresh, hpath, rfl⟩
    have hbound := hrecord.bound
    obtain ⟨fixed, hfixed, hoccurs, hzero, hsize, hdate, htime, hattributes, hnext⟩ := hrecord
    dsimp only at hindex hoffset hfolder hinside hsafe hshort hpath
    dsimp only [CabinetMember.entry] at hoccurs hzero hsize hdate htime hattributes hnext
    obtain rfl : (file.drop cursor).take 16 = fixed := by
      rw [← hfixed]
      exact hoccurs.left.eq_take_drop.symm
    -- Placing members fills in the ranges of a folder and leaves its size.
    have hplaced : (place folders placements)[index]? = some
        { folder with files := folder.files ++ rangesIn placements index } := by
      rw [getElem?_place, hfolder]
      rfl
    have hname : readName path file "invalid cabinet member name" (cursor + 16) =
        .ok (name, cursor + 16 + name.length + 1) := by
      have hright := hoccurs.right
      rw [hfixed] at hright
      exact readName_of_occurs hright hzero hshort
    have hlength : index < folders.length := (List.getElem?_eq_some_iff.mp hfolder).1
    change offset + size ≤ folder.expanded at hinside
    refine ⟨_, ⟨hcursor, rfl⟩, (), by omega, _, ⟨by omega, rfl⟩, (), ?_, ?_⟩
    · rw [hword16 (by omega), ← hindex, hfolders]
      exact hlength
    · rw [hword16 (i := 8) (by omega), ← hindex, hplaced]
      simp only [bind_eq_ok, usub_eq_ok, invalidIf_eq_ok, Nat.not_lt, not_or, not_not]
      rw [hword32 (i := 4) (by omega), ← hoffset, ← hsize]
      refine ⟨(), by omega, _, ⟨by omega, rfl⟩, (), by omega, _, hname, (), ⟨hsafe, ?_⟩, ?_⟩
      · simpa using hfresh
      · rw [place_snoc hplaced]
        simp only [pure, Except.pure, Except.ok.injEq, MemberScan.mk.injEq, Placement.range, hpath,
          hdate, htime, hattributes, List.map_append, List.map_cons, List.map_nil,
          List.length_append, List.length_singleton, true_and]
        exact ⟨rfl, by omega⟩

/-- The loop over the file table. -/
theorem inspectMembers_eq_ok {workspace count start n : Nat} {header : CabinetHeader}
    {folders : List CabinetFolder} {scan : MemberScan} (hfolders : header.folders = folders.length)
    (hstart : start ≤ file.length) :
    (List.range n).foldlM (fun scan _ => inspectMember path file workspace header scan)
        ⟨folders, [], count, start⟩ = .ok scan ↔
      ∃ placements cursor, placements.length = n ∧
        MemberTable file folders workspace count start placements cursor ∧
        scan = scanned folders count placements cursor := by
  have hnone : scanned folders count [] start = ⟨folders, [], count, start⟩ := by
    simp [scanned, place_nil]
  rw [← hnone]
  apply foldlM_range_eq_ok
  intro placements cursor scan hwalk
  have hcursor : cursor ≤ file.length :=
    hwalk.invariant (I := fun _ cursor => cursor ≤ file.length) hstart
      fun _ _ _ _ _ hstep => hstep.1.record.bound
  rw [inspectMember_eq_ok hfolders hcursor]
  constructor
  · rintro ⟨placement, next, hat, hfresh, hpath, rfl⟩
    exact ⟨placement, next, ⟨hat, hfresh, hpath⟩, rfl⟩
  · rintro ⟨placement, next, ⟨hat, hfresh, hpath⟩, rfl⟩
    exact ⟨placement, next, hat, hfresh, hpath, rfl⟩

/-! ## The layout -/

theorem scanRanges_eq_ok {start : Nat} {ranges : List (Nat × Nat)} :
    (∃ finish, scanRanges reason start ranges = .ok finish) ↔ Behind start ranges := by
  induction ranges generalizing start with
  | nil => exact ⟨fun _ => trivial, fun _ => ⟨start, rfl⟩⟩
  | cons range rest ih =>
      simp only [scanRanges, List.foldlM_cons, bind_eq_ok, invalidIf_eq_ok, Nat.not_lt, Behind]
      constructor
      · rintro ⟨finish, _, ⟨_, hstart, hnext⟩, hrest⟩
        cases hnext
        exact ⟨hstart, ih.mp ⟨finish, hrest⟩⟩
      · rintro ⟨hstart, hrest⟩
        obtain ⟨finish, hscan⟩ := ih.mpr hrest
        exact ⟨finish, range.2, ⟨(), hstart, rfl⟩, hscan⟩

instance : Std.Total rangeLe where
  total a b := by
    unfold rangeLe
    omega

instance : IsTrans (Nat × Nat) rangeLe where
  trans a b c hab hbc := by
    unfold rangeLe at *
    omega

theorem scanRanges_sorted_eq_ok {start : Nat} {ranges : List (Nat × Nat)}
    (hranges : ∀ range ∈ ranges, range.1 ≤ range.2) :
    (∃ finish, scanRanges reason start (ranges.insertionSort rangeLe) = .ok finish) ↔
      (∀ range ∈ ranges, start ≤ range.1) ∧ ranges.Pairwise Apart := by
  rw [scanRanges_eq_ok]
  exact behind_perm_iff (List.perm_insertionSort rangeLe ranges)
    (List.pairwise_insertionSort rangeLe ranges) hranges

/-- The data of a folder in the file. -/
def CabinetFolder.extent (folder : CabinetFolder) : Nat × Nat := (folder.start, folder.finish)

theorem inspectLayout_eq_ok {cursor : Nat} {folders : List CabinetFolder}
    (hfiles : ∀ folder ∈ folders, ∀ range ∈ folder.files, range.1 ≤ range.2)
    (hextents : ∀ folder ∈ folders, folder.start ≤ folder.finish) :
    inspectLayout cursor folders = .ok () ↔
      (∀ folder ∈ folders, cursor ≤ folder.start ∧ folder.files.Pairwise Apart) ∧
        (folders.map CabinetFolder.extent).Pairwise Apart := by
  have hloop (ranges result : List (Nat × Nat)) : folders.foldlM (fun ranges folder => do
        invalidIf (folder.start < cursor) "cabinet data overlaps metadata"
        let _ ← scanRanges "overlapping cabinet members" 0 (folder.files.insertionSort rangeLe)
        return ranges ++ [(folder.start, folder.finish)]) ranges = .ok result ↔
      (∀ folder ∈ folders, cursor ≤ folder.start ∧ folder.files.Pairwise Apart) ∧
        result = ranges ++ folders.map CabinetFolder.extent := by
    clear hextents
    induction folders generalizing ranges with
    | nil => simp [pure, Except.pure, eq_comm]
    | cons folder folders ih =>
        have hscan := @scanRanges_sorted_eq_ok "overlapping cabinet members" 0 _
          (hfiles folder List.mem_cons_self)
        simp only [Nat.zero_le, implies_true, true_and] at hscan
        have hrest := fun ranges => ih (fun folder hfolder =>
          hfiles folder (List.mem_cons_of_mem _ hfolder)) ranges
        simp only [List.foldlM_cons, bind_eq_ok, invalidIf_eq_ok, Nat.not_lt, List.forall_mem_cons,
          List.map_cons]
        constructor
        · rintro ⟨_, ⟨_, hstart, finish, hfinish, hnext⟩, hdone⟩
          cases hnext
          obtain ⟨hall, rfl⟩ := (hrest _).mp hdone
          exact ⟨⟨⟨hstart, hscan.mp ⟨finish, hfinish⟩⟩, hall⟩, by simp [CabinetFolder.extent]⟩
        · rintro ⟨⟨⟨hstart, hapart⟩, hall⟩, rfl⟩
          obtain ⟨finish, hfinish⟩ := hscan.mpr hapart
          exact ⟨_, ⟨(), hstart, finish, hfinish, rfl⟩, (hrest _).mpr
            ⟨hall, by simp [CabinetFolder.extent]⟩⟩
  have hfinal := @scanRanges_sorted_eq_ok "overlapping cabinet folders" cursor
    (folders.map CabinetFolder.extent) (List.forall_mem_map.mpr hextents)
  unfold inspectLayout
  simp only [bind_eq_ok, hloop, List.nil_append]
  constructor
  · rintro ⟨_, ⟨hall, rfl⟩, finish, hfinish, -⟩
    exact ⟨hall, (hfinal.mp ⟨finish, hfinish⟩).2⟩
  · rintro ⟨hall, hapart⟩
    obtain ⟨finish, hfinish⟩ := hfinal.mpr ⟨List.forall_mem_map.mpr fun folder hfolder =>
      (hall folder hfolder).1, hapart⟩
    exact ⟨_, ⟨hall, rfl⟩, finish, hfinish, rfl⟩

theorem rangesIn_pairwise {placements : List Placement} :
    (∀ i, (rangesIn placements i).Pairwise Apart) ↔
      placements.Pairwise fun a b => a.folder = b.folder → Apart a.range b.range := by
  simp only [rangesIn, List.pairwise_map, List.pairwise_filter, decide_eq_true_eq]
  constructor
  · intro h
    rw [List.pairwise_iff_getElem]
    intro i j hi hj hij hfolder
    exact List.pairwise_iff_getElem.mp (h placements[i].folder) i j hi hj hij rfl hfolder.symm
  · intro h i
    exact h.imp fun hab ha hb => hab (ha.trans hb.symm)

end Reading

end AasSign
