import AasSign.Msi.CabinetFormat

/-! # Cabinets that are accepted

`inspect_cabinet` returns on the cabinets of the format, and on no others. The
layout of an accepted cabinet is sound: its parts do not overlap, its members lie
in their folders. One guard is too weak: the folder numbers that mark a member
continued in another cabinet are kept out by the count of folders alone, and two
of them are below the largest count.
-/

namespace AasSign

open Foundation

/-- A cabinet, taken apart. -/
structure CabinetFormat (file : Bytes) (workspace count : Nat) where
  header : CabinetHeader
  folders : List CabinetFolder
  /-- The end of the folder table. -/
  front : Nat
  placements : List Placement
  /-- The end of the file table. -/
  finish : Nat
  headerSays : header.Says file
  folderTable : FolderTable file header header.pos folders front
  folderCount : folders.length = header.folders
  tableStart : front ≤ header.table ∧ header.table ≤ file.length
  memberTable : MemberTable file folders workspace count header.table placements finish
  memberCount : placements.length = header.files
  dataStart : ∀ folder ∈ folders, finish ≤ folder.start
  foldersApart : (folders.map CabinetFolder.extent).Pairwise Apart
  membersApart : placements.Pairwise fun a b => a.folder = b.folder → Apart a.range b.range

/-- What is left in the arguments of `inspect_cabinet`. -/
def CabinetFormat.inspected {file : Bytes} {workspace count : Nat}
    (format : CabinetFormat file workspace count) (total : Nat) : Inspected where
  members := format.placements.map Placement.member
  total := total + expandedBytes format.folders
  count := count + format.placements.length

section Walks

variable {file : Bytes} {header : CabinetHeader} {folders : List CabinetFolder}
  {placements : List Placement} {workspace count start pos cursor : Nat}

theorem DataBlocks.bounds {dataReserve : Nat} {blocks : List DataBlock}
    (h : DataBlocks file dataReserve start blocks pos) (hstart : start ≤ file.length) :
    start ≤ pos ∧ pos ≤ file.length :=
  h.invariant (I := fun _ pos => start ≤ pos ∧ pos ≤ file.length) ⟨le_rfl, hstart⟩ (by
    rintro _ pos block _ ⟨hle, -⟩ ⟨hblock, rfl⟩
    exact ⟨hle.trans (Nat.le_add_right _ _), hblock.inside⟩)

theorem DataBlocks.sizes {dataReserve : Nat} {blocks : List DataBlock}
    (h : DataBlocks file dataReserve start blocks pos) :
    ∀ block ∈ blocks, 1 ≤ block.unpacked ∧ block.unpacked ≤ 32768 :=
  h.invariant (I := fun blocks _ => ∀ block ∈ blocks, 1 ≤ block.unpacked ∧ block.unpacked ≤ 32768)
    (by simp) (by
      rintro blocks _ block _ hblocks ⟨hblock, -⟩
      simp only [List.mem_append, List.mem_singleton]
      rintro other (hother | rfl)
      · exact hblocks other hother
      · exact ⟨Nat.pos_of_ne_zero hblock.notSpanning, hblock.small⟩)

theorem FolderTable.end_eq (h : FolderTable file header start folders pos) :
    pos = start + folders.length * (8 + header.folderReserve) :=
  h.invariant (I := fun folders pos =>
    pos = start + folders.length * (8 + header.folderReserve)) (by simp) (by
      rintro folders _ folder _ rfl ⟨-, -, rfl⟩
      rw [List.length_append, List.length_singleton, Nat.add_mul]
      omega)

theorem FolderTable.at_of_mem (h : FolderTable file header start folders pos) :
    ∀ folder ∈ folders, ∃ pos, folder.At file header.dataReserve pos :=
  h.invariant (I := fun folders _ =>
    ∀ folder ∈ folders, ∃ pos, folder.At file header.dataReserve pos) (by simp) (by
      rintro folders _ folder _ hfolders ⟨hfolder, -, -⟩
      simp only [List.mem_append, List.mem_singleton]
      rintro other (hother | rfl)
      · exact hfolders other hother
      · exact ⟨_, hfolder⟩)

theorem FolderTable.expanded_le (h : FolderTable file header start folders pos) :
    expandedBytes folders ≤ expansionLimit :=
  h.invariant (I := fun folders _ => expandedBytes folders ≤ expansionLimit) (Nat.zero_le _)
    fun _ _ _ _ _ hstep => hstep.2.1

theorem CabinetFolder.At.extent_le {folder : CabinetFolder} {dataReserve : Nat}
    (h : folder.At file dataReserve pos) :
    folder.start ≤ folder.finish ∧ folder.finish ≤ file.length := by
  obtain ⟨blocks, hblocks, -⟩ := h.blocks
  exact hblocks.bounds h.inside

/-- What the file table says of a member. -/
structure Placement.Sound (placement : Placement) (folders : List CabinetFolder) : Prop where
  inside : ∃ folder, folders[placement.folder]? = some folder ∧
    placement.range.2 ≤ folder.expanded
  safe : safeName placement.member.name
  short : placement.member.name.length ≤ 255

theorem MemberTable.sound
    (h : MemberTable file folders workspace count start placements cursor) :
    (∀ placement ∈ placements, placement.Sound folders) ∧
      (placements.map (CabinetMember.name ∘ Placement.member)).Nodup ∧
      FileTable file start (placements.map (CabinetMember.entry ∘ Placement.member)) cursor :=
  h.invariant (I := fun placements cursor =>
    (∀ placement ∈ placements, placement.Sound folders) ∧
      (placements.map (CabinetMember.name ∘ Placement.member)).Nodup ∧
      FileTable file start (placements.map (CabinetMember.entry ∘ Placement.member)) cursor)
    ⟨by simp, List.nodup_nil, .nil⟩ (by
      rintro placements cursor placement next ⟨hsound, hnames, htable⟩ ⟨hat, hfresh, -⟩
      refine ⟨?_, ?_, ?_⟩
      · simp only [List.mem_append, List.mem_singleton]
        rintro other (hother | rfl)
        · exact hsound other hother
        · exact ⟨hat.inside, hat.safe, hat.short⟩
      · rw [List.map_append, List.map_singleton, ← List.concat_eq_append]
        exact hnames.concat hfresh
      · rw [List.map_append, List.map_singleton]
        exact htable.snoc hat.record)

/-- Each placement, with the part of the table before it. -/
theorem MemberTable.split (h : MemberTable file folders workspace count start placements cursor)
    {before after : List Placement} {placement : Placement}
    (hsplit : placements = before ++ placement :: after) :
    ∃ pos next, FileTable file start (before.map (CabinetMember.entry ∘ Placement.member)) pos ∧
      placement.At file folders pos next := by
  induction h generalizing before after placement with
  | nil => simp at hsplit
  | snoc hbefore hnext ih =>
      rcases List.eq_nil_or_concat after with rfl | ⟨after, last, rfl⟩
      · obtain ⟨rfl, heq⟩ := List.append_inj' hsplit rfl
        obtain rfl := (List.cons.inj heq).1
        exact ⟨_, _, (MemberTable.sound hbefore).2.2, hnext.1⟩
      · rw [List.concat_eq_append, ← List.cons_append, ← List.append_assoc] at hsplit
        exact ih (List.append_inj' hsplit rfl).1

end Walks

/-! ## Acceptance -/

section Accept

variable {path : Path} {cabinet file : Bytes} {workspace total count : Nat}

theorem mem_place {folders : List CabinetFolder} {placements : List Placement}
    {folder : CabinetFolder} (h : folder ∈ place folders placements) :
    ∃ (i : Nat) (base : CabinetFolder), folders[i]? = some base ∧
      folder = { base with files := base.files ++ rangesIn placements i } := by
  obtain ⟨i, hi⟩ := List.mem_iff_getElem?.mp h
  rw [getElem?_place] at hi
  obtain ⟨base, hbase, rfl⟩ := Option.map_eq_some_iff.mp hi
  exact ⟨i, base, hbase, rfl⟩

theorem place_mem {folders : List CabinetFolder} {placements : List Placement}
    {base : CabinetFolder} {i : Nat} (h : folders[i]? = some base) :
    ({ base with files := base.files ++ rangesIn placements i } : CabinetFolder) ∈
      place folders placements := by
  apply List.mem_of_getElem? (i := i)
  rw [getElem?_place, h]
  rfl

/-- The final checks pass just when the parts of the cabinet are apart. -/
theorem inspectLayout_place {cursor : Nat} {folders : List CabinetFolder}
    {placements : List Placement} (hfresh : ∀ folder ∈ folders, folder.files = [])
    (hextents : ∀ folder ∈ folders, folder.start ≤ folder.finish)
    (hplaced : ∀ placement ∈ placements, placement.folder < folders.length) :
    inspectLayout cursor (place folders placements) = .ok () ↔
      (∀ folder ∈ folders, cursor ≤ folder.start) ∧
        (folders.map CabinetFolder.extent).Pairwise Apart ∧
        placements.Pairwise fun a b => a.folder = b.folder → Apart a.range b.range := by
  have hmap : (place folders placements).map CabinetFolder.extent =
      folders.map CabinetFolder.extent := by
    apply List.ext_getElem?
    intro i
    simp only [List.getElem?_map, getElem?_place, Option.map_map]
    rfl
  rw [inspectLayout_eq_ok, hmap, ← rangesIn_pairwise]
  · constructor
    · rintro ⟨hall, hapart⟩
      refine ⟨fun folder hfolder => ?_, hapart, fun i => ?_⟩
      · obtain ⟨i, hi⟩ := List.mem_iff_getElem?.mp hfolder
        exact (hall _ (place_mem hi)).1
      · cases hbase : folders[i]? with
        | some base =>
            have hfiles := (hall _ (place_mem hbase)).2
            rwa [hfresh base (List.mem_of_getElem? hbase), List.nil_append] at hfiles
        | none =>
            -- No member is placed in a folder that does not exist.
            have hnone : rangesIn placements i = [] := by
              have hlength := List.getElem?_eq_none_iff.mp hbase
              rw [rangesIn, List.map_eq_nil_iff, List.filter_eq_nil_iff]
              intro placement hplacement
              have hlt := hplaced placement hplacement
              simp only [decide_eq_true_eq]
              omega
            rw [hnone]
            exact .nil
    · rintro ⟨hstart, hapart, hranges⟩
      refine ⟨fun folder hfolder => ?_, hapart⟩
      obtain ⟨i, base, hbase, rfl⟩ := mem_place hfolder
      have hmem := List.mem_of_getElem? hbase
      refine ⟨hstart base hmem, ?_⟩
      rw [hfresh base hmem, List.nil_append]
      exact hranges i
  · intro folder hfolder range hrange
    obtain ⟨i, base, hbase, rfl⟩ := mem_place hfolder
    rw [hfresh base (List.mem_of_getElem? hbase), List.nil_append] at hrange
    obtain ⟨placement, -, rfl⟩ := List.mem_map.mp hrange
    exact Nat.le_add_right _ _
  · intro folder hfolder
    obtain ⟨i, base, hbase, rfl⟩ := mem_place hfolder
    exact hextents base (List.mem_of_getElem? hbase)

/-- `inspect_cabinet` accepts the cabinets of the format, within the budget. -/
theorem inspectCabinet_eq_ok {inspected : Inspected} :
    inspectCabinet path cabinet file workspace total count = .ok inspected ↔
      ∃ format : CabinetFormat file workspace count,
        count + format.placements.length ≤ memberLimit ∧
        total + expandedBytes format.folders ≤ expansionLimit ∧
        inspected = format.inspected total := by
  -- The layout is checked on placed folders; what it says is about the records themselves.
  have hcheck {header : CabinetHeader} {folders : List CabinetFolder} {pos finish : Nat}
      {placements : List Placement} (hfolders : FolderTable file header header.pos folders pos)
      (hplacements : MemberTable file folders workspace count header.table placements finish) :
      inspectLayout finish (place folders placements) = .ok () ↔
        (∀ folder ∈ folders, finish ≤ folder.start) ∧
          (folders.map CabinetFolder.extent).Pairwise Apart ∧
          placements.Pairwise fun a b => a.folder = b.folder → Apart a.range b.range := by
    apply inspectLayout_place
    · intro folder hfolder
      obtain ⟨_, hat⟩ := hfolders.at_of_mem folder hfolder
      exact hat.fresh
    · intro folder hfolder
      obtain ⟨_, hat⟩ := hfolders.at_of_mem folder hfolder
      exact hat.extent_le.1
    · intro placement hplacement
      obtain ⟨⟨folder, hfolder, -⟩, -, -⟩ := hplacements.sound.1 placement hplacement
      exact (List.getElem?_eq_some_iff.mp hfolder).1
  unfold inspectCabinet
  simp only [bind_eq_ok, inspectHeader_eq_ok, inspectFolders_eq_ok, invalidIf_eq_ok, usub_eq_ok,
    not_or, Nat.not_lt]
  constructor
  · rintro ⟨header, hheader, _, ⟨folders, front, hfolderCount, hfolders, rfl⟩, _,
      ⟨htable, htableEnd⟩, room, ⟨hcount, rfl⟩, _, hfiles, found, hfound, room, ⟨htotal, rfl⟩, _,
      hexpanded, _, hlayout, hinspected⟩
    rw [inspectMembers_eq_ok hfolderCount.symm htableEnd] at hfound
    obtain ⟨placements, finish, hmemberCount, hplacements, rfl⟩ := hfound
    obtain ⟨hstart, hfoldersApart, hmembersApart⟩ := (hcheck hfolders hplacements).mp hlayout
    refine ⟨⟨header, folders, front, placements, finish, hheader, hfolders, hfolderCount,
      ⟨htable, htableEnd⟩, hplacements, hmemberCount, hstart, hfoldersApart, hmembersApart⟩, ?_, ?_,
      (Except.ok.inj hinspected).symm⟩
    · change count + placements.length ≤ memberLimit
      omega
    · change total + expandedBytes folders ≤ expansionLimit
      dsimp only at hexpanded
      omega
  · rintro ⟨⟨header, folders, front, placements, finish, hheader, hfolders, hfolderCount, htable,
      hplacements, hmemberCount, hstart, hfoldersApart, hmembersApart⟩, hcount, htotal, rfl⟩
    dsimp only at hcount htotal
    refine ⟨header, hheader, _, ⟨folders, front, hfolderCount, hfolders, rfl⟩, (), htable, _,
      ⟨by omega, rfl⟩, (), by omega, scanned folders count placements finish, ?_, _,
      ⟨by omega, rfl⟩, (), by dsimp only; omega, (),
      (hcheck hfolders hplacements).mpr ⟨hstart, hfoldersApart, hmembersApart⟩, rfl⟩
    exact (inspectMembers_eq_ok hfolderCount.symm htable.2).mpr
      ⟨placements, finish, hmemberCount, hplacements, rfl⟩

end Accept

/-! ## Sound layouts -/

section Sound

variable {path : Path} {cabinet file : Bytes} {workspace total count : Nat} {inspected : Inspected}

/-- The header up to the end of the folder table, the file table, and the folders' data. -/
def CabinetFormat.parts (format : CabinetFormat file workspace count) : List (Nat × Nat) :=
  (0, format.front) :: (format.header.table, format.finish) ::
    format.folders.map CabinetFolder.extent

theorem CabinetFormat.table_le_finish (format : CabinetFormat file workspace count) :
    format.header.table ≤ format.finish :=
  format.memberTable.sound.2.2.le

theorem CabinetFormat.finish_le (format : CabinetFormat file workspace count) :
    format.finish ≤ file.length :=
  format.memberTable.invariant (I := fun _ cursor => cursor ≤ file.length) format.tableStart.2
    fun _ _ _ _ _ hstep => hstep.1.record.bound

theorem CabinetFormat.extent_le (format : CabinetFormat file workspace count) :
    ∀ folder ∈ format.folders, folder.start ≤ folder.finish ∧ folder.finish ≤ file.length := by
  intro folder hfolder
  obtain ⟨_, hat⟩ := format.folderTable.at_of_mem folder hfolder
  exact hat.extent_le

theorem CabinetFormat.parts_inside (format : CabinetFormat file workspace count) :
    ∀ part ∈ format.parts, part.1 ≤ part.2 ∧ part.2 ≤ file.length := by
  have htable := format.tableStart
  simp only [parts, List.forall_mem_cons, List.forall_mem_map]
  exact ⟨⟨Nat.zero_le _, htable.1.trans htable.2⟩, ⟨format.table_le_finish, format.finish_le⟩,
    format.extent_le⟩

theorem CabinetFormat.parts_apart (format : CabinetFormat file workspace count) :
    format.parts.Pairwise Apart := by
  have hfront : format.front ≤ format.header.table := format.tableStart.1
  have hdata : ∀ folder ∈ format.folders, format.finish ≤ folder.start := format.dataStart
  simp only [parts, List.pairwise_cons, List.forall_mem_cons, List.forall_mem_map]
  refine ⟨⟨.inl hfront, fun folder hfolder => .inl ?_⟩, fun folder hfolder =>
    .inl (hdata folder hfolder), format.foldersApart⟩
  exact hfront.trans (format.table_le_finish.trans (hdata folder hfolder))

/-- What an accepted cabinet looks like, and what the caller is told of it. -/
structure SoundLayout (format : CabinetFormat file workspace count) (total : Nat)
    (inspected : Inspected) : Prop where
  header : format.header.Says file
  front : format.front = format.header.pos +
    u16 file 26 * (8 + format.header.folderReserve)
  inside : ∀ part ∈ format.parts, part.1 ≤ part.2 ∧ part.2 ≤ file.length
  apart : format.parts.Pairwise Apart
  blocks : ∀ folder ∈ format.folders, ∃ blocks,
    DataBlocks file format.header.dataReserve folder.start blocks folder.finish ∧
      folder.expanded = unpackedBytes blocks ∧
      ∀ block ∈ blocks, 1 ≤ block.unpacked ∧ block.unpacked ≤ 32768
  placed : ∀ placement ∈ format.placements, placement.Sound format.folders
  membersApart : format.placements.Pairwise fun a b =>
    a.folder = b.folder → Apart a.range b.range
  names : (inspected.members.map CabinetMember.name).Nodup
  members : inspected.members = format.placements.map Placement.member
  listed : FileTable file (u32 file 16) (inspected.members.map CabinetMember.entry) format.finish
  counted : inspected.members.length = u16 file 28
  total : inspected.total = total + expandedBytes format.folders
  count : inspected.count = count + inspected.members.length

theorem CabinetFormat.sound (format : CabinetFormat file workspace count) (total : Nat) :
    SoundLayout format total (format.inspected total) where
  header := format.headerSays
  front := by
    rw [format.folderTable.end_eq, format.folderCount, format.headerSays.folders]
  inside := format.parts_inside
  apart := format.parts_apart
  blocks := by
    intro folder hfolder
    obtain ⟨_, hat⟩ := format.folderTable.at_of_mem folder hfolder
    obtain ⟨blocks, hblocks, -, hexpanded⟩ := hat.blocks
    exact ⟨blocks, hblocks, hexpanded, hblocks.sizes⟩
  placed := format.memberTable.sound.1
  membersApart := format.membersApart
  names := by
    rw [inspected, List.map_map]
    exact format.memberTable.sound.2.1
  members := rfl
  listed := by
    rw [← format.headerSays.table, inspected, List.map_map]
    exact format.memberTable.sound.2.2
  counted := by
    rw [inspected, List.length_map, format.memberCount, format.headerSays.files]
  total := rfl
  count := by
    rw [inspected, List.length_map]

/-- A cabinet that `inspect_cabinet` accepts has a sound layout. -/
theorem inspectCabinet_sound
    (h : inspectCabinet path cabinet file workspace total count = .ok inspected) :
    ∃ format : CabinetFormat file workspace count, SoundLayout format total inspected := by
  obtain ⟨format, -, -, rfl⟩ := inspectCabinet_eq_ok.mp h
  exact ⟨format, format.sound total⟩

/-- One folder of one block, and a member `a` of one octet. -/
def smallCabinet : Bytes :=
  cabinetMagic ++ [0, 0, 0, 0, 71, 0, 0, 0, 0, 0, 0, 0, 44, 0, 0, 0, 0, 0, 0, 0, 3, 1, 1, 0, 1, 0,
    0, 0, 0, 0, 0, 0] ++ [62, 0, 0, 0, 1, 0, 0, 0] ++
    [1, 0, 0, 0, 0, 0, 0, 0, 0, 0, 1, 2, 3, 4, 32, 0, 97, 0] ++ [0, 0, 0, 0, 1, 0, 1, 0, 120]

theorem smallCabinet_accepted : inspectCabinet (.user []) [] smallCabinet 0 0 0 =
    .ok ⟨[⟨[97], payloadPath 0 0, 1, 513, 1027, 32⟩], 1, 1⟩ := by decide +kernel

theorem smallCabinet_sound : ∃ format : CabinetFormat smallCabinet 0 0,
    SoundLayout format 0 ⟨[⟨[97], payloadPath 0 0, 1, 513, 1027, 32⟩], 1, 1⟩ :=
  inspectCabinet_sound smallCabinet_accepted

end Sound

end AasSign
