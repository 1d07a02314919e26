import AasSign.Msi.CabinetSoundness
import AasSign.Msi.Metadata

/-! # Members continued in another cabinet

Three folder numbers say that a member continues in the cabinet before, in the
next one, or in both. They are kept out by comparing the number with the count of
folders, which can be as large as the last of the three. The flags of the header and
the sizes of the blocks are checked whatever the count is.
-/

namespace AasSign

open Foundation

/-- The first of the folder numbers that do not name a folder of the cabinet. -/
def continuedFromPrevious : Nat := 0xFFFD

def continuedToNext : Nat := 0xFFFE

def continuedBoth : Nat := 0xFFFF

/-- Behind some records of the file table is one that names a folder. -/
def NamesFolder (file : Bytes) (index : Nat) : Prop :=
  ∃ entries cursor entry next, FileTable file (u32 file 16) entries cursor ∧
    entries.length < u16 file 28 ∧ RecordAt file cursor entry next ∧
    u16 file (cursor + 8) = index

/-! ## The folders that are named -/

section Named

variable {path : Path} {cabinet file : Bytes} {workspace total count start cursor : Nat}
  {inspected : Inspected} {folders : List CabinetFolder} {placements : List Placement}

theorem CabinetFormat.namesFolder_iff (format : CabinetFormat file workspace count) {index : Nat} :
    NamesFolder file index ↔ ∃ placement ∈ format.placements, placement.folder = index := by
  have htable := format.headerSays.table
  have hfiles : format.placements.length = u16 file 28 :=
    format.memberCount.trans format.headerSays.files
  constructor
  · rintro ⟨entries, cursor, entry, next, hentries, hlength, -, hindex⟩
    rw [← hfiles] at hlength
    -- The placement with as many before it is read from the same record.
    have hsplit : format.placements = format.placements.take entries.length ++
        format.placements[entries.length] :: format.placements.drop (entries.length + 1) := by
      rw [← List.drop_eq_getElem_cons hlength, List.take_append_drop]
    obtain ⟨pos, _, hbefore, hat⟩ := format.memberTable.split hsplit
    rw [htable] at hbefore
    obtain ⟨-, rfl⟩ := hbefore.unique hentries (by simpa using Nat.le_of_lt hlength)
    exact ⟨_, List.getElem_mem hlength, hat.folder.trans hindex⟩
  · rintro ⟨placement, hplacement, rfl⟩
    obtain ⟨before, after, hsplit⟩ := List.append_of_mem hplacement
    obtain ⟨pos, next, hbefore, hat⟩ := format.memberTable.split hsplit
    rw [htable] at hbefore
    refine ⟨_, pos, _, next, hbefore, ?_, hat.record, hat.folder.symm⟩
    rw [← hfiles, hsplit]
    simp

theorem CabinetFormat.folder_lt (format : CabinetFormat file workspace count) :
    ∀ placement ∈ format.placements, placement.folder < u16 file 26 := by
  intro placement hplacement
  obtain ⟨folder, hfolder, -⟩ := (format.memberTable.sound.1 placement hplacement).inside
  rw [← format.headerSays.folders, ← format.folderCount]
  exact (List.getElem?_eq_some_iff.mp hfolder).1

/-- The header names no other cabinet, and no block is continued in one. -/
structure CabinetFormat.Unbroken (format : CabinetFormat file workspace count) : Prop where
  previous : u16 file 30 &&& 1 = 0
  next : u16 file 30 &&& 2 = 0
  blocks : ∀ folder ∈ format.folders, ∃ blocks,
    DataBlocks file format.header.dataReserve folder.start blocks folder.finish ∧
      ∀ block ∈ blocks, block.unpacked ≠ 0

/-- Nothing of the cabinet is continued elsewhere. -/
structure CabinetFormat.Whole (format : CabinetFormat file workspace count) : Prop
    extends format.Unbroken where
  members : ∀ placement ∈ format.placements, placement.folder ≠ continuedFromPrevious ∧
    placement.folder ≠ continuedToNext ∧ placement.folder ≠ continuedBoth ∧
    ∃ folder, format.folders[placement.folder]? = some folder ∧
      placement.range.2 ≤ folder.expanded

theorem and_three {flags : Nat} (h : flags &&& 3 = 0) : flags &&& 1 = 0 ∧ flags &&& 2 = 0 := by
  constructor
  · rw [show 1 = 3 &&& 1 from rfl, ← Nat.and_assoc, h, Nat.zero_and]
  · rw [show 2 = 3 &&& 2 from rfl, ← Nat.and_assoc, h, Nat.zero_and]

theorem CabinetFormat.unbroken (format : CabinetFormat file workspace count) :
    format.Unbroken := by
  have hflags := and_three format.headerSays.alone
  refine ⟨hflags.1, hflags.2, fun folder hfolder => ?_⟩
  obtain ⟨_, hat⟩ := format.folderTable.at_of_mem folder hfolder
  obtain ⟨blocks, hblocks, -⟩ := hat.blocks
  exact ⟨blocks, hblocks, fun block hblock => Nat.ne_of_gt (hblocks.sizes block hblock).1⟩

/-- Where the count is small enough, the comparison with it keeps all three numbers out. -/
theorem CabinetFormat.whole_of_few (format : CabinetFormat file workspace count)
    (hfew : u16 file 26 ≤ continuedFromPrevious) : format.Whole := by
  refine ⟨format.unbroken, fun placement hplacement => ?_⟩
  have hlt := format.folder_lt placement hplacement
  unfold continuedFromPrevious continuedToNext continuedBoth at *
  exact ⟨by omega, by omega, by omega, (format.memberTable.sound.1 placement hplacement).inside⟩

/-- Every cabinet that counts so many folders and is accepted is whole. -/
def AllWhole (folders : Nat) : Prop :=
  ∀ (path : Path) (cabinet file : Bytes) (workspace total count : Nat) (inspected : Inspected),
    inspectCabinet path cabinet file workspace total count = .ok inspected →
    u16 file 26 = folders →
    ∃ format : CabinetFormat file workspace count,
      inspected = format.inspected total ∧ format.Whole

theorem allWhole_of_few {folders : Nat} (hfew : folders ≤ continuedFromPrevious) :
    AllWhole folders := by
  rintro path cabinet file workspace total count inspected h rfl
  obtain ⟨format, -, -, hinspected⟩ := inspectCabinet_eq_ok.mp h
  exact ⟨format, hinspected, format.whole_of_few hfew⟩

end Named

/-! ## A member under a reserved number -/

section Reserved

variable {file part : Bytes} {pos i : Nat}

theorem u16_occurs (h : OccursAt part file pos) (hi : i + 2 ≤ part.length) :
    u16 file (pos + i) = u16 part i := by
  apply u16_congr
  intro k hk
  rw [Nat.add_assoc]
  exact h.getElem? (by omega)

theorem u32_occurs (h : OccursAt part file pos) (hi : i + 4 ≤ part.length) :
    u32 file (pos + i) = u32 part i := by
  apply u32_congr
  intro k hk
  rw [Nat.add_assoc]
  exact h.getElem? (by omega)

theorem length_flatten_replicate (n : Nat) : (List.replicate n part).flatten.length =
    n * part.length := by
  simp

/-- The copies of a part follow each other. -/
theorem occursAt_replicate {front back : Bytes} {n : Nat} (hi : i < n) :
    OccursAt part (front ++ ((List.replicate n part).flatten ++ back))
      (front.length + i * part.length) := by
  refine ⟨front ++ (List.replicate i part).flatten,
    (List.replicate (n - i - 1) part).flatten ++ back, ?_, by simp⟩
  have hsplit : List.replicate n part =
      List.replicate i part ++ (part :: List.replicate (n - i - 1) part) := by
    rw [← List.replicate_succ, ← List.replicate_add]
    congr 1
    omega
  rw [hsplit]
  simp only [List.flatten_append, List.flatten_cons, List.append_assoc]

/-- As `octets16`, for a word of 32 bits. -/
def octets32 (value : Nat) : Bytes := octets16 (value % 2 ^ 16) ++ octets16 (value / 2 ^ 16)

theorem u32_of_occursAt {value i : Nat} {p : Bytes} (h : value < 2 ^ 32)
    (hoccurs : OccursAt (octets32 value) p i) : u32 p i = value := by
  obtain ⟨before, after, rfl, hlength⟩ := hoccurs
  have hlow : u16 (before ++ (octets32 value ++ after)) i = value % 2 ^ 16 :=
    u16_of_occursAt (Nat.mod_lt _ (by decide)) ⟨before, octets16 (value / 2 ^ 16) ++ after,
      by simp [octets32], hlength⟩
  have hhigh : u16 (before ++ (octets32 value ++ after)) (i + 2) = value / 2 ^ 16 :=
    u16_of_occursAt (by omega) ⟨before ++ octets16 (value % 2 ^ 16), after,
      by simp [octets32], by simp [octets16, hlength]⟩
  rw [u32_eq, hlow, hhigh]
  omega

/-- The size of the cabinet below; its folders end eighteen octets before. -/
def reservedSize (folders : Nat) : Nat := 36 + folders * 8 + 18

def reservedHeader (folders : Nat) : Bytes :=
  cabinetMagic ++ ([0, 0, 0, 0] ++ (octets32 (reservedSize folders) ++ ([0, 0, 0, 0] ++
    (octets32 (36 + folders * 8) ++ ([0, 0, 0, 0, 3, 1] ++
      (octets16 folders ++ [1, 0, 0, 0, 0, 0, 0, 0]))))))

/-- A folder of no blocks at the end of the file. -/
def emptyFolder (folders : Nat) : Bytes := octets32 (reservedSize folders) ++ [0, 0, 0, 0]

/-- The record of an empty member `a`, continued from the cabinet before. -/
def reservedMember : Bytes := [0, 0, 0, 0, 0, 0, 0, 0, 0xFD, 0xFF, 0, 0, 0, 0, 0, 0, 97, 0]

/-- A cabinet with so many folders and one member, which says that it is continued. -/
def reservedCabinet (folders : Nat) : Bytes :=
  reservedHeader folders ++
    ((List.replicate folders (emptyFolder folders)).flatten ++ reservedMember)

variable {folders : Nat}

theorem reservedHeader_length : (reservedHeader folders).length = 36 := rfl

theorem emptyFolder_length : (emptyFolder folders).length = 8 := rfl

theorem reservedCabinet_length : (reservedCabinet folders).length = reservedSize folders := by
  rw [reservedCabinet, List.length_append, List.length_append, length_flatten_replicate,
    emptyFolder_length, ← Nat.add_assoc]
  rfl

theorem reservedHeader_occurs : OccursAt (reservedHeader folders) (reservedCabinet folders) 0 :=
  ⟨[], _, rfl, rfl⟩

theorem reservedMember_occurs :
    OccursAt reservedMember (reservedCabinet folders) (36 + folders * 8) := by
  refine ⟨reservedHeader folders ++ (List.replicate folders (emptyFolder folders)).flatten, [],
    ?_, ?_⟩
  · rw [List.append_nil, List.append_assoc, reservedCabinet]
  · rw [List.length_append, length_flatten_replicate, emptyFolder_length, reservedHeader_length]

theorem emptyFolder_occurs {i : Nat} (hi : i < folders) :
    OccursAt (emptyFolder folders) (reservedCabinet folders) (36 + i * 8) :=
  occursAt_replicate hi

theorem reservedCabinet_word16 {i : Nat} (hi : i + 2 ≤ 36) :
    u16 (reservedCabinet folders) i = u16 (reservedHeader folders) i := by
  simpa using u16_occurs reservedHeader_occurs hi

theorem reservedCabinet_word32 {i : Nat} (hi : i + 4 ≤ 36) :
    u32 (reservedCabinet folders) i = u32 (reservedHeader folders) i := by
  simpa using u32_occurs reservedHeader_occurs hi

theorem reservedSize_lt (hword : folders < 2 ^ 16) : reservedSize folders < 2 ^ 32 := by
  unfold reservedSize
  omega

theorem reservedHeader_size (hword : folders < 2 ^ 16) :
    u32 (reservedHeader folders) 8 = reservedSize folders :=
  u32_of_occursAt (reservedSize_lt hword)
    ⟨cabinetMagic ++ [0, 0, 0, 0], _, (List.append_assoc _ _ _).symm, rfl⟩

theorem reservedHeader_table (hword : folders < 2 ^ 16) :
    u32 (reservedHeader folders) 16 = 36 + folders * 8 :=
  u32_of_occursAt (by omega)
    ⟨cabinetMagic ++ [0, 0, 0, 0] ++ octets32 (reservedSize folders) ++ [0, 0, 0, 0],
      [0, 0, 0, 0, 3, 1] ++ (octets16 folders ++ [1, 0, 0, 0, 0, 0, 0, 0]),
      by simp only [List.append_assoc, reservedHeader], rfl⟩

theorem reservedHeader_folders (hword : folders < 2 ^ 16) :
    u16 (reservedHeader folders) 26 = folders :=
  u16_of_occursAt hword
    ⟨cabinetMagic ++ [0, 0, 0, 0] ++ octets32 (reservedSize folders) ++ [0, 0, 0, 0] ++
      octets32 (36 + folders * 8) ++ [0, 0, 0, 0, 3, 1], [1, 0, 0, 0, 0, 0, 0, 0],
      by simp only [List.append_assoc, reservedHeader], rfl⟩

theorem reservedHeader_files : u16 (reservedHeader folders) 28 = 1 := by
  simp [u16, reservedHeader, octets32, octets16, cabinetMagic]

theorem reservedHeader_flags : u16 (reservedHeader folders) 30 = 0 := by
  simp [u16, reservedHeader, octets32, octets16, cabinetMagic]

def reservedFolder (folders : Nat) : CabinetFolder :=
  ⟨reservedSize folders, reservedSize folders, 0, []⟩

def reservedPlacement : Placement := ⟨⟨[97], payloadPath 0 0, 0, 0, 0, 0⟩, 0xFFFD, 0⟩

theorem reservedFolder_at (hword : folders < 2 ^ 16) {i : Nat} (hi : i < folders) :
    (reservedFolder folders).At (reservedCabinet folders) 0 (36 + i * 8) := by
  have hoccurs := emptyFolder_occurs hi
  have hcompression : u16 (reservedCabinet folders) (36 + i * 8 + 6) = 0 := by
    rw [u16_occurs hoccurs (by rw [emptyFolder_length])]
    simp [u16, emptyFolder, octets32, octets16]
  have hblocks : u16 (reservedCabinet folders) (36 + i * 8 + 4) = 0 := by
    rw [u16_occurs hoccurs (by rw [emptyFolder_length]; decide)]
    simp [u16, emptyFolder, octets32, octets16]
  have hstart : u32 (reservedCabinet folders) (36 + i * 8 + 0) = reservedSize folders := by
    rw [u32_occurs hoccurs (by rw [emptyFolder_length]; decide)]
    exact u32_of_occursAt (reservedSize_lt hword) ⟨[], _, rfl, rfl⟩
  exact {
    record := hoccurs.bound
    compression := .inl (by rw [hcompression]; rfl)
    start := hstart.symm
    inside := reservedCabinet_length.ge
    blocks := ⟨[], .nil, hblocks.symm, rfl⟩
    fresh := rfl }

theorem expandedBytes_replicate (n : Nat) :
    expandedBytes (List.replicate n (reservedFolder folders)) = 0 := by
  simp [expandedBytes, reservedFolder]

theorem reservedFolders (hword : folders < 2 ^ 16) {header : CabinetHeader}
    (hfolder : header.folderReserve = 0) (hdata : header.dataReserve = 0) {n : Nat}
    (hn : n ≤ folders) : FolderTable (reservedCabinet folders) header 36
      (List.replicate n (reservedFolder folders)) (36 + n * 8) := by
  induction n with
  | zero => exact .nil
  | succ n ih =>
      have hlimit : expandedBytes (List.replicate (n + 1) (reservedFolder folders)) = 0 :=
        expandedBytes_replicate (n + 1)
      rw [List.replicate_succ'] at hlimit ⊢
      refine .snoc (ih (Nat.le_of_lt hn)) ⟨?_, ?_, ?_⟩
      · rw [hdata]
        exact reservedFolder_at hword hn
      · rw [hlimit]
        exact Nat.zero_le _
      · rw [hfolder]
        omega

theorem reservedRecord : RecordAt (reservedCabinet folders) (36 + folders * 8)
    reservedPlacement.member.entry (reservedSize folders) :=
  ⟨reservedMember.take 16, rfl, reservedMember_occurs, by decide, by decide, by decide, by decide,
    by decide, rfl⟩

/-- With enough folders the cabinet is of the format that is accepted. -/
def reservedFormat (hword : folders < 2 ^ 16) (hmany : continuedFromPrevious < folders) :
    CabinetFormat (reservedCabinet folders) 0 0 where
  header := ⟨folders, 1, 36, 0, 0, 36 + folders * 8⟩
  folders := List.replicate folders (reservedFolder folders)
  front := 36 + folders * 8
  placements := [reservedPlacement]
  finish := reservedSize folders
  headerSays := {
    long := by rw [reservedCabinet_length, reservedSize]; omega
    limit := by rw [reservedCabinet_length, reservedSize, expansionLimit]; omega
    magic := rfl
    size := by
      rw [reservedCabinet_word32 (by omega), reservedHeader_size hword, reservedCabinet_length]
    alone := by rw [reservedCabinet_word16 (by omega), reservedHeader_flags]; rfl
    known := by rw [reservedCabinet_word16 (by omega), reservedHeader_flags]; rfl
    folders := by rw [reservedCabinet_word16 (by omega), reservedHeader_folders hword]
    files := by rw [reservedCabinet_word16 (by omega), reservedHeader_files]
    table := by rw [reservedCabinet_word32 (by omega), reservedHeader_table hword]
    reserve := by
      rw [reservedCabinet_word16 (by omega), reservedHeader_flags, if_neg (by decide)]
      exact ⟨rfl, rfl, rfl⟩
    inside := by rw [reservedCabinet_length]; exact Nat.le_add_right _ _ }
  folderTable := reservedFolders hword rfl rfl le_rfl
  folderCount := List.length_replicate
  tableStart := ⟨le_rfl, by rw [reservedCabinet_length]; exact Nat.le_add_right _ _⟩
  memberTable := by
    refine @Walk.snoc _ _ _ _ [] _ _ _ .nil ⟨⟨reservedRecord, ?_, ?_, ?_, by decide +kernel,
      by decide⟩, List.not_mem_nil, rfl⟩
    · exact (u16_occurs (i := 8) reservedMember_occurs (by decide)).symm
    · exact (u32_occurs (i := 4) reservedMember_occurs (by decide)).symm
    · refine ⟨reservedFolder folders, ?_, le_rfl⟩
      exact List.getElem?_replicate.trans (if_pos hmany)
  memberCount := rfl
  dataStart := by
    intro folder hfolder
    rw [List.eq_of_mem_replicate hfolder]
    exact le_rfl
  foldersApart := by
    rw [List.map_replicate, List.pairwise_replicate]
    exact .inr (.inl le_rfl)
  membersApart := List.pairwise_singleton _ _

/-- The cabinet is accepted, although its member says that it is continued. -/
theorem reserved_accepted (hword : folders < 2 ^ 16) (hmany : continuedFromPrevious < folders) :
    ∃ inspected, inspectCabinet (.user []) [] (reservedCabinet folders) 0 0 0 = .ok inspected ∧
      NamesFolder (reservedCabinet folders) continuedFromPrevious := by
  have hcount : 0 + (reservedFormat hword hmany).placements.length ≤ memberLimit := by
    exact Nat.le_of_ble_eq_true rfl
  have hexpanded : 0 + expandedBytes (reservedFormat hword hmany).folders ≤ expansionLimit := by
    rw [reservedFormat, expandedBytes_replicate]
    exact Nat.zero_le _
  refine ⟨_, inspectCabinet_eq_ok.mpr ⟨reservedFormat hword hmany, hcount, hexpanded, rfl⟩, ?_⟩
  exact (reservedFormat hword hmany).namesFolder_iff.mpr
    ⟨reservedPlacement, List.mem_singleton_self _, rfl⟩

theorem CabinetFormat.not_whole {file : Bytes} {workspace count : Nat}
    (format : CabinetFormat file workspace count)
    (hnames : NamesFolder file continuedFromPrevious) : ¬ format.Whole := by
  intro hwhole
  obtain ⟨placement, hplacement, hfolder⟩ := format.namesFolder_iff.mp hnames
  exact (hwhole.members placement hplacement).1 hfolder

/-- With 0xFFFE folders the first of the three numbers is accepted. -/
theorem reservedCabinet_accepted : ∃ inspected,
    inspectCabinet (.user []) [] (reservedCabinet 0xFFFE) 0 0 0 = .ok inspected ∧
      NamesFolder (reservedCabinet 0xFFFE) continuedFromPrevious ∧
      ¬ ∃ format : CabinetFormat (reservedCabinet 0xFFFE) 0 0,
        inspected = format.inspected 0 ∧ format.Whole := by
  obtain ⟨inspected, haccepted, hnames⟩ :=
    @reserved_accepted 0xFFFE (by decide) (by decide)
  exact ⟨inspected, haccepted, hnames, fun ⟨format, _, hwhole⟩ => format.not_whole hnames hwhole⟩

end Reserved

/-- The header of an accepted cabinet names no other cabinet, and no block of it is
continued in one. Its members are wholly in it for every cabinet with a given count of
folders just where the count is not above the first of the reserved numbers. -/
theorem inspectCabinet_whole_iff (folders : Nat) (hword : folders < 2 ^ 16) :
    (∀ (path : Path) (cabinet file : Bytes) (workspace total count : Nat) (inspected : Inspected),
      inspectCabinet path cabinet file workspace total count = .ok inspected →
      ∃ format : CabinetFormat file workspace count,
        inspected = format.inspected total ∧ format.Unbroken) ∧
    (AllWhole folders ↔ folders ≤ 0xFFFD) := by
  refine ⟨fun path cabinet file workspace total count inspected h => ?_, fun h => ?_,
    allWhole_of_few⟩
  · obtain ⟨format, -, -, hinspected⟩ := inspectCabinet_eq_ok.mp h
    exact ⟨format, hinspected, format.unbroken⟩
  · by_contra hmany
    obtain ⟨inspected, haccepted, hnames⟩ := reserved_accepted hword (Nat.lt_of_not_le hmany)
    have hcount : u16 (reservedCabinet folders) 26 = folders := by
      rw [reservedCabinet_word16 (by omega), reservedHeader_folders hword]
    obtain ⟨format, -, hwhole⟩ := h _ _ _ _ _ _ _ haccepted hcount
    exact format.not_whole hnames hwhole

/-- A small cabinet has one folder, and is whole. -/
theorem smallCabinet_whole : ∃ format : CabinetFormat smallCabinet 0 0,
    (⟨[⟨[97], payloadPath 0 0, 1, 513, 1027, 32⟩], 1, 1⟩ : Inspected) = format.inspected 0 ∧
      format.Whole :=
  (inspectCabinet_whole_iff 1 (by decide)).2.mpr (by decide) _ _ _ _ _ _ _ smallCabinet_accepted
    (by decide)

end AasSign
