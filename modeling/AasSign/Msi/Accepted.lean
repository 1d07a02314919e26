import AasSign.Msi.CabinetPatch
import AasSign.Msi.RewriteRules

/-! # What the checks accept

The checks of the preflight pass when what they look for is there. Each is stated
of the tables, the cabinets and the streams, apart from the files of a run.
-/

namespace AasSign

open Foundation

/-! ## Cabinets -/

/-- The files that a cabinet unpacks to are its members. -/
structure Unpacks (members : List CabinetMember) (files : List UnpackedFile) : Prop where
  names : (files.map UnpackedFile.name).Nodup
  taken : ∀ file ∈ files, ∃ member ∈ members, member.name = file.name ∧ file.size = member.size
  given : ∀ member ∈ members, ∃ file ∈ files, file.name = member.name ∧
    file.data.length = member.size

/-- The cabinet passes the inspection with these members, and unpacks to them. -/
structure CabinetPasses (lib : MsiLibrary) (members : List CabinetMember) (raw : Bytes)
    (expanded : Nat) : Prop where
  format : ∃ format : CabinetFormat raw 0 0, expandedBytes format.folders = expanded ∧
    format.placements.map (CabinetMember.entry ∘ Placement.member) =
      members.map CabinetMember.entry
  unpacked : ∃ files, lib.unpack raw = .ok files ∧ Unpacks members files

section Cabinets

variable {lib : MsiLibrary} {members members' : List CabinetMember} {raw name : Bytes}
  {files : List UnpackedFile} {path : Path} {workspace total count expanded : Nat}

theorem map_size_entry (members : List CabinetMember) :
    (members.map CabinetMember.entry).map TableEntry.size = members.map CabinetMember.size := by
  simp only [List.map_map]
  rfl

/-- Members are known by their records and their staging files. -/
theorem members_ext (hentries : members.map CabinetMember.entry = members'.map CabinetMember.entry)
    (hpaths : members.map CabinetMember.path = members'.map CabinetMember.path) :
    members = members' := by
  induction members generalizing members' with
  | nil => exact (List.map_eq_nil_iff.mp hentries.symm).symm
  | cons member members ih =>
      cases members' with
      | nil => simp at hentries
      | cons member' members' =>
          simp only [List.map_cons, List.cons.injEq] at hentries hpaths
          rw [ih hentries.2 hpaths.2]
          obtain ⟨name, path, size, date, time, attributes⟩ := member
          obtain ⟨name', path', size', date', time', attributes'⟩ := member'
          simp only [CabinetMember.entry, TableEntry.mk.injEq] at hentries
          simp_all

/-- The format of a cabinet that was inspected. -/
theorem inspected_format {inspected : Inspected}
    (h : inspectCabinet path name raw workspace total count = .ok inspected) :
    ∃ format : CabinetFormat raw 0 0, inspected.total = total + expandedBytes format.folders ∧
      format.placements.map (CabinetMember.entry ∘ Placement.member) =
        inspected.members.map CabinetMember.entry := by
  obtain ⟨format, -, -, rfl⟩ := inspectCabinet_eq_ok.mp h
  obtain ⟨format', hfolders, hentries⟩ := format.renumbered 0 0
  refine ⟨format', by rw [hfolders]; rfl, ?_⟩
  rw [hentries, CabinetFormat.inspected, List.map_map]

/-- A cabinet of the format is inspected, if its members are numbered from `count` on. -/
theorem CabinetPasses.inspected (h : CabinetPasses lib members raw expanded)
    (hnumbers : members.map CabinetMember.path =
      (List.range members.length).map fun i => payloadPath workspace (count + i))
    (hcount : count + members.length ≤ memberLimit) (htotal : total + expanded ≤ expansionLimit) :
    inspectCabinet path name raw workspace total count =
      .ok ⟨members, total + expanded, count + members.length⟩ := by
  obtain ⟨format, rfl, hentries⟩ := h.format
  obtain ⟨format', hfolders, hentries'⟩ := format.renumbered workspace count
  rw [hentries] at hentries'
  have hlength : format'.placements.length = members.length := by
    simpa using congrArg List.length hentries'
  have hinspected : inspectCabinet path name raw workspace total count =
      .ok (format'.inspected total) :=
    inspectCabinet_eq_ok.mpr ⟨format', by rwa [hlength], by rwa [hfolders], rfl⟩
  have hmembers : format'.placements.map Placement.member = members := by
    apply members_ext
    · rw [List.map_map, hentries']
    · have hsafe := (inspectCabinet_safe (by omega) (by omega)).of_ok hinspected
      have hpaths := hsafe.1.numbers
      rw [CabinetFormat.inspected, List.length_map, hlength, ← hnumbers] at hpaths
      exact hpaths
  rw [hinspected, CabinetFormat.inspected, hmembers, hfolders, hlength]

/-- Nothing is unpacked that the folders do not hold. -/
theorem CabinetPasses.sizes_le (h : CabinetPasses lib members raw expanded) :
    (members.map CabinetMember.size).sum ≤ expanded := by
  obtain ⟨format, rfl, hentries⟩ := h.format
  have hlimit := format.folderTable.expanded_le
  have hfew : format.placements.length ≤ memberLimit := by
    have hword := u16_lt (p := raw) 28
    rw [format.memberCount, format.headerSays.files]
    unfold memberLimit
    omega
  have hinspected : inspectCabinet (.user []) [] raw 0 0 0 = .ok (format.inspected 0) :=
    inspectCabinet_eq_ok.mpr ⟨format, by omega, by omega, rfl⟩
  have hsafe := (inspectCabinet_safe (Nat.zero_le _) (Nat.zero_le _)).of_ok hinspected
  have hsizes := hsafe.2.2.2.1
  have hmembers : ((format.inspected 0).members.map CabinetMember.size) =
      members.map CabinetMember.size := by
    rw [← map_size_entry members, ← hentries]
    simp only [CabinetFormat.inspected, List.map_map]
    rfl
  rw [hmembers] at hsizes
  change 0 + _ ≤ 0 + expandedBytes format.folders at hsizes
  omega

theorem CabinetPasses.length_le (h : CabinetPasses lib members raw expanded) :
    raw.length ≤ expansionLimit := by
  obtain ⟨format, -⟩ := h.format
  exact format.headerSays.limit

end Cabinets

/-- The cabinet is a stream that passes, and expands to this many bytes. -/
def AcceptedCabinet (lib : MsiLibrary) (c : MsiContents) (cabinet : Cabinet) (expanded : Nat) :
    Prop :=
  ∃ raw, c.select (.cabinet cabinet.name) = [raw] ∧ CabinetPasses lib cabinet.members raw expanded

def AcceptedBinary (c : MsiContents) (binary : Bytes × Path) (expanded : Nat) : Prop :=
  ∃ data, c.select (.binary binary.1) = [data] ∧ data.length = expanded

/-- The cabinets and streams take the budget from one total to another. -/
def Spends (lib : MsiLibrary) (c : MsiContents) (cabinets : List Cabinet)
    (binaries : List (Bytes × Path)) (start finish : Nat) : Prop :=
  ∃ sizes sizes', List.Forall₂ (AcceptedCabinet lib c) cabinets sizes ∧
    List.Forall₂ (AcceptedBinary c) binaries sizes' ∧ finish = start + sizes.sum + sizes'.sum

section Spends

variable {lib : MsiLibrary} {c : MsiContents} {cabinets : List Cabinet}
  {binaries : List (Bytes × Path)} {start finish expanded : Nat}

theorem Spends.nil : Spends lib c [] [] start start := ⟨[], [], .nil, .nil, rfl⟩

theorem Spends.addCabinet {cabinet : Cabinet} (h : Spends lib c cabinets [] start finish)
    (hcabinet : AcceptedCabinet lib c cabinet expanded) :
    Spends lib c (cabinets ++ [cabinet]) [] start (finish + expanded) := by
  obtain ⟨sizes, _, hsizes, hnone, rfl⟩ := h
  cases hnone
  exact ⟨sizes ++ [expanded], [], List.rel_append hsizes (.cons hcabinet .nil), .nil,
    by simp [Nat.add_assoc]⟩

theorem Spends.addBinary {binary : Bytes × Path} (h : Spends lib c cabinets binaries start finish)
    (hbinary : AcceptedBinary c binary expanded) :
    Spends lib c cabinets (binaries ++ [binary]) start (finish + expanded) := by
  obtain ⟨sizes, sizes', hsizes, hsizes', rfl⟩ := h
  exact ⟨sizes, sizes' ++ [expanded], hsizes, List.rel_append hsizes' (.cons hbinary .nil),
    by simp [Nat.add_assoc]⟩

end Spends

/-! ## Matching -/

section Matching

variable {path : Path} {members : List CabinetMember} {files : List UnpackedFile}

theorem Unpacks.length_eq (h : Unpacks members files)
    (hnames : (members.map CabinetMember.name).Nodup) : files.length = members.length := by
  have hperm : (files.map UnpackedFile.name).Perm (members.map CabinetMember.name) := by
    rw [List.perm_ext_iff_of_nodup h.names hnames]
    intro name
    simp only [List.mem_map]
    constructor
    · rintro ⟨file, hfile, rfl⟩
      obtain ⟨member, hmember, hname, -⟩ := h.taken file hfile
      exact ⟨member, hmember, hname⟩
    · rintro ⟨member, hmember, rfl⟩
      obtain ⟨file, hfile, hname, -⟩ := h.given member hmember
      exact ⟨file, hfile, hname⟩
  simpa using hperm.length_eq

/-- Every file finds its member, and no member is left. -/
theorem Unpacks.matched (h : Unpacks members files)
    (hnames : (members.map CabinetMember.name).Nodup) :
    Returns (matchFiles path members files) fun _ => True := by
  unfold matchFiles
  apply Sat.bind (P := fun scan => Matched members files scan ∧ scan.2.length = files.length)
  · apply foldlM_sat (fun done scan => Matched members done scan ∧ scan.2.length = done.length)
    · rintro done file rest scan hsplit ⟨hmatched, hlength⟩
      have hfile : file ∈ files := by simp [hsplit]
      obtain ⟨member, hmember, hname, hsize⟩ := h.taken file hfile
      have hfresh : member.name ∉ done.map UnpackedFile.name := by
        have hdistinct := h.names
        rw [hsplit, List.map_append, List.map_cons] at hdistinct
        rw [hname]
        exact fun hmem => (List.nodup_append.mp hdistinct).2.2 _ hmem _ List.mem_cons_self rfl
      have hleft : member ∈ scan.1 := by
        rw [hmatched.rest, List.mem_filter]
        exact ⟨hmember, decide_eq_true hfresh⟩
      have hfound : (scan.1.find? fun other => other.name = file.name) = some member := by
        rw [← hname]
        refine find?_of_nodup ?_ hleft
        rw [hmatched.rest]
        exact hnames.sublist (List.filter_sublist.map _)
      have hstep : matchFile path scan file =
          .ok (scan.1.filter fun other => other.name ≠ file.name,
            scan.2 ++ [(member.path, file.data)]) := by
        unfold matchFile
        rw [hfound]
        simp [hsize]
      rw [hstep, sat_ok]
      exact ⟨(matchFile_safe hmatched).of_ok hstep, by simp [hlength]⟩
    · exact ⟨⟨List.nodup_nil, by simp, by simp, by simp⟩, rfl⟩
  · rintro ⟨rest, targets⟩ ⟨hmatched, hlength⟩
    have hrest : rest = [] := by
      rw [show rest = _ from hmatched.rest, List.filter_eq_nil_iff]
      intro member hmember
      obtain ⟨file, hfile, hname, -⟩ := h.given member hmember
      simpa using ⟨file, hfile, hname⟩
    have hall : targets.length = members.length := hlength.trans (h.length_eq hnames)
    simp [hrest, hall]

end Matching

/-! ## Tables -/

section Tables

variable {cabinet : Cabinet} {files files' : List FileRow} {names : List Bytes}
  {member : CabinetMember} {members : List CabinetMember}

theorem mapMember_takes {row : FileRow} (hfiles : (files.map FileRow.name).Nodup)
    (hfresh : member.name ∉ names) (hrow : row ∈ files) (htakes : Takes cabinet member row) :
    mapMember cabinet (marked files names) member =
      .ok (marked files (names ++ [member.name])) := by
  obtain ⟨hname, hfirst, hlast, hsize⟩ := htakes
  have hfound : (marked files names).find? (fun other => other.name = member.name) =
      some { row with found := decide (row.name ∈ names) } := by
    have hnodup : ((marked files names).map FileRow.name).Nodup := by rwa [map_name_marked]
    rw [← hname]
    exact find?_of_nodup hnodup (mem_marked names hrow)
  have hnot : row.name ∉ names := hname ▸ hfresh
  unfold mapMember
  rw [hfound, ← marked_concat]
  simp [invalidIf, hnot, hsize, Int.not_lt.mpr hfirst, Int.not_lt.mpr hlast]

/-- Members that take rows of their own are mapped. -/
theorem mapMembers_takes (hfiles : (files.map FileRow.name).Nodup)
    (hnames : (names ++ members.map CabinetMember.name).Nodup)
    (htakes : ∀ member ∈ members, ∃ row ∈ files, Takes cabinet member row) :
    mapMembers cabinet (marked files names) members =
      .ok (marked files (names ++ members.map CabinetMember.name)) := by
  unfold mapMembers
  induction members generalizing names with
  | nil =>
      rw [List.map_nil, List.append_nil]
      rfl
  | cons member members ih =>
      obtain ⟨row, hrow, htaken⟩ := htakes member List.mem_cons_self
      have hfresh : member.name ∉ names := fun hmem =>
        (List.nodup_append.mp hnames).2.2 _ hmem _ List.mem_cons_self rfl
      have hsplit : names ++ (member :: members).map CabinetMember.name =
          (names ++ [member.name]) ++ members.map CabinetMember.name := by simp
      rw [hsplit] at hnames ⊢
      rw [List.foldlM_cons, bind_of_ok (mapMember_takes hfiles hfresh hrow htaken)]
      exact ih hnames fun other hother => htakes other (List.mem_cons_of_mem _ hother)

theorem checkFound_all (h : ∀ row ∈ files, row.found = true) : checkFound files = .ok () := by
  have hfold : Returns (checkFound files) fun _ => True := by
    unfold checkFound
    apply foldlM_sat (fun _ _ => True)
    · intro done row rest _ hsplit _
      have hsorted : row ∈ files.insertionSort fun a b => a.name ≤ b.name := by simp [hsplit]
      have hmem : row ∈ files := (List.perm_insertionSort _ _).mem_iff.mp hsorted
      simp [invalidIf, h row hmem]
    · trivial
  obtain ⟨u, hu, -⟩ := returns_iff.mp hfold
  exact hu

/-- The hash rows are read without the hashes. -/
theorem hashRows_map {rows : List HashRow} {f : HashRow → HashRow}
    (h : ∀ row, (f row).file = row.file ∧ (f row).options = row.options) :
    hashRows (rows.map f) = hashRows rows := by
  unfold hashRows
  rw [List.foldlM_map]
  simp only [h]

/-- A File row apart from its size. -/
def FileRow.key (row : FileRow) : Bytes × Int := (row.name, row.sequence)

theorem fileRow_resized {compressed : Bool} {row row' : FileTableRow} {files₁ : List FileRow}
    {size : Nat} (h : fileRow compressed files row = .ok files₁)
    (hkeys : files'.map FileRow.key = files.map FileRow.key) (hfile : row'.file = row.file)
    (hattributes : row'.attributes = row.attributes) (hsequence : row'.sequence = row.sequence)
    (hsize : integer row'.fileSize = .ok (size : Int)) :
    ∃ files₁', fileRow compressed files' row' = .ok files₁' ∧
      files₁'.map FileRow.key = files₁.map FileRow.key := by
  have hnames := congrArg (List.map Prod.fst) hkeys
  have hsequences := congrArg (List.map Prod.snd) hkeys
  rw [List.map_map, List.map_map] at hnames hsequences
  change files'.map FileRow.name = files.map FileRow.name at hnames
  change files'.map FileRow.sequence = files.map FileRow.sequence at hsequences
  unfold fileRow at h ⊢
  simp only [bind_eq_ok, invalidIf_eq_ok] at h ⊢
  obtain ⟨attr, hattr, _, hsource, sequence, hnumber, _, _, _, hplace, _, hnew, hentry⟩ := h
  cases hentry
  refine ⟨_, ⟨attr, hattributes ▸ hattr, (), hsource, sequence, hsequence ▸ hnumber, size, hsize, (),
    ?_, (), ?_, rfl⟩, ?_⟩
  · rw [hsequences]
    simp only [not_or] at hplace ⊢
    exact ⟨hplace.1, by omega, hplace.2.2⟩
  · rwa [hnames, hfile]
  · simp [hkeys, FileRow.key, hfile]

/-- File rows are accepted with other sizes too. -/
theorem fileRows_resized {compressed : Bool} {rows : List FileTableRow}
    {f : FileTableRow → FileTableRow} (h : fileRows compressed rows = .ok files)
    (hfile : ∀ row, (f row).file = row.file) (hattributes : ∀ row, (f row).attributes = row.attributes)
    (hsequence : ∀ row, (f row).sequence = row.sequence)
    (hsize : ∀ row ∈ rows, ∃ size : Nat, integer (f row).fileSize = .ok (size : Int)) :
    ∃ files', fileRows compressed (rows.map f) = .ok files' ∧
      files'.map FileRow.key = files.map FileRow.key := by
  have hfold (rows : List FileTableRow) (files₁ files₁' : List FileRow)
      (hsize : ∀ row ∈ rows, ∃ size : Nat, integer (f row).fileSize = .ok (size : Int))
      (h : rows.foldlM (fileRow compressed) files₁ = .ok files)
      (hkeys : files₁'.map FileRow.key = files₁.map FileRow.key) :
      ∃ files', (rows.map f).foldlM (fileRow compressed) files₁' = .ok files' ∧
        files'.map FileRow.key = files.map FileRow.key := by
    induction rows generalizing files₁ files₁' with
    | nil =>
        cases h
        exact ⟨files₁', rfl, hkeys⟩
    | cons row rows ih =>
        rw [List.foldlM_cons, bind_eq_ok] at h
        obtain ⟨files₂, hrow, hrest⟩ := h
        obtain ⟨size, hsizeRow⟩ := hsize row List.mem_cons_self
        obtain ⟨files₂', hrow', hkeys'⟩ := fileRow_resized hrow hkeys (hfile row) (hattributes row)
          (hsequence row) hsizeRow
        rw [List.map_cons, List.foldlM_cons, bind_of_ok hrow']
        exact ih files₂ files₂' (fun other hother => hsize other (List.mem_cons_of_mem _ hother))
          hrest hkeys'
  exact hfold rows [] [] hsize h rfl

/-! ## Another workspace -/

/-- The file of the same name in another workspace. -/
def Path.moved (workspace : Nat) : Path → Path
  | .user name => .user name
  | .temp _ name => .temp workspace name

@[simp] theorem moved_payloadPath {workspace workspace' n : Nat} :
    (payloadPath workspace n).moved workspace' = payloadPath workspace' n := rfl

@[simp] theorem moved_cabinetPath {workspace workspace' n : Nat} :
    (cabinetPath workspace n).moved workspace' = cabinetPath workspace' n := rfl

def Cabinet.moved (workspace : Nat) (cabinet : Cabinet) : Cabinet :=
  { cabinet with path := cabinet.path.moved workspace }

theorem mediaCabinet_moved {workspace workspace' : Nat} {scan scan' : List Cabinet × Int}
    {row : MediaRow} (h : mediaCabinet workspace scan row = .ok scan') :
    mediaCabinet workspace' (scan.1.map (Cabinet.moved workspace'), scan.2) row =
      .ok (scan'.1.map (Cabinet.moved workspace'), scan'.2) := by
  have hnames : (scan.1.map (Cabinet.moved workspace')).map Cabinet.name =
      scan.1.map Cabinet.name := by
    simp only [List.map_map]
    rfl
  unfold mediaCabinet at h ⊢
  simp only [bind_eq_ok, invalidIf_eq_ok] at h ⊢
  obtain ⟨last, hlast, _, horder, _, hname, _, hnew, hscan⟩ := h
  cases hscan
  refine ⟨last, hlast, (), horder, (), hname, (), by rwa [hnames], ?_⟩
  simp only [List.map_append, List.map_singleton, List.length_map]
  rfl

theorem mediaCabinets_moved {workspace : Nat} (workspace' : Nat) {rows : List MediaRow}
    {cabinets : List Cabinet} (h : mediaCabinets workspace rows = .ok cabinets) :
    mediaCabinets workspace' rows = .ok (cabinets.map (Cabinet.moved workspace')) := by
  have hfold (rows : List MediaRow) (scan scan' : List Cabinet × Int)
      (h : rows.foldlM (mediaCabinet workspace) scan = .ok scan') :
      rows.foldlM (mediaCabinet workspace') (scan.1.map (Cabinet.moved workspace'), scan.2) =
        .ok (scan'.1.map (Cabinet.moved workspace'), scan'.2) := by
    induction rows generalizing scan with
    | nil =>
        cases h
        rfl
    | cons row rows ih =>
        rw [List.foldlM_cons, bind_eq_ok] at h
        obtain ⟨next, hnext, hrest⟩ := h
        rw [List.foldlM_cons, bind_of_ok (mediaCabinet_moved hnext)]
        exact ih next hrest
  unfold mediaCabinets at h ⊢
  obtain ⟨scan, hscan, hcabinets⟩ := bind_eq_ok.mp h
  cases hcabinets
  exact bind_of_ok (hfold rows _ scan hscan)

end Tables

/-! ## Whole plans -/

namespace MsiContents

variable (c : MsiContents)

/-- The rows of a table, if the database has it. -/
def rowsIf {Row : Type} (table : String) (rows : List Row) : List Row :=
  if ascii table ∈ c.tables then rows else []

def mediaRows : List MediaRow := c.rowsIf "Media" c.mediaByDisk

def fileRows : List FileTableRow := c.rowsIf "File" c.file

def binaryRows : List (Bytes × Bytes) := c.rowsIf "Binary" c.binary

def hashTableRows : List HashRow := c.rowsIf "MsiFileHash" c.fileHash

end MsiContents

def Plan.members (plan : Plan) : List CabinetMember := plan.cabinets.flatMap Cabinet.members

/-- A cabinet apart from its members. -/
def Cabinet.key (cabinet : Cabinet) : Bytes × Path × Int × Int :=
  (cabinet.name, cabinet.path, cabinet.first, cabinet.last)

/-- A cabinet as the Media table gives it. -/
def Cabinet.unopened (cabinet : Cabinet) : Cabinet := { cabinet with members := [] }

theorem mediaCabinets_members {workspace : Nat} {rows : List MediaRow} {cabinets : List Cabinet}
    (h : mediaCabinets workspace rows = .ok cabinets) : ∀ cabinet ∈ cabinets, cabinet.members = [] := by
  have hfold : Safe (rows.foldlM (mediaCabinet workspace) ([], 0)) fun scan =>
      ∀ cabinet ∈ scan.1, cabinet.members = [] := by
    apply foldlM_sat (fun _ (scan : List Cabinet × Int) => ∀ cabinet ∈ scan.1, cabinet.members = [])
    · intro done row rest scan _ hdone
      unfold mediaCabinet
      apply (integer_safe row.lastSequence).bind
      intro last _
      rw [safe_bind, safe_invalidIf]
      intro _
      rw [safe_bind, safe_invalidIf]
      intro _
      rw [safe_bind, safe_invalidIf]
      intro _
      rw [safe_pure]
      simp only [List.mem_append, List.mem_singleton]
      rintro cabinet (hcabinet | rfl)
      · exact hdone cabinet hcabinet
      · rfl
    · simp
  obtain ⟨scan, hscan, hcabinets⟩ := bind_eq_ok.mp h
  cases hcabinets
  exact hfold.of_ok hscan

/-- Cabinets that are opened are otherwise what they were. -/
theorem map_unopened {opened cabinets : List Cabinet}
    (hkeys : opened.map Cabinet.key = cabinets.map Cabinet.key)
    (hmembers : ∀ cabinet ∈ cabinets, cabinet.members = []) :
    opened.map Cabinet.unopened = cabinets := by
  induction cabinets generalizing opened with
  | nil => exact List.map_eq_nil_iff.mpr (List.map_eq_nil_iff.mp hkeys)
  | cons cabinet cabinets ih =>
      obtain ⟨first, rest, rfl, hkey, hrest⟩ := List.map_eq_cons_iff.mp hkeys
      rw [List.map_cons, ih hrest fun other hother => hmembers other (List.mem_cons_of_mem _ hother)]
      obtain ⟨name, path, first', last, members⟩ := cabinet
      obtain rfl : members = [] := hmembers _ List.mem_cons_self
      simp only [Cabinet.key, Prod.mk.injEq] at hkey
      simp only [Cabinet.unopened, hkey]

/-- No query exceeds the rows that it may return. -/
structure MsiContents.Few (c : MsiContents) : Prop where
  storages : c.storages.length ≤ 65535
  tables : c.tables.length ≤ 65535
  media : c.mediaRows.length ≤ 65535
  file : c.fileRows.length ≤ 65535
  binary : c.binaryRows.length ≤ 65535
  fileHash : c.hashTableRows.length ≤ 65535

/-- The plan is what the checks make of the database, and they take the budget from `start` to
`finish`. -/
structure Plan.Accepted (plan : Plan) (lib : MsiLibrary) (c : MsiContents)
    (workspace start finish : Nat) : Prop where
  noStorages : c.storages = []
  few : c.Few
  media : mediaCabinets workspace c.mediaRows = .ok (plan.cabinets.map Cabinet.unopened)
  rows : ∃ files, AasSign.fileRows (c.wordCount.testBit 1) c.fileRows = .ok files ∧
    (∀ cabinet ∈ plan.cabinets, ∀ member ∈ cabinet.members, ∃ row ∈ files,
      Takes cabinet member row) ∧
    ∀ row ∈ files, row.name ∈ plan.members.map CabinetMember.name
  names : (plan.members.map CabinetMember.name).Nodup
  spends : Spends lib c plan.cabinets plan.binaries start finish
  limit : finish ≤ expansionLimit
  numbers : plan.members.map CabinetMember.path ++ plan.binaries.map Prod.snd =
    (List.range (plan.members.length + plan.binaries.length)).map (payloadPath workspace)
  count : plan.members.length + plan.binaries.length ≤ memberLimit
  binaries : plan.binaries.map Prod.fst = c.binaryRows.map Prod.fst
  hashRows : AasSign.hashRows c.hashTableRows = .ok plan.hashRows

end AasSign
