import AasSign.Msi.CabinetLayout
import AasSign.Msi.Tables

/-! # Members and File rows

What the checks on the Media and File tables establish: disjoint sequence
ranges, distinct names, and a File row for every member and only one.
-/

namespace AasSign

open Foundation

/-! ## Integers -/

theorem integer_safe (value : Bytes) : Safe (integer value) fun _ => True := by
  unfold integer
  split
  · trivial
  · extract_lets digits result
    split <;> trivial

/-- `integer` returns the value. -/
theorem integer_reads (value : Bytes) :
    Safe (integer value) fun result => integer value = .ok result :=
  (integer_safe value).and_ok.mono fun _ h => h.2

/-! ## Media -/

/-- The cabinets of the media that follow a disk with a last sequence number. -/
def DiskRanges : Int → List MediaRow → List Cabinet → Prop
  | _, [], [] => True
  | previous, row :: rows, cabinet :: cabinets =>
      integer row.lastSequence = .ok cabinet.last ∧ row.cabinet = 35 :: cabinet.name ∧
        cabinet.first = previous + 1 ∧ previous ≤ cabinet.last ∧
        DiskRanges cabinet.last rows cabinets
  | _, _, _ => False

theorem DiskRanges.names {previous : Int} {rows : List MediaRow} {cabinets : List Cabinet}
    (h : DiskRanges previous rows cabinets) :
    rows.map (fun row => row.cabinet.drop 1) = cabinets.map Cabinet.name := by
  induction cabinets generalizing previous rows with
  | nil =>
      cases rows with
      | nil => rfl
      | cons row rows => exact h.elim
  | cons cabinet cabinets ih =>
      cases rows with
      | nil => exact h.elim
      | cons row rows =>
          obtain ⟨-, hname, -, -, hrest⟩ := h
          simp only [List.map_cons, ih hrest, hname, List.drop_succ_cons, List.drop_zero]

/-- The ranges lie behind the disk before them, one behind the other. -/
theorem DiskRanges.pairwise {previous : Int} {rows : List MediaRow} {cabinets : List Cabinet}
    (h : DiskRanges previous rows cabinets) :
    (∀ cabinet ∈ cabinets, previous < cabinet.first) ∧
      cabinets.Pairwise fun a b => a.last < b.first := by
  induction cabinets generalizing previous rows with
  | nil => simp
  | cons cabinet cabinets ih =>
      cases rows with
      | nil => exact h.elim
      | cons row rows =>
          obtain ⟨-, -, hfirst, hlast, hrest⟩ := h
          obtain ⟨hbehind, hpairwise⟩ := ih hrest
          refine ⟨?_, List.pairwise_cons.mpr ⟨hbehind, hpairwise⟩⟩
          intro other hother
          rcases List.mem_cons.mp hother with rfl | hmem
          · omega
          · have := hbehind other hmem
            omega

/-- The cabinets of the Media table before any of them is opened. -/
structure MediaCabinets (workspace : Nat) (rows : List MediaRow) (cabinets : List Cabinet) :
    Prop where
  ranges : DiskRanges 0 rows cabinets
  names : (cabinets.map Cabinet.name).Nodup
  paths : cabinets.map Cabinet.path = (List.range cabinets.length).map (cabinetPath workspace)

theorem mediaCabinet_safe {workspace : Nat} {scan : List Cabinet × Int} {row : MediaRow} :
    Safe (mediaCabinet workspace scan row) fun scan' => ∃ cabinet : Cabinet,
      scan' = (scan.1 ++ [cabinet], cabinet.last) ∧ integer row.lastSequence = .ok cabinet.last ∧
        row.cabinet = 35 :: cabinet.name ∧ cabinet.first = scan.2 + 1 ∧ scan.2 ≤ cabinet.last ∧
        cabinet.name ∉ scan.1.map Cabinet.name ∧
        cabinet.path = cabinetPath workspace scan.1.length := by
  unfold mediaCabinet
  apply (integer_reads row.lastSequence).bind
  intro last hlast
  rw [safe_bind, safe_invalidIf]
  intro horder
  rw [safe_bind, safe_invalidIf]
  intro hname
  rw [safe_bind, safe_invalidIf]
  intro hnew
  refine ⟨_, rfl, hlast, ?_, rfl, Int.not_lt.mp horder, hnew, rfl⟩
  cases hcabinet : row.cabinet with
  | nil => simp [hcabinet] at hname
  | cons c rest =>
      simp only [hcabinet, List.head?_cons, not_or, not_not, Option.some.injEq] at hname
      rw [hname.1]
      rfl

theorem mediaCabinets_safe {workspace : Nat} {rows : List MediaRow} :
    Safe (mediaCabinets workspace rows) (MediaCabinets workspace rows) := by
  -- The scan so far is kept in front; the ranges of the rest start where it ends.
  have hfold (rows : List MediaRow) (scan : List Cabinet × Int)
      (hnames : (scan.1.map Cabinet.name).Nodup)
      (hpaths : scan.1.map Cabinet.path =
        (List.range scan.1.length).map (cabinetPath workspace)) :
      Safe (rows.foldlM (mediaCabinet workspace) scan) fun scan' => ∃ cabinets,
        scan'.1 = scan.1 ++ cabinets ∧ DiskRanges scan.2 rows cabinets ∧
          (scan'.1.map Cabinet.name).Nodup ∧
          scan'.1.map Cabinet.path =
            (List.range scan'.1.length).map (cabinetPath workspace) := by
    induction rows generalizing scan with
    | nil => exact ⟨[], by simp, trivial, hnames, hpaths⟩
    | cons row rows ih =>
        rw [List.foldlM_cons]
        apply mediaCabinet_safe.bind
        rintro _ ⟨cabinet, rfl, hlast, hname, hfirst, horder, hnew, hpath⟩
        refine (ih (scan.1 ++ [cabinet], cabinet.last) ?_ ?_).mono ?_
        · rw [List.map_append, List.map_singleton, ← List.concat_eq_append]
          exact hnames.concat hnew
        · simp only [List.map_append, List.map_singleton, List.length_append,
            List.length_singleton, List.range_succ, hpaths, hpath]
        · rintro scan' ⟨cabinets, hscan, hranges, hrest⟩
          exact ⟨cabinet :: cabinets, by simp [hscan],
            ⟨hlast, hname, hfirst, horder, hranges⟩, hrest⟩
  unfold mediaCabinets
  apply (hfold rows ([], 0) List.nodup_nil rfl).bind
  rintro scan ⟨cabinets, hscan, hranges, hnames, hpaths⟩
  rw [List.nil_append] at hscan
  exact ⟨hscan ▸ hranges, hnames, hpaths⟩

/-! ## File rows -/

/-- Keys that differ find what they belong to. -/
theorem find?_of_nodup {α β : Type} [DecidableEq β] {key : α → β} {items : List α} {a : α}
    (hkeys : (items.map key).Nodup) (ha : a ∈ items) :
    (items.find? fun b => key b = key a) = some a := by
  cases hfind : items.find? fun b => key b = key a with
  | none =>
      have hnone := List.find?_eq_none.mp hfind a ha
      simp at hnone
  | some found =>
      have hkey : key found = key a := by simpa using List.find?_some hfind
      rw [List.inj_on_of_nodup_map hkeys (List.mem_of_find?_eq_some hfind) ha hkey]

/-- The map entry of a row of the File table. -/
structure FileRow.Reads (entry : FileRow) (row : FileTableRow) : Prop where
  name : entry.name = row.file
  size : integer row.fileSize = .ok entry.size
  sequence : integer row.sequence = .ok entry.sequence
  version : entry.version = row.version

structure FileRows (rows : List FileTableRow) (files : List FileRow) : Prop where
  rows : List.Forall₂ FileRow.Reads files rows
  names : (files.map FileRow.name).Nodup

theorem FileRows.map_name {rows : List FileTableRow} {files : List FileRow}
    (h : FileRows rows files) : files.map FileRow.name = rows.map FileTableRow.file := by
  have hrows := h.rows
  clear h
  induction hrows with
  | nil => rfl
  | cons hreads _ ih => simp [hreads.name, ih]

theorem FileRows.exists_row {rows : List FileTableRow} {files : List FileRow}
    (h : FileRows rows files) {entry : FileRow} (hentry : entry ∈ files) :
    ∃ row ∈ rows, entry.Reads row := by
  have hrows := h.rows
  clear h
  induction hrows with
  | nil => cases hentry
  | cons hreads _ ih =>
      rcases List.mem_cons.mp hentry with rfl | hmem
      · exact ⟨_, List.mem_cons_self, hreads⟩
      · obtain ⟨row, hrow, hrest⟩ := ih hmem
        exact ⟨row, List.mem_cons_of_mem _ hrow, hrest⟩

theorem FileRows.exists_entry {rows : List FileTableRow} {files : List FileRow}
    (h : FileRows rows files) {row : FileTableRow} (hrow : row ∈ rows) :
    ∃ entry ∈ files, entry.Reads row := by
  have hrows := h.rows
  clear h
  induction hrows with
  | nil => cases hrow
  | cons hreads _ ih =>
      rcases List.mem_cons.mp hrow with rfl | hmem
      · exact ⟨_, List.mem_cons_self, hreads⟩
      · obtain ⟨entry, hentry, hrest⟩ := ih hmem
        exact ⟨entry, List.mem_cons_of_mem _ hentry, hrest⟩

/-- Looking up the name of a row finds its entry. -/
theorem FileRows.find_entry {rows : List FileTableRow} {files : List FileRow}
    (h : FileRows rows files) {row : FileTableRow} (hrow : row ∈ rows) :
    ∃ entry, (files.find? fun entry => entry.name = row.file) = some entry ∧ entry.Reads row := by
  obtain ⟨entry, hentry, hreads⟩ := h.exists_entry hrow
  refine ⟨entry, ?_, hreads⟩
  rw [← hreads.name]
  exact find?_of_nodup h.names hentry

theorem fileRow_safe {compressed : Bool} {files : List FileRow} {row : FileTableRow} :
    Safe (fileRow compressed files row) fun files' => ∃ entry : FileRow,
      files' = files ++ [entry] ∧ entry.Reads row ∧ entry.name ∉ files.map FileRow.name ∧
        entry.found = false := by
  unfold fileRow
  apply (integer_safe _).bind
  intro attr _
  rw [safe_bind, safe_invalidIf]
  intro _
  apply (integer_reads row.sequence).bind
  intro sequence hsequence
  apply (integer_reads row.fileSize).bind
  intro size hsize
  rw [safe_bind, safe_invalidIf]
  intro _
  rw [safe_bind, safe_invalidIf]
  intro hnew
  exact ⟨_, rfl, ⟨rfl, hsize, hsequence, rfl⟩, hnew, rfl⟩

/-- The rows with those of the given names found. -/
def marked (files : List FileRow) (names : List Bytes) : List FileRow :=
  files.map fun row => { row with found := decide (row.name ∈ names) }

theorem marked_nil {files : List FileRow} (h : ∀ row ∈ files, row.found = false) :
    marked files [] = files := by
  have hsame : ∀ row ∈ files, ({ row with found := decide (row.name ∈ []) } : FileRow) = row := by
    intro row hrow
    simp [← h row hrow]
  exact (List.map_congr_left hsame).trans (List.map_id files)

theorem mem_marked {files : List FileRow} {row : FileRow} (names : List Bytes) (h : row ∈ files) :
    { row with found := decide (row.name ∈ names) } ∈ marked files names :=
  List.mem_map.mpr ⟨row, h, rfl⟩

theorem map_name_marked {files : List FileRow} {names : List Bytes} :
    (marked files names).map FileRow.name = files.map FileRow.name := by
  simp [marked, Function.comp_def]

theorem fileRows_safe {compressed : Bool} {rows : List FileTableRow} :
    Safe (fileRows compressed rows) fun files =>
      FileRows rows files ∧ ∀ entry ∈ files, entry.found = false := by
  unfold fileRows
  apply foldlM_sat (fun done files =>
    FileRows done files ∧ ∀ entry ∈ files, entry.found = false)
  · rintro done row rest files - ⟨⟨hrows, hnames⟩, hfound⟩
    apply fileRow_safe.mono
    rintro _ ⟨entry, rfl, hreads, hnew, hentry⟩
    refine ⟨⟨?_, ?_⟩, ?_⟩
    · exact List.rel_append hrows (.cons hreads .nil)
    · rw [List.map_append, List.map_singleton, ← List.concat_eq_append]
      exact hnames.concat hnew
    · simp only [List.mem_append, List.mem_singleton]
      rintro other (hother | rfl)
      · exact hfound other hother
      · exact hentry
  · exact ⟨⟨.nil, List.nodup_nil⟩, by simp⟩

/-! ## The mapping -/

/-- The row that a member of a cabinet takes. -/
def Takes (cabinet : Cabinet) (member : CabinetMember) (row : FileRow) : Prop :=
  row.name = member.name ∧ cabinet.first ≤ row.sequence ∧ row.sequence ≤ cabinet.last ∧
    row.size = member.size

theorem marked_concat {files : List FileRow} {names : List Bytes} {name : Bytes} :
    (marked files names).map
        (fun row => if row.name = name then { row with found := true } else row) =
      marked files (names ++ [name]) := by
  simp only [marked, List.map_map]
  apply List.map_congr_left
  intro row _
  by_cases hname : row.name = name <;> simp [hname]

theorem mapMember_safe {cabinet : Cabinet} {files : List FileRow} {names : List Bytes}
    {member : CabinetMember} (hnames : names.Nodup) :
    Safe (mapMember cabinet (marked files names) member) fun files' =>
      files' = marked files (names ++ [member.name]) ∧ (names ++ [member.name]).Nodup ∧
        ∃ row ∈ files, Takes cabinet member row := by
  unfold mapMember
  cases hfind : (marked files names).find? fun row => row.name = member.name with
  | none => trivial
  | some row =>
      dsimp only
      rw [safe_bind, safe_invalidIf]
      intro hcheck
      simp only [not_or, Int.not_lt, not_not, Bool.not_eq_true] at hcheck
      have hname : row.name = member.name := by simpa using List.find?_some hfind
      obtain ⟨origin, horigin, rfl⟩ := List.mem_map.mp (List.mem_of_find?_eq_some hfind)
      refine ⟨marked_concat, ?_, origin, horigin, hname, hcheck.2⟩
      rw [← List.concat_eq_append]
      apply hnames.concat
      rw [← hname]
      exact of_decide_eq_false hcheck.1

theorem mapMembers_safe {cabinet : Cabinet} {files : List FileRow} {names : List Bytes}
    {members : List CabinetMember} (hnames : names.Nodup) :
    Safe (mapMembers cabinet (marked files names) members) fun files' =>
      files' = marked files (names ++ members.map CabinetMember.name) ∧
        (names ++ members.map CabinetMember.name).Nodup ∧
        ∀ member ∈ members, ∃ row ∈ files, Takes cabinet member row := by
  unfold mapMembers
  apply foldlM_sat (fun done files' =>
    files' = marked files (names ++ done.map CabinetMember.name) ∧
      (names ++ done.map CabinetMember.name).Nodup ∧
      ∀ member ∈ done, ∃ row ∈ files, Takes cabinet member row)
  · rintro done member rest _ - ⟨rfl, hdone, htakes⟩
    apply (mapMember_safe hdone).mono
    rintro _ ⟨rfl, hnext, hmember⟩
    rw [List.map_append, List.map_singleton, ← List.append_assoc]
    refine ⟨rfl, hnext, ?_⟩
    simp only [List.mem_append, List.mem_singleton]
    rintro other (hother | rfl)
    · exact htakes other hother
    · exact hmember
  · simpa using hnames

theorem checkFound_safe {files : List FileRow} :
    Safe (checkFound files) fun _ => ∀ row ∈ files, row.found = true := by
  unfold checkFound
  have hfold := foldlM_sat (ε := Exn) (E := Exn.Thrown)
    (l := files.insertionSort fun a b => a.name ≤ b.name)
    (f := fun (_ : Unit) row => invalidIf (¬ row.found)
      ("File row has no embedded cabinet member: " ++ latin1 row.name))
    (b := ()) (fun done _ => ∀ row ∈ done, row.found = true)
    (fun done row _ _ _ hdone => by
      change Safe _ _
      rw [safe_invalidIf]
      intro hrow
      simp only [List.mem_append, List.mem_singleton]
      rintro other (hother | rfl)
      · exact hdone other hother
      · simpa using hrow)
    (by simp)
  apply Safe.mono hfold
  intro _ hall row hrow
  exact hall row ((List.perm_insertionSort _ _).mem_iff.mpr hrow)

/-- Names that are all found are the names of the rows. -/
theorem mem_of_marked {files : List FileRow} {names : List Bytes}
    (h : ∀ row ∈ marked files names, row.found = true) : ∀ row ∈ files, row.name ∈ names := by
  intro row hrow
  simpa using h _ (List.mem_map.mpr ⟨row, hrow, rfl⟩)

theorem hashRows_safe {rows : List HashRow} :
    Safe (hashRows rows) fun names => names = rows.map HashRow.file ∧
      ∀ row ∈ rows, integer row.options = .ok 0 := by
  unfold hashRows
  apply foldlM_sat (fun done names => names = done.map HashRow.file ∧
    ∀ row ∈ done, integer row.options = .ok 0)
  · rintro done row rest _ - ⟨rfl, hdone⟩
    change Safe _ _
    apply (integer_reads row.options).bind
    intro options hoptions
    rw [safe_bind, safe_invalidIf]
    intro hzero
    rw [not_not] at hzero
    subst hzero
    refine ⟨by simp, ?_⟩
    simp only [List.mem_append, List.mem_singleton]
    rintro other (hother | rfl)
    · exact hdone other hother
    · exact hoptions
  · simp

end AasSign
