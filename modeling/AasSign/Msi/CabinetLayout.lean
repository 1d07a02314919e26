import AasSign.Msi.FileTable

/-! # What an inspected cabinet satisfies

Every unsigned subtraction of `inspect_cabinet` is in range, the sizes of the
members add up to at most what their folders expand to, and the members are the
entries of the file table in order. The loops keep one invariant each: over the
blocks of a folder, the folders, and the members.
-/

namespace AasSign

open Foundation

variable {path : Path} {cabinet file : Bytes} {workspace total count : Nat}

/-! ## Ranges -/

def rangeBytes (ranges : List (Nat × Nat)) : Nat :=
  (ranges.map fun range => range.2 - range.1).sum

@[simp] theorem rangeBytes_append (ranges more : List (Nat × Nat)) :
    rangeBytes (ranges ++ more) = rangeBytes ranges + rangeBytes more := by
  simp [rangeBytes]

/-- Ranges that pass the scan fit behind each other. -/
theorem scanRanges_sat {reason : String} {start bound : Nat} {ranges : List (Nat × Nat)}
    (hranges : ∀ range ∈ ranges, range.1 ≤ range.2 ∧ range.2 ≤ bound) (hstart : start ≤ bound) :
    Safe (scanRanges reason start ranges) fun _ => start + rangeBytes ranges ≤ bound := by
  induction ranges generalizing start with
  | nil => simpa [scanRanges, rangeBytes] using hstart
  | cons range ranges ih =>
      rw [scanRanges, List.foldlM_cons, safe_bind, safe_bind, safe_invalidIf]
      intro hscan
      obtain ⟨hrange, hbound⟩ := hranges range List.mem_cons_self
      have hrest := @ih range.2
        (fun other hother => hranges other (List.mem_cons_of_mem _ hother)) hbound
      apply hrest.mono
      intro _ hsum
      simp only [rangeBytes, List.map_cons, List.sum_cons] at hsum ⊢
      omega

theorem rangeBytes_insertionSort (ranges : List (Nat × Nat)) :
    rangeBytes (ranges.insertionSort rangeLe) = rangeBytes ranges :=
  ((List.perm_insertionSort rangeLe ranges).map _).sum_nat

/-! ## Header and folders -/

/-- What the header says, found at its place in the file. -/
structure CabinetHeader.Read (header : CabinetHeader) (file : Bytes) : Prop where
  long : 36 ≤ file.length
  magic : file.take 4 = cabinetMagic
  files : header.files = u16 file 28
  table : header.table = u32 file 16
  front : 36 ≤ header.pos

theorem u16_take {n i : Nat} (h : i + 2 ≤ n) : u16 (file.take n) i = u16 file i :=
  u16_congr fun k hk => getElem?_take_zero (by omega)

theorem u32_take {n i : Nat} (h : i + 4 ≤ n) : u32 (file.take n) i = u32 file i :=
  u32_congr fun k hk => getElem?_take_zero (by omega)

theorem inspectReserve_safe {flags : Nat} :
    Safe (inspectReserve path file flags) fun reserve => 36 ≤ reserve.1 := by
  unfold inspectReserve
  rw [safe_ite]
  constructor
  · intro _
    rw [safe_bind, safe_invalidIf]
    intro hlong
    rw [safe_bind, readAt_of_bound (by omega), safe_ok]
    change 36 ≤ 40 + _
    omega
  · exact fun _ => le_rfl

theorem inspectHeader_safe :
    Safe (inspectHeader path cabinet file) fun header => header.Read file := by
  unfold inspectHeader
  rw [safe_bind, safe_invalidIf]
  intro hsize
  simp only [not_or, Nat.not_lt] at hsize
  rw [safe_bind, readAt_of_bound (by omega), safe_ok, List.drop_zero, safe_bind, safe_invalidIf]
  intro hmagic
  simp only [not_or, not_not, List.take_take] at hmagic
  rw [safe_bind, safe_invalidIf]
  intro _
  rw [safe_bind, safe_invalidIf]
  intro _
  apply Safe.bind inspectReserve_safe
  rintro ⟨pos, folderReserve, dataReserve⟩ hpos
  rw [safe_bind, safe_invalidIf]
  intro _
  exact ⟨hsize.1, hmagic.1, u16_take (by omega), u32_take (by omega), hpos⟩

/-- The data of a folder lies in the file; no member is in it yet. -/
structure CabinetFolder.Open (folder : CabinetFolder) (file : Bytes) : Prop where
  files : folder.files = []
  finish : folder.finish ≤ file.length

theorem inspectBlock_safe {dataReserve : Nat} {folder : CabinetFolder} (h : folder.Open file) :
    Safe (inspectBlock path file dataReserve folder) fun folder' => folder'.Open file := by
  unfold inspectBlock
  rw [safe_bind, usub_of_le h.finish, safe_ok, safe_bind, safe_invalidIf]
  intro hblock
  have hroom := h.finish
  rw [safe_bind, readAt_of_bound (by omega), safe_ok, safe_bind, safe_invalidIf]
  intro _
  rw [safe_bind, safe_invalidIf]
  intro hleft
  exact ⟨h.files, by change folder.finish + _ ≤ _; omega⟩

/-- The folders have no members yet; they expand to the sum kept. -/
structure FolderScan.Sound (scan : FolderScan) (header : CabinetHeader) (done : Nat) : Prop where
  folders : scan.folders.length = done
  files : ∀ folder ∈ scan.folders, folder.files = []
  expanded : scan.expanded = (scan.folders.map CabinetFolder.expanded).sum
  limit : scan.expanded ≤ expansionLimit
  pos : header.pos ≤ scan.pos

theorem readAt_safe {offset len : Nat} :
    Safe (readAt path file offset len) fun data => data = (file.drop offset).take len := by
  unfold readAt
  split
  · exact rfl
  · exact trivial

theorem inspectFolder_safe {header : CabinetHeader} {scan : FolderScan} {done : Nat}
    (h : scan.Sound header done) :
    Safe (inspectFolder path cabinet file header scan) fun scan' =>
      scan'.Sound header (done + 1) := by
  unfold inspectFolder
  apply Safe.bind readAt_safe
  intro f _
  rw [safe_bind, safe_invalidIf]
  intro _
  rw [safe_bind, safe_invalidIf]
  intro hstart
  apply Safe.bind (Q := fun folder => folder.Open file)
  · apply foldlM_sat (fun _ (folder : CabinetFolder) => folder.Open file)
    · exact fun _ _ _ folder _ hopen => inspectBlock_safe hopen
    · exact ⟨rfl, Nat.not_lt.mp hstart⟩
  intro folder hopen
  rw [safe_bind, usub_of_le h.limit, safe_ok, safe_bind, safe_invalidIf]
  intro hroom
  have hlimit := h.limit
  refine ⟨by simp [h.folders], ?_, by simp [h.expanded], ?_, ?_⟩
  · simp only [List.mem_append, List.mem_singleton]
    rintro other (hother | rfl)
    · exact h.files other hother
    · exact hopen.files
  · change scan.expanded + folder.expanded ≤ _
    omega
  · exact h.pos.trans (Nat.le_add_right _ _)

/-! ## Members -/

def CabinetMember.entry (member : CabinetMember) : TableEntry :=
  ⟨member.name, member.size, member.date, member.time, member.attributes⟩

/-- What the member loop has found in a file after some records. -/
structure MemberScan.Sound (scan : MemberScan) (file : Bytes) (workspace count : Nat)
    (header : CabinetHeader) (expanded : List Nat) : Prop where
  folders : scan.folders.map CabinetFolder.expanded = expanded
  ranges : ∀ folder ∈ scan.folders, ∀ range ∈ folder.files,
    range.1 ≤ range.2 ∧ range.2 ≤ folder.expanded
  sizes : (scan.members.map CabinetMember.size).sum =
    (scan.folders.map fun folder => rangeBytes folder.files).sum
  names : (scan.members.map CabinetMember.name).Nodup
  safe : ∀ member ∈ scan.members, safeName member.name
  table : FileTable file header.table (scan.members.map CabinetMember.entry) scan.cursor
  inside : scan.cursor ≤ file.length
  numbers : scan.members.map CabinetMember.path =
    (List.range scan.members.length).map fun i => payloadPath workspace (count + i)
  counted : scan.count = count + scan.members.length

/-- One range more in one folder adds its length to the sum. -/
theorem sum_rangeBytes_set {folders : List CabinetFolder} {index : Nat} {folder : CabinetFolder}
    (hfolder : folders[index]? = some folder) (offset size : Nat) :
    ((folders.set index
      { folder with files := folder.files ++ [(offset, offset + size)] }).map
        fun folder => rangeBytes folder.files).sum =
      (folders.map fun folder => rangeBytes folder.files).sum + size := by
  induction folders generalizing index with
  | nil => cases hfolder
  | cons first rest ih =>
      cases index with
      | zero =>
          cases hfolder
          simp only [List.set_cons_zero, List.map_cons, List.sum_cons, rangeBytes_append]
          simp only [rangeBytes, List.map_cons, List.map_nil, List.sum_cons, List.sum_nil]
          omega
      | succ index =>
          simp only [List.set_cons_succ, List.map_cons, List.sum_cons, ih hfolder]
          omega

theorem map_expanded_set {folders : List CabinetFolder} {index : Nat} {folder : CabinetFolder}
    (hfolder : folders[index]? = some folder) (files : List (Nat × Nat)) :
    (folders.set index { folder with files }).map CabinetFolder.expanded =
      folders.map CabinetFolder.expanded := by
  obtain ⟨hindex, rfl⟩ := List.getElem?_eq_some_iff.mp hfolder
  rw [List.map_set, ← List.getElem_map CabinetFolder.expanded (h := by simpa using hindex)]
  exact List.set_getElem_self _

theorem inspectMember_safe {header : CabinetHeader} {scan : MemberScan} {expanded : List Nat}
    (h : scan.Sound file workspace count header expanded)
    (hfolders : header.folders = expanded.length) :
    Safe (inspectMember path file workspace header scan) fun scan' =>
      scan'.Sound file workspace count header expanded ∧
        scan'.members.length = scan.members.length + 1 := by
  unfold inspectMember
  rw [safe_bind, usub_of_le h.inside, safe_ok, safe_bind, safe_invalidIf]
  intro hleft
  have hinside := h.inside
  rw [safe_bind, readAt_of_bound (by omega), safe_ok, safe_bind, safe_invalidIf]
  intro hindex
  set f := (file.drop scan.cursor).take 16 with hf
  have hfixed : f.length = 16 := by
    rw [hf, List.length_take, List.length_drop]
    omega
  -- The scan keeps the number of folders, so the index that was checked is inside.
  have hrange : u16 f 8 < scan.folders.length := by
    have hlength := congrArg List.length h.folders
    rw [List.length_map] at hlength
    omega
  obtain ⟨folder, hfolder⟩ : ∃ folder, scan.folders[u16 f 8]? = some folder :=
    ⟨_, List.getElem?_eq_getElem hrange⟩
  have hmem : folder ∈ scan.folders := List.mem_of_getElem? hfolder
  simp only [hfolder]
  rw [safe_bind, safe_invalidIf]
  intro hoffset
  rw [safe_bind, usub_of_le (Nat.not_lt.mp hoffset), safe_ok, safe_bind, safe_invalidIf]
  intro hsize
  apply Safe.bind (readName_safe (by omega))
  rintro ⟨name, next⟩ ⟨hname, hzero, -, hnext⟩
  dsimp only at hname hzero hnext ⊢
  subst hnext
  rw [safe_bind, safe_invalidIf]
  intro hunique
  simp only [not_or, not_not] at hunique
  have hrecord : OccursAt (f ++ (name ++ [0])) file scan.cursor := by
    refine OccursAt.append (hf ▸ OccursAt.of_bound (by omega)) ?_
    rwa [hfixed]
  refine ⟨?_, by simp⟩
  constructor
  case folders => exact (map_expanded_set hfolder _).trans h.folders
  case ranges =>
    intro other hother range hrange'
    rcases List.mem_or_eq_of_mem_set hother with hold | rfl
    · exact h.ranges other hold range hrange'
    · rcases List.mem_append.mp hrange' with hold | hnew
      · exact h.ranges folder hmem range hold
      · rw [List.mem_singleton] at hnew
        subst hnew
        exact ⟨Nat.le_add_right _ _, by change _ ≤ folder.expanded; omega⟩
  case sizes =>
    rw [sum_rangeBytes_set hfolder, ← h.sizes]
    simp
  case names =>
    simp only [List.map_append, List.map_cons, List.map_nil]
    rw [← List.concat_eq_append]
    exact h.names.concat hunique.2
  case safe =>
    simp only [List.mem_append, List.mem_singleton]
    rintro member (hmember | rfl)
    · exact h.safe member hmember
    · exact hunique.1
  case table =>
    simp only [List.map_append, List.map_cons, List.map_nil]
    exact h.table.snoc ⟨f, hfixed, hrecord, hzero, rfl, rfl, rfl, rfl, by
      change _ = scan.cursor + 17 + name.length
      omega⟩
  case inside =>
    have hbound := hrecord.bound
    simp only [List.length_append, List.length_singleton, hfixed] at hbound
    change scan.cursor + 16 + name.length + 1 ≤ _
    omega
  case numbers =>
    simp only [List.map_append, List.map_cons, List.map_nil, List.length_append,
      List.length_singleton, List.range_succ, h.numbers, h.counted]
  case counted =>
    simp only [List.length_append, List.length_singleton, h.counted]
    omega

/-! ## The whole cabinet -/

/-- The members of an accepted cabinet. -/
structure InspectedMembers (file : Bytes) (workspace count : Nat) (members : List CabinetMember) :
    Prop where
  long : 36 ≤ file.length
  magic : file.take 4 = cabinetMagic
  counted : u16 file 28 = members.length
  table : ∃ finish, FileTable file (u32 file 16) (members.map CabinetMember.entry) finish
  front : 36 ≤ u32 file 16
  names : (members.map CabinetMember.name).Nodup
  safe : ∀ member ∈ members, safeName member.name
  numbers : members.map CabinetMember.path =
    (List.range members.length).map fun i => payloadPath workspace (count + i)

theorem inspectLayout_safe {cursor : Nat} {folders : List CabinetFolder}
    (h : ∀ folder ∈ folders, ∀ range ∈ folder.files,
      range.1 ≤ range.2 ∧ range.2 ≤ folder.expanded) :
    Safe (inspectLayout cursor folders) fun _ =>
      (folders.map fun folder => rangeBytes folder.files).sum ≤
        (folders.map CabinetFolder.expanded).sum := by
  unfold inspectLayout
  apply Safe.bind (Q := fun _ => (folders.map fun folder => rangeBytes folder.files).sum ≤
    (folders.map CabinetFolder.expanded).sum)
  · apply foldlM_sat (fun done _ => (done.map fun folder => rangeBytes folder.files).sum ≤
      (done.map CabinetFolder.expanded).sum)
    · intro done folder rest ranges hsplit hsum
      have hfolder : folder ∈ folders := by simp [hsplit]
      change Safe _ _
      rw [safe_bind, safe_invalidIf]
      intro _
      have hscan : Safe (scanRanges "overlapping cabinet members" 0
          (folder.files.insertionSort rangeLe)) fun _ =>
            0 + rangeBytes (folder.files.insertionSort rangeLe) ≤ folder.expanded := by
        apply scanRanges_sat _ (Nat.zero_le _)
        intro range hrange
        exact h folder hfolder range ((List.perm_insertionSort _ _).mem_iff.mp hrange)
      apply hscan.bind
      intro _ hbytes
      rw [rangeBytes_insertionSort, Nat.zero_add] at hbytes
      simp only [List.map_append, List.map_cons, List.map_nil, List.sum_append, List.sum_cons,
        List.sum_nil]
      exact Nat.add_le_add hsum hbytes
    · exact le_rfl
  · intro ranges hsum
    have hscan (start : Nat) (ranges : List (Nat × Nat)) (reason : String) :
        Safe (scanRanges reason start ranges) fun _ => True := by
      apply foldlM_sat (fun _ _ => True)
      · intro _ range _ finish _ _
        change Safe _ _
        rw [safe_bind, safe_invalidIf]
        exact fun _ => trivial
      · trivial
    apply (hscan _ _ _).bind
    exact fun _ _ => hsum

theorem inspectCabinet_safe (htotal : total ≤ expansionLimit) (hcount : count ≤ memberLimit) :
    Safe (inspectCabinet path cabinet file workspace total count) fun inspected =>
      InspectedMembers file workspace count inspected.members ∧
        inspected.count = count + inspected.members.length ∧ inspected.count ≤ memberLimit ∧
        total + (inspected.members.map CabinetMember.size).sum ≤ inspected.total ∧
        inspected.total ≤ expansionLimit := by
  unfold inspectCabinet
  apply Safe.bind inspectHeader_safe
  intro header hheader
  apply Safe.bind (Q := fun scan => scan.Sound header header.folders)
  · have hfold := foldlM_sat (ε := Exn) (E := Exn.Thrown) (l := List.range header.folders)
      (f := fun scan _ => inspectFolder path cabinet file header scan)
      (b := ⟨[], 0, header.pos⟩) (fun done scan => scan.Sound header done.length)
      (fun done _ _ scan _ hsound => by
        rw [List.length_append]
        exact inspectFolder_safe hsound)
      ⟨rfl, by simp, rfl, Nat.zero_le _, le_rfl⟩
    rwa [List.length_range] at hfold
  intro scan hscan
  rw [safe_bind, safe_invalidIf]
  intro htable
  simp only [not_or, Nat.not_lt] at htable
  rw [safe_bind, usub_of_le hcount, safe_ok, safe_bind, safe_invalidIf]
  intro hfiles
  apply Safe.bind (Q := fun found =>
    found.Sound file workspace count header (scan.folders.map CabinetFolder.expanded) ∧
      found.members.length = header.files)
  · have hfold := foldlM_sat (ε := Exn) (E := Exn.Thrown) (l := List.range header.files)
      (f := fun found _ => inspectMember path file workspace header found)
      (b := ⟨scan.folders, [], count, header.table⟩)
      (fun done found =>
        found.Sound file workspace count header (scan.folders.map CabinetFolder.expanded) ∧
          found.members.length = done.length)
      (fun done _ _ found _ hfound => by
        rw [List.length_append, ← hfound.2]
        exact inspectMember_safe hfound.1 (by rw [List.length_map, hscan.folders]))
      ⟨⟨rfl, fun folder hfolder => by simp [hscan.files folder hfolder], ?_, List.nodup_nil,
        by simp, .nil, htable.2, rfl, rfl⟩, rfl⟩
    · rwa [List.length_range] at hfold
    · -- No folder has a member yet, so both sums start at nothing.
      have hnone : ∀ folder ∈ scan.folders, rangeBytes folder.files = 0 := fun folder hfolder => by
        rw [hscan.files folder hfolder]
        rfl
      rw [List.map_congr_left hnone]
      simp
  rintro found ⟨hfound, hlength⟩
  rw [safe_bind, usub_of_le htotal, safe_ok, safe_bind, safe_invalidIf]
  intro hroom
  apply Safe.bind (inspectLayout_safe hfound.ranges)
  intro _ hsum
  have hexpanded := hscan.expanded
  rw [hfound.folders] at hsum
  refine ⟨⟨hheader.long, hheader.magic, ?_, ⟨_, hheader.table ▸ hfound.table⟩, ?_, hfound.names,
    hfound.safe, hfound.numbers⟩, hfound.counted, ?_, ?_, ?_⟩
  · rw [← hheader.files, hlength]
  · rw [← hheader.table]
    exact hheader.front.trans (hscan.pos.trans htable.1)
  · change found.count ≤ _
    rw [hfound.counted]
    omega
  · have hsizes := hfound.sizes
    change total + (found.members.map CabinetMember.size).sum ≤ total + scan.expanded
    omega
  · change total + scan.expanded ≤ _
    omega

end AasSign
