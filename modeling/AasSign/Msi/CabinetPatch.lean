import AasSign.Msi.CabinetSoundness

/-! # Cabinets with other words

The words for date, time and attributes say nothing about the layout: a cabinet
that differs from another one in such words only is of the format too, with the
same folders and with members of the same names and sizes. The numbers that the
members are given are of no account either.
-/

namespace AasSign

open Foundation

/-- Octets from a place on are the same in both files. -/
def SameFrom (file file' : Bytes) (start : Nat) : Prop := ∀ i, start ≤ i → file'[i]? = file[i]?

/-- The records agree, apart from the words between their tenth and their last fixed octet. -/
def SameRecord (file file' : Bytes) (cursor next : Nat) : Prop :=
  ∀ i, cursor ≤ i → i < next → ¬ (cursor + 10 ≤ i ∧ i < cursor + 16) → file'[i]? = file[i]?

section Congr

variable {file file' : Bytes} {header : CabinetHeader} {folders : List CabinetFolder}
  {start pos cursor next dataReserve : Nat} {entry : TableEntry}

theorem DataBlocks.congr {blocks : List DataBlock} (h : DataBlocks file dataReserve start blocks pos)
    (hlength : file'.length = file.length) (hsame : SameFrom file file' start) :
    DataBlocks file' dataReserve start blocks pos ∧ start ≤ pos := by
  induction h with
  | nil => exact ⟨.nil, le_rfl⟩
  | @snoc blocks pos block next _ hstep ih =>
      obtain ⟨hbefore, hpos⟩ := ih
      obtain ⟨hblock, rfl⟩ := hstep
      have hword (i : Nat) : u16 file' (pos + i) = u16 file (pos + i) :=
        u16_congr fun k _ => hsame _ (by omega)
      refine ⟨hbefore.snoc ⟨⟨?_, ?_, hblock.notEmpty, hblock.notSpanning, hblock.small, ?_⟩, rfl⟩,
        by omega⟩
      · rw [hword, hblock.packed]
      · rw [hword, hblock.unpacked]
      · rw [hlength]
        exact hblock.inside

theorem CabinetFolder.At.congr {folder : CabinetFolder} (h : folder.At file dataReserve pos)
    (hlength : file'.length = file.length) (hrecord : ∀ i, pos ≤ i → i < pos + 8 → file'[i]? = file[i]?)
    (hdata : SameFrom file file' folder.start) : folder.At file' dataReserve pos := by
  obtain ⟨blocks, hblocks, hcount, hexpanded⟩ := h.blocks
  have hword (i : Nat) (hi : i + 2 ≤ 8) : u16 file' (pos + i) = u16 file (pos + i) :=
    u16_congr fun k _ => hrecord _ (by omega) (by omega)
  refine ⟨hlength ▸ h.record, ?_, ?_, hlength ▸ h.inside, ⟨blocks, ?_, ?_, hexpanded⟩, h.fresh⟩
  · rw [hword 6 (by omega)]
    exact h.compression
  · rw [h.start]
    exact u32_congr fun k _ => (hrecord _ (by omega) (by omega)).symm
  · exact (hblocks.congr hlength hdata).1
  · rw [hword 4 (by omega), hcount]

theorem FolderTable.congr (h : FolderTable file header start folders pos)
    (hlength : file'.length = file.length) (hfront : ∀ i < pos, file'[i]? = file[i]?)
    (hdata : ∀ folder ∈ folders, SameFrom file file' folder.start) :
    FolderTable file' header start folders pos := by
  induction h with
  | nil => exact .nil
  | @snoc folders pos folder next _ hstep ih =>
      obtain ⟨hfolder, hlimit, rfl⟩ := hstep
      have hbefore := ih (fun i hi => hfront i (by omega))
        fun other hother => hdata other (List.mem_append_left _ hother)
      refine hbefore.snoc ⟨hfolder.congr hlength (fun i _ hi => hfront i (by omega)) ?_, hlimit, rfl⟩
      exact hdata folder List.mem_concat_self

/-- The header ends where the folder table starts. -/
theorem CabinetHeader.Says.congr (h : header.Says file) (hlength : file'.length = file.length)
    (hfront : ∀ i < header.pos, file'[i]? = file[i]?) : header.Says file' := by
  have hpos : 36 ≤ header.pos := by
    have hreserve := h.reserve
    split at hreserve
    · omega
    · omega
  have hword (i : Nat) (hi : i + 2 ≤ header.pos) : u16 file' i = u16 file i :=
    u16_congr fun k _ => hfront _ (by omega)
  have hdouble (i : Nat) (hi : i + 4 ≤ header.pos) : u32 file' i = u32 file i :=
    u32_congr fun k _ => hfront _ (by omega)
  constructor
  case long => exact hlength ▸ h.long
  case limit => exact hlength ▸ h.limit
  case magic =>
    rw [← h.magic]
    apply List.ext_getElem?
    intro i
    by_cases hi : i < 4
    · rw [List.getElem?_take_of_lt hi, List.getElem?_take_of_lt hi, hfront i (by omega)]
    · rw [List.getElem?_eq_none (by rw [List.length_take]; omega),
        List.getElem?_eq_none (by rw [List.length_take]; omega)]
  case size => rw [hdouble 8 (by omega), h.size, hlength]
  case alone => rw [hword 30 (by omega), h.alone]
  case known => rw [hword 30 (by omega), h.known]
  case folders => rw [hword 26 (by omega), h.folders]
  case files => rw [hword 28 (by omega), h.files]
  case table => rw [hdouble 16 (by omega), h.table]
  case reserve =>
    have hreserve := h.reserve
    rw [hword 30 (by omega), hlength]
    by_cases hflag : u16 file 30 &&& 4 ≠ 0
    · rw [if_pos hflag] at hreserve ⊢
      obtain ⟨hlong, hend, hfolder, hdata⟩ := hreserve
      have hoctet (i : Nat) (hi : i < header.pos) : file'.getD i 0 = file.getD i 0 := by
        rw [List.getD_eq_getElem?_getD, hfront i hi, List.getD_eq_getElem?_getD]
      rw [hword 36 (by omega), hoctet 38 (by omega), hoctet 39 (by omega)]
      exact ⟨hlong, hend, hfolder, hdata⟩
    · rwa [if_neg hflag] at hreserve ⊢
  case inside => exact hlength ▸ h.inside

/-- The record, as it reads with other words. -/
theorem RecordAt.patched (h : RecordAt file cursor entry next)
    (hlength : file'.length = file.length) (hsame : SameRecord file file' cursor next) :
    ∃ entry', RecordAt file' cursor entry' next ∧ entry'.name = entry.name ∧
      entry'.size = entry.size ∧ u16 file' (cursor + 8) = u16 file (cursor + 8) ∧
      u32 file' (cursor + 4) = u32 file (cursor + 4) := by
  have hbound := h.bound
  obtain ⟨fixed, hfixed, hoccurs, hname, hsize, -, -, -, rfl⟩ := h
  have hlow (i : Nat) (hi : i < 10) : file'[cursor + i]? = file[cursor + i]? :=
    hsame _ (by omega) (by omega) (by omega)
  set fixed' := (file'.drop cursor).take 16 with hfixed'
  have hlength' : fixed'.length = 16 := by
    rw [hfixed', List.length_take, List.length_drop]
    omega
  have hfront : OccursAt fixed' file' cursor := hfixed' ▸ OccursAt.of_bound (by omega)
  have hback : OccursAt (entry.name ++ [0]) file' (cursor + fixed'.length) := by
    have hafter := hoccurs.right
    rw [hfixed] at hafter
    rw [hlength']
    refine hafter.congr (fun i hi => hsame _ (by omega) ?_ (by omega)) ?_
    · simp only [List.length_append, List.length_singleton] at hi
      omega
    · simp only [List.length_append, List.length_singleton]
      omega
  refine ⟨⟨entry.name, u32 fixed' 0, u16 fixed' 10, u16 fixed' 12, u16 fixed' 14⟩,
    ⟨fixed', hlength', hfront.append hback, hname, rfl, rfl, rfl, rfl, rfl⟩, rfl, ?_, ?_, ?_⟩
  · rw [hsize]
    apply u32_congr
    intro k hk
    have hnew := hfront.getElem? (i := 0 + k) (by omega)
    have hold := hoccurs.left.getElem? (i := 0 + k) (by omega)
    rw [← hnew, ← hold]
    exact hlow _ (by omega)
  · exact u16_congr fun k _ => (by rw [Nat.add_assoc]; exact hlow _ (by omega))
  · exact u32_congr fun k _ => (by rw [Nat.add_assoc]; exact hlow _ (by omega))

/-- The placement of a member in a cabinet with other words. -/
structure Placement.Alike (placement placement' : Placement) : Prop where
  name : placement'.member.name = placement.member.name
  size : placement'.member.size = placement.member.size
  folder : placement'.folder = placement.folder
  offset : placement'.offset = placement.offset

theorem Placement.Alike.range {placement placement' : Placement}
    (h : placement.Alike placement') : placement'.range = placement.range := by
  rw [Placement.range, h.offset, h.size, Placement.range]

theorem map_name_alike {placements placements' : List Placement}
    (h : List.Forall₂ Placement.Alike placements placements') :
    placements'.map (CabinetMember.name ∘ Placement.member) =
      placements.map (CabinetMember.name ∘ Placement.member) := by
  induction h with
  | nil => rfl
  | cons halike _ ih => simp only [List.map_cons, ih, Function.comp_apply, halike.name]

theorem MemberTable.patched {workspace count : Nat} {placements : List Placement}
    (workspace' count' : Nat)
    (h : MemberTable file folders workspace count start placements cursor)
    (hlength : file'.length = file.length)
    (hrecords : ∀ done pos entry next, FileTable file start done pos →
      done.length < placements.length → RecordAt file pos entry next → SameRecord file file' pos next) :
    ∃ placements', MemberTable file' folders workspace' count' start placements' cursor ∧
      List.Forall₂ Placement.Alike placements placements' := by
  induction h with
  | nil => exact ⟨[], .nil, .nil⟩
  | @snoc placements cursor placement next hbefore hstep ih =>
      obtain ⟨hat, hfresh, -⟩ := hstep
      obtain ⟨placements', htable, halike⟩ := ih fun done pos entry next hdone hshort hrecord =>
        hrecords done pos entry next hdone (hshort.trans (by simp)) hrecord
      have hsame : SameRecord file file' cursor next :=
        hrecords _ cursor _ next (MemberTable.sound hbefore).2.2 (by simp) hat.record
      obtain ⟨entry, hrecord, hname, hsize, hfolder, hoffset⟩ := hat.record.patched hlength hsame
      have hname : entry.name = placement.member.name := hname
      have hsize : entry.size = placement.member.size := hsize
      refine ⟨placements' ++ [⟨⟨entry.name, payloadPath workspace' (count' + placements'.length),
        entry.size, entry.date, entry.time, entry.attributes⟩, placement.folder,
        placement.offset⟩], ?_, ?_⟩
      · refine htable.snoc ⟨⟨hrecord, ?_, ?_, ?_, ?_, ?_⟩, ?_, rfl⟩
        · rw [hfolder]
          exact hat.folder
        · rw [hoffset]
          exact hat.offset
        · simpa only [Placement.range, hsize] using hat.inside
        · exact hname ▸ hat.safe
        · exact hname ▸ hat.short
        · rw [map_name_alike halike]
          exact hname ▸ hfresh
      · exact List.rel_append halike (.cons ⟨hname, hsize, rfl, rfl⟩ .nil)

end Congr

/-! ## Formats -/

section Format

variable {file file' : Bytes} {workspace count : Nat}

/-- The files differ in words of the members at most. -/
structure CabinetFormat.Patched (format : CabinetFormat file workspace count) (file' : Bytes) :
    Prop where
  length : file'.length = file.length
  front : ∀ i < format.header.table, file'[i]? = file[i]?
  data : SameFrom file file' format.finish
  records : ∀ done pos entry next, FileTable file format.header.table done pos →
    done.length < format.placements.length → RecordAt file pos entry next →
    SameRecord file file' pos next

/-- Where a placement puts its member. -/
def Placement.site (placement : Placement) : Nat × Nat × Nat := (placement.folder, placement.range)

theorem map_site_alike {placements placements' : List Placement}
    (h : List.Forall₂ Placement.Alike placements placements') :
    placements'.map Placement.site = placements.map Placement.site := by
  induction h with
  | nil => rfl
  | cons halike _ ih =>
      simp only [List.map_cons, ih, Placement.site, halike.folder, halike.range]

theorem CabinetFormat.patched (format : CabinetFormat file workspace count)
    (h : format.Patched file') (workspace' count' : Nat) :
    ∃ format' : CabinetFormat file' workspace' count', format'.folders = format.folders ∧
      List.Forall₂ Placement.Alike format.placements format'.placements := by
  obtain ⟨placements', htable, halike⟩ :=
    format.memberTable.patched workspace' count' h.length h.records
  have hfront : format.header.pos ≤ format.header.table := by
    have hend := format.folderTable.end_eq
    have htableStart := format.tableStart.1
    omega
  refine ⟨⟨format.header, format.folders, format.front, placements', format.finish,
    format.headerSays.congr h.length fun i hi => h.front i (by omega),
    format.folderTable.congr h.length (fun i hi => h.front i (hi.trans_le format.tableStart.1))
      fun folder hfolder i hi => h.data i ((format.dataStart folder hfolder).trans hi),
    format.folderCount, ⟨format.tableStart.1, h.length ▸ format.tableStart.2⟩, htable, ?_,
    format.dataStart, format.foldersApart, ?_⟩, rfl, halike⟩
  · rw [← halike.length_eq]
    exact format.memberCount
  · have hsites (placements : List Placement) :
        (placements.Pairwise fun a b => a.folder = b.folder → Apart a.range b.range) ↔
          (placements.map Placement.site).Pairwise fun a b => a.1 = b.1 → Apart a.2 b.2 := by
      rw [List.pairwise_map]
      rfl
    rw [hsites, map_site_alike halike, ← hsites]
    exact format.membersApart

/-- The same cabinet, with its members numbered otherwise. -/
theorem CabinetFormat.renumbered (format : CabinetFormat file workspace count)
    (workspace' count' : Nat) : ∃ format' : CabinetFormat file workspace' count',
      format'.folders = format.folders ∧
      format'.placements.map (CabinetMember.entry ∘ Placement.member) =
        format.placements.map (CabinetMember.entry ∘ Placement.member) := by
  have hsame : format.Patched file :=
    ⟨rfl, fun _ _ => rfl, fun _ _ => rfl, fun _ _ _ _ _ _ _ _ _ _ _ => rfl⟩
  obtain ⟨format', hfolders, halike⟩ := format.patched hsame workspace' count'
  refine ⟨format', hfolders, ?_⟩
  have htable := format.memberTable.sound.2.2
  have htable' := format'.memberTable.sound.2.2
  rw [format.headerSays.table] at htable
  rw [format'.headerSays.table] at htable'
  exact (htable'.unique htable (by simp [halike.length_eq])).1

end Format

end AasSign
