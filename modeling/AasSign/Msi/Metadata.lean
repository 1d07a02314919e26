import AasSign.Msi.FileTable
import AasSign.Msi.Rewrite
import AasSign.Msi.Untouched

/-! # Metadata of a rebuilt cabinet

`preserve_cabinet_metadata` patches the words for date, time and attributes in
the records of the file table. Nothing else of the cabinet changes, and the
table it leaves lists the members as they were.
-/

namespace AasSign

open Foundation Program

/-! ## Patches -/

section Overwrite

variable {file chunk : Bytes} {off i : Nat}

theorem length_overwrite (h : off + chunk.length ≤ file.length) :
    (overwrite file off chunk).length = file.length := by
  simp only [overwrite, List.length_append, List.length_take, List.length_replicate,
    List.length_drop]
  omega

theorem overwrite_eq (h : off + chunk.length ≤ file.length) :
    overwrite file off chunk = file.take off ++ (chunk ++ file.drop (off + chunk.length)) := by
  have hpad : off - file.length = 0 := by omega
  simp [overwrite, hpad]

theorem getElem?_overwrite_left (h : off + chunk.length ≤ file.length) (hi : i < off) :
    (overwrite file off chunk)[i]? = file[i]? := by
  have hlength : (file.take off).length = off := by
    rw [List.length_take]
    omega
  rw [overwrite_eq h, List.getElem?_append_left (by omega), List.getElem?_take_of_lt hi]

theorem occursAt_overwrite (h : off + chunk.length ≤ file.length) :
    OccursAt chunk (overwrite file off chunk) off := by
  refine ⟨file.take off, file.drop (off + chunk.length), overwrite_eq h, ?_⟩
  rw [List.length_take]
  omega

theorem getElem?_overwrite_right (h : off + chunk.length ≤ file.length)
    (hi : off + chunk.length ≤ i) : (overwrite file off chunk)[i]? = file[i]? := by
  have hlength : (file.take off).length = off := by
    rw [List.length_take]
    omega
  rw [overwrite_eq h, List.getElem?_append_right (by omega), hlength,
    List.getElem?_append_right (by omega), List.getElem?_drop]
  congr 1
  omega

end Overwrite

section Words

/-- Writing a word and reading it back. -/
theorem u16_of_occursAt {value i : Nat} {p : Bytes} (h : value < 2 ^ 16)
    (hoccurs : OccursAt (octets16 value) p i) : u16 p i = value := by
  have hlow : (UInt8.ofNat value).toNat = value % 2 ^ 8 := UInt8.toNat_ofNat'
  have hhigh : (UInt8.ofNat (value >>> 8)).toNat = value / 2 ^ 8 := by
    rw [UInt8.toNat_ofNat', Nat.shiftRight_eq_div_pow]
    omega
  have hfirst : p[i]? = some (UInt8.ofNat value) := hoccurs.getElem? (i := 0) Nat.zero_lt_two
  have hsecond : p[i + 1]? = some (UInt8.ofNat (value >>> 8)) :=
    hoccurs.getElem? (i := 1) Nat.one_lt_two
  rw [u16_eq, List.getD_eq_getElem?_getD, List.getD_eq_getElem?_getD, hfirst, hsecond,
    Option.getD_some, Option.getD_some, hlow, hhigh]
  omega

/-- The words of a member that a record has room for. -/
structure CabinetMember.Fits (member : CabinetMember) : Prop where
  date : member.date < 2 ^ 16
  time : member.time < 2 ^ 16
  attributes : member.attributes < 2 ^ 16

@[simp] theorem length_metadata (member : CabinetMember) : (metadata member).length = 6 := rfl

end Words

/-- A record with the words of a member in it. -/
def TableEntry.restore (entry : TableEntry) (member : CabinetMember) : TableEntry :=
  { entry with date := member.date, time := member.time, attributes := member.attributes }

/-- Patching the words of a record makes it a record with these words. -/
theorem RecordAt.restored {file : Bytes} {cursor next : Nat} {entry : TableEntry}
    {member : CabinetMember} (h : RecordAt file cursor entry next) (hmember : member.Fits) :
    RecordAt (overwrite file (cursor + 10) (metadata member)) cursor (entry.restore member)
      next := by
  have hbound := h.bound
  obtain ⟨fixed, hfixed, hoccurs, hname, hsize, -, -, -, rfl⟩ := h
  have hpatch : cursor + 10 + (metadata member).length ≤ file.length := by
    rw [length_metadata]
    omega
  have hlength := length_overwrite hpatch
  have htake : (fixed.take 10).length = 10 := by
    rw [List.length_take]
    omega
  have hfront : OccursAt (fixed.take 10) (overwrite file (cursor + 10) (metadata member))
      cursor := by
    have hbefore : OccursAt (fixed.take 10 ++ (fixed.drop 10 ++ (entry.name ++ [0]))) file
        cursor := by
      rwa [← List.append_assoc, List.take_append_drop]
    refine hbefore.left.congr (fun i hi => getElem?_overwrite_left hpatch (by omega)) ?_
    omega
  have hback : OccursAt (entry.name ++ [0]) (overwrite file (cursor + 10) (metadata member))
      (cursor + 10 + 6) := by
    have hafter := hoccurs.right
    rw [hfixed] at hafter
    refine hafter.congr (fun i hi => getElem?_overwrite_right hpatch ?_) ?_
    · rw [length_metadata]
      omega
    · simp only [List.length_append, List.length_singleton]
      omega
  refine ⟨fixed.take 10 ++ metadata member, by simp [htake], ?_, hname, ?_, ?_, ?_, ?_, rfl⟩
  · rw [List.append_assoc]
    refine hfront.append (OccursAt.append ?_ ?_)
    · rw [htake]
      exact occursAt_overwrite hpatch
    · rwa [htake, length_metadata]
  · rw [TableEntry.restore, hsize]
    apply u32_congr
    intro k hk
    rw [List.getElem?_append_left (by omega), List.getElem?_take_of_lt (by omega)]
  · exact (u16_of_occursAt hmember.date ⟨fixed.take 10,
      octets16 member.time ++ octets16 member.attributes, by simp [metadata], htake⟩).symm
  · exact (u16_of_occursAt hmember.time ⟨fixed.take 10 ++ octets16 member.date,
      octets16 member.attributes, by simp [metadata], by simp [htake, octets16]⟩).symm
  · exact (u16_of_occursAt hmember.attributes ⟨fixed.take 10 ++ (octets16 member.date ++
      octets16 member.time), [], by simp [metadata], by simp [htake, octets16]⟩).symm

theorem FileTable.words_lt {file : Bytes} {start finish : Nat} {entries : List TableEntry}
    (h : FileTable file start entries finish) : ∀ entry ∈ entries,
      entry.date < 2 ^ 16 ∧ entry.time < 2 ^ 16 ∧ entry.attributes < 2 ^ 16 := by
  induction h with
  | nil => simp
  | snoc before record ih =>
      obtain ⟨fixed, -, -, -, -, hdate, htime, hattributes, -⟩ := record
      simp only [List.mem_append, List.mem_singleton]
      rintro entry (hentry | rfl)
      · exact ih entry hentry
      · exact ⟨hdate ▸ u16_lt _, htime ▸ u16_lt _, hattributes ▸ u16_lt _⟩

theorem FileTable.fits {file : Bytes} {start finish : Nat} {members : List CabinetMember}
    (h : FileTable file start (members.map CabinetMember.entry) finish) :
    ∀ member ∈ members, member.Fits := by
  intro member hmember
  obtain ⟨hdate, htime, hattributes⟩ := h.words_lt _ (List.mem_map_of_mem hmember)
  exact ⟨hdate, htime, hattributes⟩

/-! ## One record -/

/-- The octet is in a metadata word of the file table. -/
def MetadataOctet (cabinet : Bytes) (i : Nat) : Prop :=
  ∃ entries cursor entry next, FileTable cabinet (u32 cabinet 16) entries cursor ∧
    entries.length < u16 cabinet 28 ∧ RecordAt cabinet cursor entry next ∧
    cursor + 10 ≤ i ∧ i < cursor + 16

/-- Two cabinets that differ in metadata words at most. -/
structure MetadataOnly (cabinet patched : Bytes) : Prop where
  length : patched.length = cabinet.length
  same : ∀ i, ¬ MetadataOctet cabinet i → patched[i]? = cabinet[i]?

theorem MetadataOnly.refl (cabinet : Bytes) : MetadataOnly cabinet cabinet :=
  ⟨rfl, fun _ _ => rfl⟩

/-- The header comes before every metadata word. -/
theorem MetadataOnly.front {cabinet patched : Bytes} (h : MetadataOnly cabinet patched) {i : Nat}
    (hi : i < u32 cabinet 16) : patched[i]? = cabinet[i]? := by
  apply h.same
  rintro ⟨entries, cursor, entry, next, htable, -, -, hlow, -⟩
  have hstart := htable.le
  omega

section Restore

variable {env : Env} {lib : MsiLibrary} {path : Path} {cursor : Nat} {member : CabinetMember}
  {members : List CabinetMember} {w : World}

/-- The record of a member in a rebuilt cabinet. -/
def CabinetMember.rebuilt (w : World) (member : CabinetMember) : TableEntry :=
  { member.entry with size := fileSize w member.path }

/-- What one pass finds in the file table, and what it changes. -/
structure MemberRestored (path : Path) (cursor : Nat) (member : CabinetMember) (w w' : World)
    (next : Nat) (file : Bytes) (entry : TableEntry) : Prop where
  held : w.files path = some file
  record : RecordAt file cursor entry next
  restored : entry.restore member = member.rebuilt w
  short : member.name.length ≤ 255
  payload : ∃ data, w.files member.path = some data
  patched : w'.files path = some (overwrite file (cursor + 10) (metadata member))
  elsewhere : ∀ other ≠ path, w'.files other = w.files other

/-- One step: the record is the member's, and its words are patched. -/
theorem restoreMember_ends : Ends (restoreMember env path cursor member) w
    (fun next w' => ∃ file entry, MemberRestored path cursor member w w' next file entry)
    fun e _ => e.Thrown := by
  rw [restoreMember, ends_bind]
  apply ends_readFile
  swap
  · exact fun what => trivial
  intro file hfile
  rw [ends_bind]
  apply ends_lift_safe invalidIf_safe
  swap
  · exact fun _ => id
  intro _ hcursor
  rw [ends_bind, ends_lift, usub_of_le (Nat.not_lt.mp hcursor), sat_ok, ends_bind]
  apply ends_lift_safe invalidIf_safe
  swap
  · exact fun _ => id
  intro _ hroom
  rw [ends_bind, ends_lift, readAt_of_bound (by omega), sat_ok, ends_bind]
  apply ends_readFile
  swap
  · exact fun what => trivial
  intro payload hpayload
  -- The payload is read only for its length, which the record of the rebuilt table must have.
  have hsize : fileSize w member.path = payload.length := by
    rw [fileSize, show w.files member.path = some payload from hpayload]
    rfl
  rw [ends_bind]
  apply ends_lift_safe invalidIf_safe
  swap
  · exact fun _ => id
  intro _ hlength
  rw [not_not] at hlength
  rw [ends_bind]
  apply ends_lift_safe (readName_safe (by omega))
  swap
  · exact fun _ => id
  rintro ⟨name, next⟩ ⟨hname, hzero, hshort, hnext⟩
  dsimp only at hname hzero hshort hnext ⊢
  rw [ends_bind]
  apply ends_lift_safe invalidIf_safe
  swap
  · exact fun _ => id
  intro _ hsame
  rw [not_not] at hsame
  rw [ends_bind]
  apply ends_writeFile
  swap
  · exact fun _ _ => trivial
  intro hholds
  have hfixed : ((file.drop cursor).take 16).length = 16 := by
    rw [List.length_take, List.length_drop]
    omega
  have hrecord : OccursAt ((file.drop cursor).take 16) file cursor := OccursAt.of_bound (by omega)
  refine ⟨file, ⟨name, u32 ((file.drop cursor).take 16) 0, _, _, _⟩, hfile,
    ⟨(file.drop cursor).take 16, hfixed, hrecord.append ?_, hzero, rfl, rfl, rfl, rfl, ?_⟩, ?_,
    hsame ▸ hshort, ⟨payload, hpayload⟩, World.files_set_self hholds,
    fun other hother => World.files_set_ne hother⟩
  · rwa [hfixed]
  · change next = cursor + 17 + name.length
    omega
  · simp only [TableEntry.restore, CabinetMember.rebuilt, CabinetMember.entry, hsame, hsize,
      hlength]

/-- A cabinet with the words of the first members put back. -/
structure Restoring (raw : Bytes) (w : World) (done : List CabinetMember) (cursor : Nat)
    (file : Bytes) : Prop where
  patched : MetadataOnly raw file
  rest : ∀ i, cursor ≤ i → file[i]? = raw[i]?
  original : ∃ entries, FileTable raw (u32 raw 16) entries cursor ∧ entries.length = done.length
  table : FileTable file (u32 raw 16) (done.map (CabinetMember.rebuilt w)) cursor

theorem Restoring.snoc {raw file : Bytes} {done : List CabinetMember} {entry : TableEntry}
    {next : Nat} (h : Restoring raw w done cursor file) (hcount : done.length < u16 raw 28)
    (hrecord : RecordAt file cursor entry next) (hentry : entry.restore member = member.rebuilt w)
    (hfits : member.Fits) :
    Restoring raw w (done ++ [member]) next
      (overwrite file (cursor + 10) (metadata member)) := by
  obtain ⟨entries, hentries, hlength⟩ := h.original
  have hbound := hrecord.bound
  have hnext : cursor + 17 ≤ next := by
    obtain ⟨fixed, -, -, -, -, -, -, -, rfl⟩ := hrecord
    omega
  have hroom : cursor + 10 + (metadata member).length ≤ file.length := by
    rw [length_metadata]
    omega
  have hraw : RecordAt raw cursor entry next :=
    hrecord.congr (fun i hi _ => (h.rest i hi).symm) h.patched.length.symm
  refine ⟨⟨(length_overwrite hroom).trans h.patched.length, fun i hi => ?_⟩, fun i hi => ?_,
    ⟨entries ++ [entry], .snoc hentries hraw, by simp [hlength]⟩, ?_⟩
  · have hsame := h.patched.same i hi
    by_cases hleft : i < cursor + 10
    · rw [getElem?_overwrite_left hroom hleft, hsame]
    · by_cases hright : i < cursor + 16
      · exact absurd ⟨entries, cursor, entry, next, hentries, hlength ▸ hcount, hraw,
          Nat.le_of_not_lt hleft, hright⟩ hi
      · rw [getElem?_overwrite_right hroom (by rw [length_metadata]; omega), hsame]
  · rw [getElem?_overwrite_right hroom (by rw [length_metadata]; omega)]
    exact h.rest i (by omega)
  · rw [List.map_append, List.map_singleton, ← hentry]
    refine .snoc (h.table.congr (fun i _ hi => getElem?_overwrite_left hroom (by omega))
      (length_overwrite hroom)) ?_
    exact hrecord.restored hfits

/-- The record has the member's name, and the size of its payload. -/
structure TableEntry.Lists (w : World) (entry : TableEntry) (member : CabinetMember) : Prop where
  name : entry.name = member.name
  size : entry.size = fileSize w member.path
  short : member.name.length ≤ 255

/-- The loop after the members done: their records are theirs, and have their words back. -/
structure Relisting (path : Path) (raw : Bytes) (w : World) (done : List CabinetMember)
    (cursor : Nat) (w' : World) : Prop where
  file : ∃ file, w'.files path = some file ∧ Restoring raw w done cursor file
  original : ∃ entries, FileTable raw (u32 raw 16) entries cursor ∧
    List.Forall₂ (TableEntry.Lists w) entries done
  payloads : ∀ member ∈ done, ∃ data, w.files member.path = some data
  elsewhere : ∀ other ≠ path, w'.files other = w.files other

/-- Payloads keep their sizes, also one that is the cabinet itself. -/
theorem Relisting.fileSize_eq {raw : Bytes} {done : List CabinetMember} {w' : World}
    (hraw : w.files path = some raw) (h : Relisting path raw w done cursor w') (other : Path) :
    fileSize w' other = fileSize w other := by
  by_cases hother : other = path
  · obtain ⟨file, hfile, hrestoring⟩ := h.file
    subst hother
    rw [fileSize, fileSize, hfile, hraw]
    exact hrestoring.patched.length
  · rw [fileSize, fileSize, h.elsewhere other hother]

theorem Relisting.snoc {raw file : Bytes} {done : List CabinetMember} {w' w'' : World}
    {next : Nat} {entry : TableEntry} (hraw : w.files path = some raw)
    (h : Relisting path raw w done cursor w') (hcount : done.length < u16 raw 28)
    (hstep : MemberRestored path cursor member w' w'' next file entry) (hfits : member.Fits) :
    Relisting path raw w (done ++ [member]) next w'' := by
  obtain ⟨file', hfile', hrestoring⟩ := h.file
  obtain rfl : file = file' := Option.some.inj (hstep.held.symm.trans hfile')
  obtain ⟨entries, hentries, hlists⟩ := h.original
  have hentry : entry.restore member = member.rebuilt w := by
    rw [hstep.restored, CabinetMember.rebuilt, h.fileSize_eq hraw, CabinetMember.rebuilt]
  have hrecord : RecordAt raw cursor entry next :=
    hstep.record.congr (fun i hi _ => (hrestoring.rest i hi).symm) hrestoring.patched.length.symm
  refine ⟨⟨_, hstep.patched, hrestoring.snoc hcount hstep.record hentry hfits⟩,
    ⟨entries ++ [entry], .snoc hentries hrecord, List.rel_append hlists (.cons ?_ .nil)⟩,
    fun other hother => ?_, fun other hother => ?_⟩
  · exact ⟨congrArg TableEntry.name hentry, congrArg TableEntry.size hentry, hstep.short⟩
  · rcases List.mem_append.mp hother with hdone | hlast
    · exact h.payloads other hdone
    · obtain rfl := List.mem_singleton.mp hlast
      obtain ⟨data, hdata⟩ := hstep.payload
      by_cases hpath : other.path = path
      · exact ⟨raw, hpath ▸ hraw⟩
      · exact ⟨data, (h.elsewhere _ hpath).symm.trans hdata⟩
  · rw [hstep.elsewhere other hother, h.elsewhere other hother]

/-- What is found and left where `preserve_cabinet_metadata` returns. -/
structure Preserved (path : Path) (members : List CabinetMember) (w w' : World)
    (raw file : Bytes) (finish : Nat) : Prop where
  before : w.files path = some raw
  after : w'.files path = some file
  patched : MetadataOnly raw file
  long : 36 ≤ raw.length
  count : u16 raw 28 = members.length
  magic : raw.take 4 = cabinetMagic
  table : FileTable file (u32 raw 16) (members.map (CabinetMember.rebuilt w)) finish
  original : ∃ entries, FileTable raw (u32 raw 16) entries finish ∧
    List.Forall₂ (TableEntry.Lists w) entries members
  payloads : ∀ member ∈ members, ∃ data, w.files member.path = some data
  elsewhere : ∀ other ≠ path, w'.files other = w.files other

/-- The cabinet that is left lists the members in order, with their words; the rest
of it is as it was built. -/
theorem preserveCabinetMetadata_ends (hfits : ∀ member ∈ members, member.Fits) :
    Ends (preserveCabinetMetadata env path members) w
      (fun _ w' => ∃ raw file finish, Preserved path members w w' raw file finish)
      fun e _ => e.Thrown := by
  rw [preserveCabinetMetadata, ends_bind]
  apply ends_readFile
  swap
  · exact fun what => trivial
  intro raw hraw
  rw [ends_bind]
  apply ends_lift_safe invalidIf_safe
  swap
  · exact fun _ => id
  intro _ hlong
  rw [ends_bind, ends_lift, readAt_of_bound (by omega), sat_ok, ends_bind]
  apply ends_lift_safe invalidIf_safe
  swap
  · exact fun _ => id
  intro _ hheader
  simp only [not_or, not_not, List.drop_zero] at hheader
  rw [ends_bind]
  have htable : u32 ((raw.drop 0).take 36) 16 = u32 raw 16 :=
    u32_congr fun k hk => List.getElem?_take_of_lt (by omega)
  have hcount : u16 (raw.take 36) 28 = u16 raw 28 :=
    u16_congr fun k hk => List.getElem?_take_of_lt (by omega)
  rw [htable]
  rw [hcount, List.take_take] at hheader
  have hloop : Ends (foldItems (restoreMember env path) (u32 raw 16) members) w.tick
      (fun cursor w' => Relisting path raw w members cursor w') fun e _ => e.Thrown := by
    apply ends_foldItems (fun done cursor (w' : World) => Relisting path raw w done cursor w')
    · intro done member rest cursor w' hsplit hrelisting
      apply restoreMember_ends.mono
      swap
      · exact fun _ _ => id
      rintro next w'' ⟨file, entry, hstep⟩
      refine hrelisting.snoc hraw ?_ hstep (hfits member (by simp [hsplit]))
      rw [hheader.2, hsplit]
      simp
    · exact ⟨⟨raw, hraw, .refl raw, fun _ _ => rfl, ⟨[], .nil, rfl⟩, .nil⟩, ⟨[], .nil, .nil⟩,
        by simp, fun _ _ => rfl⟩
  apply hloop.mono
  swap
  · exact fun _ _ => id
  intro finish w' hrelisting
  obtain ⟨file, hfile, hrestoring⟩ := hrelisting.file
  apply ends_attempt
  · exact ⟨raw, file, finish, hraw, hfile, hrestoring.patched, Nat.le_of_not_lt hlong, hheader.2,
      hheader.1, hrestoring.table, hrelisting.original, hrelisting.payloads,
      hrelisting.elsewhere⟩
  · exact fun what => trivial

/-- What a member goes into a rebuilt cabinet with. -/
def packed (w : World) (member : CabinetMember) : PackedFile :=
  packMember member ((w.files member.path).getD [])

theorem createCabinet_ends : Ends (createCabinet env lib path members) w
    (fun _ w' => (∃ cabinet, lib.pack (members.map (packed w)) = .ok cabinet ∧
      w'.files path = some cabinet) ∧
      ∀ member ∈ members, ∃ data, w.files member.path = some data)
    fun e _ => e.Thrown := by
  rw [createCabinet, ends_bind]
  have hloop : Ends (foldItems (fun contents member => do
        let data ← readFile env member.path
        return contents ++ [packMember member data]) [] members) w
      (fun contents w' => w'.files = w.files ∧ contents = members.map (packed w) ∧
        ∀ member ∈ members, ∃ data, w.files member.path = some data)
      fun e _ => e.Thrown := by
    apply ends_foldItems (fun done contents (w' : World) => w'.files = w.files ∧
      contents = done.map (packed w) ∧ ∀ member ∈ done, ∃ data, w.files member.path = some data)
    · rintro done member rest contents w' - ⟨hfiles, rfl, hdone⟩
      rw [ends_bind]
      apply ends_readFile
      · intro data hdata
        rw [hfiles] at hdata
        refine ⟨hfiles, by simp [packed, hdata], ?_⟩
        simp only [List.mem_append, List.mem_singleton]
        rintro other (hother | rfl)
        · exact hdone other hother
        · exact ⟨data, hdata⟩
      · exact fun what => trivial
    · exact ⟨rfl, rfl, by simp⟩
  apply hloop.mono
  swap
  · exact fun _ _ => id
  rintro contents w' ⟨hfiles, rfl, hall⟩
  rw [ends_bind, ends_lift]
  cases hpack : lib.pack (members.map (packed w)) with
  | error what => trivial
  | ok cabinet =>
      apply ends_writeFile
      · exact fun hholds => ⟨⟨cabinet, rfl, World.files_set_self hholds⟩, hall⟩
      · exact fun _ _ => trivial

end Restore

end AasSign
