import AasSign.Msi.Acceptance
import AasSign.Msi.Budget
import AasSign.Msi.CabinetSoundness
import AasSign.Msi.Metadata

/-! # The file table after the restoring

The file table as `inspect_cabinet` walks it, and what `preserve_cabinet_metadata` makes
of it: the members with their words in order, for every cabinet whose table is behind the
header. A second run finds nothing to change.
-/

namespace AasSign

open Foundation Program

/-- A record of the file table as `inspect_cabinet` reads it, and where the next one is. -/
def readTableEntry (path : Path) (file : Bytes) (cursor : Nat) : Except Exn (TableEntry × Nat) := do
  let left ← usub file.length cursor
  invalidIf (left < 17) "truncated cabinet file record"
  let f ← readAt path file cursor 16
  let (name, next) ← readName path file "invalid cabinet member name" (cursor + 16)
  return (⟨name, u32 f 0, u16 f 10, u16 f 12, u16 f 14⟩, next)

/-- The walk of `inspect_cabinet` over the file table. -/
def readFileTable (path : Path) (file : Bytes) : Except Exn (List TableEntry) := do
  let walk ← (List.range (u16 file 28)).foldlM (fun walk _ => do
    let (entry, next) ← readTableEntry path file walk.2
    return (walk.1 ++ [entry], next)) (([] : List TableEntry), u32 file 16)
  return walk.1

section Reading

variable {path : Path} {file file' : Bytes} {start cursor finish finish' : Nat} {entry : TableEntry}
  {entries : List TableEntry}

theorem readTableEntry_eq_ok {next : Nat} :
    readTableEntry path file cursor = .ok (entry, next) ↔
      RecordAt file cursor entry next ∧ entry.name.length ≤ 255 := by
  unfold readTableEntry
  simp only [bind_eq_ok, usub_eq_ok, invalidIf_eq_ok, readAt_eq_ok_iff (show 16 ≠ 0 by decide),
    Nat.not_lt]
  constructor
  · rintro ⟨left, ⟨-, rfl⟩, _, hroom, f, ⟨-, rfl⟩, ⟨name, after⟩, hname, hresult⟩
    rw [readName_eq_ok (by omega)] at hname
    obtain ⟨hoccurs, hzero, hshort, rfl⟩ := hname
    obtain ⟨rfl, rfl⟩ := Prod.mk.inj (Except.ok.inj hresult)
    have hfixed : ((file.drop cursor).take 16).length = 16 := by
      rw [List.length_take, List.length_drop]
      omega
    refine ⟨⟨_, hfixed, OccursAt.append (OccursAt.of_bound (by omega)) ?_, hzero, rfl, rfl, rfl,
      rfl, ?_⟩, hshort⟩
    · rwa [hfixed]
    · dsimp only
      omega
  · rintro ⟨hrecord, hshort⟩
    have hbound := hrecord.bound
    obtain ⟨fixed, hfixed, hoccurs, hzero, hsize, hdate, htime, hattributes, rfl⟩ := hrecord
    obtain rfl : (file.drop cursor).take 16 = fixed := by
      rw [← hfixed]
      exact hoccurs.left.eq_take_drop.symm
    have hright := hoccurs.right
    rw [hfixed] at hright
    refine ⟨_, ⟨by omega, rfl⟩, (), by omega, _, ⟨by omega, rfl⟩, _,
      readName_of_occurs hright hzero hshort, ?_⟩
    rw [← hsize, ← hdate, ← htime, ← hattributes]
    simp only [pure, Except.pure, Except.ok.injEq, Prod.mk.injEq, true_and]
    omega

/-- The records with short names from a place on. -/
def TableWalk (file : Bytes) : Nat → List TableEntry → Nat → Prop :=
  Walk fun _ cursor entry next => RecordAt file cursor entry next ∧ entry.name.length ≤ 255

theorem tableWalk_iff : TableWalk file start entries cursor ↔
    FileTable file start entries cursor ∧ ∀ entry ∈ entries, entry.name.length ≤ 255 := by
  constructor
  · intro h
    induction h with
    | nil => exact ⟨.nil, by simp⟩
    | snoc _ hnext ih =>
        refine ⟨ih.1.snoc hnext.1, fun other hother => ?_⟩
        rcases List.mem_append.mp hother with hbefore | hlast
        · exact ih.2 other hbefore
        · rw [List.mem_singleton.mp hlast]
          exact hnext.2
  · rintro ⟨htable, hshort⟩
    induction htable with
    | nil => exact .nil
    | snoc _ hrecord ih =>
        exact (ih fun other hother => hshort other (List.mem_append_left _ hother)).snoc
          ⟨hrecord, hshort _ List.mem_concat_self⟩

/-- One more record of the walk. -/
theorem readTableEntry_step {s : Nat} {t : List TableEntry × Nat} :
    (do let (entry, next) ← readTableEntry path file s; return (entries ++ [entry], next)) =
        Except.ok t ↔
      ∃ item s', (RecordAt file s item s' ∧ item.name.length ≤ 255) ∧ t = (entries ++ [item], s') := by
  rw [bind_eq_ok]
  constructor
  · rintro ⟨⟨item, s'⟩, hread, ht⟩
    exact ⟨item, s', readTableEntry_eq_ok.mp hread, (Except.ok.inj ht).symm⟩
  · rintro ⟨item, s', hread, rfl⟩
    exact ⟨⟨item, s'⟩, readTableEntry_eq_ok.mpr hread, rfl⟩

/-- The walk lists a table of as many records as the header says, all with short names. -/
theorem readFileTable_eq_ok : readFileTable path file = .ok entries ↔
    entries.length = u16 file 28 ∧ (∃ finish, FileTable file (u32 file 16) entries finish) ∧
      ∀ entry ∈ entries, entry.name.length ≤ 255 := by
  have hloop (walk : List TableEntry × Nat) :=
    foldlM_range_eq_ok (t := walk) (g := Prod.mk)
      (f := fun walk => do
        let (entry, next) ← readTableEntry path file walk.2
        return (walk.1 ++ [entry], next))
      (fun items s t (_ : TableWalk file (u32 file 16) items s) => readTableEntry_step)
      (u16 file 28)
  rw [readFileTable, bind_eq_ok]
  constructor
  · rintro ⟨walk, hfound, hresult⟩
    obtain ⟨items, finish, hlength, hwalk, rfl⟩ := (hloop walk).mp hfound
    obtain rfl : items = entries := Except.ok.inj hresult
    obtain ⟨htable, hshort⟩ := tableWalk_iff.mp hwalk
    exact ⟨hlength, ⟨finish, htable⟩, hshort⟩
  · rintro ⟨hlength, ⟨finish, htable⟩, hshort⟩
    exact ⟨(entries, finish), (hloop _).mpr ⟨entries, finish, hlength,
      tableWalk_iff.mpr ⟨htable, hshort⟩, rfl⟩, rfl⟩

/-- What `inspect_cabinet` lists is what the walk finds. -/
theorem inspectCabinet_entries {cabinet : Bytes} {workspace total count : Nat}
    {inspected : Inspected}
    (h : inspectCabinet path cabinet file workspace total count = .ok inspected) :
    readFileTable path file = .ok (inspected.members.map CabinetMember.entry) := by
  obtain ⟨format, -, -, rfl⟩ := inspectCabinet_eq_ok.mp h
  obtain ⟨hsound, -, htable⟩ := format.memberTable.sound
  rw [format.headerSays.table] at htable
  rw [CabinetFormat.inspected, List.map_map, readFileTable_eq_ok]
  refine ⟨?_, ⟨_, htable⟩, fun entry hentry => ?_⟩
  · rw [List.length_map, format.memberCount, format.headerSays.files]
  · obtain ⟨placement, hplacement, rfl⟩ := List.mem_map.mp hentry
    exact (hsound placement hplacement).short

end Reading

/-! ## Once more -/

section Words

variable {path : Path} {file chunk : Bytes} {start cursor finish next off : Nat}
  {entry : TableEntry} {member : CabinetMember} {all before after : List TableEntry}

/-- A record of a table, with the part of the table before it. -/
theorem FileTable.split (h : FileTable file start all finish)
    (hsplit : all = before ++ entry :: after) :
    ∃ pos next, FileTable file start before pos ∧ RecordAt file pos entry next := by
  induction h generalizing before after with
  | nil => simp at hsplit
  | snoc hbefore hrecord ih =>
      rcases List.eq_nil_or_concat after with rfl | ⟨after, last, rfl⟩
      · obtain ⟨rfl, heq⟩ := List.append_inj' hsplit rfl
        obtain rfl := (List.cons.inj heq).1
        exact ⟨_, _, hbefore, hrecord⟩
      · rw [List.concat_eq_append, ← List.cons_append, ← List.append_assoc] at hsplit
        exact ih (List.append_inj' hsplit rfl).1

/-- The octets of a word that was read. -/
theorem octets16_u16 {p : Bytes} {i : Nat} (h : i + 2 ≤ p.length) :
    octets16 (u16 p i) = (p.drop i).take 2 := by
  rw [u16_eq, List.getD_eq_getElem _ _ (by omega), List.getD_eq_getElem _ _ (by omega),
    List.drop_eq_getElem_cons (by omega), List.drop_eq_getElem_cons (by omega)]
  have hlow := UInt8.toNat_lt p[i]
  have hhigh := UInt8.toNat_lt p[i + 1]
  simp only [octets16, List.take_succ_cons, List.take_zero, Nat.shiftRight_eq_div_pow,
    List.cons.injEq, and_true]
  constructor
  · apply UInt8.toNat_inj.mp
    rw [UInt8.toNat_ofNat']
    omega
  · apply UInt8.toNat_inj.mp
    rw [UInt8.toNat_ofNat']
    omega

/-- Writing what is there changes nothing. -/
theorem overwrite_self (h : OccursAt chunk file off) : overwrite file off chunk = file := by
  rw [overwrite_eq h.bound]
  obtain ⟨before, after, rfl, rfl⟩ := h
  rw [List.take_left, ← List.drop_drop, List.drop_left, List.drop_left]

theorem RecordAt.overwrite_metadata (h : RecordAt file cursor (entry.restore member) next) :
    overwrite file (cursor + 10) (metadata member) = file := by
  obtain ⟨fixed, hfixed, hoccurs, -, -, hdate, htime, hattributes, -⟩ := h
  have hdate : member.date = u16 fixed 10 := hdate
  have htime : member.time = u16 fixed 12 := htime
  have hattributes : member.attributes = u16 fixed 14 := hattributes
  have hwords : metadata member = fixed.drop 10 := by
    calc metadata member
        = (fixed.drop 10).take 2 ++ (fixed.drop 12).take 2 ++ (fixed.drop 14).take 2 := by
          rw [metadata, hdate, htime, hattributes, octets16_u16 (by omega),
            octets16_u16 (by omega), octets16_u16 (by omega)]
      _ = (fixed.drop 10).take (2 + 2 + 2) := by
          rw [List.take_add, List.take_add, List.drop_drop, List.drop_drop]
      _ = fixed.drop 10 := List.take_of_length_le (by rw [List.length_drop]; omega)
  have hpart : OccursAt (fixed.take 10 ++ metadata member) file cursor := by
    rw [hwords, List.take_append_drop]
    exact hoccurs.left
  have hplace := hpart.right
  rw [List.length_take, hfixed] at hplace
  exact overwrite_self hplace

end Words

section Again

variable {env : Env} {path : Path} {file : Bytes} {cursor next : Nat} {member : CabinetMember}
  {w : World} {data : Bytes}

theorem invalidIf_of_not {condition : Prop} [Decidable condition] {reason : String}
    (h : ¬condition) : invalidIf condition reason = .ok () := invalidIf_eq_ok.mpr h

theorem rebuilt_name : (member.rebuilt w).name = member.name := rfl

theorem World.files_set_same (hdata : w.files path = some data) :
    (w.set path (some data)).files = w.files := by
  funext other
  rw [World.files_set]
  split
  next h => rw [h.1, hdata]
  next => rfl

/-- A record that lists the member gets its words. -/
theorem restoreMember_lists {entry : TableEntry} (hfile : w.files path = some file)
    (hrecord : RecordAt file cursor entry next) (hlists : entry.Lists w member)
    (hpayload : ∃ data, w.files member.path = some data) :
    Ends (restoreMember env path cursor member) w
      (fun next' w' => next' = next ∧ w'.files =
        (w.set path (some (overwrite file (cursor + 10) (metadata member)))).files)
      fun e _ => env.FailsWith e := by
  obtain ⟨payload, hpayload⟩ := hpayload
  have hbound := hrecord.bound
  obtain ⟨fixed, hfixed, hoccurs, hzero, hsize, -, -, -, rfl⟩ := hrecord
  obtain rfl : (file.drop cursor).take 16 = fixed := by
    rw [← hfixed]
    exact hoccurs.left.eq_take_drop.symm
  have hsize : u32 ((file.drop cursor).take 16) 0 = payload.length := by
    rw [← hsize, hlists.size, fileSize, hpayload]
    rfl
  have hname := hoccurs.right
  rw [hfixed] at hname
  rw [restoreMember, ends_bind]
  apply ends_readFile_outside hfile
  rw [ends_bind, ends_lift, invalidIf_of_not (by omega), sat_ok, ends_bind, ends_lift,
    usub_of_le (by omega), sat_ok, ends_bind, ends_lift, invalidIf_of_not (by omega), sat_ok, ends_bind,
    ends_lift, readAt_of_bound (by omega), sat_ok, ends_bind]
  apply ends_readFile_outside (show w.tick.files member.path = some payload from hpayload)
  rw [ends_bind, ends_lift, invalidIf_of_not (not_not.mpr hsize), sat_ok, ends_bind, ends_lift,
    readName_of_occurs hname hzero (hlists.name ▸ hlists.short), sat_ok]
  dsimp only
  rw [ends_bind, ends_lift, invalidIf_of_not (not_not.mpr hlists.name), sat_ok, ends_bind]
  have hheld : w.tick.tick.files path = some file := hfile
  apply ends_writeFile_outside (World.holds_of_file hheld)
  refine ⟨?_, rfl⟩
  omega

/-- A record that has its words is left as it is. -/
theorem restoreMember_again (hfile : w.files path = some file)
    (hrecord : RecordAt file cursor (member.rebuilt w) next) (hshort : member.name.length ≤ 255)
    (hpayload : ∃ data, w.files member.path = some data) :
    Ends (restoreMember env path cursor member) w
      (fun next' w' => next' = next ∧ w'.files = w.files) fun e _ => env.FailsWith e := by
  have hrestored : RecordAt file cursor ((member.rebuilt w).restore member) next := hrecord
  apply (restoreMember_lists hfile hrecord ⟨rebuilt_name, rfl, hshort⟩ hpayload).mono
  swap
  · exact fun _ _ => id
  rintro next' w' ⟨hnext, hfiles⟩
  rw [hrestored.overwrite_metadata, World.files_set_same hfile] at hfiles
  exact ⟨hnext, hfiles⟩

theorem names_short {entries : List TableEntry} {members : List CabinetMember}
    (h : List.Forall₂ (TableEntry.Lists w) entries members) :
    (∀ entry ∈ entries, entry.name.length ≤ 255) ∧
      ∀ member ∈ members, member.name.length ≤ 255 := by
  induction h with
  | nil => simp
  | cons hentry _ ih =>
      exact ⟨List.forall_mem_cons.mpr ⟨hentry.name ▸ hentry.short, ih.1⟩,
        List.forall_mem_cons.mpr ⟨hentry.short, ih.2⟩⟩

end Again

section Preserved

variable {env : Env} {path : Path} {members : List CabinetMember} {w w' : World} {raw file : Bytes}
  {finish : Nat}

theorem Preserved.fileSize_eq (h : Preserved path members w w' raw file finish) (other : Path) :
    fileSize w' other = fileSize w other := by
  by_cases hother : other = path
  · subst hother
    rw [fileSize, fileSize, h.after, h.before]
    exact h.patched.length
  · rw [fileSize, fileSize, h.elsewhere other hother]

theorem Preserved.exists_payload (h : Preserved path members w w' raw file finish) :
    ∀ member ∈ members, ∃ data, w'.files member.path = some data := by
  intro member hmember
  by_cases hpath : member.path = path
  · exact ⟨file, hpath ▸ h.after⟩
  · obtain ⟨data, hdata⟩ := h.payloads member hmember
    exact ⟨data, (h.elsewhere _ hpath).trans hdata⟩

theorem Preserved.short (h : Preserved path members w w' raw file finish) :
    ∀ member ∈ members, member.name.length ≤ 255 := by
  obtain ⟨entries, -, hlists⟩ := h.original
  exact (names_short hlists).2

/-- The header is in front of the table. -/
theorem Preserved.header_eq (h : Preserved path members w w' raw file finish)
    (hfront : 36 ≤ u32 raw 16) : (file.drop 0).take 36 = raw.take 36 := by
  have hlength := h.patched.length
  apply List.ext_getElem?
  intro i
  by_cases hi : i < 36
  · rw [List.getElem?_take_of_lt hi, List.getElem?_take_of_lt hi]
    exact h.patched.front (by omega)
  · rw [List.getElem?_eq_none (by simp; omega), List.getElem?_eq_none (by simp; omega)]

/-- The loop of a second run walks the table once more, over records that have their words. -/
theorem Preserved.again_members (h : Preserved path members w w' raw file finish) :
    Ends (foldItems (restoreMember env path) (u32 raw 16) members) w'.tick
      (fun _ w'' => w''.files = w'.files) fun e _ => env.FailsWith e := by
  have hloop : Ends (foldItems (restoreMember env path) (u32 raw 16) members) w'.tick
      (fun cursor w'' => FileTable file (u32 raw 16) (members.map (CabinetMember.rebuilt w)) cursor ∧
        w''.files = w'.files) fun e _ => env.FailsWith e := by
    apply ends_foldItems (fun done cursor (w'' : World) =>
      FileTable file (u32 raw 16) (done.map (CabinetMember.rebuilt w)) cursor ∧
        w''.files = w'.files)
    · rintro done member rest cursor w'' hsplit ⟨hdone, hfiles⟩
      have hmember : member ∈ members := by simp [hsplit]
      have hentries : members.map (CabinetMember.rebuilt w) = done.map (CabinetMember.rebuilt w) ++
          member.rebuilt w :: rest.map (CabinetMember.rebuilt w) := by simp [hsplit]
      -- The cursor is where the whole table has the member's record.
      obtain ⟨pos, next, hbefore, hrecord⟩ := h.table.split hentries
      obtain rfl : cursor = pos := (hdone.unique hbefore rfl).2
      have hrebuilt : member.rebuilt w'' = member.rebuilt w := by
        rw [CabinetMember.rebuilt, CabinetMember.rebuilt, ← h.fileSize_eq, fileSize, fileSize,
          hfiles]
      have hagain : Ends (restoreMember env path cursor member) w''
          (fun next' w₃ => next' = next ∧ w₃.files = w''.files) fun e _ => env.FailsWith e :=
        restoreMember_again (hfiles ▸ h.after) (hrebuilt ▸ hrecord) (h.short member hmember)
          (hfiles ▸ h.exists_payload member hmember)
      apply hagain.mono
      swap
      · exact fun _ _ => id
      rintro _ w₃ ⟨rfl, hsame⟩
      rw [List.map_append, List.map_singleton]
      exact ⟨hdone.snoc hrecord, hsame.trans hfiles⟩
    · exact ⟨.nil, rfl⟩
  exact hloop.mono (fun _ _ => And.right) fun _ _ => id

/-- Where the words have been put back, a run finds nothing to change. It fails for want of an
operation of the platform at most. -/
theorem Preserved.again (h : Preserved path members w w' raw file finish)
    (hfront : 36 ≤ u32 raw 16) :
    Ends (preserveCabinetMetadata env path members) w' (fun _ w'' => w''.files = w'.files)
      fun e _ => env.FailsWith e := by
  have hlong : ¬file.length < 36 := Nat.not_lt.mpr (h.patched.length.symm ▸ h.long)
  have hstart : u32 (raw.take 36) 16 = u32 raw 16 :=
    u32_congr fun k hk => List.getElem?_take_of_lt (by omega)
  have hcount : u16 (raw.take 36) 28 = members.length := by
    rw [← h.count]
    exact u16_congr fun k hk => List.getElem?_take_of_lt (by omega)
  have hmagic : (raw.take 36).take 4 = cabinetMagic := by
    rw [List.take_take, ← h.magic]
    rfl
  rw [preserveCabinetMetadata, ends_bind]
  apply ends_readFile_outside h.after
  rw [ends_bind, ends_lift, invalidIf_of_not hlong, sat_ok, ends_bind, ends_lift,
    readAt_of_bound (by omega), sat_ok, h.header_eq hfront, ends_bind, ends_lift,
    invalidIf_of_not (by rw [hmagic, hcount]; simp), sat_ok, hstart, ends_bind]
  apply h.again_members.mono
  swap
  · exact fun _ _ => id
  exact fun _ w'' hfiles => ends_attempt_outside hfiles

end Preserved

/-! ## The result -/

section Result

variable {path : Path} {members : List CabinetMember} {w w' : World} {raw file : Bytes}
  {finish : Nat}

/-- The cabinet lists the members in order, with their names and the sizes of their payloads. -/
def ListsMembers (path : Path) (w : World) (members : List CabinetMember) (raw : Bytes) : Prop :=
  ∃ entries, readFileTable path raw = .ok entries ∧
    entries.map (fun entry => (entry.name, entry.size)) =
      members.map fun member => (member.name, fileSize w member.path)

theorem map_lists {entries : List TableEntry}
    (h : List.Forall₂ (TableEntry.Lists w) entries members) :
    entries.map (fun entry => (entry.name, entry.size)) =
      members.map fun member => (member.name, fileSize w member.path) := by
  induction h with
  | nil => rfl
  | cons hentry _ ih => rw [List.map_cons, List.map_cons, hentry.name, hentry.size, ih]

theorem Preserved.listsMembers (h : Preserved path members w w' raw file finish) :
    ListsMembers path w members raw := by
  obtain ⟨entries, htable, hlists⟩ := h.original
  exact ⟨entries, readFileTable_eq_ok.mpr ⟨hlists.length_eq.trans h.count.symm, ⟨finish, htable⟩,
    (names_short hlists).1⟩, map_lists hlists⟩

theorem Preserved.readFileTable (h : Preserved path members w w' raw file finish)
    (hfront : 36 ≤ u32 raw 16) :
    readFileTable path file = .ok (members.map (CabinetMember.rebuilt w)) := by
  have hstart : u32 file 16 = u32 raw 16 := u32_congr fun k hk => h.patched.front (by omega)
  have hcount : u16 file 28 = u16 raw 28 := u16_congr fun k hk => h.patched.front (by omega)
  rw [readFileTable_eq_ok, hstart, hcount, List.length_map, h.count]
  exact ⟨rfl, ⟨finish, h.table⟩, List.forall_mem_map.mpr h.short⟩

/-- A built cabinet that has the members in its file table. -/
structure Listing (path : Path) (w : World) (members : List CabinetMember) (raw : Bytes) : Prop where
  long : 36 ≤ raw.length
  magic : raw.take 4 = cabinetMagic
  lists : ListsMembers path w members raw

theorem forall₂_lists {entries : List TableEntry} (hshort : ∀ entry ∈ entries, entry.name.length ≤ 255)
    (h : entries.map (fun entry => (entry.name, entry.size)) =
      members.map fun member => (member.name, fileSize w member.path)) :
    List.Forall₂ (TableEntry.Lists w) entries members := by
  induction members generalizing entries with
  | nil => exact List.map_eq_nil_iff.mp h ▸ .nil
  | cons member rest ih =>
      obtain ⟨entry, entries, rfl, hentry, hrest⟩ := List.map_eq_cons_iff.mp h
      obtain ⟨hname, hsize⟩ := Prod.mk.inj hentry
      obtain ⟨hfirst, hothers⟩ := List.forall_mem_cons.mp hshort
      exact .cons ⟨hname, hsize, hname ▸ hfirst⟩ (ih hothers hrest)

theorem Listing.original (h : Listing path w members raw) :
    u16 raw 28 = members.length ∧ ∃ entries finish, FileTable raw (u32 raw 16) entries finish ∧
      List.Forall₂ (TableEntry.Lists w) entries members := by
  obtain ⟨entries, hread, hmap⟩ := h.lists
  obtain ⟨hlength, ⟨finish, htable⟩, hshort⟩ := readFileTable_eq_ok.mp hread
  have hlists := forall₂_lists hshort hmap
  exact ⟨hlength.symm.trans hlists.length_eq, entries, finish, htable, hlists⟩

/-- The loop comes through a table that has the members, unless the outside fails. -/
theorem Listing.restores {env : Env} (h : Listing path w members raw) (hraw : w.files path = some raw)
    (hfits : ∀ member ∈ members, member.Fits)
    (hpayloads : ∀ member ∈ members, ∃ data, w.files member.path = some data) {start : World}
    (hstart : start.files = w.files) :
    Ends (foldItems (restoreMember env path) (u32 raw 16) members) start
      (fun cursor w' => Relisting path raw w members cursor w') fun e _ => env.FailsWith e := by
  obtain ⟨hcount, entries, finish, htable, hlists⟩ := h.original
  apply ends_foldItems (fun done cursor (w' : World) => Relisting path raw w done cursor w')
  · intro done member rest cursor w' hsplit hrelisting
    obtain ⟨file, hfile, hrestoring⟩ := hrelisting.file
    obtain ⟨found, hfound, hdone⟩ := hrelisting.original
    rw [hsplit] at hlists
    have hbefore := List.forall₂_take_append entries done _ hlists
    obtain ⟨entry, after, hentry, -, hafter⟩ :=
      List.forall₂_cons_right_iff.mp (List.forall₂_drop_append entries done _ hlists)
    have hentries : entries = entries.take done.length ++ entry :: after := by
      rw [← hafter, List.take_append_drop]
    obtain ⟨pos, next, hwalked, hrecord⟩ := htable.split hentries
    -- The records read so far are the first ones of the table.
    obtain ⟨rfl, rfl⟩ := hfound.unique hwalked (hdone.length_eq.trans hbefore.length_eq.symm)
    have hhere : RecordAt file cursor entry next :=
      hrecord.congr (fun i hi _ => hrestoring.rest i hi) hrestoring.patched.length
    have hmember : member ∈ members := by simp [hsplit]
    have hsame : entry.Lists w' member :=
      ⟨hentry.name, by rw [hentry.size, hrelisting.fileSize_eq hraw], hentry.short⟩
    have hpayload : ∃ data, w'.files member.path = some data := by
      by_cases hpath : member.path = path
      · exact ⟨file, hpath ▸ hfile⟩
      · rw [hrelisting.elsewhere _ hpath]
        exact hpayloads member hmember
    have hends : Ends (restoreMember env path cursor member) w' _ _ := restoreMember_ends
    apply ((restoreMember_lists hfile hhere hsame hpayload).and hends).mono
    swap
    · exact fun _ _ => And.left
    rintro _ w'' ⟨-, file', entry', hstep⟩
    refine hrelisting.snoc hraw ?_ hstep (hfits member hmember)
    rw [hcount, hsplit]
    simp
  · exact ⟨⟨raw, hstart ▸ hraw, .refl raw, fun _ _ => rfl, ⟨[], .nil, rfl⟩, .nil⟩, ⟨[], .nil, .nil⟩,
      by simp, fun other _ => congrFun hstart other⟩

/-- A cabinet that lists the members gets their words, unless the outside fails. -/
theorem Listing.preserves {env : Env} (h : Listing path w members raw) (hraw : w.files path = some raw)
    (hfits : ∀ member ∈ members, member.Fits)
    (hpayloads : ∀ member ∈ members, ∃ data, w.files member.path = some data) :
    Ends (preserveCabinetMetadata env path members) w
      (fun _ w' => ∃ file, w'.files path = some file) fun e _ => env.FailsWith e := by
  have htable : u32 ((raw.drop 0).take 36) 16 = u32 raw 16 :=
    u32_congr fun k hk => List.getElem?_take_of_lt (by omega)
  have hcount : u16 (raw.take 36) 28 = members.length := by
    rw [← h.original.1]
    exact u16_congr fun k hk => List.getElem?_take_of_lt (by omega)
  have hmagic : (raw.take 36).take 4 = cabinetMagic := by
    rw [List.take_take, ← h.magic]
    rfl
  have hlong := h.long
  rw [preserveCabinetMetadata, ends_bind]
  apply ends_readFile_outside hraw
  rw [ends_bind, ends_lift, invalidIf_of_not (by omega), sat_ok, ends_bind, ends_lift,
    readAt_of_bound (by omega), sat_ok, htable, List.drop_zero, ends_bind, ends_lift,
    invalidIf_of_not (by rw [hmagic, hcount]; simp), sat_ok, ends_bind]
  have hstart : w.tick.files = w.files := rfl
  apply (h.restores hraw hfits hpayloads hstart).mono
  swap
  · exact fun _ _ => id
  intro cursor w' hrelisting
  apply ends_attempt_outside
  obtain ⟨file, hfile, -⟩ := hrelisting.file
  exact ⟨file, hfile⟩

end Result

/-- Where `preserve_cabinet_metadata` returns, the cabinet lists the members with their words, and
nothing else has changed; a second run changes nothing. It throws unless the cabinet lists
the members with the sizes of their payloads. -/
theorem preserveCabinetMetadata_restores (env : Env) (path : Path) (members : List CabinetMember)
    (w : World) (raw : Bytes) (hraw : w.files path = some raw) (hfront : 36 ≤ u32 raw 16)
    (hfits : ∀ member ∈ members, member.Fits) :
    (∀ w', preserveCabinetMetadata env path members w = (.ok (), w') →
      (∃ file, w'.files path = some file ∧
        readFileTable path file = .ok (members.map (CabinetMember.rebuilt w)) ∧
        (∀ cabinet workspace total count inspected,
          inspectCabinet path cabinet file workspace total count = .ok inspected →
          inspected.members.map CabinetMember.entry = members.map (CabinetMember.rebuilt w)) ∧
        MetadataOnly raw file) ∧
      (∀ other ≠ path, w'.files other = w.files other) ∧
      ∀ env', (∀ w'', preserveCabinetMetadata env' path members w' = (.ok (), w'') →
          w''.files = w'.files) ∧
        (env'.Calm → ∃ w'', preserveCabinetMetadata env' path members w' = (.ok (), w''))) ∧
    (¬ ListsMembers path w members raw →
      ∃ what, (preserveCabinetMetadata env path members w).1 = .error (.error what)) := by
  have hends : Ends (preserveCabinetMetadata env path members) w _ _ :=
    preserveCabinetMetadata_ends hfits
  constructor
  · intro w' hrun
    obtain ⟨raw', file, finish, h⟩ := hends.of_ok hrun
    obtain rfl : raw = raw' := Option.some.inj (hraw.symm.trans h.before)
    have hread := h.readFileTable hfront
    refine ⟨⟨file, h.after, hread, fun cabinet workspace total count inspected haccepted => ?_,
      h.patched⟩, h.elsewhere, fun env' => ⟨fun w'' hagain => ?_, fun hcalm => ?_⟩⟩
    · exact Except.ok.inj ((inspectCabinet_entries haccepted).symm.trans hread)
    · exact (h.again hfront).of_ok hagain
    · have hreturns : Ends (preserveCabinetMetadata env' path members) w'
          (fun _ w'' => w''.files = w'.files) fun _ _ => False :=
        (h.again hfront).mono (fun _ _ => id) fun _ _ ⟨clock, _, hfails, _⟩ => by
          simp [hcalm clock] at hfails
      obtain ⟨_, w'', hagain, -⟩ := hreturns.exists_run
      exact ⟨w'', hagain⟩
  · intro hdiffers
    unfold Ends at hends
    split at hends
    next w' hrun =>
      obtain ⟨raw', file, finish, h⟩ := hends
      obtain rfl : raw = raw' := Option.some.inj (hraw.symm.trans h.before)
      exact absurd h.listsMembers hdiffers
    next e w' hrun =>
      rw [hrun]
      cases e with
      | error what => exact ⟨what, rfl⟩
      | fault kind => exact hends.elim

/-- The small cabinet, and a payload of one octet. -/
def rebuiltWorld : World where
  files path :=
    if path = .user [99] then some smallCabinet else if path = .user [112] then some [120] else none
  nextDir := 0
  clock := 0
  trace := []
  unmade := by simp

/-- The member `a` gets other words. -/
theorem smallCabinet_restored :
    ∃ w', preserveCabinetMetadata calmEnv (.user [99]) [⟨[97], .user [112], 1, 0x1111, 0x2222, 33⟩]
        rebuiltWorld = (.ok (), w') ∧
      ∃ file, w'.files (.user [99]) = some file ∧
        readFileTable (.user [99]) file = .ok [⟨[97], 1, 0x1111, 0x2222, 33⟩] := by
  have hreturns : (preserveCabinetMetadata calmEnv (.user [99])
      [⟨[97], .user [112], 1, 0x1111, 0x2222, 33⟩] rebuiltWorld).1 = .ok () := by decide +kernel
  obtain ⟨w', hrun⟩ := exists_run hreturns
  have hfits : ∀ member ∈ [(⟨[97], .user [112], 1, 0x1111, 0x2222, 33⟩ : CabinetMember)],
      member.Fits := by
    intro member hmember
    rw [List.mem_singleton.mp hmember]
    exact ⟨by decide, by decide, by decide⟩
  have hraw : rebuiltWorld.files (.user [99]) = some smallCabinet := rfl
  obtain ⟨⟨file, hfile, hread, -⟩, -⟩ := (preserveCabinetMetadata_restores calmEnv (.user [99]) _
    rebuiltWorld smallCabinet hraw (by decide +kernel) hfits).1 w' hrun
  exact ⟨w', hrun, file, hfile, hread⟩

end AasSign
