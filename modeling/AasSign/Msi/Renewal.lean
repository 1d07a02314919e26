import AasSign.Msi.Committed

/-! # The installer after a rewriting

The checks of the preflight pass on what a rewriting has committed: rebuilt cabinets are
of the format, their members take the rows with the new sizes, and the budget covers them.
-/

namespace AasSign

open Foundation

/-! ## Rebuilt cabinets -/

section Tables

variable {file file' : Bytes} {start cursor cursor' i workspace count : Nat}
  {entries entries' : List TableEntry}

/-- In a longer table the shorter one is followed by a record. -/
theorem FileTable.exists_next (h : FileTable file start entries cursor)
    (h' : FileTable file start entries' cursor') (hlength : entries.length < entries'.length) :
    ∃ entry next, RecordAt file cursor entry next ∧ next ≤ cursor' := by
  induction h' with
  | nil => simp at hlength
  | @snoc entries' cursor' entry next before record ih =>
      rw [List.length_append, List.length_singleton] at hlength
      by_cases hshorter : entries.length < entries'.length
      · obtain ⟨entry, next, hrecord, hnext⟩ := ih hshorter
        exact ⟨entry, next, hrecord, hnext.trans record.lt.le⟩
      · obtain ⟨-, rfl⟩ := h.unique before (by omega)
        exact ⟨entry, next, record, le_rfl⟩

/-- The words of a record lie in it. -/
theorem RecordAt.word_lt {entry : TableEntry} {next : Nat} (h : RecordAt file cursor entry next)
    (hi : i < cursor + 16) : i < next := by
  obtain ⟨-, -, -, -, -, -, -, -, rfl⟩ := h
  omega

/-- Metadata words are all that differs, so records keep the rest of their octets. -/
theorem MetadataOnly.patched (h : MetadataOnly file file')
    (format : CabinetFormat file workspace count) : format.Patched file' := by
  have htable : FileTable file (u32 file 16)
      (format.placements.map (CabinetMember.entry ∘ Placement.member)) format.finish := by
    have hsound := format.memberTable.sound.2.2
    rwa [format.headerSays.table] at hsound
  have hcount : format.placements.length = u16 file 28 :=
    format.memberCount.trans format.headerSays.files
  refine ⟨h.length, fun i hi => h.front (format.headerSays.table ▸ hi), fun i hi => ?_, ?_⟩
  · apply h.same
    rintro ⟨entries, cursor, entry, next, hbefore, hfew, hrecord, -, hlast⟩
    obtain ⟨entry', next', hrecord', hnext⟩ := hbefore.exists_next htable (by simpa [hcount])
    obtain ⟨-, rfl⟩ := hrecord.unique hrecord'
    exact absurd (hrecord.word_lt hlast) (by omega)
  · intro done pos entry next hdone hfew hrecord i hlow hhigh hword
    rw [format.headerSays.table] at hdone
    apply h.same
    rintro ⟨entries, cursor, entry', next', hbefore, -, hrecord', hfirst, hlast⟩
    rcases Nat.lt_trichotomy done.length entries.length with hlt | heq | hgt
    · obtain ⟨entry₂, next₂, hrecord₂, hnext⟩ := hdone.exists_next hbefore hlt
      obtain ⟨-, rfl⟩ := hrecord.unique hrecord₂
      omega
    · obtain ⟨-, rfl⟩ := hdone.unique hbefore heq
      exact hword ⟨hfirst, hlast⟩
    · obtain ⟨entry₂, next₂, hrecord₂, hnext⟩ := hbefore.exists_next hdone hgt
      obtain ⟨-, rfl⟩ := hrecord'.unique hrecord₂
      have hinside := hrecord'.word_lt hlast
      omega

end Tables

/-- Cabinets are built in the format, and their folders hold the files that were given and
nothing else. -/
structure MsiLibrary.Builds (lib : MsiLibrary) : Prop where
  format : ∀ files cabinet, lib.pack files = .ok cabinet → ∃ format : CabinetFormat cabinet 0 0,
    expandedBytes format.folders ≤ (files.map fun file => file.data.length).sum

/-- The member as the next preflight finds it. -/
def CabinetMember.renewed (workspace : Nat) (data : Path → Bytes) (member : CabinetMember) :
    CabinetMember :=
  { member with path := member.path.moved workspace, size := (data member.path).length }

def Cabinet.renewed (workspace : Nat) (data : Path → Bytes) (cabinet : Cabinet) : Cabinet :=
  { cabinet.moved workspace with members := cabinet.members.map (CabinetMember.renewed workspace data) }

def renewedBinary (workspace : Nat) (binary : Bytes × Path) : Bytes × Path :=
  (binary.1, binary.2.moved workspace)

/-- The plan of the next preflight. -/
def Plan.renewed (workspace : Nat) (data : Path → Bytes) (plan : Plan) : Plan :=
  { plan with
    cabinets := plan.cabinets.map (Cabinet.renewed workspace data)
    binaries := plan.binaries.map (renewedBinary workspace) }

section Cabinets

variable {lib : MsiLibrary} {w : World} {members members' : List CabinetMember} {raw : Bytes}
  {files : List UnpackedFile} {workspace expanded : Nat}

theorem Unpacks.congr (h : Unpacks members files)
    (hentries : members'.map CabinetMember.entry = members.map CabinetMember.entry) :
    Unpacks members' files := by
  have hmem (member : CabinetMember) (hmember : member ∈ members) :
      ∃ member' ∈ members', member'.entry = member.entry := by
    have hentry : member.entry ∈ members'.map CabinetMember.entry :=
      hentries ▸ List.mem_map_of_mem hmember
    exact List.mem_map.mp hentry
  have hmem' (member' : CabinetMember) (hmember : member' ∈ members') :
      ∃ member ∈ members, member.entry = member'.entry := by
    have hentry : member'.entry ∈ members.map CabinetMember.entry :=
      hentries ▸ List.mem_map_of_mem hmember
    exact List.mem_map.mp hentry
  refine ⟨h.names, fun file hfile => ?_, fun member' hmember' => ?_⟩
  · obtain ⟨member, hmember, hname, hsize⟩ := h.taken file hfile
    obtain ⟨member', hmember', hentry⟩ := hmem member hmember
    exact ⟨member', hmember', (congrArg TableEntry.name hentry).trans hname,
      hsize.trans (congrArg TableEntry.size hentry).symm⟩
  · obtain ⟨member, hmember, hentry⟩ := hmem' member' hmember'
    obtain ⟨file, hfile, hname, hsize⟩ := h.given member hmember
    exact ⟨file, hfile, hname.trans (congrArg TableEntry.name hentry),
      hsize.trans (congrArg TableEntry.size hentry)⟩

theorem CabinetPasses.congr (h : CabinetPasses lib members raw expanded)
    (hentries : members'.map CabinetMember.entry = members.map CabinetMember.entry) :
    CabinetPasses lib members' raw expanded := by
  obtain ⟨format, hexpanded, hformat⟩ := h.format
  obtain ⟨files, hunpack, hunpacks⟩ := h.unpacked
  exact ⟨⟨format, hexpanded, hformat.trans hentries.symm⟩, files, hunpack, hunpacks.congr hentries⟩

/-- A cabinet that was built again passes, and it expands to no more than its files. -/
theorem Rebuilt.passes (hlib : lib.Inverse) (hbuilds : lib.Builds)
    (hnames : (members.map CabinetMember.name).Nodup) (h : Rebuilt lib w members raw) :
    ∃ expanded, CabinetPasses lib (members.map (CabinetMember.renewed workspace w.data)) raw expanded ∧
      expanded ≤ (members.map fun member => fileSize w member.path).sum := by
  obtain ⟨⟨built, finish, hpack, hpatched, hcount, -, htable⟩, -⟩ := h
  obtain ⟨format, hexpanded⟩ := hbuilds.format _ _ hpack
  have hfront : 36 ≤ u32 built 16 := hlib.header _ _ hpack
  obtain ⟨format', hfolders, halike⟩ := format.patched (hpatched.patched format) 0 0
  have hstart : format'.header.table = u32 built 16 := by
    rw [format'.headerSays.table]
    exact u32_congr fun k hk => hpatched.front (by omega)
  have hlength : format'.placements.length = members.length := by
    rw [format'.memberCount, format'.headerSays.files, ← hcount]
    exact u16_congr fun k hk => hpatched.front (by omega)
  have hentries : format'.placements.map (CabinetMember.entry ∘ Placement.member) =
      members.map (CabinetMember.rebuilt w) := by
    have hsound := format'.memberTable.sound.2.2
    rw [hstart] at hsound
    exact (hsound.unique htable (by simp [hlength])).1
  have hrenewed : (members.map (CabinetMember.renewed workspace w.data)).map CabinetMember.entry =
      members.map (CabinetMember.rebuilt w) := by
    rw [List.map_map]
    rfl
  have hunpacked := hlib.unpacked _ _ _ hpack hpatched
  refine ⟨expandedBytes format'.folders, ⟨⟨format', rfl, hentries.trans hrenewed.symm⟩, _,
    hunpacked, ?_, ?_, ?_⟩, ?_⟩
  · simp only [List.map_map]
    exact hnames
  · simp only [List.mem_map]
    rintro _ ⟨_, ⟨member, hmember, rfl⟩, rfl⟩
    exact ⟨_, ⟨member, hmember, rfl⟩, rfl, rfl⟩
  · simp only [List.mem_map]
    rintro _ ⟨member, hmember, rfl⟩
    exact ⟨_, ⟨_, ⟨member, hmember, rfl⟩, rfl⟩, rfl, rfl⟩
  · rw [hfolders]
    refine hexpanded.trans_eq ?_
    rw [List.map_map]
    rfl

end Cabinets

/-! ## The budget -/

section Budget

variable {lib : MsiLibrary} {c c' : MsiContents} {workspace : Nat}
  {data : Path → Bytes} {old new : Path → Nat} {cabinets : List Cabinet}
  {binaries : List (Bytes × Path)}

/-- Summands that stay below others by a difference each stay below their sum by its sum. -/
theorem exists_forall₂_le {α β : Type} {P : α → Nat → Prop} {Q : β → Nat → Prop} {f : α → β}
    {old new : α → Nat} {items : List α} {sizes : List Nat}
    (hitem : ∀ a ∈ items, ∀ n, P a n → ∃ m, Q (f a) m ∧ m + old a ≤ n + new a)
    (h : List.Forall₂ P items sizes) : ∃ sizes', List.Forall₂ Q (items.map f) sizes' ∧
      sizes'.sum + (items.map old).sum ≤ sizes.sum + (items.map new).sum := by
  induction h with
  | nil => exact ⟨[], .nil, le_rfl⟩
  | @cons a n items sizes ha _ ih =>
      obtain ⟨m, hm, hle⟩ := hitem a List.mem_cons_self n ha
      obtain ⟨sizes', hsizes, hsum⟩ := ih fun b hb => hitem b (List.mem_cons_of_mem a hb)
      refine ⟨m :: sizes', .cons hm hsizes, ?_⟩
      simp only [List.map_cons, List.sum_cons]
      omega

theorem sum_flatMap_members (size : Path → Nat) (cabinets : List Cabinet) :
    ((cabinets.flatMap Cabinet.members).map fun member => size member.path).sum =
      (cabinets.map fun cabinet => (cabinet.members.map fun member => size member.path).sum).sum := by
  induction cabinets with
  | nil => rfl
  | cons cabinet cabinets ih =>
      simp only [List.flatMap_cons, List.map_append, List.sum_append, List.map_cons, List.sum_cons, ih]

/-- Payloads that change move the budget by what they change. -/
theorem Spends.renewed {start : Nat} {finish : Nat} (h : Spends lib c cabinets binaries start finish)
    (hcabinet : ∀ cabinet ∈ cabinets, ∀ n, AcceptedCabinet lib c cabinet n → ∃ m,
      AcceptedCabinet lib c' (cabinet.renewed workspace data) m ∧
        m + (cabinet.members.map fun member => old member.path).sum ≤
          n + (cabinet.members.map fun member => new member.path).sum)
    (hbinary : ∀ binary ∈ binaries, ∀ n, AcceptedBinary c binary n → ∃ m,
      AcceptedBinary c' (renewedBinary workspace binary) m ∧ m + old binary.2 ≤ n + new binary.2) :
    ∃ finish', Spends lib c' (cabinets.map (Cabinet.renewed workspace data))
        (binaries.map (renewedBinary workspace)) start finish' ∧
      finish' + (((cabinets.flatMap Cabinet.members).map CabinetMember.path ++
          binaries.map Prod.snd).map old).sum ≤
        finish + (((cabinets.flatMap Cabinet.members).map CabinetMember.path ++
          binaries.map Prod.snd).map new).sum := by
  obtain ⟨sizes, sizes', hsizes, hsizes', rfl⟩ := h
  obtain ⟨next, hnext, hcabinets⟩ := exists_forall₂_le hcabinet hsizes
  obtain ⟨next', hnext', hbinaries⟩ := exists_forall₂_le hbinary hsizes'
  refine ⟨start + next.sum + next'.sum, ⟨next, next', hnext, hnext', rfl⟩, ?_⟩
  have hmembers (size : Path → Nat) := sum_flatMap_members size cabinets
  simp only [List.map_append, List.map_map, List.sum_append, Function.comp_def, hmembers]
  omega

end Budget

/-! ## The whole installer -/

section Settled

variable {R : Bytes → Bool → Bytes → Prop} {lib : MsiLibrary} {c : MsiContents}
  {workspace workspace' expanded : Nat} {plan : Plan} {r : Revision} {s s' : Rewrite}
  {cabinet : Cabinet} {binary : Bytes × Path} {code : Bytes}

theorem World.length_data (w : World) (path : Path) : (w.data path).length = fileSize w path := rfl

/-- A staged member has the size that its record says. -/
theorem Staged.fileSize_member (h : Staged lib c workspace plan.cabinets plan.binaries s)
    (hcabinet : cabinet ∈ plan.cabinets) {member : CabinetMember} (hmember : member ∈ cabinet.members) :
    fileSize s.world member.path = member.size := by
  obtain ⟨raw, files, hstaged⟩ := h.eachCabinet cabinet hcabinet
  obtain ⟨file, -, -, hsize, hdata⟩ := hstaged.members member hmember
  rw [fileSize, hdata, ← hsize]
  rfl

theorem Settled.acceptsCabinet (h : Settled R lib c workspace plan r s s') (hlib : lib.Inverse)
    (hbuilds : lib.Builds) (hcabinet : cabinet ∈ plan.cabinets)
    (haccepted : AcceptedCabinet lib c cabinet expanded) :
    ∃ expanded', AcceptedCabinet lib { c.revise r with packageCode := code }
        (cabinet.renewed workspace' s'.world.data) expanded' ∧
      expanded' + (cabinet.members.map fun member => fileSize s.world member.path).sum ≤
        expanded + (cabinet.members.map fun member => fileSize s'.world member.path).sum := by
  obtain ⟨raw, hselect, hpasses⟩ := haccepted
  obtain ⟨hchanged, hunchanged⟩ := h.revised.cabinets cabinet hcabinet id
  have hnames : (cabinet.members.map CabinetMember.name).Nodup :=
    h.complete.names.sublist ((Plan.sublist_members hcabinet).map _)
  have hold : (cabinet.members.map fun member => fileSize s.world member.path) =
      cabinet.members.map CabinetMember.size :=
    List.map_congr_left fun member hmember => h.staged.fileSize_member hcabinet hmember
  have hselect' : ({ c.revise r with packageCode := code } : MsiContents).select
      (.cabinet cabinet.name) = [(r.streams cabinet.name).getD raw] := by
    change (c.revise r).select (.cabinet cabinet.name) = _
    rw [MsiContents.select_revise_cabinet, hselect, List.map_singleton]
  rw [hold]
  by_cases hsigned : ∃ member ∈ cabinet.members, SignedAt s'.events member.path
  · obtain ⟨raw', hstream, hbuilt⟩ := hchanged hsigned
    obtain ⟨expanded', hpasses', hle⟩ := hbuilt.passes hlib hbuilds hnames
    have hsizes := hpasses.sizes_le
    rw [hstream] at hselect'
    exact ⟨expanded', ⟨raw', hselect', hpasses'⟩, by omega⟩
  · have hnone : ∀ member ∈ cabinet.members, ¬ SignedAt s'.events member.path :=
      fun member hmember hmemberSigned => hsigned ⟨member, hmember, hmemberSigned⟩
    have hsame (member : CabinetMember) (hmember : member ∈ cabinet.members) :
        fileSize s'.world member.path = member.size := by
      rw [← World.length_data, h.passing.unsigned_data
        (Plan.member_path (Plan.mem_members hcabinet hmember)) (hnone member hmember),
        World.length_data, h.staged.fileSize_member hcabinet hmember]
    rw [hunchanged hnone] at hselect'
    refine ⟨expanded, ⟨raw, hselect', hpasses.congr ?_⟩, ?_⟩
    · rw [Cabinet.renewed, List.map_map]
      apply List.map_congr_left
      intro member hmember
      simp only [Function.comp_apply, CabinetMember.renewed, CabinetMember.entry, World.length_data,
        hsame member hmember]
    · rw [List.map_congr_left hsame]

theorem Settled.acceptsBinary (h : Settled R lib c workspace plan r s s')
    (hbinary : binary ∈ plan.binaries) (haccepted : AcceptedBinary c binary expanded) :
    ∃ expanded', AcceptedBinary { c.revise r with packageCode := code }
        (renewedBinary workspace' binary) expanded' ∧
      expanded' + fileSize s.world binary.2 ≤ expanded + fileSize s'.world binary.2 := by
  obtain ⟨data, hselect, rfl⟩ := haccepted
  have hheld := h.staged.holds.binaries binary hbinary
  rw [hselect, List.singleton_inj] at hheld
  have hselect' := h.holdsBinary hbinary
  refine ⟨fileSize s'.world binary.2, ⟨_, hselect', rfl⟩, ?_⟩
  rw [hheld, World.length_data]
  omega

/-- The next preflight spends no more than what the signing has accounted. -/
theorem Settled.spends (workspace' : Nat) (code : Bytes)
    (h : Settled R lib c workspace plan r s s') (hlib : lib.Inverse)
    (hbuilds : lib.Builds) (hspends : Spends lib c plan.cabinets plan.binaries 0 s.expanded) :
    ∃ finish, Spends lib { c.revise r with packageCode := code }
        (plan.renewed workspace' s'.world.data).cabinets
        (plan.renewed workspace' s'.world.data).binaries 0 finish ∧ finish ≤ expansionLimit := by
  obtain ⟨finish, hfinish, hle⟩ := hspends.renewed
    (fun cabinet hcabinet n hn => h.acceptsCabinet hlib hbuilds hcabinet hn)
    fun binary hbinary n hn => h.acceptsBinary hbinary hn
  refine ⟨finish, hfinish, ?_⟩
  have hmoved := h.passing.expanded
  have hlimit := h.passing.limit
  change s'.expanded + (((plan.cabinets.flatMap Cabinet.members).map CabinetMember.path ++
    plan.binaries.map Prod.snd).map (fileSize s.world)).sum = s.expanded +
      (((plan.cabinets.flatMap Cabinet.members).map CabinetMember.path ++
        plan.binaries.map Prod.snd).map (fileSize s'.world)).sum at hmoved
  omega

theorem mem_renewed_cabinets {cabinet' : Cabinet} {data : Path → Bytes} :
    cabinet' ∈ (plan.renewed workspace' data).cabinets ↔
      ∃ cabinet ∈ plan.cabinets, cabinet.renewed workspace' data = cabinet' := List.mem_map

theorem members_renewed {data : Path → Bytes} : (plan.renewed workspace' data).members =
    plan.members.map (CabinetMember.renewed workspace' data) := by
  rw [Plan.members, Plan.members, List.map_flatMap, Plan.renewed, List.flatMap_map]
  rfl

theorem map_name_renewed {data : Path → Bytes} {members : List CabinetMember} :
    (members.map (CabinetMember.renewed workspace' data)).map CabinetMember.name =
      members.map CabinetMember.name := by
  rw [List.map_map]
  rfl

/-- The rows are accepted with the new sizes, and the members take the same ones. -/
theorem Settled.rows (h : Settled R lib c workspace plan r s s')
    (haccepted : plan.Accepted lib c workspace 0 s.expanded) :
    ∃ files, fileRows (c.wordCount.testBit 1) (c.revise r).fileRows = .ok files ∧
      (∀ cabinet ∈ (plan.renewed workspace' s'.world.data).cabinets, ∀ member ∈ cabinet.members,
        ∃ row ∈ files, Takes cabinet member row) ∧
      ∀ row ∈ files, row.name ∈
        (plan.renewed workspace' s'.world.data).members.map CabinetMember.name := by
  obtain ⟨files, hfiles, htakes, hfound⟩ := haccepted.rows
  obtain ⟨files', hfiles', hkeys⟩ := fileRows_resized hfiles (f := r.fileRow) (fun _ => rfl)
    (fun _ => rfl) (fun _ => rfl) fun row hrow => by
      have hrow' : r.fileRow row ∈ (c.revise r).fileRows :=
        MsiContents.fileRows_revise ▸ List.mem_map_of_mem hrow
      obtain ⟨member, -, -, hsize⟩ := h.agreesSizes _ hrow'
      exact ⟨_, hsize⟩
  rw [← MsiContents.fileRows_revise] at hfiles'
  have hreads : FileRows (c.revise r).fileRows files' := (fileRows_safe.of_ok hfiles').1
  refine ⟨files', hfiles', ?_, fun row hrow => ?_⟩
  · intro cabinet' hcabinet' member' hmember'
    obtain ⟨cabinet, hcabinet, rfl⟩ := mem_renewed_cabinets.mp hcabinet'
    obtain ⟨member, hmember, rfl⟩ := List.mem_map.mp hmember'
    obtain ⟨row, hrow, hname, hfirst, hlast, -⟩ := htakes cabinet hcabinet member hmember
    have hkey : row.key ∈ files'.map FileRow.key := hkeys ▸ List.mem_map_of_mem hrow
    obtain ⟨row', hrow', hsame⟩ := List.mem_map.mp hkey
    simp only [FileRow.key, Prod.mk.injEq] at hsame
    obtain ⟨record, hrecord, hread⟩ := hreads.exists_row hrow'
    obtain ⟨other, hother, hotherName, hsize⟩ := h.agreesSizes record hrecord
    have hfile : other.name = member.name := by
      rw [hotherName, ← hread.name, hsame.1, hname]
    obtain rfl : other = member := List.inj_on_of_nodup_map h.complete.names hother
      (Plan.mem_members hcabinet hmember) hfile
    refine ⟨row', hrow', hsame.1.trans hname, hsame.2.symm ▸ hfirst, hsame.2.symm ▸ hlast, ?_⟩
    exact Except.ok.inj (hread.size.symm.trans hsize)
  · have hkey : row.key ∈ files.map FileRow.key := hkeys ▸ List.mem_map_of_mem hrow
    obtain ⟨old, hold, hsame⟩ := List.mem_map.mp hkey
    have hname : old.name = row.name := congrArg Prod.fst hsame
    rw [members_renewed, map_name_renewed, ← hname]
    exact hfound old hold

/-- What a rewriting has committed passes every check of the next preflight. -/
theorem Settled.renewed (h : Settled R lib c workspace plan r s s') (hlib : lib.Inverse)
    (hbuilds : lib.Builds) (haccepted : plan.Accepted lib c workspace 0 s.expanded) :
    ∃ finish, (plan.renewed workspace' s'.world.data).Accepted lib
      { c.revise r with packageCode := code } workspace' 0 finish := by
  obtain ⟨finish, hspends, hlimit⟩ := h.spends workspace' code hlib hbuilds
    haccepted.spends
  have hfew := haccepted.few
  have hbinaries : ({ c.revise r with packageCode := code } : MsiContents).binaryRows =
      c.binaryRows.map (Revision.dataRow r.binaries) :=
    show (c.revise r).binaryRows = _ from MsiContents.binaryRows_revise
  have hhashes : ({ c.revise r with packageCode := code } : MsiContents).hashTableRows =
      c.hashTableRows.map r.hashRow :=
    show (c.revise r).hashTableRows = _ from MsiContents.hashTableRows_revise
  have hfiles : ({ c.revise r with packageCode := code } : MsiContents).fileRows =
      c.fileRows.map r.fileRow :=
    show (c.revise r).fileRows = _ from MsiContents.fileRows_revise
  have hlength : (plan.renewed workspace' s'.world.data).members.length +
      (plan.renewed workspace' s'.world.data).binaries.length =
        plan.members.length + plan.binaries.length := by
    rw [members_renewed, Plan.renewed, List.length_map, List.length_map]
  refine ⟨finish, ?_⟩
  constructor
  case noStorages => exact haccepted.noStorages
  case few =>
    refine ⟨hfew.storages, hfew.tables, hfew.media, ?_, ?_, ?_⟩
    · rw [hfiles, List.length_map]
      exact hfew.file
    · rw [hbinaries, List.length_map]
      exact hfew.binary
    · rw [hhashes, List.length_map]
      exact hfew.fileHash
  case media =>
    have hmoved := mediaCabinets_moved workspace' haccepted.media
    rw [List.map_map] at hmoved
    rw [Plan.renewed, List.map_map]
    exact hmoved
  case rows => exact h.rows haccepted
  case names =>
    rw [members_renewed, map_name_renewed]
    exact haccepted.names
  case spends => exact hspends
  case limit => exact hlimit
  case numbers =>
    have hnumbers := congrArg (List.map (Path.moved workspace')) haccepted.numbers
    rw [List.map_append, List.map_map, List.map_map, List.map_map] at hnumbers
    rw [hlength, members_renewed, Plan.renewed, List.map_map, List.map_map]
    exact hnumbers
  case count =>
    rw [hlength]
    exact haccepted.count
  case binaries =>
    rw [hbinaries, Plan.renewed, List.map_map, List.map_map]
    exact haccepted.binaries
  case hashRows =>
    rw [hhashes, hashRows_map (f := r.hashRow) fun _ => ⟨rfl, rfl⟩]
    exact haccepted.hashRows

end Settled

end AasSign
