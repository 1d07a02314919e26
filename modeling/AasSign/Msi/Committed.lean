import AasSign.Msi.SignedPayloads

/-! # The committed installer

A database holds payloads: the files in its cabinets and its Binary streams. The
installer that a rewriting commits holds what the callbacks have left, and its
rows agree with that; everything else is as it was.
-/

namespace AasSign

open Foundation Program

def PackedFile.unpacked (file : PackedFile) : UnpackedFile := ⟨file.name, file.data.length, file.data⟩

/-- Cabinets are built with the file table behind the header, and what was packed is
unpacked again, in order; the words for date, time and attributes do not matter. -/
structure MsiLibrary.Inverse (lib : MsiLibrary) : Prop where
  header : ∀ files cabinet, lib.pack files = .ok cabinet → 36 ≤ u32 cabinet 16
  unpacked : ∀ files cabinet patched, lib.pack files = .ok cabinet → MetadataOnly cabinet patched →
    lib.unpack patched = .ok (files.map PackedFile.unpacked)

/-- A member as its record in a file table, if its file holds these bytes. -/
def CabinetMember.holding (data : Path → Bytes) (member : CabinetMember) : TableEntry :=
  { member.entry with size := (data member.path).length }

/-- The cabinet lists the members in order, with their words, and holds their bytes. -/
structure CabinetHolds (lib : MsiLibrary) (members : List CabinetMember) (data : Path → Bytes)
    (raw : Bytes) : Prop where
  counted : u16 raw 28 = members.length
  table : ∃ finish, FileTable raw (u32 raw 16) (members.map (CabinetMember.holding data)) finish
  unpacked : ∃ files, lib.unpack raw = .ok files ∧ (files.map UnpackedFile.name).Nodup ∧
    ∀ member ∈ members, ∃ file ∈ files, file.name = member.name ∧ file.data = data member.path

/-- The payloads of the database, under the staging files that a plan gives them. -/
structure MsiContents.Holds (c : MsiContents) (lib : MsiLibrary) (plan : Plan)
    (data : Path → Bytes) : Prop where
  cabinets : ∀ cabinet ∈ plan.cabinets, ∃ raw, c.select (.cabinet cabinet.name) = [raw] ∧
    CabinetHolds lib cabinet.members data raw
  binaries : ∀ binary ∈ plan.binaries, c.select (.binary binary.1) = [data binary.2]

/-- The rows agree with the payloads. -/
structure MsiContents.Agrees (c : MsiContents) (lib : MsiLibrary) (plan : Plan)
    (events : List MsiEvent) (data : Path → Bytes) : Prop where
  sizes : ∀ row ∈ c.fileRows, ∃ member ∈ plan.members, member.name = row.file ∧
    integer row.fileSize = .ok ((data member.path).length : Int)
  hashes : ∀ member ∈ plan.members, SignedAt events member.path →
    ∀ row ∈ c.fileRows, row.file = member.name → row.version = [] →
      ∀ hash ∈ c.hashTableRows, hash.file = member.name →
        hash.hash = msiFileHash lib (data member.path)

/-- New cells only in the rows and the streams that a signed payload is in. -/
structure SignedOnly (plan : Plan) (events : List MsiEvent) (r : Revision) : Prop where
  rows : ∀ name, r.sizes name ≠ none ∨ r.hashes name ≠ none → ∃ member ∈ plan.members,
    member.name = name ∧ SignedAt events member.path
  streams : ∀ name, r.streams name ≠ none → ∃ cabinet ∈ plan.cabinets, cabinet.name = name ∧
    ∃ member ∈ cabinet.members, SignedAt events member.path
  binaries : ∀ name, r.binaries name ≠ none → ∃ binary ∈ plan.binaries, binary.1 = name ∧
    SignedAt events binary.2

/-- What a signing makes of a database. -/
structure Committed (lib : MsiLibrary) (plan : Plan) (events : List MsiEvent) (c c' : MsiContents)
    (before after : Path → Bytes) : Prop where
  held : c.Holds lib plan before
  holds : c'.Holds lib plan after
  signed : ∀ path ∈ plan.paths, ∀ container left, .returned container path true left ∈ events →
    left = some (after path)
  others : ∀ path ∈ plan.paths, ¬ SignedAt events path → after path = before path
  agrees : c'.Agrees lib plan events after
  only : ∃ r code, c' = { c.revise r with packageCode := code } ∧ SignedOnly plan events r

/-- What the staging files hold. -/
def World.data (w : World) (path : Path) : Bytes := (w.files path).getD []

theorem Staged.holds_path {lib : MsiLibrary} {c : MsiContents} {workspace : Nat} {plan : Plan}
    {s : Rewrite} (h : Staged lib c workspace plan.cabinets plan.binaries s) {path : Path}
    (hpath : path ∈ plan.paths) : s.world.Holds path := by
  obtain ⟨n, -, rfl⟩ := h.number_lt (List.mem_append.mp hpath)
  exact h.made

section Holds

variable {lib : MsiLibrary} {c : MsiContents} {workspace : Nat} {plan : Plan} {s s' : Rewrite}
  {r : Revision} {cabinet : Cabinet} {members : List CabinetMember} {data data' : Path → Bytes}
  {raw : Bytes}

theorem Plan.sublist_members (hcabinet : cabinet ∈ plan.cabinets) :
    cabinet.members.Sublist plan.members :=
  List.sublist_flatten_of_mem (List.mem_map_of_mem hcabinet)

theorem World.data_of {w : World} {path : Path} {file : Bytes} (h : w.files path = some file) :
    w.data path = file := by
  rw [World.data, h]
  rfl

theorem CabinetHolds.congr (h : CabinetHolds lib members data raw)
    (hdata : ∀ member ∈ members, data' member.path = data member.path) :
    CabinetHolds lib members data' raw := by
  obtain ⟨hcounted, ⟨finish, htable⟩, files, hfiles, hnames, hmembers⟩ := h
  refine ⟨hcounted, ⟨finish, ?_⟩, files, hfiles, hnames, fun member hmember => ?_⟩
  · have hentries : members.map (CabinetMember.holding data') =
        members.map (CabinetMember.holding data) := by
      apply List.map_congr_left
      intro member hmember
      rw [CabinetMember.holding, hdata member hmember, CabinetMember.holding]
    rwa [hentries]
  · rw [hdata member hmember]
    exact hmembers member hmember

/-- After the preflight the staging files hold the payloads. -/
theorem Staged.holds (h : Staged lib c workspace plan.cabinets plan.binaries s) :
    c.Holds lib plan s.world.data := by
  refine ⟨fun cabinet hcabinet => ?_, fun binary hbinary => ?_⟩
  · obtain ⟨raw, files, hstaged⟩ := h.eachCabinet cabinet hcabinet
    obtain ⟨count, hinspected⟩ := hstaged.inspected
    obtain ⟨finish, htable⟩ := hinspected.table
    refine ⟨raw, hstaged.stream, hinspected.counted, ⟨finish, ?_⟩, files, hstaged.unpacked,
      hstaged.names, fun member hmember => ?_⟩
    · have hentries : cabinet.members.map (CabinetMember.holding s.world.data) =
          cabinet.members.map CabinetMember.entry := by
        apply List.map_congr_left
        intro member hmember
        obtain ⟨file, -, -, hsize, hdata⟩ := hstaged.members member hmember
        rw [CabinetMember.holding, World.data_of hdata, hsize]
        rfl
      rwa [hentries]
    · obtain ⟨file, hfile, hname, -, hdata⟩ := hstaged.members member hmember
      exact ⟨file, hfile, hname, (World.data_of hdata).symm⟩
  · obtain ⟨data, hselect, hdata⟩ := h.eachBinary binary hbinary
    rw [hselect, World.data_of hdata]

/-- A cabinet built from the files of its members holds them. -/
theorem Rebuilt.holds (hlib : lib.Inverse) (hnames : (members.map CabinetMember.name).Nodup)
    (h : Rebuilt lib s.world members raw) : CabinetHolds lib members s.world.data raw := by
  obtain ⟨⟨built, finish, hpack, hpatched, hcount, -, htable⟩, hmade⟩ := h
  have hheader := hlib.header _ _ hpack
  have hstart : u32 raw 16 = u32 built 16 := u32_congr fun k hk => hpatched.front (by omega)
  have hentries : members.map (CabinetMember.holding s.world.data) =
      members.map (CabinetMember.rebuilt s.world) := rfl
  have hunpacked := hlib.unpacked _ _ _ hpack hpatched
  have hfiles : ((members.map (packed s.world)).map PackedFile.unpacked).map UnpackedFile.name =
      members.map CabinetMember.name := by
    simp only [List.map_map]
    rfl
  refine ⟨?_, ⟨finish, ?_⟩, _, hunpacked, hfiles ▸ hnames, fun member hmember => ?_⟩
  · rw [u16_congr fun k hk => hpatched.front (by omega), hcount]
  · rw [hstart, hentries]
    exact htable
  · exact ⟨_, List.mem_map_of_mem (List.mem_map_of_mem hmember), rfl, rfl⟩

section Revised

variable {R : Bytes → Bool → Bytes → Prop}

theorem Passing.turn (h : Passing R s plan.paths plan.paths s') {path : Path}
    (hpath : path ∈ plan.paths) : ∃ signed,
      Turn R s.world s' path (s.world.data path) (s'.world.data path) signed := by
  obtain ⟨before, after, signed, hturn⟩ := h.passed path hpath
  rw [World.data_of hturn.held, World.data_of hturn.holds]
  exact ⟨signed, hturn⟩

theorem Passing.unsigned_data (h : Passing R s plan.paths plan.paths s') {path : Path}
    (hpath : path ∈ plan.paths) (hunsigned : ¬ SignedAt s'.events path) :
    s'.world.data path = s.world.data path := by
  obtain ⟨signed, hturn⟩ := h.turn hpath
  rw [hturn.signedAt_iff, Bool.not_eq_true] at hunsigned
  exact hturn.unsigned hunsigned

/-- All payloads of a staged plan had their turns. -/
structure Settled (R : Bytes → Bool → Bytes → Prop) (lib : MsiLibrary) (c : MsiContents)
    (workspace : Nat) (plan : Plan) (r : Revision) (s s' : Rewrite) : Prop where
  complete : plan.Complete c workspace
  staged : Staged lib c workspace plan.cabinets plan.binaries s
  passing : Passing R s plan.paths plan.paths s'
  revised : Revised lib c plan (fun _ => False) r s'

theorem Settled.holdsCabinet (h : Settled R lib c workspace plan r s s') (hlib : lib.Inverse)
    (hcabinet : cabinet ∈ plan.cabinets) : ∃ raw,
      (c.revise r).select (.cabinet cabinet.name) = [raw] ∧
      CabinetHolds lib cabinet.members s'.world.data raw := by
  obtain ⟨raw, hselect, hholds⟩ := h.staged.holds.cabinets cabinet hcabinet
  obtain ⟨hchanged, hunchanged⟩ := h.revised.cabinets cabinet hcabinet id
  have hnames : (cabinet.members.map CabinetMember.name).Nodup :=
    h.complete.names.sublist ((Plan.sublist_members hcabinet).map _)
  rw [MsiContents.select_revise_cabinet, hselect, List.map_singleton]
  by_cases hsigned : ∃ member ∈ cabinet.members, SignedAt s'.events member.path
  · obtain ⟨raw', hstream, hbuilt⟩ := hchanged hsigned
    exact ⟨raw', by rw [hstream]; rfl, hbuilt.holds hlib hnames⟩
  · have hnone : ∀ member ∈ cabinet.members, ¬ SignedAt s'.events member.path :=
      fun member hmember hmemberSigned => hsigned ⟨member, hmember, hmemberSigned⟩
    refine ⟨raw, by rw [hunchanged hnone]; rfl, hholds.congr fun member hmember => ?_⟩
    exact h.passing.unsigned_data (Plan.member_path (Plan.mem_members hcabinet hmember))
      (hnone member hmember)

theorem Settled.holdsBinary (h : Settled R lib c workspace plan r s s') {binary : Bytes × Path}
    (hbinary : binary ∈ plan.binaries) : (c.revise r).select (.binary binary.1) = [s'.world.data binary.2] := by
  obtain ⟨hsigned, hunsigned⟩ := h.revised.binaries binary hbinary
  rw [MsiContents.select_revise_binary, h.staged.holds.binaries binary hbinary, List.map_singleton]
  by_cases hbinarySigned : SignedAt s'.events binary.2
  · obtain ⟨data, hdata, hnew⟩ := hsigned hbinarySigned
    rw [hnew, World.data_of hdata]
    rfl
  · rw [hunsigned hbinarySigned, h.passing.unsigned_data (Plan.binary_path hbinary) hbinarySigned]
    rfl

theorem Settled.agreesSizes (h : Settled R lib c workspace plan r s s') : ∀ row ∈ (c.revise r).fileRows, ∃ member ∈ plan.members,
    member.name = row.file ∧ integer row.fileSize = .ok ((s'.world.data member.path).length : Int) := by
  rw [MsiContents.fileRows_revise]
  intro row hrow
  obtain ⟨old, hold, rfl⟩ := List.mem_map.mp hrow
  obtain ⟨member, hmember, hname⟩ := h.complete.member hold
  refine ⟨member, hmember, hname, ?_⟩
  obtain ⟨hsigned, hunsigned⟩ := h.revised.members member hmember
  rw [hname] at hsigned hunsigned
  by_cases hmemberSigned : SignedAt s'.events member.path
  · obtain ⟨data, hdata, hlength, hsize, -⟩ := hsigned hmemberSigned
    rw [Revision.fileRow, hsize, World.data_of hdata]
    exact integer_ascii_toString hlength
  · rw [Revision.fileRow, (hunsigned hmemberSigned).1,
      h.passing.unsigned_data (Plan.member_path hmember) hmemberSigned]
    obtain ⟨cabinet, hcabinet, hmem⟩ := List.mem_flatMap.mp hmember
    obtain ⟨other, hother, hfile, hread, -⟩ := h.complete.row hcabinet hmem
    have hkeys : (c.fileRows.map FileTableRow.file).Nodup :=
      h.complete.files.map_name ▸ h.complete.files.names
    obtain rfl : other = old :=
      List.inj_on_of_nodup_map hkeys hother hold (hfile.trans hname)
    obtain ⟨raw, files, hcab⟩ := h.staged.eachCabinet cabinet hcabinet
    obtain ⟨file, -, -, hsize, hdata⟩ := hcab.members member hmem
    rw [World.data_of hdata, hsize]
    exact hread

theorem Settled.agreesHashes (h : Settled R lib c workspace plan r s s') {member : CabinetMember}
    (hmember : member ∈ plan.members)
    (hsigned : SignedAt s'.events member.path) {row : FileTableRow}
    (hrow : row ∈ (c.revise r).fileRows) (hfile : row.file = member.name)
    (hversion : row.version = []) {hash : HashRow} (hhash : hash ∈ (c.revise r).hashTableRows)
    (hname : hash.file = member.name) : hash.hash = msiFileHash lib (s'.world.data member.path) := by
  rw [MsiContents.fileRows_revise] at hrow
  rw [MsiContents.hashTableRows_revise] at hhash
  obtain ⟨oldRow, holdRow, rfl⟩ := List.mem_map.mp hrow
  obtain ⟨oldHash, holdHash, rfl⟩ := List.mem_map.mp hhash
  have hfile : oldRow.file = member.name := hfile
  have hname : oldHash.file = member.name := hname
  have hplanned : member.name ∈ plan.hashRows ∧ plan.version member.name = some [] := by
    refine ⟨?_, ?_⟩
    · rw [h.complete.hashRows, ← hname]
      exact List.mem_map_of_mem holdHash
    · obtain ⟨entry, hfind, hreads⟩ := h.complete.files.find_entry holdRow
      rw [Plan.version, ← hfile, hfind, Option.map_some, hreads.version]
      exact congrArg some hversion
  obtain ⟨data, hdata, -, -, hnew⟩ := (h.revised.members member hmember).signed hsigned
  rw [if_pos hplanned] at hnew
  rw [Revision.hashRow, hname, hnew, World.data_of hdata]
  rfl

theorem Settled.signedOnly (h : Settled R lib c workspace plan r s s') :
    SignedOnly plan s'.events r := by
  refine ⟨fun name hnew => ?_, fun name hnew => ?_, fun name hnew => ?_⟩
  · by_contra hnone
    by_cases hname : name ∈ plan.members.map CabinetMember.name
    · obtain ⟨member, hmember, rfl⟩ := List.mem_map.mp hname
      obtain ⟨hsizes, hhashes⟩ := (h.revised.members member hmember).unsigned fun hsigned =>
        hnone ⟨member, hmember, rfl, hsigned⟩
      exact hnew.elim (· hsizes) (· hhashes)
    · obtain ⟨hsizes, hhashes⟩ := h.revised.otherRows name hname
      exact hnew.elim (· hsizes) (· hhashes)
  · by_contra hnone
    by_cases hname : name ∈ plan.cabinets.map Cabinet.name
    · obtain ⟨cabinet, hcabinet, rfl⟩ := List.mem_map.mp hname
      exact hnew ((h.revised.cabinets cabinet hcabinet id).unchanged fun member hmember hsigned =>
        hnone ⟨cabinet, hcabinet, rfl, member, hmember, hsigned⟩)
    · exact hnew (h.revised.otherStreams name hname)
  · by_contra hnone
    by_cases hname : name ∈ plan.binaries.map Prod.fst
    · obtain ⟨binary, hbinary, rfl⟩ := List.mem_map.mp hname
      exact hnew ((h.revised.binaries binary hbinary).unsigned fun hsigned =>
        hnone ⟨binary, hbinary, rfl, hsigned⟩)
    · exact hnew (h.revised.otherBinaries name hname)

theorem Settled.committed (h : Settled R lib c workspace plan r s s') (hlib : lib.Inverse)
    (code : Bytes) : Committed lib plan s'.events c { c.revise r with packageCode := code }
      s.world.data s'.world.data where
  held := h.staged.holds
  holds := ⟨fun _ hcabinet => h.holdsCabinet hlib hcabinet, fun _ hbinary => h.holdsBinary hbinary⟩
  signed := by
    intro path hpath container left hmem
    obtain ⟨signed, hturn⟩ := h.passing.turn hpath
    obtain ⟨-, hleft⟩ := hturn.returns container true left hmem
    exact hleft
  others := fun path hpath hunsigned => h.passing.unsigned_data hpath hunsigned
  agrees := ⟨h.agreesSizes, fun _ hmember hsigned _ hrow hfile hversion _ hhash hname =>
    h.agreesHashes hmember hsigned hrow hfile hversion hhash hname⟩
  only := ⟨r, code, rfl, h.signedOnly⟩

end Revised

end Holds

/-! ## Runs -/

section Runs

variable {R : Bytes → Bool → Bytes → Prop} {env : Env} {lib : MsiLibrary} {staged : Path}
  {callback : Callback} {workspace : Nat} {w : World} {s : Rewrite}

theorem finish_ends (hholds : s.world.Holds staged) :
    Ends (finish env lib workspace staged) s
      (fun result s' => result = ⟨s.signedFiles, s.preservedFiles⟩ ∧
        (s.signedFiles = 0 → s' = s) ∧
        (s.signedFiles ≠ 0 → ∃ code,
          s'.world.files staged = some (lib.storeMsi { s.db with packageCode := code }) ∧
          s'.events = s.events ++ [.renewed, .committed]))
      fun _ _ => True := by
  rw [finish, ends_bind, ends_current]
  split
  swap
  · next hzero => exact ⟨rfl, fun _ => rfl, fun hne => absurd hne hzero⟩
  next hsigned =>
    rw [ends_bind, renewPackageCode, ends_bind, ends_onWorld]
    apply ends_attempt
    swap
    · exact fun _ => trivial
    rw [ends_bind, ends_change, ends_note, ends_bind, commit, ends_bind, ends_current, ends_bind,
      ends_onWorld, commitFile, ends_bind]
    apply ends_attempt
    swap
    · exact fun _ => trivial
    rw [ends_change, ends_note, ends_pure]
    refine ⟨rfl, fun hzero => absurd hzero hsigned, fun _ =>
      ⟨lib.packageCode s.world.tick.clock, World.files_set_self hholds, ?_⟩⟩
    simp [Rewrite.events, Rewrite.noted]

theorem quietly_openDatabase : Moves Quietly (openDatabase env lib staged) :=
  quietly_onWorld.bind fun _ =>
  (moves_lift _).bind fun _ =>
  quietly_change (by simp)

/-- Before the first turn nothing is signed and nothing is revised. -/
theorem Staged.between {c : MsiContents} {plan : Plan}
    (h : Staged lib c workspace plan.cabinets plan.binaries s)
    (hquiet : ∀ event ∈ s.events, event.Quiet) (hsigned : s.signedFiles = 0)
    (hpreserved : s.preservedFiles = 0) : Between R lib c plan s [] s := by
  refine ⟨⟨List.nil_subset _, by simp, fun path _ _ => ⟨rfl, ?_⟩, le_rfl, ?_, fun _ path => ?_,
    rfl, h.budget.limit⟩, .none, revised_none h.db fun path => ?_⟩
  · exact fun container returned left hmem => hquiet _ hmem
  · rw [hsigned, hpreserved]
    rfl
  · rintro ⟨container, left, hmem⟩
    exact hquiet _ hmem
  · rintro ⟨container, left, hmem⟩
    exact hquiet _ hmem

/-- What a preflight that returned hands to the signing. -/
structure Ready (lib : MsiLibrary) (staged : Path) (w : World) (plan : Plan) (s : Rewrite) :
    Prop where
  complete : plan.Complete (lib.contents w staged) w.nextDir
  payloads : Staged lib (lib.contents w staged) w.nextDir plan.cabinets plan.binaries s
  quietly : Quietly (.inWorkspace w) s
  inside : Inside w.nextDir (.inWorkspace w) s
  held : w.Holds staged

theorem preflightRun_ready {plan : Plan} (h : preflightRun env lib staged w = (.ok plan, s)) :
    Ready lib staged w plan s := by
  have hends : Ends (openDatabase env lib staged >>= fun _ => preflight env lib w.nextDir)
      (.inWorkspace w) (fun plan s => Ready lib staged w plan s) fun _ _ => True := by
    rw [ends_bind]
    apply (openDatabase_ends.and ((inside_openDatabase.ends _).and
      (quietly_openDatabase.ends _))).mono
    swap
    · exact fun _ _ _ => trivial
    rintro _ s₀ ⟨⟨hopened, -, -, hholds⟩, hinside, hquietly⟩
    apply ((preflight_ends hopened).and ((inside_preflight.ends s₀).and
      (quietly_preflight.ends s₀))).mono
    swap
    · exact fun _ _ _ => trivial
    rintro plan s₁ ⟨⟨hplan, hstaged, -⟩, hinside₁, hquietly₁⟩
    exact ⟨hplan, hstaged, trans_of Quietly hquietly hquietly₁,
      trans_of (Inside w.nextDir) hinside hinside₁, hholds⟩
  exact hends.of_ok h

section Ready

variable {plan : Plan}

theorem Ready.quiet (h : Ready lib staged w plan s) : ∀ event ∈ s.events, event.Quiet :=
  (h.quietly.orderly (c := default) rfl).2

theorem Ready.between (h : Ready lib staged w plan s) :
    Between R lib (lib.contents w staged) plan s [] s :=
  h.payloads.between h.quiet h.quietly.signed h.quietly.preserved

theorem Ready.signing (h : Ready lib staged w plan s) (hcallback : callback.Honest)
    (hanswers : callback.Answers R) : SigningOf R callback plan w.nextDir s :=
  ⟨hcallback, hanswers, h.payloads.distinct h.complete, h.payloads.numbered h.complete,
    fun _ hpath => h.payloads.holds_path hpath⟩

end Ready

/-- How a rewriting that returns came about. -/
structure Rewritten (R : Bytes → Bool → Bytes → Prop) (env : Env) (lib : MsiLibrary)
    (staged : Path) (w : World) (result : MsiRewriteResult) (s : Rewrite) (plan : Plan)
    (r : Revision) (s₁ s₂ : Rewrite) : Prop where
  preflight : preflightRun env lib staged w = (.ok plan, s₁)
  settled : Settled R lib (lib.contents w staged) w.nextDir plan r s₁ s₂
  result : result = ⟨s₂.signedFiles, s₂.preservedFiles⟩
  unsigned : s₂.signedFiles = 0 → s.world.files staged = w.files staged ∧ s.events = s₂.events
  signed : s₂.signedFiles ≠ 0 → ∃ code,
    s.world.files staged = some (lib.storeMsi { (lib.contents w staged).revise r with
      packageCode := code }) ∧ s.events = s₂.events ++ [.renewed, .committed]

theorem rewriteMsiPayload_rewrites (hcallback : callback.Honest) (hanswers : callback.Answers R) :
    Ends (rewriteMsiPayload env lib staged callback) (.start w)
      (fun result s => ∃ plan r s₁ s₂, Rewritten R env lib staged w result s plan r s₁ s₂)
      fun _ _ => True := by
  rw [rewriteMsiPayload, ends_bind, ends_onWorld]
  apply ends_attempt
  swap
  · exact fun _ => trivial
  rw [ends_bind, ends_current, ends_bind, ends_onWorld, ends_change, ends_cleanly, rewriteIn,
    ends_bind]
  apply ends_run.mono
  swap
  · exact fun _ _ _ => trivial
  intro _ s₀ hopen
  rw [ends_bind]
  apply ends_run.mono
  swap
  · exact fun _ _ _ => trivial
  intro plan s₁ hrun
  have hpreflight : preflightRun env lib staged w = (.ok plan, s₁) := (run_bind hopen).trans hrun
  have hready := preflightRun_ready hpreflight
  have hholds := hready.held
  rw [ends_bind]
  apply ((signPayloads_settles (hready.signing hcallback hanswers) hready.between).and
    ((inside_signPayloads hcallback.confined (hready.payloads.inside hready.complete)).ends s₁)).mono
  swap
  · exact fun _ _ _ => trivial
  rintro _ s₂ ⟨⟨hpassing, r, hrevised⟩, hinside₂⟩
  have hinside : Inside w.nextDir (.inWorkspace w) s₂ :=
    trans_of (Inside w.nextDir) hready.inside hinside₂
  -- Everything so far happens in the workspace, and the staged package is not in it.
  have hkept : s₂.world.files staged = w.files staged :=
    hinside.files staged (hholds.mono (Nat.le_succ _)) (World.not_in_nextDir hholds)
  apply (finish_ends ((hholds.mono (Nat.le_succ _)).mono hinside.nextDir)).mono
  swap
  · exact fun _ _ _ => trivial
  rintro result s₃ ⟨hresult, hunsigned, hcommitted⟩
  have hfile : (s₃.world.endDir env w.nextDir).files staged = s₃.world.files staged :=
    World.files_endDir (World.not_in_nextDir hholds)
  refine ⟨plan, r, s₁, s₂, hpreflight, ⟨hready.complete, hready.payloads, hpassing, hrevised⟩,
    hresult, fun hzero => ?_, fun hne => ?_⟩
  · obtain rfl := hunsigned hzero
    exact ⟨hfile.trans hkept, rfl⟩
  · obtain ⟨code, hstored, hmore⟩ := hcommitted hne
    exact ⟨code, by rw [← hrevised.db]; exact hfile.trans hstored, hmore⟩

end Runs

/-- The returns of the callback are all that counts in the log. -/
theorem Committed.congr {lib : MsiLibrary} {plan : Plan} {events events' : List MsiEvent}
    {c c' : MsiContents} {before after : Path → Bytes}
    (h : Committed lib plan events c c' before after)
    (hevents : ∀ container path returned left, .returned container path returned left ∈ events' ↔
      .returned container path returned left ∈ events) :
    Committed lib plan events' c c' before after := by
  have hsigned (path : Path) : SignedAt events' path ↔ SignedAt events path := by
    simp only [SignedAt, hevents]
  obtain ⟨r, code, hrevised, hrows, hstreams, hbinaries⟩ := h.only
  refine ⟨h.held, h.holds, ?_, ?_, ⟨h.agrees.sizes, ?_⟩, r, code, hrevised, ?_⟩
  · simpa only [hevents] using h.signed
  · simpa only [hsigned] using h.others
  · simpa only [hsigned] using h.agrees.hashes
  · exact ⟨by simpa only [hsigned] using hrows, by simpa only [hsigned] using hstreams,
      by simpa only [hsigned] using hbinaries⟩

/-- A rewriting that returns with a signature has committed an installer that holds
what the callbacks left in the payloads they signed and the rest as it was; cabinets
keep their members in order with their words, File and MsiFileHash rows agree with the
new bytes, and nothing else changes but the package code. -/
theorem rewriteMsiPayload_committed {env : Env} {lib : MsiLibrary} {staged : Path}
    {callback : Callback} {w : World} {result : MsiRewriteResult} {s : Rewrite}
    (hcallback : callback.Sound) (hlib : lib.Inverse)
    (hrun : rewriteMsiPayload env lib staged callback (.start w) = (.ok result, s))
    (hsigned : 0 < result.signedFiles) :
    ∃ plan s₁ c' after, preflightRun env lib staged w = (.ok plan, s₁) ∧
      plan.Complete (lib.contents w staged) w.nextDir ∧
      s.world.files staged = some (lib.storeMsi c') ∧
      Committed lib plan s.events (lib.contents w staged) c' s₁.world.data after := by
  obtain ⟨plan, r, s₁, s₂, h⟩ := (rewriteMsiPayload_rewrites hcallback.honest answers_true).of_ok hrun
  rw [h.result] at hsigned
  obtain ⟨code, hstored, hevents⟩ := h.signed (Nat.pos_iff_ne_zero.mp hsigned)
  refine ⟨plan, s₁, _, s₂.world.data, h.preflight, h.settled.complete, hstored,
    (h.settled.committed hlib code).congr fun container path returned left => ?_⟩
  simp [hevents]

/-! ## A sample -/

/-- A cabinet with one short file "a", not compressed. -/
def shortCabinet (file : PackedFile) : Bytes :=
  cabinetMagic ++ [0, 0, 0, 0, UInt8.ofNat (70 + file.data.length), 0, 0, 0, 0, 0, 0, 0,
    44, 0, 0, 0, 0, 0, 0, 0, 3, 1, 1, 0, 1, 0, 0, 0, 0, 0, 0, 0] ++ [62, 0, 0, 0, 1, 0, 0, 0] ++
  ([UInt8.ofNat file.data.length, 0, 0, 0, 0, 0, 0, 0, 0, 0] ++ octets16 file.date ++
    octets16 file.time ++ octets16 file.attributes ++ [97, 0]) ++
  [0, 0, 0, 0, UInt8.ofNat file.data.length, 0, UInt8.ofNat file.data.length, 0] ++ file.data

def shortFile : PackedFile := ⟨ascii "a", [77, 90], 1, 2, 32⟩

/-- An installer with one member, one Binary stream and a hash row. -/
def cabinetContents : MsiContents :=
  { (default : MsiContents) with
    tables := [ascii "Media", ascii "File", ascii "MsiFileHash", ascii "Binary"]
    wordCount := 2
    media := [⟨1, ascii "1", ascii "#c"⟩]
    file := [⟨ascii "a", ascii "2", [], [], ascii "1"⟩]
    fileHash := [⟨ascii "a", ascii "0", (1, 1, 1, 1)⟩]
    binary := [(ascii "b", [35, 33])]
    streams := [(ascii "c", shortCabinet shortFile)] }

/-- Packs and unpacks cabinets with one short file "a". -/
def cabinetLibrary : MsiLibrary where
  openMsi _ := .ok cabinetContents
  storeMsi _ := []
  packageCode _ := []
  unpack raw := .ok [⟨ascii "a", raw.length - 70, raw.drop 70⟩]
  pack files :=
    match files with
    | [file] =>
        if file.name = ascii "a" ∧ file.data.length < 100 then .ok (shortCabinet file)
        else .error "unsupported file"
    | _ => .error "unsupported files"
  md5 _ := List.replicate 16 0

theorem shortCabinet_drop (file : PackedFile) : (shortCabinet file).drop 70 = file.data :=
  List.drop_left' rfl

theorem shortCabinet_count (file : PackedFile) : u16 (shortCabinet file) 28 = 1 := by
  simp [u16, shortCabinet, cabinetMagic]

theorem shortCabinet_start (file : PackedFile) : u32 (shortCabinet file) 16 = 44 := by
  simp [u32, u16, shortCabinet, cabinetMagic]

/-- The metadata words of the only record come before the data. -/
theorem shortCabinet_metadata {file : PackedFile} {i : Nat}
    (h : MetadataOctet (shortCabinet file) i) : i < 70 := by
  obtain ⟨entries, cursor, entry, next, htable, hcount, -, -, hlast⟩ := h
  rw [shortCabinet_count, Nat.lt_one_iff] at hcount
  rw [shortCabinet_start] at htable
  cases htable with
  | nil => omega
  | snoc before record => simp at hcount

theorem cabinetLibrary_pack {files : List PackedFile} {cabinet : Bytes}
    (h : cabinetLibrary.pack files = .ok cabinet) :
    ∃ file, files = [file] ∧ file.name = ascii "a" ∧ cabinet = shortCabinet file := by
  match files with
  | [] => cases h
  | [file] =>
      change (if _ then _ else _) = _ at h
      split at h
      · next hfile => exact ⟨file, rfl, hfile.1, (Except.ok.inj h).symm⟩
      · cases h
  | _ :: _ :: _ => cases h

theorem cabinetLibrary_inverse : cabinetLibrary.Inverse := by
  refine ⟨fun files cabinet h => ?_, fun files cabinet patched h hpatched => ?_⟩
  · obtain ⟨file, -, -, rfl⟩ := cabinetLibrary_pack h
    have hstart := shortCabinet_start file
    omega
  · obtain ⟨file, rfl, hname, rfl⟩ := cabinetLibrary_pack h
    have hdata : patched.drop 70 = file.data := by
      rw [← shortCabinet_drop file]
      apply List.ext_getElem?
      intro i
      rw [List.getElem?_drop, List.getElem?_drop]
      exact hpatched.same _ fun hi => absurd (shortCabinet_metadata hi) (by omega)
    have hlength : patched.length - 70 = file.data.length := by
      rw [← hdata, List.length_drop]
    change Except.ok [_] = Except.ok [_]
    rw [hlength, hdata, ← hname]
    rfl

theorem cabinetRewrite_run :
    (rewriteMsiPayload calmEnv cabinetLibrary (.user []) sampleCallback (.start sampleWorld)).1 =
      .ok ⟨1, 0⟩ := by decide +kernel

theorem cabinetRewrite_committed :
    ∃ result s, rewriteMsiPayload calmEnv cabinetLibrary (.user []) sampleCallback
        (.start sampleWorld) = (.ok result, s) ∧
      ∃ plan s₁ c' after,
        preflightRun calmEnv cabinetLibrary (.user []) sampleWorld = (.ok plan, s₁) ∧
        plan.Complete (cabinetLibrary.contents sampleWorld (.user [])) sampleWorld.nextDir ∧
        s.world.files (.user []) = some (cabinetLibrary.storeMsi c') ∧
        Committed cabinetLibrary plan s.events (cabinetLibrary.contents sampleWorld (.user [])) c'
          s₁.world.data after := by
  obtain ⟨s, hrun⟩ := exists_run cabinetRewrite_run
  exact ⟨_, s, hrun, rewriteMsiPayload_committed sampleCallback_sound cabinetLibrary_inverse hrun
    Nat.one_pos⟩

end AasSign
