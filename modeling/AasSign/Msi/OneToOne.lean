import AasSign.Msi.Discipline

/-! # Members and rows, one to one

When a callback is reached, the rows of the File table and the members of all
cabinets together correspond one to one, and every payload has a staging file of
its own. No single check says so: the names come from the per-cabinet check, the
found flags and the sweep, the ranges from the order of the disks.
-/

namespace AasSign

open Foundation Program

/-- The correspondence of the File table with the members of the cabinets. -/
structure OneToOne (c : MsiContents) (plan : Plan) (w : World) : Prop where
  /-- The cabinets in the order of their disks; a range starts behind the disk before. -/
  media : DiskRanges 0 c.mediaRows plan.cabinets
  disjoint : plan.cabinets.Pairwise fun a b => a.last < b.first
  /-- The members of a cabinet are those of its file table. -/
  tables : ∀ cabinet ∈ plan.cabinets, ∃ raw finish, c.select (.cabinet cabinet.name) = [raw] ∧
    u16 raw 28 = cabinet.members.length ∧
    FileTable raw (u32 raw 16) (cabinet.members.map CabinetMember.entry) finish
  names : (plan.members.map CabinetMember.name).Nodup
  keys : (c.fileRows.map FileTableRow.file).Nodup
  row : ∀ cabinet ∈ plan.cabinets, ∀ member ∈ cabinet.members, ∃ row ∈ c.fileRows,
    row.file = member.name ∧ integer row.fileSize = .ok (member.size : Int) ∧
    ∃ sequence, integer row.sequence = .ok sequence ∧
      cabinet.first ≤ sequence ∧ sequence ≤ cabinet.last
  member : ∀ row ∈ c.fileRows, ∃ member ∈ plan.members, member.name = row.file
  sizes : ∀ member ∈ plan.members, ∃ data, w.files member.path = some data ∧
    data.length = member.size
  binaries : plan.binaries.map Prod.fst = c.binaryRows.map Prod.fst
  paths : (plan.members.map CabinetMember.path ++ plan.binaries.map Prod.snd).Nodup

section OneToOne

variable {lib : MsiLibrary} {c : MsiContents} {workspace : Nat} {plan : Plan} {s : Rewrite}

theorem Plan.Complete.row (h : plan.Complete c workspace) {cabinet : Cabinet}
    (hcabinet : cabinet ∈ plan.cabinets) {member : CabinetMember}
    (hmember : member ∈ cabinet.members) :
    ∃ row ∈ c.fileRows, row.file = member.name ∧ integer row.fileSize = .ok (member.size : Int) ∧
      ∃ sequence, integer row.sequence = .ok sequence ∧
        cabinet.first ≤ sequence ∧ sequence ≤ cabinet.last := by
  obtain ⟨entry, hentry, hname, hfirst, hlast, hsize⟩ := h.takes cabinet hcabinet member hmember
  obtain ⟨row, hrow, hreads⟩ := h.files.exists_row hentry
  exact ⟨row, hrow, hreads.name.symm.trans hname, hsize ▸ hreads.size, entry.sequence,
    hreads.sequence, hfirst, hlast⟩

theorem Plan.Complete.member (h : plan.Complete c workspace) {row : FileTableRow}
    (hrow : row ∈ c.fileRows) : ∃ member ∈ plan.members, member.name = row.file := by
  have hmem : row.file ∈ c.fileRows.map FileTableRow.file := List.mem_map_of_mem hrow
  rw [← h.files.map_name] at hmem
  obtain ⟨entry, hentry, hname⟩ := List.mem_map.mp hmem
  obtain ⟨member, hmember, hfound⟩ := List.mem_map.mp (h.found entry hentry)
  exact ⟨member, hmember, hfound.trans hname⟩

theorem Staged.paths_nodup {cabinets : List Cabinet} {binaries : List (Bytes × Path)}
    (h : Staged lib c workspace cabinets binaries s) :
    ((cabinets.flatMap Cabinet.members).map CabinetMember.path ++
      binaries.map Prod.snd).Nodup := by
  rw [h.numbers]
  exact List.nodup_range.map fun _ _ heq => payloadPath_inj heq

theorem Staged.oneToOne (hplan : plan.Complete c workspace)
    (h : Staged lib c workspace plan.cabinets plan.binaries s) : OneToOne c plan s.world where
  media := hplan.media.ranges
  disjoint := hplan.media.ranges.pairwise.2
  tables := by
    intro cabinet hcabinet
    obtain ⟨raw, files, hstaged⟩ := h.eachCabinet cabinet hcabinet
    obtain ⟨count, hinspected⟩ := hstaged.inspected
    obtain ⟨finish, htable⟩ := hinspected.table
    exact ⟨raw, finish, hstaged.stream, hinspected.counted, htable⟩
  names := hplan.names
  keys := hplan.files.map_name ▸ hplan.files.names
  row := fun _ hcabinet _ hmember => hplan.row hcabinet hmember
  member := fun _ hrow => hplan.member hrow
  sizes := by
    intro member hmember
    obtain ⟨cabinet, hcabinet, hmember⟩ := List.mem_flatMap.mp hmember
    obtain ⟨raw, files, hstaged⟩ := h.eachCabinet cabinet hcabinet
    obtain ⟨file, -, -, hsize, hdata⟩ := hstaged.members member hmember
    exact ⟨file.data, hdata, hsize⟩
  binaries := hplan.binaries
  paths := h.paths_nodup

end OneToOne

/-- The preflight of a rewriting, from the opening of the database on. -/
def preflightRun (env : Env) (lib : MsiLibrary) (staged : Path) (w : World) :
    Except Exn Plan × Rewrite :=
  (openDatabase env lib staged >>= fun _ => preflight env lib w.nextDir) (.inWorkspace w)

/-- A callback is reached only behind a preflight that returned a one-to-one plan. -/
def ReachedOneToOne (env : Env) (lib : MsiLibrary) (staged : Path) (w : World) (s : Rewrite) :
    Prop :=
  (∃ event ∈ s.events, event.IsCall) → ∃ plan s₁,
    preflightRun env lib staged w = (.ok plan, s₁) ∧
      OneToOne (lib.contents w staged) plan s₁.world

theorem rewriteMsiPayload_oneToOne (env : Env) (lib : MsiLibrary) (staged : Path)
    (callback : Callback) (w : World) :
    Ends (rewriteMsiPayload env lib staged callback) (.start w)
      (fun _ s => ReachedOneToOne env lib staged w s)
      (fun _ s => ReachedOneToOne env lib staged w s) := by
  have hnone (s : Rewrite) (hevents : ∀ event ∈ s.events, event.Quiet) :
      ReachedOneToOne env lib staged w s := by
    rintro ⟨event, hevent, hcall⟩
    have hquiet := hevents event hevent
    cases event <;> first | exact hcall.elim | exact hquiet.elim
  rw [rewriteMsiPayload, ends_bind, ends_onWorld]
  apply ends_attempt
  swap
  · exact fun what => hnone _ (by simp [Rewrite.events, Rewrite.start])
  rw [ends_bind, ends_current, ends_bind, ends_onWorld, ends_change, ends_cleanly]
  rw [rewriteIn, ends_bind]
  apply (openDatabase_ends.and ends_run).mono
  swap
  · rintro e s₁ ⟨⟨-, hlog, -⟩, -⟩
    exact hnone _ (by simp [Rewrite.events, hlog])
  rintro _ s₁ ⟨⟨hstaged, hevents, -, -⟩, hopen⟩
  rw [ends_bind]
  apply ((preflight_ends hstaged).and ((quietly_preflight.ends s₁).and ends_run)).mono
  · rintro plan s₂ ⟨⟨hplan, hstaged₂, -⟩, -, hrun⟩
    have hreached (s : Rewrite) : ReachedOneToOne env lib staged w s := fun _ =>
      ⟨plan, s₂, (run_bind hopen).trans hrun, hstaged₂.oneToOne hplan⟩
    exact ends_of_forall (fun _ _ => hreached _) fun _ _ => hreached _
  · rintro e s₂ ⟨-, hquietly, -⟩
    exact hnone _ (hquietly.orderly (c := default) hevents).2

end AasSign
