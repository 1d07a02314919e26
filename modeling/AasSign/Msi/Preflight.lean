import AasSign.Msi.Accepted
import AasSign.Msi.Staging

/-! # The steps of the preflight

Each step of the preflight keeps the staging invariant, or stops. A plan that it
returns is complete: every member has taken a File row and no row is left.
-/

namespace AasSign

open Foundation Program

section Steps

variable {env : Env} {lib : MsiLibrary} {c : MsiContents} {workspace : Nat} {s : Rewrite}
  {cabinets : List Cabinet} {binaries : List (Bytes × Path)}

/-- A stream goes into its staging file, which is no payload file. -/
theorem ends_extractCabinetStream {name : Bytes} {path : Path} {limit : Nat}
    {Q : Nat → Rewrite → Prop} (h : Staged lib c workspace cabinets [] s)
    (hpath : ∃ i, path = cabinetPath workspace i)
    (hQ : ∀ raw s', c.select (.cabinet name) = [raw] → s'.world.files path = some raw →
      Staged lib c workspace cabinets [] s' → s'.expanded = s.expanded → Q raw.length s') :
    Ends (extractStream env (.cabinet name) path limit) s Q Stops := by
  apply ends_extractStream
  · intro raw hselect _ hholds
    apply hQ raw
    · rwa [h.db] at hselect
    · exact World.files_set_self hholds
    · refine h.withWorld (fun n => World.files_set_ne ?_) rfl
      obtain ⟨i, rfl⟩ := hpath
      exact cabinetPath_ne_payloadPath.symm
    · rfl
  · exact fun what w => ⟨trivial, h.budget.log⟩

/-- The numbers of members that are not unpacked yet cost nothing. -/
theorem Staged.countMembers {raw : Bytes} {members : List CabinetMember} {total : Nat}
    (h : Staged lib c workspace cabinets binaries s)
    (hinspected : InspectedMembers raw workspace s.count members)
    (hcount : s.count + members.length ≤ memberLimit)
    (htotal : s.expanded + (members.map CabinetMember.size).sum ≤ total)
    (hlimit : total ≤ expansionLimit) :
    Budgeted workspace { s with count := s.count + members.length, expanded := total } := by
  refine ⟨hcount, ?_, hlimit, h.budget.log⟩
  have hempty : ∀ member ∈ members, fileSize s.world member.path = 0 := by
    intro member hmember
    obtain ⟨n, hn, -, hpath⟩ := number_of_mem hinspected.numbers (List.mem_map_of_mem hmember)
    rw [fileSize, hpath, h.absent n hn]
    rfl
  have hpayload := h.budget.payload
  rw [payloadBytes_members hinspected.numbers, List.map_congr_left hempty]
  simp only [List.map_const', List.sum_replicate_nat]
  omega

theorem preflightCabinet_ends {files : List FileRow} {names : List Bytes} {cabinet : Cabinet}
    (h : Staged lib c workspace cabinets [] s) (hnames : names.Nodup)
    (hpath : ∃ i, cabinet.path = cabinetPath workspace i) :
    Ends (preflightCabinet env lib workspace (cabinets, marked files names) cabinet) s
      (fun scan s' => ∃ members,
        scan = (cabinets ++ [{ cabinet with members }],
          marked files (names ++ members.map CabinetMember.name)) ∧
        Staged lib c workspace (cabinets ++ [{ cabinet with members }]) [] s' ∧
        (names ++ members.map CabinetMember.name).Nodup ∧
        (∀ member ∈ members, ∃ row ∈ files, Takes cabinet member row) ∧
        ∃ expanded, AcceptedCabinet lib c { cabinet with members } expanded ∧
          s'.expanded = s.expanded + expanded)
      Stops := by
  rw [preflightCabinet, ends_bind]
  apply ends_extractCabinetStream h hpath
  intro raw s₁ hselect hraw h₁ hexpanded₁
  replace h₁ := h₁.noted (.extracted (.cabinet cabinet.name))
  rw [ends_bind, ends_note, ends_bind, ends_onWorld]
  apply ends_readFile
  swap
  · exact fun what => ⟨trivial, h₁.budget.log⟩
  -- The staged stream is read again, and nothing has touched it in between.
  intro raw' hraw'
  cases hraw.symm.trans hraw'
  replace h₁ := h₁.withWorld (w := _) (fun n => congrFun World.files_tick _) rfl
  rw [ends_bind, ends_current, ends_bind]
  generalize hs₂ : ({ s₁.noted workspace (.extracted (.cabinet cabinet.name)) with
    world := _ } : Rewrite) = s₂ at h₁ ⊢
  have hraw₂ : s₂.world.files cabinet.path = some raw := by
    rw [← hs₂]
    exact hraw
  have hextracted : .extracted (.cabinet cabinet.name) ∈ s₂.events := by
    rw [← hs₂]
    exact (events_noted workspace _ s₁).symm ▸ List.mem_concat_self
  have hexpanded₂ : s₂.expanded = s.expanded := by
    rw [← hs₂]
    exact hexpanded₁
  apply ends_lift_safe (inspectCabinet_safe h₁.budget.limit h₁.budget.count).and_ok
  swap
  · exact fun e he => ⟨he, h₁.budget.log⟩
  rintro ⟨members, total, count⟩ ⟨⟨hinspected, hcount, hlimit, htotal, hexpanded⟩, hformat⟩
  obtain ⟨format, hspent, hentries⟩ := inspected_format hformat
  dsimp only at hinspected hcount hlimit htotal hexpanded hspent hentries ⊢
  subst hcount
  -- The members are counted before they are unpacked; a stop from here on keeps this budget.
  have hcounted : Budgeted workspace
      { s₂ with count := s₂.count + members.length, expanded := total } :=
    h₁.countMembers hinspected hlimit htotal hexpanded
  replace hcounted := hcounted.noted (.inspected cabinet.name)
  rw [ends_bind, ends_change, ends_bind, ends_note, ends_bind]
  apply ends_lift_safe (mapMembers_safe hnames)
  swap
  · exact fun e he => ⟨he, hcounted.log⟩
  rintro _ ⟨rfl, hnodup, htakes⟩
  have hpaths : (members.map CabinetMember.path).Nodup := nodup_of_numbers hinspected.numbers
  rw [ends_bind, ends_onWorld]
  apply (ends_extractCabinet hinspected.names hpaths).mono
  swap
  · exact fun e _ he => ⟨he, hcounted.log⟩
  rintro _ w ⟨raw', unpacked, hraw', hunpack, hfiles, htaken, hdata, hothers, hdir⟩
  cases hraw₂.symm.trans hraw'
  rw [ends_bind, ends_onWorld]
  apply ends_checkSizes.mono
  swap
  · exact fun e _ he => ⟨he, hcounted.log⟩
  rintro _ w' ⟨hsame, hdir', hsizes⟩
  rw [ends_bind, ends_note, ends_pure]
  -- The sizes that the table promised are those of the files that came out.
  have hgiven : ∀ member ∈ members, ∃ file ∈ unpacked, file.name = member.name ∧
      file.data.length = member.size ∧ w'.files member.path = some file.data := by
    intro member hmember
    obtain ⟨file, hfile, hname, -, hfileData⟩ := hdata member hmember
    refine ⟨file, hfile, hname, ?_, (congrFun hsame _).trans hfileData⟩
    have hsize := hsizes member hmember
    rwa [fileSize, hfileData] at hsize
  refine ⟨members, rfl, ?_, hnodup, htakes, expandedBytes format.folders,
    ⟨raw, hselect, ⟨format, rfl, hentries⟩, unpacked, hunpack, hfiles, htaken, ?_⟩, ?_⟩
  · refine h₁.addCabinet hinspected hselect hunpack hfiles hgiven (fun other hother _ => ?_) hpath
      (hdir'.trans hdir) hlimit htotal hexpanded hcounted.log (by simp [Rewrite.noted]) hextracted
    exact (congrFun hsame other).trans (hothers other hother)
  · intro member hmember
    obtain ⟨file, hfile, hname, hsize, -⟩ := hgiven member hmember
    exact ⟨file, hfile, hname, hsize⟩
  · rw [expanded_noted, ← hexpanded₂]
    exact hspent

/-! ## One Binary stream -/

/-- An extracted stream takes the next number. -/
theorem Staged.addBinary {w : World} {name data : Bytes}
    (h : Staged lib c workspace cabinets binaries s)
    (hselect : c.select (.binary name) = [data])
    (hdata : w.files (payloadPath workspace s.count) = some data)
    (hothers : ∀ n, n ≠ s.count →
      w.files (payloadPath workspace n) = s.world.files (payloadPath workspace n))
    (hdir : w.nextDir = s.world.nextDir) (hcount : s.count < memberLimit)
    (hlimit : s.expanded + data.length ≤ expansionLimit) :
    Staged lib c workspace cabinets (binaries ++ [(name, payloadPath workspace s.count)])
      ({ s with world := w, count := s.count + 1, expanded := s.expanded + data.length }.noted
        workspace (.extracted (.binary name))) := by
  have hnumber {path : Path} (hpath : path ∈ (cabinets.flatMap Cabinet.members).map
      CabinetMember.path ∨ path ∈ binaries.map Prod.snd) : path ≠ payloadPath workspace s.count := by
    rintro rfl
    obtain ⟨n, hn, hpath⟩ := h.number_lt hpath
    have := payloadPath_inj hpath
    omega
  have hbudget : Budgeted workspace
      { s with world := w, count := s.count + 1, expanded := s.expanded + data.length } := by
    refine ⟨hcount, ?_, hlimit, h.budget.log⟩
    have hsize : fileSize w (payloadPath workspace s.count) = data.length := by
      rw [fileSize, hdata]
      rfl
    have hpayload := h.budget.payload
    change payloadBytes workspace (s.count + 1) w ≤ s.expanded + data.length
    rw [payloadBytes_add, payloadBytes_congr fun n hn => hothers n (by omega)]
    simp only [List.range_one, List.map_cons, List.map_nil, List.sum_cons, List.sum_nil,
      Nat.add_zero, hsize]
    omega
  constructor
  case db => exact h.db
  case made => exact hdir ▸ h.made
  case eachCabinet =>
    intro cabinet hcabinet
    obtain ⟨raw, files, hstaged⟩ := h.eachCabinet cabinet hcabinet
    refine ⟨raw, files, hstaged.withWorld fun n => ?_⟩
    by_cases hn : n = s.count
    · refine .inr fun hmem => ?_
      obtain ⟨member, hmember, hpath⟩ := List.mem_map.mp hmem
      refine hnumber (.inl (List.mem_map_of_mem (List.mem_flatMap.mpr ⟨cabinet, hcabinet, hmember⟩)))
        (hpath.trans (hn ▸ rfl))
    · exact .inl (hothers n hn)
  case eachBinary =>
    simp only [List.mem_append, List.mem_singleton]
    rintro binary (hbinary | rfl)
    · obtain ⟨old, hold, hfile⟩ := h.eachBinary binary hbinary
      have hmem : binary.2 ∈ binaries.map Prod.snd := List.mem_map_of_mem hbinary
      obtain ⟨n, -, hn⟩ := h.number_lt (.inr hmem)
      refine ⟨old, hold, ?_⟩
      rw [world_noted, ← hn, hothers n, hn, hfile]
      rintro rfl
      exact hnumber (.inr hmem) hn.symm
    · exact ⟨data, hselect, hdata⟩
  case numbers =>
    rw [count_noted, List.map_append, ← List.append_assoc, h.numbers, List.range_succ,
      List.map_append]
    rfl
  case absent =>
    intro n hn
    have hn : s.count + 1 ≤ n := hn
    exact (hothers n (by omega)).trans (h.absent n (by omega))
  case budget => exact hbudget.noted _
  case logged =>
    refine ⟨?_, ?_⟩
    · rw [events_noted]
      exact (h.logged.mono (List.subset_append_left _ _)).cabinet
    · rw [events_noted]
      simp only [List.mem_append, List.mem_singleton]
      rintro binary (hbinary | rfl)
      · exact .inl (h.logged.binary binary hbinary)
      · exact .inr rfl

theorem preflightBinary_ends {row : Bytes × Bytes}
    (h : Staged lib c workspace cabinets binaries s) :
    Ends (preflightBinary env workspace binaries row) s
      (fun binaries' s' => (∃ path expanded, binaries' = binaries ++ [(row.1, path)] ∧
          AcceptedBinary c (row.1, path) expanded ∧ s'.expanded = s.expanded + expanded) ∧
        Staged lib c workspace cabinets binaries' s' ∧ s.events ⊆ s'.events)
      Stops := by
  have hstop (e : Exn) (he : e.Thrown) (s' : Rewrite) (hlog : s'.log = s.log) : Stops e s' :=
    ⟨he, hlog ▸ h.budget.log⟩
  rw [preflightBinary, ends_bind, ends_current, ends_bind]
  apply ends_lift_safe invalidIf_safe
  swap
  · exact fun e he => hstop e he s rfl
  intro _ hcount
  rw [ends_bind, ends_change, ends_bind, ends_lift, usub_of_le h.budget.limit, sat_ok, ends_bind]
  apply ends_extractStream
  swap
  · exact fun what _ => hstop (.error what) trivial _ rfl
  intro data hselect hlimit hholds
  rw [ends_bind, ends_change, ends_bind, ends_note, ends_pure]
  refine ⟨⟨_, data.length, rfl, ⟨data, h.db ▸ hselect, rfl⟩, rfl⟩, ?_, ?_⟩
  · have hroom := h.budget.limit
    refine h.addBinary (h.db ▸ hselect) (World.files_set_self hholds) (fun n hn => ?_) rfl
      (Nat.not_le.mp hcount) (by omega)
    exact World.files_set_ne fun heq => hn (payloadPath_inj heq)
  · rw [events_noted]
    exact List.subset_append_left _ _

end Steps

/-! ## The whole preflight -/

/-- Every check on the database was made and passed. -/
structure Plan.Complete (plan : Plan) (c : MsiContents) (workspace : Nat) : Prop where
  noStorages : c.storages = []
  media : MediaCabinets workspace c.mediaRows plan.cabinets
  files : FileRows c.fileRows plan.files
  names : (plan.members.map CabinetMember.name).Nodup
  takes : ∀ cabinet ∈ plan.cabinets, ∀ member ∈ cabinet.members, ∃ row ∈ plan.files,
    Takes cabinet member row
  found : ∀ row ∈ plan.files, row.name ∈ plan.members.map CabinetMember.name
  binaries : plan.binaries.map Prod.fst = c.binaryRows.map Prod.fst
  hashRows : plan.hashRows = c.hashTableRows.map HashRow.file
  options : ∀ row ∈ c.hashTableRows, integer row.options = .ok 0

theorem DiskRanges.congr {previous : Int} {rows : List MediaRow} {cabinets cabinets' : List Cabinet}
    (h : DiskRanges previous rows cabinets)
    (hkeys : cabinets'.map Cabinet.key = cabinets.map Cabinet.key) :
    DiskRanges previous rows cabinets' := by
  induction cabinets generalizing previous rows cabinets' with
  | nil =>
      obtain rfl := List.map_eq_nil_iff.mp hkeys
      exact h
  | cons cabinet cabinets ih =>
      obtain ⟨cabinet', rest, rfl, hkey, hrest⟩ := List.map_eq_cons_iff.mp hkeys
      cases rows with
      | nil => exact h.elim
      | cons row rows =>
          obtain ⟨hlast, hname, hfirst, horder, hranges⟩ := h
          simp only [Cabinet.key, Prod.mk.injEq] at hkey
          rw [← hkey.2.2.2] at hlast horder hranges
          exact ⟨hlast, hkey.1 ▸ hname, hkey.2.2.1.trans hfirst, horder, ih hranges hrest⟩

theorem MediaCabinets.congr {workspace : Nat} {rows : List MediaRow}
    {cabinets cabinets' : List Cabinet} (h : MediaCabinets workspace rows cabinets)
    (hkeys : cabinets'.map Cabinet.key = cabinets.map Cabinet.key) :
    MediaCabinets workspace rows cabinets' := by
  have hnames := congrArg (List.map Prod.fst) hkeys
  have hpaths := congrArg (List.map fun key => key.2.1) hkeys
  have hlength := congrArg List.length hkeys
  simp only [List.map_map, List.length_map] at hnames hpaths hlength
  refine ⟨h.ranges.congr hkeys, ?_, ?_⟩
  · exact (congrArg List.Nodup hnames).mpr h.names
  · rw [hlength]
    exact hpaths.trans h.paths

theorem FileRows.marked {rows : List FileTableRow} {files : List FileRow} (h : FileRows rows files)
    (names : List Bytes) : FileRows rows (marked files names) := by
  refine ⟨?_, (congrArg List.Nodup map_name_marked).mpr h.names⟩
  exact List.forall₂_map_left_iff.mpr (h.rows.imp fun _ _ hreads =>
    ⟨hreads.name, hreads.size, hreads.sequence, hreads.version⟩)

section Preflight

variable {env : Env} {lib : MsiLibrary} {c : MsiContents} {workspace : Nat} {s : Rewrite}

/-- The state of the loop over the cabinets, which began with a budget. -/
structure MappedCabinets (lib : MsiLibrary) (c : MsiContents) (workspace start : Nat)
    (files : List FileRow) (done : List Cabinet) (scan : List Cabinet × List FileRow)
    (s : Rewrite) : Prop where
  staged : Staged lib c workspace scan.1 [] s
  keys : scan.1.map Cabinet.key = done.map Cabinet.key
  rows : scan.2 = marked files ((scan.1.flatMap Cabinet.members).map CabinetMember.name)
  names : ((scan.1.flatMap Cabinet.members).map CabinetMember.name).Nodup
  takes : ∀ cabinet ∈ scan.1, ∀ member ∈ cabinet.members, ∃ row ∈ files,
    Takes cabinet member row
  spends : Spends lib c scan.1 [] start s.expanded

theorem preflightCabinets_ends {files : List FileRow} {rows : List MediaRow}
    {cabinets : List Cabinet} (h : Staged lib c workspace [] [] s)
    (hfiles : ∀ entry ∈ files, entry.found = false)
    (hmedia : MediaCabinets workspace rows cabinets) :
    Ends (foldItems (preflightCabinet env lib workspace) ([], files) cabinets) s
      (fun scan s' => MappedCabinets lib c workspace s.expanded files cabinets scan s') Stops := by
  apply ends_foldItems (MappedCabinets lib c workspace s.expanded files)
  · rintro done cabinet rest ⟨opened, current⟩ s' hsplit
      ⟨hstaged, hkeys, hrows, hnames, htakes, hspends⟩
    dsimp only at hstaged hkeys hrows hnames htakes hspends
    subst hrows
    have hpath : ∃ i, cabinet.path = cabinetPath workspace i := by
      have hmem : cabinet.path ∈ cabinets.map Cabinet.path :=
        List.mem_map_of_mem (by simp [hsplit])
      rw [hmedia.paths, List.mem_map] at hmem
      obtain ⟨i, -, hi⟩ := hmem
      exact ⟨i, hi.symm⟩
    apply (preflightCabinet_ends hstaged hnames hpath).mono
    swap
    · exact fun _ _ => id
    rintro _ s'' ⟨members, rfl, hnext, hnodup, hmembers, expanded, haccepted, hspent⟩
    have hflat : ((opened ++ [{ cabinet with members }]).flatMap Cabinet.members).map
        CabinetMember.name = (opened.flatMap Cabinet.members).map CabinetMember.name ++
          members.map CabinetMember.name := by
      simp
    refine ⟨hnext, by simp [hkeys, Cabinet.key], by rw [hflat], by rwa [hflat], ?_,
      hspent ▸ hspends.addCabinet haccepted⟩
    simp only [List.mem_append, List.mem_singleton]
    rintro other (hother | rfl) member hmember
    · exact htakes other hother member hmember
    · exact hmembers member hmember
  · exact ⟨h, rfl, (marked_nil hfiles).symm, List.nodup_nil, by simp, .nil⟩

theorem MappedCabinets.mem_names {start : Nat} {files : List FileRow} {done : List Cabinet}
    {scan : List Cabinet × List FileRow}
    (h : MappedCabinets lib c workspace start files done scan s)
    (hfound : ∀ row ∈ scan.2, row.found = true) :
    ∀ row ∈ files, row.name ∈ (scan.1.flatMap Cabinet.members).map CabinetMember.name := by
  rw [h.rows] at hfound
  exact mem_of_marked hfound

/-- Mapped cabinets without a missing member make a complete plan. -/
theorem MappedCabinets.complete {start : Nat} {files : List FileRow} {done : List Cabinet}
    {scan : List Cabinet × List FileRow} {binaries : List (Bytes × Path)} {hashRows : List Bytes}
    (h : MappedCabinets lib c workspace start files done scan s)
    (hfound : ∀ row ∈ scan.2, row.found = true) (hstorages : c.storages = [])
    (hmedia : MediaCabinets workspace c.mediaRows done) (hfiles : FileRows c.fileRows files)
    (hbinaries : binaries.map Prod.fst = c.binaryRows.map Prod.fst)
    (hnames : hashRows = c.hashTableRows.map HashRow.file)
    (hoptions : ∀ row ∈ c.hashTableRows, integer row.options = .ok 0) :
    Plan.Complete { cabinets := scan.1, files := scan.2, binaries, hashRows } c workspace := by
  refine ⟨hstorages, hmedia.congr h.keys, h.rows ▸ hfiles.marked _, h.names, ?_, ?_, hbinaries,
    hnames, hoptions⟩
  -- The rows of the plan are the rows of the table with their marks.
  · intro cabinet hcabinet member hmember
    obtain ⟨row, hrow, htakes⟩ := h.takes cabinet hcabinet member hmember
    have hmarked := mem_marked ((scan.1.flatMap Cabinet.members).map CabinetMember.name) hrow
    rw [← h.rows] at hmarked
    exact ⟨_, hmarked, htakes⟩
  · intro row hrow
    change row ∈ scan.2 at hrow
    rw [h.rows] at hrow
    obtain ⟨origin, horigin, rfl⟩ := List.mem_map.mp hrow
    exact h.mem_names hfound origin horigin

theorem preflightBinaries_ends {rows : List (Bytes × Bytes)} {cabinets : List Cabinet}
    (start : Nat) (h : Staged lib c workspace cabinets [] s)
    (hspends : Spends lib c cabinets [] start s.expanded) :
    Ends (foldItems (preflightBinary env workspace) [] rows) s
      (fun binaries s' => Staged lib c workspace cabinets binaries s' ∧
        binaries.map Prod.fst = rows.map Prod.fst ∧ s.events ⊆ s'.events ∧
        Spends lib c cabinets binaries start s'.expanded)
      Stops := by
  apply ends_foldItems (fun (done : List (Bytes × Bytes)) binaries s' =>
    Staged lib c workspace cabinets binaries s' ∧ binaries.map Prod.fst = done.map Prod.fst ∧
      s.events ⊆ s'.events ∧ Spends lib c cabinets binaries start s'.expanded)
  · rintro done row rest binaries s' - ⟨hstaged, hnames, hevents, hspent⟩
    apply (preflightBinary_ends hstaged).mono
    swap
    · exact fun _ _ => id
    rintro _ s'' ⟨⟨path, expanded, rfl, haccepted, hmoved⟩, hnext, hmore⟩
    exact ⟨hnext, by simp [hnames], List.Subset.trans hevents hmore,
      hmoved ▸ hspent.addBinary haccepted⟩
  · exact ⟨h, rfl, List.Subset.refl _, hspends⟩

/-- A query reads its rows, if they are not too many, and nothing is spent. -/
theorem ends_query_staged {Row : Type} {q : MsiQuery} {rows : MsiContents → List Row}
    {cabinets : List Cabinet} {binaries : List (Bytes × Path)} {Q : List Row → Rewrite → Prop}
    (h : Staged lib c workspace cabinets binaries s)
    (hQ : ∀ s', Staged lib c workspace cabinets binaries s' → s.events ⊆ s'.events →
      s'.expanded = s.expanded → (rows c).length ≤ 65535 → Q (rows c) s') :
    Ends (query env workspace q rows) s Q Stops := by
  obtain rfl := h.db
  apply ends_query
  · refine fun hfew => hQ _ ((h.withWorld (w := s.world.tick) (fun n => rfl) rfl).noted _) ?_ rfl hfew
    rw [events_noted]
    exact List.subset_append_left _ _
  · exact fun what => ⟨trivial, h.budget.log⟩

theorem ends_queryIf_staged {Row : Type} {table : String} {q : MsiQuery}
    {rows : MsiContents → List Row} {cabinets : List Cabinet} {binaries : List (Bytes × Path)}
    {Q : List Row → Rewrite → Prop} (h : Staged lib c workspace cabinets binaries s)
    (hQ : ∀ s', Staged lib c workspace cabinets binaries s' → s.events ⊆ s'.events →
      s'.expanded = s.expanded → (c.rowsIf table (rows c)).length ≤ 65535 →
      Q (c.rowsIf table (rows c)) s') :
    Ends (queryIf env workspace (ascii table ∈ c.tables) q rows) s Q Stops := by
  unfold queryIf MsiContents.rowsIf at *
  by_cases hpresent : ascii table ∈ c.tables
  · simp only [hpresent, decide_true, if_true] at hQ ⊢
    exact ends_query_staged h hQ
  · simp only [hpresent, decide_false, if_false] at hQ ⊢
    exact hQ s h (List.Subset.refl _) rfl (Nat.zero_le _)

/-- A plan is returned only when every check has passed and everything is staged. -/
theorem preflight_accepts (h : Staged lib c workspace [] [] s) :
    Ends (preflight env lib workspace) s
      (fun plan s' => (plan.Complete c workspace ∧
        Staged lib c workspace plan.cabinets plan.binaries s' ∧
        .mapped ∈ s'.events ∧ .optionsChecked ∈ s'.events) ∧
        plan.Accepted lib c workspace s.expanded s'.expanded)
      Stops := by
  have hstop {cabinets : List Cabinet} {binaries : List (Bytes × Path)} {s' : Rewrite}
      (h' : Staged lib c workspace cabinets binaries s') (e : Exn) (he : e.Thrown) : Stops e s' :=
    ⟨he, h'.budget.log⟩
  rw [preflight, ends_bind]
  apply ends_query_staged h
  intro s₁ h₁ _ hexpanded₁ hstoragesFew
  rw [ends_bind]
  apply ends_lift_safe invalidIf_safe
  swap
  · exact hstop h₁
  intro _ hstorages
  rw [not_not] at hstorages
  rw [ends_bind]
  apply ends_query_staged h₁
  intro s₂ h₂ _ hexpanded₂ htablesFew
  rw [ends_bind, ends_onWorld]
  apply ends_attempt
  swap
  · exact fun what => hstop h₂ _ trivial
  replace h₂ := h₂.withWorld (w := s₂.world.tick) (fun n => rfl) rfl
  rw [ends_bind, ends_current, ends_bind]
  apply ends_queryIf_staged h₂
  intro s₃ h₃ _ hexpanded₃ hmediaFew
  rw [ends_bind]
  apply ends_lift_safe mediaCabinets_safe.and_ok
  swap
  · exact hstop h₃
  rintro cabinets ⟨hmedia, hmediaOk⟩
  rw [ends_bind]
  apply ends_queryIf_staged h₃
  intro s₄ h₄ _ hexpanded₄ hfileFew
  rw [ends_bind]
  apply ends_lift_safe fileRows_safe.and_ok
  swap
  · exact hstop h₄
  rintro files ⟨⟨hfiles, hfresh⟩, hfilesOk⟩
  rw [ends_bind]
  apply (preflightCabinets_ends h₄ hfresh hmedia).mono
  swap
  · exact fun _ _ => id
  -- From here on every cabinet is unpacked; the other tables spend what is left.
  rintro ⟨opened, rows⟩ s₅ hmapped
  have h₅ : Staged lib c workspace opened [] s₅ := hmapped.staged
  have hspends : Spends lib c opened [] s.expanded s₅.expanded := by
    rw [← hexpanded₁, ← hexpanded₂]
    exact (hexpanded₃.symm.trans hexpanded₄.symm) ▸ hmapped.spends
  dsimp only
  rw [ends_bind]
  apply ends_lift_safe checkFound_safe
  swap
  · exact hstop h₅
  intro _ hfound
  replace h₅ := h₅.noted .mapped
  rw [ends_bind, ends_note, ends_bind]
  apply ends_queryIf_staged h₅
  intro s₆ h₆ hevents₆ hexpanded₆ hbinaryFew
  rw [ends_bind]
  apply (preflightBinaries_ends s.expanded h₆ (hexpanded₆ ▸ hspends)).mono
  swap
  · exact fun _ _ => id
  rintro binaries s₇ ⟨h₇, hbinaries, hevents₇, hspends₇⟩
  rw [ends_bind]
  apply ends_queryIf_staged h₇
  intro s₈ h₈ hevents₈ hexpanded₈ hhashFew
  rw [ends_bind]
  apply ends_lift_safe hashRows_safe.and_ok
  swap
  · exact hstop h₈
  rintro names ⟨⟨hnames, hoptions⟩, hhashOk⟩
  rw [ends_bind, ends_note, ends_pure]
  have hcount := h₈.count_eq
  refine ⟨⟨hmapped.complete hfound hstorages hmedia hfiles hbinaries hnames hoptions,
    h₈.noted _, ?_, ?_⟩, ?_⟩
  -- The note of the mapping is older than the three queries behind it.
  · rw [events_noted]
    refine List.mem_append_left _ (hevents₈ (hevents₇ (hevents₆ ?_)))
    rw [events_noted]
    exact List.mem_concat_self
  · rw [events_noted]
    exact List.mem_concat_self
  · refine ⟨hstorages, ⟨hstoragesFew, htablesFew, hmediaFew, hfileFew, hbinaryFew, hhashFew⟩, ?_,
      ⟨files, ?_, hmapped.takes, hmapped.mem_names hfound⟩, hmapped.names, hexpanded₈ ▸ hspends₇,
      h₈.budget.limit, ?_, ?_, hbinaries, hhashOk⟩
    · rw [map_unopened hmapped.keys (mediaCabinets_members hmediaOk)]
      exact hmediaOk
    · have hdb : s₂.db = c := h₂.db
      change fileRows (s₂.db.wordCount.testBit 1) _ = _ at hfilesOk
      rwa [hdb] at hfilesOk
    · rw [Plan.members, ← hcount]
      exact h₈.numbers
    · rw [Plan.members, ← hcount]
      exact h₈.budget.count

theorem preflight_ends (h : Staged lib c workspace [] [] s) :
    Ends (preflight env lib workspace) s
      (fun plan s' => plan.Complete c workspace ∧
        Staged lib c workspace plan.cabinets plan.binaries s' ∧
        .mapped ∈ s'.events ∧ .optionsChecked ∈ s'.events)
      Stops :=
  (preflight_accepts h).mono (fun _ _ => And.left) fun _ _ => id

end Preflight

end AasSign
