import AasSign.Msi.RewriteRules

/-! # The preflight

What the preflight has established when it returns: every cabinet and every
Binary stream lies unpacked in its own staging files, the members have taken the
rows of the File table one by one, and the budget covers the payload files. The
invariant of its loops is `Staged`.
-/

namespace AasSign

open Foundation Program

/-! ## The budget -/

/-- The callback has just returned. -/
def MsiEvent.IsReturn : MsiEvent → Prop
  | .returned .. => True
  | _ => False

structure MsiStep.WithinBudget (step : MsiStep) : Prop where
  count : step.count ≤ memberLimit
  payload : step.payloadBytes ≤ step.expanded
  limit : step.expanded ≤ expansionLimit

/-- Every step was within the budget, except right at the returns of the callback. -/
def Accounted (log : List MsiStep) : Prop :=
  ∀ step ∈ log, ¬ step.event.IsReturn → step.WithinBudget

structure Budgeted (workspace : Nat) (s : Rewrite) : Prop where
  count : s.count ≤ memberLimit
  payload : payloadBytes workspace s.count s.world ≤ s.expanded
  limit : s.expanded ≤ expansionLimit
  log : Accounted s.log

/-- The rewriting was stopped by an exception; its log is in order. -/
def Stops (e : Exn) (s : Rewrite) : Prop := e.Thrown ∧ Accounted s.log

section Budget

variable {workspace count : Nat} {s : Rewrite} {w w' : World} {event : MsiEvent}

theorem fileSize_congr {path : Path} (h : w'.files path = w.files path) :
    fileSize w' path = fileSize w path := by
  rw [fileSize, h, fileSize]

theorem payloadBytes_congr
    (h : ∀ n < count, w'.files (payloadPath workspace n) = w.files (payloadPath workspace n)) :
    payloadBytes workspace count w' = payloadBytes workspace count w := by
  unfold payloadBytes
  congr 1
  apply List.map_congr_left
  intro n hn
  exact fileSize_congr (h n (List.mem_range.mp hn))

theorem payloadBytes_add (more : Nat) :
    payloadBytes workspace (count + more) w = payloadBytes workspace count w +
      ((List.range more).map fun i => fileSize w (payloadPath workspace (count + i))).sum := by
  rw [payloadBytes, List.range_add, List.map_append, List.sum_append_nat, List.map_map]
  rfl

/-- The members of an inspected cabinet take the numbers from `count` on. -/
theorem payloadBytes_members {members : List CabinetMember}
    (hnumbers : members.map CabinetMember.path =
      (List.range members.length).map fun i => payloadPath workspace (count + i)) :
    payloadBytes workspace (count + members.length) w = payloadBytes workspace count w +
      (members.map fun member => fileSize w member.path).sum := by
  have hsizes := congrArg (List.map (fileSize w)) hnumbers
  rw [List.map_map, List.map_map] at hsizes
  rw [payloadBytes_add]
  exact congrArg (fun sizes => payloadBytes workspace count w + List.sum sizes) hsizes.symm

theorem Budgeted.noted (h : Budgeted workspace s) (event : MsiEvent) :
    Budgeted workspace (s.noted workspace event) := by
  refine ⟨h.count, h.payload, h.limit, ?_⟩
  intro step hstep hreturn
  rcases List.mem_append.mp hstep with hold | hnew
  · exact h.log step hold hreturn
  · rw [List.mem_singleton] at hnew
    subst hnew
    exact ⟨h.count, h.payload, h.limit⟩

theorem Budgeted.withWorld (h : Budgeted workspace s)
    (hfiles : ∀ n < s.count, w.files (payloadPath workspace n) =
      s.world.files (payloadPath workspace n)) :
    Budgeted workspace { s with world := w } :=
  ⟨h.count, (payloadBytes_congr hfiles).trans_le h.payload, h.limit, h.log⟩

end Budget

/-! ## Staged payloads -/

/-- The cabinet is the stream of its name, unpacked into the staging files of its members. -/
structure StagedCabinet (lib : MsiLibrary) (c : MsiContents) (workspace : Nat) (w : World)
    (cabinet : Cabinet) (raw : Bytes) (files : List UnpackedFile) : Prop where
  stream : c.select (.cabinet cabinet.name) = [raw]
  unpacked : lib.unpack raw = .ok files
  inspected : ∃ count, InspectedMembers raw workspace count cabinet.members
  names : (files.map UnpackedFile.name).Nodup
  members : ∀ member ∈ cabinet.members, ∃ file ∈ files, file.name = member.name ∧
    file.data.length = member.size ∧ w.files member.path = some file.data

/-- The log tells of every cabinet and every stream staged so far. -/
structure Logged (cabinets : List Cabinet) (binaries : List (Bytes × Path))
    (events : List MsiEvent) : Prop where
  cabinet : ∀ cabinet ∈ cabinets, .extracted (.cabinet cabinet.name) ∈ events ∧
    .inspected cabinet.name ∈ events ∧ .unpacked cabinet.name ∈ events
  binary : ∀ binary ∈ binaries, .extracted (.binary binary.1) ∈ events

theorem Logged.mono {cabinets : List Cabinet} {binaries : List (Bytes × Path)}
    {events events' : List MsiEvent} (h : Logged cabinets binaries events)
    (hsubset : events ⊆ events') : Logged cabinets binaries events' :=
  ⟨fun cabinet hcabinet => (h.cabinet cabinet hcabinet).imp (@hsubset _)
    (And.imp (@hsubset _) (@hsubset _)), fun binary hbinary => hsubset (h.binary binary hbinary)⟩

structure Staged (lib : MsiLibrary) (c : MsiContents) (workspace : Nat) (cabinets : List Cabinet)
    (binaries : List (Bytes × Path)) (s : Rewrite) : Prop where
  db : s.db = c
  made : workspace < s.world.nextDir
  eachCabinet : ∀ cabinet ∈ cabinets, ∃ raw files,
    StagedCabinet lib c workspace s.world cabinet raw files
  eachBinary : ∀ binary ∈ binaries, ∃ data, c.select (.binary binary.1) = [data] ∧
    s.world.files binary.2 = some data
  numbers : (cabinets.flatMap Cabinet.members).map CabinetMember.path ++ binaries.map Prod.snd =
    (List.range s.count).map (payloadPath workspace)
  absent : ∀ n, s.count ≤ n → s.world.files (payloadPath workspace n) = none
  budget : Budgeted workspace s
  logged : Logged cabinets binaries s.events

section Staged

variable {env : Env} {lib : MsiLibrary} {c : MsiContents} {workspace : Nat} {s : Rewrite}
  {w : World} {cabinets : List Cabinet} {binaries : List (Bytes × Path)}

theorem StagedCabinet.withWorld {w' : World} {cabinet : Cabinet} {raw : Bytes}
    {files : List UnpackedFile} (h : StagedCabinet lib c workspace w cabinet raw files)
    (hfiles : ∀ n, w'.files (payloadPath workspace n) = w.files (payloadPath workspace n) ∨
      payloadPath workspace n ∉ cabinet.members.map CabinetMember.path) :
    StagedCabinet lib c workspace w' cabinet raw files := by
  refine ⟨h.stream, h.unpacked, h.inspected, h.names, fun member hmember => ?_⟩
  obtain ⟨file, hfile, hname, hsize, hdata⟩ := h.members member hmember
  obtain ⟨count, hinspected⟩ := h.inspected
  have hpath : member.path ∈ cabinet.members.map CabinetMember.path := List.mem_map_of_mem hmember
  obtain ⟨n, -, -, hn⟩ := number_of_mem hinspected.numbers hpath
  refine ⟨file, hfile, hname, hsize, ?_⟩
  rcases hfiles n with hsame | hnot
  · rw [hn, hsame, ← hn, hdata]
  · exact absurd (hn ▸ hpath) hnot

/-- The payload files of the cabinets and streams so far have numbers below the count. -/
theorem Staged.number_lt (h : Staged lib c workspace cabinets binaries s) {path : Path}
    (hpath : path ∈ (cabinets.flatMap Cabinet.members).map CabinetMember.path ∨
      path ∈ binaries.map Prod.snd) : ∃ n < s.count, payloadPath workspace n = path := by
  have hmem := List.mem_append.mpr hpath
  rw [h.numbers, List.mem_map] at hmem
  obtain ⟨n, hn, hpath⟩ := hmem
  exact ⟨n, List.mem_range.mp hn, hpath⟩

theorem Staged.count_eq (h : Staged lib c workspace cabinets binaries s) :
    s.count = (cabinets.flatMap Cabinet.members).length + binaries.length := by
  simpa using (congrArg List.length h.numbers).symm

theorem Staged.noted (h : Staged lib c workspace cabinets binaries s) (event : MsiEvent) :
    Staged lib c workspace cabinets binaries (s.noted workspace event) :=
  ⟨h.db, h.made, h.eachCabinet, h.eachBinary, h.numbers, h.absent, h.budget.noted event,
    h.logged.mono (by simp)⟩

theorem Staged.withWorld (h : Staged lib c workspace cabinets binaries s)
    (hfiles : ∀ n, w.files (payloadPath workspace n) = s.world.files (payloadPath workspace n))
    (hdir : w.nextDir = s.world.nextDir) :
    Staged lib c workspace cabinets binaries { s with world := w } := by
  refine ⟨h.db, hdir ▸ h.made, ?_, ?_, h.numbers, fun n hn => (hfiles n).trans (h.absent n hn),
    h.budget.withWorld fun n _ => hfiles n, h.logged⟩
  · intro cabinet hcabinet
    obtain ⟨raw, files, hstaged⟩ := h.eachCabinet cabinet hcabinet
    exact ⟨raw, files, hstaged.withWorld fun n => .inl (hfiles n)⟩
  · intro binary hbinary
    obtain ⟨data, hselect, hdata⟩ := h.eachBinary binary hbinary
    obtain ⟨n, -, hn⟩ := h.number_lt (.inr (List.mem_map_of_mem hbinary))
    exact ⟨data, hselect, by rw [← hn, hfiles n, hn, hdata]⟩

/-! ## One cabinet -/

/-- The staging files of an unpacked cabinet join the ones before. -/
theorem Staged.addCabinet {cabinet : Cabinet} {members : List CabinetMember} {raw : Bytes}
    {files : List UnpackedFile} {expanded : Nat} {log : List MsiStep}
    (h : Staged lib c workspace cabinets [] s)
    (hinspected : InspectedMembers raw workspace s.count members)
    (hstream : c.select (.cabinet cabinet.name) = [raw]) (hunpack : lib.unpack raw = .ok files)
    (hnames : (files.map UnpackedFile.name).Nodup)
    (hmembers : ∀ member ∈ members, ∃ file ∈ files, file.name = member.name ∧
      file.data.length = member.size ∧ w.files member.path = some file.data)
    (hothers : ∀ other, other ∉ members.map CabinetMember.path →
      other ≠ cabinet.path → w.files other = s.world.files other)
    (hpath : ∃ i, cabinet.path = cabinetPath workspace i)
    (hdir : w.nextDir = s.world.nextDir) (hcount : s.count + members.length ≤ memberLimit)
    (hsizes : s.expanded + (members.map CabinetMember.size).sum ≤ expanded)
    (hexpanded : expanded ≤ expansionLimit) (hlog : Accounted log)
    (hlogged : s.log.map MsiStep.event ++ [.inspected cabinet.name] = log.map MsiStep.event)
    (hextracted : .extracted (.cabinet cabinet.name) ∈ s.events) :
    Staged lib c workspace (cabinets ++ [{ cabinet with members }]) []
      ({ s with world := w, count := s.count + members.length, expanded, log }.noted workspace
        (.unpacked cabinet.name)) := by
  have hnumber (n : Nat) (hn : payloadPath workspace n ∈ members.map CabinetMember.path) :
      s.count ≤ n ∧ n < s.count + members.length := by
    obtain ⟨m, hfirst, hlast, hm⟩ := number_of_mem hinspected.numbers hn
    rw [payloadPath_inj hm]
    exact ⟨hfirst, hlast⟩
  have hfiles (n : Nat) (hn : ¬ (s.count ≤ n ∧ n < s.count + members.length)) :
      w.files (payloadPath workspace n) = s.world.files (payloadPath workspace n) := by
    obtain ⟨i, hi⟩ := hpath
    refine hothers _ (fun hmem => hn (hnumber n hmem)) ?_
    rw [hi]
    exact cabinetPath_ne_payloadPath.symm
  have hbudget : Budgeted workspace
      { s with world := w, count := s.count + members.length, expanded, log } := by
    refine ⟨hcount, ?_, hexpanded, hlog⟩
    have hbytes : (members.map fun member => fileSize w member.path) =
        members.map CabinetMember.size := by
      apply List.map_congr_left
      intro member hmember
      obtain ⟨file, -, -, hsize, hdata⟩ := hmembers member hmember
      rw [fileSize, hdata, ← hsize]
      rfl
    change payloadBytes workspace (s.count + members.length) w ≤ expanded
    rw [payloadBytes_members hinspected.numbers, hbytes,
      payloadBytes_congr fun n hn => hfiles n (by omega)]
    have hpayload := h.budget.payload
    omega
  constructor
  case db => exact h.db
  case made => exact hdir ▸ h.made
  case eachCabinet =>
    simp only [List.mem_append, List.mem_singleton]
    rintro other (hother | rfl)
    · obtain ⟨raw', files', hstaged⟩ := h.eachCabinet other hother
      refine ⟨raw', files', hstaged.withWorld fun n => ?_⟩
      by_cases hn : s.count ≤ n ∧ n < s.count + members.length
      · refine .inr fun hmem => ?_
        obtain ⟨member, hmember, hpath⟩ := List.mem_map.mp hmem
        obtain ⟨m, hm, hpath'⟩ := h.number_lt (.inl (List.mem_map_of_mem
          (List.mem_flatMap.mpr ⟨other, hother, hmember⟩)))
        rw [hpath] at hpath'
        have := payloadPath_inj hpath'
        omega
      · exact .inl (hfiles n hn)
    · exact ⟨raw, files, hstream, hunpack, ⟨s.count, hinspected⟩, hnames, hmembers⟩
  case eachBinary => exact by simp
  case numbers =>
    have hnumbers := h.numbers
    rw [List.map_nil, List.append_nil] at hnumbers
    rw [count_noted, List.flatMap_append, List.map_append, hnumbers, List.flatMap_singleton,
      hinspected.numbers, List.range_add, List.map_append, List.map_map, List.map_nil,
      List.append_nil]
    rfl
  case absent =>
    intro n hn
    have hn : s.count + members.length ≤ n := hn
    exact (hfiles n (by omega)).trans (h.absent n (by omega))
  case budget => exact hbudget.noted _
  case logged =>
    refine ⟨?_, by simp⟩
    · rw [events_noted, Rewrite.events, ← hlogged]
      simp only [List.mem_append, List.mem_singleton]
      rintro other (hother | rfl)
      · have hold := h.logged.cabinet other hother
        exact ⟨.inl (.inl hold.1), .inl (.inl hold.2.1), .inl (.inl hold.2.2)⟩
      · exact ⟨.inl (.inl hextracted), .inl (.inr rfl), .inr rfl⟩

end Staged

end AasSign
