import AasSign.Msi.Mapping
import AasSign.Msi.Numbers
import AasSign.Platform.FileRules

/-! # Rules for the operations of the rewriting

Database operations and the unpacking of a cabinet, each with what it leaves in
the files it writes.
-/

namespace AasSign

open Foundation Program

section Fields

variable (workspace : Nat) (event : MsiEvent) (s : Rewrite)

@[simp] theorem events_noted :
    (s.noted workspace event).events = s.events ++ [event] := by
  simp [Rewrite.events, Rewrite.noted]

@[simp] theorem world_noted : (s.noted workspace event).world = s.world := rfl

@[simp] theorem db_noted : (s.noted workspace event).db = s.db := rfl

@[simp] theorem count_noted : (s.noted workspace event).count = s.count := rfl

@[simp] theorem expanded_noted : (s.noted workspace event).expanded = s.expanded := rfl

@[simp] theorem signedFiles_noted :
    (s.noted workspace event).signedFiles = s.signedFiles := rfl

end Fields

section Rules

variable {env : Env} {lib : MsiLibrary} {workspace : Nat} {s : Rewrite} {w : World} {path : Path}

@[simp] theorem ends_onWorld {α : Type} {m : Prog α} {Q : α → Rewrite → Prop}
    {E : Exn → Rewrite → Prop} : Ends (onWorld m) s Q E ↔
      Ends m s.world (fun a w => Q a { s with world := w }) fun e w => E e { s with world := w } :=
  ends_within

@[simp] theorem ends_note {event : MsiEvent} {Q : Unit → Rewrite → Prop}
    {E : Exn → Rewrite → Prop} : Ends (note workspace event) s Q E ↔ Q () (s.noted workspace event) :=
  ends_change

theorem ends_query {Row : Type} {q : MsiQuery} {rows : MsiContents → List Row}
    {Q : List Row → Rewrite → Prop} {E : Exn → Rewrite → Prop}
    (hQ : (rows s.db).length ≤ 65535 →
      Q (rows s.db) ({ s with world := s.world.tick }.noted workspace (.queried q)))
    (hE : ∀ what, E (.error what) { s with world := s.world.tick }) :
    Ends (query env workspace q rows) s Q E := by
  rw [query, ends_bind, ends_onWorld]
  apply ends_attempt
  · rw [ends_bind, ends_current, ends_bind, ends_lift]
    unfold throwIf
    split
    · exact hE _
    · next hfew => exact hQ (Nat.le_of_not_lt hfew)
  · exact hE

theorem ends_execute {update : MsiUpdate} {Q : Unit → Rewrite → Prop} {E : Exn → Rewrite → Prop}
    (hQ : Q () ({ s with world := s.world.tick, db := update.apply s.db }.noted workspace
      (.updated update)))
    (hE : ∀ what, E (.error what) { s with world := s.world.tick }) :
    Ends (execute env workspace update) s Q E := by
  rw [execute, ends_bind, ends_onWorld]
  apply ends_attempt
  · rw [ends_bind, ends_change, ends_note]
    exact hQ
  · exact hE

/-! ## Streams -/

theorem copyRead_eq {key : Bytes} {limit total n : Nat} (h : total ≤ limit) :
    copyRead key limit total n =
      if total + n ≤ limit then .ok (total + n)
      else .error (.error ("MSI stream exceeds extraction limit: " ++ latin1 key)) := by
  rw [copyRead, bind_of_ok (usub_of_le h)]
  by_cases hfits : total + n ≤ limit
  · rw [if_pos hfits, throwIf, if_neg (by omega)]
    rfl
  · rw [if_neg hfits, throwIf, if_pos (by omega)]
    rfl

/-- However a stream is read, it is copied exactly if it fits the limit. -/
theorem copyLimited_eq {key : Bytes} {limit length : Nat} (reads : StreamReads length) :
    copyLimited key limit reads.sizes =
      if length ≤ limit then .ok length
      else .error (.error ("MSI stream exceeds extraction limit: " ++ latin1 key)) := by
  have hloop : ∀ (sizes : List Nat) (total : Nat), total ≤ limit →
      sizes.foldlM (copyRead key limit) total =
        if total + sizes.sum ≤ limit then .ok (total + sizes.sum)
        else .error (.error ("MSI stream exceeds extraction limit: " ++ latin1 key)) := by
    intro sizes
    induction sizes with
    | nil =>
        intro total htotal
        rw [List.sum_nil, Nat.add_zero, if_pos htotal]
        rfl
    | cons n sizes ih =>
        intro total htotal
        rw [List.foldlM_cons, copyRead_eq htotal, List.sum_cons, ← Nat.add_assoc]
        by_cases hfits : total + n ≤ limit
        · rw [if_pos hfits, ok_bind, ih _ hfits]
        · rw [if_neg hfits, if_neg (by omega)]
          rfl
  rw [copyLimited, hloop reads.sizes 0 (Nat.zero_le limit), Nat.zero_add, reads.total]

/-- A stream that is copied fits the limit. -/
theorem copyLimited_safe {key : Bytes} {limit length : Nat} (reads : StreamReads length) :
    Safe (copyLimited key limit reads.sizes) fun total => total = length ∧ total ≤ limit := by
  rw [copyLimited_eq]
  split
  next hfits => exact ⟨rfl, hfits⟩
  next => exact safe_error.mpr trivial

theorem ends_extractStream {stream : MsiStream} {output : Path} {limit : Nat}
    {Q : Nat → Rewrite → Prop} {E : Exn → Rewrite → Prop}
    (hQ : ∀ data, s.db.select stream = [data] → data.length ≤ limit → s.world.Holds output →
      Q data.length { s with world := (s.world.tick.set output (some data)).tick })
    (hE : ∀ what w, E (.error what) { s with world := w }) :
    Ends (extractStream env stream output limit) s Q E := by
  rw [extractStream, ends_bind, ends_onWorld]
  apply ends_attempt
  swap
  · exact fun what => hE what _
  rw [ends_bind, ends_current]
  cases hselect : s.db.select stream with
  | nil => exact hE _ _
  | cons data duplicates =>
      dsimp only
      rw [ends_bind]
      apply ends_lift_safe (copyLimited_safe _)
      · rintro _ ⟨rfl, hlimit⟩
        rw [ends_bind, ends_onWorld]
        apply ends_writeFile
        · intro hholds
          rw [ends_bind, ends_lift]
          cases duplicates with
          | nil => exact hQ data hselect hlimit hholds
          | cons _ _ => exact hE _ _
        · exact fun what _ => hE what _
      · intro e he
        cases e with
        | error what => exact hE what _
        | fault kind => exact he.elim

/-! ## Cabinets -/

/-- A scan over the files of a cabinet that have found their members. -/
structure Matched (members : List CabinetMember) (done : List UnpackedFile)
    (scan : List CabinetMember × List (Path × Bytes)) : Prop where
  names : (done.map UnpackedFile.name).Nodup
  rest : scan.1 = members.filter fun member => member.name ∉ done.map UnpackedFile.name
  found : ∀ file ∈ done, ∃ member ∈ members, member.name = file.name ∧ file.size = member.size ∧
    (member.path, file.data) ∈ scan.2
  targets : ∀ target ∈ scan.2, ∃ file ∈ done, ∃ member ∈ members, member.name = file.name ∧
    target = (member.path, file.data)

theorem matchFile_safe {members : List CabinetMember} {done : List UnpackedFile}
    {scan : List CabinetMember × List (Path × Bytes)} {file : UnpackedFile}
    (h : Matched members done scan) :
    Safe (matchFile path scan file) (Matched members (done ++ [file])) := by
  unfold matchFile
  cases hfind : scan.1.find? fun member => member.name = file.name with
  | none => trivial
  | some member =>
      dsimp only
      rw [safe_bind, safe_throwIf]
      intro hsize
      rw [not_not] at hsize
      have hname : member.name = file.name := by simpa using List.find?_some hfind
      have hmem := List.mem_of_find?_eq_some hfind
      rw [h.rest, List.mem_filter, decide_eq_true_eq, hname] at hmem
      refine ⟨?_, ?_, ?_, ?_⟩
      · rw [List.map_append, List.map_singleton, ← List.concat_eq_append]
        exact h.names.concat hmem.2
      · rw [h.rest, List.filter_filter]
        apply List.filter_congr
        intro other _
        rw [Bool.eq_iff_iff]
        simp [and_comm]
      · simp only [List.mem_append, List.mem_singleton]
        rintro other (hother | rfl)
        · obtain ⟨target, htarget, hothername, hothersize, hpair⟩ := h.found other hother
          exact ⟨target, htarget, hothername, hothersize, .inl hpair⟩
        · exact ⟨member, hmem.1, hname, hsize, .inr rfl⟩
      · simp only [List.mem_append, List.mem_singleton]
        rintro target (htarget | rfl)
        · obtain ⟨other, hother, found⟩ := h.targets target htarget
          exact ⟨other, .inl hother, found⟩
        · exact ⟨file, .inr rfl, member, hmem.1, hname, rfl⟩

/-- Every member has a file of its name, whose data goes to its path. -/
theorem matchFiles_safe {members : List CabinetMember} {files : List UnpackedFile} :
    Safe (matchFiles path members files) fun targets =>
      Matched members files ([], targets) ∧
        ∀ member ∈ members, member.name ∈ files.map UnpackedFile.name := by
  unfold matchFiles
  apply Safe.bind (Q := Matched members files)
  · apply foldlM_sat (Matched members)
    · exact fun done file rest scan _ h => matchFile_safe h
    · exact ⟨List.nodup_nil, by simp, by simp, by simp⟩
  · rintro ⟨rest, targets⟩ h
    rw [safe_bind, safe_throwIf]
    intro hrest
    simp only [not_or, not_not] at hrest
    rw [safe_pure]
    have hempty := h.rest
    rw [hrest.1] at hempty
    refine ⟨⟨h.names, hempty, h.found, h.targets⟩, fun member hmember => ?_⟩
    have hnone := List.filter_eq_nil_iff.mp hempty.symm member hmember
    simpa using hnone

theorem ends_writeTargets {targets : List (Path × Bytes)}
    (hfunctional : ∀ a ∈ targets, ∀ b ∈ targets, a.1 = b.1 → a.2 = b.2) :
    Ends (foldItems (fun _ target => writeFile env target.1 target.2) () targets) w
      (fun _ w' => (∀ target ∈ targets, w'.files target.1 = some target.2) ∧
        (∀ other, other ∉ targets.map Prod.fst → w'.files other = w.files other) ∧
        w'.nextDir = w.nextDir)
      fun e _ => e.Thrown := by
  apply ends_foldItems (fun (done : List (Path × Bytes)) _ (w' : World) =>
    (∀ target ∈ done, w'.files target.1 = some target.2) ∧
    (∀ other, other ∉ targets.map Prod.fst → w'.files other = w.files other) ∧
    w'.nextDir = w.nextDir)
  · rintro done target rest _ w' hsplit ⟨hdone, hothers, hdir⟩
    have htarget : target ∈ targets := by simp [hsplit]
    apply ends_writeFile
    · intro hholds
      refine ⟨?_, ?_, hdir⟩
      · simp only [List.mem_append, List.mem_singleton]
        rintro other (hother | rfl)
        · have hmem : other ∈ targets := by simp [hsplit, hother]
          rw [World.files_tick]
          by_cases hsame : other.1 = target.1
          · rw [hsame, World.files_set_self hholds, hfunctional other hmem target htarget hsame]
          · rw [World.files_set_ne hsame, hdone other hother]
        · exact World.files_set_self hholds
      · intro other hother
        rw [World.files_tick, World.files_set_ne, hothers other hother]
        rintro rfl
        exact hother (List.mem_map_of_mem htarget)
    · exact fun _ _ => trivial
  · simp

/-- Unpacking a cabinet puts the data of each member into its staging file. -/
theorem ends_extractCabinet {members : List CabinetMember}
    (hnames : (members.map CabinetMember.name).Nodup)
    (hpaths : (members.map CabinetMember.path).Nodup) :
    Ends (extractCabinet env lib path members) w
      (fun _ w' => ∃ raw files, w.files path = some raw ∧ lib.unpack raw = .ok files ∧
        (files.map UnpackedFile.name).Nodup ∧
        (∀ file ∈ files, ∃ member ∈ members, member.name = file.name ∧ file.size = member.size) ∧
        (∀ member ∈ members, ∃ file ∈ files, file.name = member.name ∧ file.size = member.size ∧
          w'.files member.path = some file.data) ∧
        (∀ other, other ∉ members.map CabinetMember.path → w'.files other = w.files other) ∧
        w'.nextDir = w.nextDir)
      fun e _ => e.Thrown := by
  rw [extractCabinet, ends_bind]
  apply ends_readFile
  swap
  · exact fun _ => trivial
  intro raw hraw
  rw [ends_bind, ends_lift]
  cases hunpack : lib.unpack raw with
  | error what => trivial
  | ok files =>
      change Ends _ _ _ _
      rw [ends_bind]
      apply ends_lift_safe matchFiles_safe
      swap
      · exact fun _ => id
      rintro targets ⟨hmatched, hall⟩
      -- No two files of the cabinet go to one path, so every path keeps what was written to it.
      have hinjective : ∀ a ∈ members, ∀ b ∈ members, a.path = b.path → a = b :=
        List.inj_on_of_nodup_map hpaths
      have hfiles : ∀ a ∈ files, ∀ b ∈ files, a.name = b.name → a = b :=
        List.inj_on_of_nodup_map hmatched.names
      have hfunctional : ∀ a ∈ targets, ∀ b ∈ targets, a.1 = b.1 → a.2 = b.2 := by
        intro a ha b hb hsame
        obtain ⟨file, hfile, member, hmember, hname, rfl⟩ := hmatched.targets a ha
        obtain ⟨file', hfile', member', hmember', hname', rfl⟩ := hmatched.targets b hb
        obtain rfl := hinjective member hmember member' hmember' hsame
        rw [hfiles file hfile file' hfile' (hname.symm.trans hname')]
      apply (ends_writeTargets hfunctional).mono
      swap
      · exact fun _ _ => id
      rintro _ w' ⟨hwritten, hothers, hdir⟩
      refine ⟨raw, files, hraw, hunpack, hmatched.names, fun file hfile => ?_, ?_, ?_, hdir⟩
      · obtain ⟨member, hmember, hname, hsize, -⟩ := hmatched.found file hfile
        exact ⟨member, hmember, hname, hsize⟩
      · intro member hmember
        obtain ⟨file, hfile, hname⟩ := List.mem_map.mp (hall member hmember)
        obtain ⟨member', hmember', hname', hsize, htarget⟩ := hmatched.found file hfile
        obtain rfl := List.inj_on_of_nodup_map hnames hmember' hmember (hname'.trans hname)
        exact ⟨file, hfile, hname, hsize, hwritten _ htarget⟩
      · intro other hother
        apply hothers
        intro hmem
        obtain ⟨target, htarget, hpath⟩ := List.mem_map.mp hmem
        obtain ⟨file, -, member, hmember, -, rfl⟩ := hmatched.targets target htarget
        subst hpath
        exact hother (List.mem_map_of_mem hmember)

theorem ends_checkSizes {members : List CabinetMember} :
    Ends (foldItems (checkSize env) () members) w
      (fun _ w' => w'.files = w.files ∧ w'.nextDir = w.nextDir ∧
        ∀ member ∈ members, fileSize w member.path = member.size)
      fun e _ => e.Thrown := by
  apply ends_foldItems (fun (done : List CabinetMember) _ (w' : World) =>
    w'.files = w.files ∧ w'.nextDir = w.nextDir ∧
      ∀ member ∈ done, fileSize w member.path = member.size)
  · rintro done member rest _ w' - ⟨hfiles, hdir, hdone⟩
    rw [checkSize, ends_bind]
    apply ends_readFile
    · intro data hdata
      apply ends_lift_safe invalidIf_safe
      swap
      · exact fun _ => id
      intro _ hsize
      rw [not_not] at hsize
      refine ⟨hfiles, hdir, ?_⟩
      simp only [List.mem_append, List.mem_singleton]
      rintro other (hother | rfl)
      · exact hdone other hother
      · rw [hfiles] at hdata
        rw [fileSize, hdata, ← hsize]
        rfl
    · exact fun _ => trivial
  · simp

end Rules

end AasSign
