import AasSign.Msi.SigningOrder

/-! # Files that a rewriting leaves alone

Up to the commit only files in the workspace change, and the payload that a
callback is given; the rewriting asks nobody outside but through the callback.
-/

namespace AasSign

open Foundation Program

/-- A callback changes the payload it is given, and no other file. -/
def Callback.Confined (callback : Callback) : Prop :=
  ∀ path name, Moves (Frame (· = path) fun _ => True) (callback path name)

/-- A frame for the files that a rewriting works on. -/
def Within (may : Path → Prop) (emits : Event → Prop) (s s' : Rewrite) : Prop :=
  Frame may emits s.world s'.world

instance (may : Path → Prop) (emits : Event → Prop) : IsPreorder Rewrite (Within may emits) where
  refl s := refl_of (Frame may emits) s.world
  trans _ _ _ := trans_of (Frame may emits)

/-- Files change in the workspace only. -/
def Inside (workspace : Nat) (s s' : Rewrite) : Prop :=
  Frame (Path.In workspace) (fun _ => True) s.world s'.world

instance (workspace : Nat) : IsPreorder Rewrite (Inside workspace) :=
  inferInstanceAs (IsPreorder Rewrite (Within (Path.In workspace) fun _ => True))

section Inspect

variable {workspace : Nat}

theorem inspectMember_path {path : Path} {file : Bytes} {header : CabinetHeader}
    {scan : MemberScan} (h : ∀ member ∈ scan.members, member.path.In workspace) :
    Sat (inspectMember path file workspace header scan)
      (fun scan' => ∀ member ∈ scan'.members, member.path.In workspace) fun _ => True := by
  rw [sat_iff]
  refine ⟨?_, fun _ _ => trivial⟩
  intro scan' hscan
  unfold inspectMember at hscan
  obtain ⟨left, -, hscan⟩ := bind_eq_ok.mp hscan
  obtain ⟨_, -, hscan⟩ := bind_eq_ok.mp hscan
  obtain ⟨f, -, hscan⟩ := bind_eq_ok.mp hscan
  obtain ⟨_, -, hscan⟩ := bind_eq_ok.mp hscan
  dsimp only at hscan
  split at hscan
  · cases hscan
  obtain ⟨_, -, hscan⟩ := bind_eq_ok.mp hscan
  obtain ⟨room, -, hscan⟩ := bind_eq_ok.mp hscan
  obtain ⟨_, -, hscan⟩ := bind_eq_ok.mp hscan
  obtain ⟨⟨name, cursor⟩, -, hscan⟩ := bind_eq_ok.mp hscan
  obtain ⟨_, -, hscan⟩ := bind_eq_ok.mp hscan
  cases hscan
  simp only [List.mem_append, List.mem_singleton]
  rintro member (hmember | rfl)
  · exact h member hmember
  · exact payloadPath_in workspace _

/-- The staging files of members are in the workspace. -/
theorem inspectCabinet_path {path : Path} {name file : Bytes} {total count : Nat}
    {inspected : Inspected}
    (h : inspectCabinet path name file workspace total count = .ok inspected) :
    ∀ member ∈ inspected.members, member.path.In workspace := by
  unfold inspectCabinet at h
  obtain ⟨header, -, h⟩ := bind_eq_ok.mp h
  obtain ⟨scan, -, h⟩ := bind_eq_ok.mp h
  obtain ⟨_, -, h⟩ := bind_eq_ok.mp h
  obtain ⟨_, -, h⟩ := bind_eq_ok.mp h
  obtain ⟨_, -, h⟩ := bind_eq_ok.mp h
  obtain ⟨found, hfound, h⟩ := bind_eq_ok.mp h
  obtain ⟨_, -, h⟩ := bind_eq_ok.mp h
  obtain ⟨_, -, h⟩ := bind_eq_ok.mp h
  obtain ⟨_, -, h⟩ := bind_eq_ok.mp h
  cases h
  have hfold := foldlM_sat (ε := Exn) (E := fun _ => True) (l := List.range header.files)
    (f := fun found _ => inspectMember path file workspace header found)
    (b := ⟨scan.folders, [], count, header.table⟩)
    (fun _ found => ∀ member ∈ found.members, member.path.In workspace)
    (fun _ _ _ _ _ hmembers => inspectMember_path hmembers) (by simp)
  exact hfold.of_ok hfound

end Inspect

section Moves

variable {env : Env} {lib : MsiLibrary} {workspace : Nat} {callback : Callback} {plan : Plan}
  {may : Path → Prop} {emits : Event → Prop}

theorem within_onWorld {α : Type} {m : Prog α}
    (h : Moves (Frame may emits) m) :
    Moves (Within may emits) (onWorld m) := by
  rw [moves_iff] at h ⊢
  exact fun s => h s.world

theorem within_change {f : Rewrite → Rewrite} (h : ∀ s, (f s).world = s.world) :
    Moves (Within may emits) (change f : Rewriting Unit) := by
  rw [moves_iff]
  intro s
  change Frame may emits s.world (f s).world
  rw [h s]
  exact refl_of _ _

theorem within_note {event : MsiEvent} :
    Moves (Within may emits) (note workspace event) :=
  within_change fun _ => rfl

theorem within_attempt : Moves (Within may emits) (onWorld (attempt env)) :=
  within_onWorld moves_attempt

theorem within_readFile {path : Path} : Moves (Within may emits) (onWorld (readFile env path)) :=
  within_onWorld moves_readFile

theorem within_query {Row : Type} {q : MsiQuery} {rows : MsiContents → List Row} :
    Moves (Within may emits) (query env workspace q rows) :=
  within_attempt.bind fun _ =>
  moves_current.bind fun _ =>
  (moves_lift _).bind fun _ =>
  within_note.bind fun _ =>
  moves_pure _

theorem within_queryIf {Row : Type} {present : Bool} {q : MsiQuery}
    {rows : MsiContents → List Row} :
    Moves (Within may emits) (queryIf env workspace present q rows) :=
  moves_ite (fun _ => within_query) fun _ => moves_pure _

theorem within_execute {update : MsiUpdate} :
    Moves (Within may emits) (execute env workspace update) :=
  within_attempt.bind fun _ =>
  (within_change (by simp)).bind fun _ =>
  within_note

theorem within_extractStream {stream : MsiStream} {output : Path} {limit : Nat}
    (houtput : may output) :
    Moves (Within may emits) (extractStream env stream output limit) := by
  refine within_attempt.bind fun _ => moves_current.bind fun s => ?_
  cases s.db.select stream with
  | nil => exact moves_raise _
  | cons data duplicates =>
      refine (moves_lift _).bind fun _ => ?_
      exact (within_onWorld (moves_writeFile houtput)).bind fun _ =>
        (moves_lift _).bind fun _ => moves_pure _

theorem moves_extractCabinet {path : Path} {members : List CabinetMember}
    (hmembers : ∀ member ∈ members, may member.path) :
    Moves (Frame may emits) (extractCabinet env lib path members) := by
  refine moves_readFile.bind fun _ => (moves_lift _).bind fun files => ?_
  apply moves_lift_bind
  intro targets htargets
  apply moves_foldItems_of_mem
  intro _ target htarget
  obtain ⟨file, -, member, hmember, -, rfl⟩ :=
    (matchFiles_safe.of_ok htargets).1.targets target htarget
  exact moves_writeFile (hmembers member hmember)

section Workspace

variable (hmay : ∀ path : Path, path.In workspace → may path)

include hmay

theorem within_preflightCabinet {scan : List Cabinet × List FileRow} {cabinet : Cabinet}
    (hpath : cabinet.path.In workspace) :
    Moves (Within may emits) (preflightCabinet env lib workspace scan cabinet) := by
  refine (within_extractStream (hmay _ hpath)).bind fun _ => ?_
  refine within_note.bind fun _ => ?_
  refine within_readFile.bind fun file => ?_
  refine moves_current.bind fun s => ?_
  apply moves_lift_bind
  intro inspected hinspected
  refine (within_change (by simp)).bind fun _ => ?_
  refine within_note.bind fun _ => ?_
  refine (moves_lift _).bind fun _ => ?_
  refine (within_onWorld (moves_extractCabinet fun member hmember =>
    hmay _ (inspectCabinet_path hinspected member hmember))).bind fun _ => ?_
  have hsizes : Moves (Frame may emits)
      (foldItems (checkSize env) () inspected.members) :=
    moves_foldItems (fun _ _ => moves_readFile.bind fun _ => moves_lift _) _ _
  refine (within_onWorld hsizes).bind fun _ => ?_
  exact within_note.bind fun _ => moves_pure _

theorem within_preflightBinary {binaries : List (Bytes × Path)} {row : Bytes × Bytes} :
    Moves (Within may emits) (preflightBinary env workspace binaries row) :=
  moves_current.bind fun _ =>
  (moves_lift _).bind fun _ =>
  (within_change (by simp)).bind fun _ =>
  (moves_lift _).bind fun _ =>
  (within_extractStream (hmay _ (payloadPath_in workspace _))).bind fun _ =>
  (within_change (by simp)).bind fun _ =>
  within_note.bind fun _ =>
  moves_pure _

omit hmay in
theorem MediaCabinets.path_in {rows : List MediaRow} {cabinets : List Cabinet}
    (h : MediaCabinets workspace rows cabinets) :
    ∀ cabinet ∈ cabinets, cabinet.path.In workspace := by
  intro cabinet hcabinet
  have hmem : cabinet.path ∈ cabinets.map Cabinet.path := List.mem_map_of_mem hcabinet
  rw [h.paths, List.mem_map] at hmem
  obtain ⟨i, -, hi⟩ := hmem
  rw [← hi]
  exact cabinetPath_in workspace i

theorem within_preflight : Moves (Within may emits) (preflight env lib workspace) := by
  refine within_query.bind fun _ => ?_
  refine (moves_lift _).bind fun _ => ?_
  refine within_query.bind fun _ => ?_
  refine within_attempt.bind fun _ => ?_
  refine moves_current.bind fun _ => ?_
  refine within_queryIf.bind fun _ => ?_
  apply moves_lift_bind
  intro cabinets hcabinets
  refine within_queryIf.bind fun _ => ?_
  refine (moves_lift _).bind fun _ => ?_
  have hpaths := (mediaCabinets_safe.of_ok hcabinets).path_in
  refine (moves_foldItems_of_mem (fun _ cabinet hcabinet =>
    within_preflightCabinet hmay (hpaths cabinet hcabinet)) _).bind fun _ => ?_
  exact (moves_lift _).bind fun _ =>
    within_note.bind fun _ =>
    within_queryIf.bind fun _ =>
    (moves_foldItems (fun _ _ => within_preflightBinary hmay) _ _).bind fun _ =>
    within_queryIf.bind fun _ =>
    (moves_lift _).bind fun _ =>
    within_note.bind fun _ =>
    moves_pure _

end Workspace

/-! ## Signing -/

/-- The staging files that a plan names are in the workspace. -/
structure Plan.Inside (plan : Plan) (workspace : Nat) : Prop where
  cabinets : ∀ cabinet ∈ plan.cabinets, cabinet.path.In workspace
  members : ∀ cabinet ∈ plan.cabinets, ∀ member ∈ cabinet.members, member.path.In workspace
  binaries : ∀ binary ∈ plan.binaries, binary.2.In workspace

theorem Staged.inside {c : MsiContents} {s : Rewrite} (hplan : plan.Complete c workspace)
    (h : Staged lib c workspace plan.cabinets plan.binaries s) : plan.Inside workspace := by
  refine ⟨hplan.media.path_in, fun cabinet hcabinet member hmember => ?_, fun binary hbinary => ?_⟩
  · obtain ⟨n, -, hn⟩ := h.number_lt (.inl (List.mem_map_of_mem
      (List.mem_flatMap.mpr ⟨cabinet, hcabinet, hmember⟩)))
    exact hn ▸ payloadPath_in workspace n
  · obtain ⟨n, -, hn⟩ := h.number_lt (.inr (List.mem_map_of_mem hbinary))
    exact hn ▸ payloadPath_in workspace n

theorem within_sign {container : MsiStream} {path : Path} {name : Bytes}
    (hcallback : Moves (Frame may emits) (callback path name)) :
    Moves (Within may emits) (sign env workspace callback container path name) := by
  refine within_readFile.bind fun _ => moves_ite (fun _ => ?_) fun _ => moves_pure _
  refine within_readFile.bind fun _ => ?_
  refine within_note.bind fun _ => ?_
  refine (within_onWorld hcallback).bind fun signed => ?_
  refine Moves.bind (moves_current.bind fun _ => within_note) fun _ => moves_ite (fun _ => ?_) fun _ => ?_
  · exact within_readFile.bind fun _ =>
      moves_current.bind fun _ =>
      (moves_lift _).bind fun _ =>
      (moves_lift _).bind fun _ =>
      (moves_lift _).bind fun _ =>
      (within_change (by simp)).bind fun _ =>
      within_note.bind fun _ =>
      moves_pure _
  · exact (within_change (by simp)).bind fun _ => moves_pure _

theorem within_updateMember {member : CabinetMember} :
    Moves (Within may emits) (updateMember env lib workspace plan member) :=
  within_readFile.bind fun _ =>
  (moves_lift _).bind fun _ =>
  within_execute.bind fun _ =>
  moves_ite (fun _ => within_readFile.bind fun _ => within_execute) fun _ => moves_pure _

theorem moves_createCabinet {path : Path} {members : List CabinetMember}
    (hpath : may path) :
    Moves (Frame may emits) (createCabinet env lib path members) :=
  (moves_foldItems (fun _ _ => moves_readFile.bind fun _ => moves_pure _) _ _).bind fun _ =>
  (moves_lift _).bind fun _ =>
  moves_writeFile hpath

theorem moves_restoreMember {path : Path} {cursor : Nat}
    {member : CabinetMember} (hpath : may path) :
    Moves (Frame may emits) (restoreMember env path cursor member) :=
  moves_readFile.bind fun _ =>
  (moves_lift _).bind fun _ =>
  (moves_lift _).bind fun _ =>
  (moves_lift _).bind fun _ =>
  (moves_lift _).bind fun _ =>
  moves_readFile.bind fun _ =>
  (moves_lift _).bind fun _ =>
  (moves_lift _).bind fun _ =>
  (moves_lift _).bind fun _ =>
  (moves_writeFile hpath).bind fun _ =>
  moves_pure _

theorem moves_preserveCabinetMetadata {path : Path}
    {members : List CabinetMember} (hpath : may path) :
    Moves (Frame may emits) (preserveCabinetMetadata env path members) :=
  moves_readFile.bind fun _ =>
  (moves_lift _).bind fun _ =>
  (moves_lift _).bind fun _ =>
  (moves_lift _).bind fun _ =>
  (moves_foldItems (fun _ _ => moves_restoreMember hpath) _ _).bind fun _ =>
  moves_attempt

variable (hmay : ∀ path : Path, path.In workspace → may path)

include hmay

theorem within_rebuildCabinet {cabinet : Cabinet} (hpath : cabinet.path.In workspace) :
    Moves (Within may emits) (rebuildCabinet env lib workspace cabinet) := by
  have houtput : (cabinet.path.append (ascii ".rebuilt")).In workspace := by
    cases hcabinet : cabinet.path with
    | user name => exact (hcabinet ▸ hpath : (Path.user name).In workspace).elim
    | temp dir name => exact (hcabinet ▸ hpath : (Path.temp dir name).In workspace)
  exact (within_onWorld (moves_createCabinet (hmay _ houtput))).bind fun _ =>
    (within_onWorld (moves_preserveCabinetMetadata (hmay _ houtput))).bind fun _ =>
    within_readFile.bind fun _ =>
    within_execute

theorem within_signPayloads
    (hcallback : ∀ path name, path.In workspace → Moves (Frame may emits) (callback path name))
    (hplan : plan.Inside workspace) :
    Moves (Within may emits) (signPayloads env lib workspace callback plan) := by
  refine Moves.bind ?_ fun _ => ?_
  · apply moves_foldItems_of_mem
    intro _ cabinet hcabinet
    refine Moves.bind ?_ fun _ => moves_ite
      (fun _ => within_rebuildCabinet hmay (hplan.cabinets cabinet hcabinet)) fun _ => moves_pure _
    apply moves_foldItems_of_mem
    intro _ member hmember
    exact (within_sign (hcallback _ _ (hplan.members cabinet hcabinet member hmember))).bind fun _ =>
      moves_ite (fun _ => within_updateMember.bind fun _ => moves_pure _) fun _ => moves_pure _
  · apply moves_foldItems_of_mem
    intro _ binary hbinary
    exact (within_sign (hcallback _ _ (hplan.binaries binary hbinary))).bind fun _ =>
      moves_ite (fun _ => within_readFile.bind fun _ => within_execute) fun _ => moves_pure _

omit hmay in
theorem within_renewPackageCode : Moves (Within may emits) (renewPackageCode env lib workspace) :=
  within_attempt.bind fun _ =>
  (within_change (by simp)).bind fun _ =>
  within_note

omit hmay in
theorem within_openDatabase {staged : Path} :
    Moves (Within may emits) (openDatabase env lib staged) :=
  within_readFile.bind fun _ =>
  (moves_lift _).bind fun _ =>
  within_change (by simp)

end Moves

/-! ## In the workspace -/

section Inside

variable {env : Env} {lib : MsiLibrary} {workspace : Nat} {callback : Callback} {plan : Plan}

theorem Callback.Confined.inside (h : callback.Confined) {path : Path} {name : Bytes}
    (hpath : path.In workspace) :
    Moves (Frame (Path.In workspace) fun _ => True) (callback path name) :=
  (h path name).mono fun _ _ hframe => hframe.mono (fun _ heq => heq ▸ hpath) fun _ => id

theorem inside_preflight : Moves (Inside workspace) (preflight env lib workspace) :=
  within_preflight fun _ => id

theorem inside_signPayloads (hcallback : callback.Confined) (hplan : plan.Inside workspace) :
    Moves (Inside workspace) (signPayloads env lib workspace callback plan) :=
  within_signPayloads (fun _ => id) (fun _ _ hpath => hcallback.inside hpath) hplan

theorem inside_renewPackageCode : Moves (Inside workspace) (renewPackageCode env lib workspace) :=
  within_renewPackageCode

theorem inside_openDatabase {staged : Path} :
    Moves (Inside workspace) (openDatabase env lib staged) :=
  within_openDatabase

end Inside

end AasSign
