import AasSign.Msi.Acceptance
import AasSign.Msi.Renewal

/-! # Rewriting again

An installer that a rewriting has committed is rewritten once more: the preflight
accepts it, the callback finds every image signed, and nothing is left to do.
-/

namespace AasSign

open Foundation Program

/-- A payload that the callback leaves alone: no image, or a signed one. -/
def LeftAlone (IsSigned : Bytes → Prop) (data : Bytes) : Prop :=
  peCandidate data = true → IsSigned data

/-- The answer is false for a signed payload, and true where an image that is signed was made. -/
structure MadeSigned (IsSigned : Bytes → Prop) (before : Bytes) (signed : Bool) (after : Bytes) :
    Prop where
  unsigned : signed = false ↔ IsSigned before
  candidate : signed = true → peCandidate after = true
  signed : signed = true → IsSigned after

/-- A signed payload is left as it is, any other becomes an image that is signed. -/
structure Callback.Signs (callback : Callback) (IsSigned : Bytes → Prop) : Prop where
  answers : callback.Answers (MadeSigned IsSigned)
  returns : ∀ path name w data, w.files path = some data → IsSigned data →
    Ends (callback path name) w (fun signed _ => signed = false) fun _ _ => False

/-- The steps that change the database or the installer. -/
def MsiEvent.IsEdit : MsiEvent → Prop
  | .updated _ => True
  | .renewed => True
  | .committed => True
  | _ => False

/-- Nothing is signed, no file changes and nothing is edited. -/
structure Idle (s s' : Rewrite) : Prop where
  signedFiles : s'.signedFiles = s.signedFiles
  frame : Frame (fun _ => False) (fun _ => True) s.world s'.world
  events : ∃ events, s'.events = s.events ++ events ∧ ∀ event ∈ events, ¬ event.IsEdit

instance : IsPreorder Rewrite Idle where
  refl s := ⟨rfl, refl_of _ s.world, [], (List.append_nil _).symm, by simp⟩
  trans := by
    intro s s' s'' h h'
    obtain ⟨events, hevents, hedits⟩ := h.events
    obtain ⟨events', hevents', hedits'⟩ := h'.events
    refine ⟨h'.signedFiles.trans h.signedFiles, trans_of (Frame _ _) h.frame h'.frame,
      events ++ events', ?_, List.forall_mem_append.mpr ⟨hedits, hedits'⟩⟩
    rw [hevents', hevents, List.append_assoc]

theorem Idle.files {s s' : Rewrite} {path : Path} {data : Bytes} (h : Idle s s')
    (hdata : s.world.files path = some data) : s'.world.files path = some data :=
  (h.frame.files path (World.holds_of_file hdata) id).trans hdata

/-! ## The signing -/

section Signing

variable {env : Env} {lib : MsiLibrary} {workspace : Nat} {callback : Callback} {plan : Plan}
  {IsSigned : Bytes → Prop} {s : Rewrite}

/-- The payloads of these staging files are left alone. -/
def AllLeftAlone (IsSigned : Bytes → Prop) (w : World) (paths : List Path) : Prop :=
  ∀ path ∈ paths, ∃ data, w.files path = some data ∧ LeftAlone IsSigned data

theorem Idle.allLeftAlone {s s' : Rewrite} {paths : List Path} (h : Idle s s')
    (hleft : AllLeftAlone IsSigned s.world paths) : AllLeftAlone IsSigned s'.world paths := by
  intro path hpath
  obtain ⟨data, hdata, hdone⟩ := hleft path hpath
  exact ⟨data, h.files hdata, hdone⟩

/-- A payload that is left alone is passed over. -/
theorem sign_idle (hcallback : callback.Sound) (hsigns : callback.Signs IsSigned)
    (hcalm : env.Calm) {container : MsiStream} {path : Path} {name data : Bytes}
    (hdata : s.world.files path = some data) (hleft : LeftAlone IsSigned data) :
    Ends (sign env workspace callback container path name) s
      (fun signed s' => signed = false ∧ Idle s s') fun _ _ => False := by
  rw [sign, ends_bind, ends_onWorld, hcalm.ends_readFile hdata]
  split
  swap
  · exact ⟨rfl, rfl, .ticked, [], (List.append_nil _).symm, by simp⟩
  next hcandidate =>
  have hagain : s.world.tick.files path = some data := hdata
  rw [ends_bind, ends_onWorld]
  refine (hcalm.ends_readFile hagain).mpr ?_
  rw [ends_bind, ends_note, ends_bind, ends_onWorld]
  have hgiven : s.world.tick.tick.files path = some data := hdata
  apply ((hsigns.returns path name _ data hgiven (hleft hcandidate)).and
    (((hcallback.confined path name).ends s.world.tick.tick).and
      (hcallback.unchanged path name s.world.tick.tick))).mono
  swap
  · exact fun _ _ => And.left
  rintro _ w ⟨rfl, hframe, hunchanged⟩
  rw [noteReturned, ends_bind, ends_bind, ends_current, ends_note]
  rw [if_neg Bool.false_ne_true, ends_bind, ends_change, ends_pure]
  refine ⟨rfl, rfl, ⟨fun other hholds _ => ?_, hframe.nextDir, ?_⟩, ?_⟩
  · by_cases hother : other = path
    · subst hother
      exact hunchanged rfl
    · exact hframe.files other hholds hother
  · exact hframe.trace
  · refine ⟨[.called container path name, .returned container path false (w.files path)], ?_, ?_⟩
    · simp [Rewrite.events, Rewrite.noted]
    · simp [MsiEvent.IsEdit]

theorem signMember_idle (hcallback : callback.Sound) (hsigns : callback.Signs IsSigned)
    (hcalm : env.Calm) {cabinet : Cabinet} {member : CabinetMember} {data : Bytes}
    (hdata : s.world.files member.path = some data) (hleft : LeftAlone IsSigned data) :
    Ends (signMember env lib workspace callback plan cabinet false member) s
      (fun changed s' => changed = false ∧ Idle s s') fun _ _ => False := by
  rw [signMember, ends_bind]
  apply (sign_idle hcallback hsigns hcalm hdata hleft).mono
  swap
  · exact fun _ _ => id
  rintro _ s' ⟨rfl, hidle⟩
  exact ⟨rfl, hidle⟩

theorem signCabinet_idle (hcallback : callback.Sound) (hsigns : callback.Signs IsSigned)
    (hcalm : env.Calm) {cabinet : Cabinet}
    (hleft : AllLeftAlone IsSigned s.world (cabinet.members.map CabinetMember.path)) :
    Ends (signCabinet env lib workspace callback plan () cabinet) s (fun _ s' => Idle s s')
      fun _ _ => False := by
  rw [signCabinet, ends_bind]
  have hmembers : Ends (foldItems (signMember env lib workspace callback plan cabinet) false
      cabinet.members) s (fun changed s' => changed = false ∧ Idle s s') fun _ _ => False := by
    apply ends_foldItems fun _ changed s' => changed = false ∧ Idle s s'
    · rintro done member rest _ s' hsplit ⟨rfl, hidle⟩
      have hmember : member ∈ cabinet.members := by simp [hsplit]
      obtain ⟨data, hdata, hdone⟩ :=
        hidle.allLeftAlone hleft member.path (List.mem_map_of_mem hmember)
      apply (signMember_idle hcallback hsigns hcalm hdata hdone).mono
      · rintro changed s'' ⟨rfl, hmore⟩
        exact ⟨rfl, trans_of Idle hidle hmore⟩
      · exact fun _ _ => id
    · exact ⟨rfl, refl_of Idle s⟩
  apply hmembers.mono
  · rintro _ s' ⟨rfl, hidle⟩
    exact hidle
  · exact fun _ _ => id

theorem signBinary_idle (hcallback : callback.Sound) (hsigns : callback.Signs IsSigned)
    (hcalm : env.Calm) {binary : Bytes × Path} {data : Bytes}
    (hdata : s.world.files binary.2 = some data) (hleft : LeftAlone IsSigned data) :
    Ends (signBinary env workspace callback () binary) s (fun _ s' => Idle s s')
      fun _ _ => False := by
  rw [signBinary, ends_bind]
  apply (sign_idle hcallback hsigns hcalm hdata hleft).mono
  · rintro _ s' ⟨rfl, hidle⟩
    exact hidle
  · exact fun _ _ => id

/-- Where every payload is left alone, the signing does nothing. -/
theorem signPayloads_idle (hcallback : callback.Sound) (hsigns : callback.Signs IsSigned)
    (hcalm : env.Calm) (hleft : AllLeftAlone IsSigned s.world plan.paths) :
    Ends (signPayloads env lib workspace callback plan) s (fun _ s' => Idle s s')
      fun _ _ => False := by
  rw [signPayloads, ends_bind]
  have hcabinets : Ends (foldItems (signCabinet env lib workspace callback plan) () plan.cabinets) s
      (fun _ s' => Idle s s') fun _ _ => False := by
    apply ends_foldItems fun _ _ s' => Idle s s'
    · intro done cabinet rest _ s' hsplit hidle
      have hcabinet : cabinet ∈ plan.cabinets := by simp [hsplit]
      have hmembers : AllLeftAlone IsSigned s'.world (cabinet.members.map CabinetMember.path) := by
        intro path hpath
        obtain ⟨member, hmember, rfl⟩ := List.mem_map.mp hpath
        exact hidle.allLeftAlone hleft _
          (Plan.member_path (Plan.mem_members hcabinet hmember))
      exact (signCabinet_idle hcallback hsigns hcalm hmembers).mono
        (fun _ _ => trans_of Idle hidle) fun _ _ => id
    · exact refl_of Idle s
  apply hcabinets.mono
  swap
  · exact fun _ _ => id
  intro _ s₁ hidle₁
  apply ends_foldItems fun _ _ s' => Idle s s'
  · intro done binary rest _ s' hsplit hidle
    have hbinary : binary ∈ plan.binaries := by simp [hsplit]
    obtain ⟨data, hdata, hdone⟩ := hidle.allLeftAlone hleft _ (Plan.binary_path hbinary)
    exact (signBinary_idle hcallback hsigns hcalm hdata hdone).mono
      (fun _ _ => trans_of Idle hidle) fun _ _ => id
  · exact hidle₁

end Signing

/-! ## Whole runs -/

/-- The installer is there, and it is a database. -/
def MsiLibrary.Opens (lib : MsiLibrary) (w : World) (staged : Path) : Prop :=
  ∃ file c, w.files staged = some file ∧ lib.openMsi file = .ok c

section Runs

variable {env : Env} {lib : MsiLibrary} {staged : Path} {callback : Callback} {plan plan' : Plan}
  {IsSigned : Bytes → Prop} {w : World} {finish : Nat}

theorem openDatabase_expanded : Ends (openDatabase env lib staged) (.inWorkspace w)
    (fun _ s => s.expanded = 0) fun _ _ => True := by
  rw [openDatabase, ends_bind, ends_onWorld]
  apply ends_readFile
  · intro file _
    rw [ends_bind]
    apply ends_lift_of
    · exact fun _ _ => rfl
    · exact fun _ => trivial
  · exact fun _ => trivial

theorem openDatabase_returns (hcalm : env.Calm) (hopens : lib.Opens w staged) :
    Ends (openDatabase env lib staged) (.inWorkspace w) (fun _ _ => True) fun _ _ => False := by
  obtain ⟨file, c, hfile, hopen⟩ := hopens
  have hfile : (Rewrite.inWorkspace w).world.files staged = some file := hfile
  rw [openDatabase, ends_bind, ends_onWorld]
  refine (hcalm.ends_readFile hfile).mpr ?_
  rw [ends_bind, ends_lift, hopen]
  exact trivial

/-- A plan that a preflight has returned was accepted, from an empty budget on. -/
theorem preflightRun_accepts {s : Rewrite} (h : preflightRun env lib staged w = (.ok plan, s)) :
    plan.Accepted lib (lib.contents w staged) w.nextDir 0 s.expanded := by
  have hends : Ends (openDatabase env lib staged >>= fun _ => preflight env lib w.nextDir)
      (.inWorkspace w)
      (fun plan s' => plan.Accepted lib (lib.contents w staged) w.nextDir 0 s'.expanded)
      fun _ _ => True := by
    rw [ends_bind]
    apply (openDatabase_ends.and openDatabase_expanded).mono
    swap
    · exact fun _ _ _ => trivial
    rintro _ s₀ ⟨⟨hstaged, -⟩, hexpanded⟩
    apply (preflight_accepts hstaged).mono
    swap
    · exact fun _ _ _ => trivial
    rintro plan s₁ ⟨-, haccepted⟩
    exact hexpanded ▸ haccepted
  exact hends.of_ok h

theorem MsiContents.Holds.congr {c : MsiContents} {data : Path → Bytes}
    (h : c.Holds lib plan data) (hcabinets : plan'.cabinets = plan.cabinets)
    (hbinaries : plan'.binaries = plan.binaries) : c.Holds lib plan' data :=
  ⟨hcabinets ▸ h.cabinets, hbinaries ▸ h.binaries⟩

theorem Quietly.idle {s s' : Rewrite} (h : Quietly s s') :
    ∃ events, s'.events = s.events ++ events ∧ ∀ event ∈ events, ¬ event.IsEdit := by
  obtain ⟨steps, hlog, hquiet⟩ := h.log
  refine ⟨steps.map MsiStep.event, by rw [Rewrite.events, hlog, List.map_append]; rfl, ?_⟩
  intro event hevent hedit
  obtain ⟨step, hstep, rfl⟩ := List.mem_map.mp hevent
  have hnot := hquiet step hstep
  cases hkind : step.event <;> rw [hkind] at hedit hnot <;>
    first | exact hedit.elim | exact hnot.elim

/-- The preflight of an accepted plan, from the opening of the database on. -/
theorem openedPreflight_returns (hcalm : env.Calm) (hopens : lib.Opens w staged)
    (haccepted : plan.Accepted lib (lib.contents w staged) w.nextDir 0 finish) :
    Ends (openDatabase env lib staged >>= fun _ => preflight env lib w.nextDir) (.inWorkspace w)
      (fun plan' s => (plan'.cabinets = plan.cabinets ∧ plan'.binaries = plan.binaries) ∧
        Staged lib (lib.contents w staged) w.nextDir plan'.cabinets plan'.binaries s ∧
        s.signedFiles = 0 ∧ ∀ event ∈ s.events, ¬ event.IsEdit)
      fun _ _ => False := by
  rw [ends_bind]
  apply ((openDatabase_returns hcalm hopens).and (openDatabase_ends.and openDatabase_expanded)).mono
  swap
  · exact fun _ _ => And.left
  rintro _ s₀ ⟨-, ⟨hstaged, hevents, hsigned, -⟩, hexpanded⟩
  rw [← hexpanded] at haccepted
  apply ((preflight_returns hcalm hstaged haccepted).and ((preflight_ends hstaged).and
    (quietly_preflight.ends s₀))).mono
  swap
  · exact fun _ _ => And.left
  rintro plan' s₁ ⟨hplan, ⟨-, hstaged₁, -⟩, hquietly⟩
  obtain ⟨events, hmore, hedits⟩ := hquietly.idle
  rw [hevents, List.nil_append] at hmore
  exact ⟨hplan, hstaged₁, hquietly.signed.trans hsigned, hmore ▸ hedits⟩

theorem Staged.exists_file {c : MsiContents} {workspace : Nat} {s : Rewrite} {path : Path}
    (h : Staged lib c workspace plan.cabinets plan.binaries s) (hpath : path ∈ plan.paths) :
    ∃ data, s.world.files path = some data := by
  rcases List.mem_append.mp hpath with hmem | hmem
  · obtain ⟨member, hmember, rfl⟩ := List.mem_map.mp hmem
    obtain ⟨cabinet, hcabinet, hmember⟩ := List.mem_flatMap.mp hmember
    obtain ⟨raw, files, hstaged⟩ := h.eachCabinet cabinet hcabinet
    obtain ⟨file, -, -, -, hdata⟩ := hstaged.members member hmember
    exact ⟨file.data, hdata⟩
  · obtain ⟨binary, hbinary, rfl⟩ := List.mem_map.mp hmem
    obtain ⟨data, -, hdata⟩ := h.eachBinary binary hbinary
    exact ⟨data, hdata⟩

/-- Where the preflight accepts a plan whose payloads are all left alone, a rewriting returns
and edits nothing. -/
theorem rewriteMsiPayload_idle (hcallback : callback.Sound) (hsigns : callback.Signs IsSigned)
    (hcalm : env.Calm) (hopens : lib.Opens w staged)
    (haccepted : plan.Accepted lib (lib.contents w staged) w.nextDir 0 finish)
    (hleft : ∀ data, (lib.contents w staged).Holds lib plan data → ∀ path ∈ plan.paths,
      LeftAlone IsSigned (data path)) :
    Ends (rewriteMsiPayload env lib staged callback) (.start w)
      (fun result s => result.signedFiles = 0 ∧ ∀ event ∈ s.events, ¬ event.IsEdit)
      fun _ _ => False := by
  rw [rewriteMsiPayload, ends_bind, ends_onWorld, hcalm.ends_attempt, ends_bind, ends_current,
    ends_bind, ends_onWorld, ends_change, ends_cleanly, rewriteIn, ends_bind]
  have hopened := openedPreflight_returns hcalm hopens haccepted
  rw [ends_bind] at hopened
  apply hopened.mono
  swap
  · exact fun _ _ => id
  intro _ s₀ hpreflight
  rw [ends_bind]
  apply hpreflight.mono
  swap
  · exact fun _ _ => id
  rintro plan' s₁ ⟨⟨hcabinets, hbinaries⟩, hstaged, hsigned, hevents⟩
  have hpaths : plan'.paths = plan.paths := by
    rw [Plan.paths, Plan.paths, Plan.members, Plan.members, hcabinets, hbinaries]
  have hall : AllLeftAlone IsSigned s₁.world plan'.paths := by
    have hholds := hstaged.holds.congr hcabinets.symm hbinaries.symm
    intro path hpath
    obtain ⟨data, hdata⟩ := hstaged.exists_file hpath
    have hdone := hleft _ hholds path (hpaths ▸ hpath)
    rw [World.data_of hdata] at hdone
    exact ⟨data, hdata, hdone⟩
  rw [ends_bind]
  apply (signPayloads_idle hcallback hsigns hcalm hall).mono
  swap
  · exact fun _ _ => id
  intro _ s₂ hidle
  obtain ⟨more, hmore, hedits⟩ := hidle.events
  have hzero : s₂.signedFiles = 0 := hidle.signedFiles.trans hsigned
  rw [AasSign.finish, ends_bind, ends_current, if_neg (not_not.mpr hzero)]
  refine ⟨hzero, ?_⟩
  change ∀ event ∈ s₂.events, ¬ event.IsEdit
  rw [hmore]
  exact List.forall_mem_append.mpr ⟨hevents, hedits⟩

/-! ## The second rewriting -/

/-- The payloads of a database are what its streams say, wherever they are staged. -/
theorem MsiContents.Holds.renewed {c : MsiContents} {data data' sizes : Path → Bytes}
    {workspace : Nat} (h : c.Holds lib plan data)
    (h' : c.Holds lib (plan.renewed workspace sizes) data') :
    ∀ path ∈ plan.paths, data' (path.moved workspace) = data path := by
  intro path hpath
  rcases List.mem_append.mp hpath with hmem | hmem
  · obtain ⟨member, hmember, rfl⟩ := List.mem_map.mp hmem
    obtain ⟨cabinet, hcabinet, hmember⟩ := List.mem_flatMap.mp hmember
    obtain ⟨raw, hselect, hraw⟩ := h.cabinets cabinet hcabinet
    obtain ⟨raw', hselect', hraw'⟩ := h'.cabinets _ (List.mem_map_of_mem hcabinet)
    obtain rfl : raw = raw' := List.singleton_inj.mp (hselect.symm.trans hselect')
    obtain ⟨files, hunpack, hnames, hfiles⟩ := hraw.unpacked
    obtain ⟨files', hunpack', -, hfiles'⟩ := hraw'.unpacked
    cases hunpack.symm.trans hunpack'
    obtain ⟨file, hfile, hname, hdata⟩ := hfiles member hmember
    obtain ⟨file', hfile', hname', hdata'⟩ := hfiles' _ (List.mem_map_of_mem hmember)
    obtain rfl : file = file' :=
      List.inj_on_of_nodup_map hnames hfile hfile' (hname.trans hname'.symm)
    exact hdata'.symm.trans hdata
  · obtain ⟨binary, hbinary, rfl⟩ := List.mem_map.mp hmem
    have hselect := h.binaries binary hbinary
    have hselect' := h'.binaries _ (List.mem_map_of_mem hbinary)
    exact List.singleton_inj.mp (hselect'.symm.trans hselect)

theorem paths_renewed {sizes : Path → Bytes} {workspace : Nat} :
    (plan.renewed workspace sizes).paths = plan.paths.map (Path.moved workspace) := by
  rw [Plan.paths, members_renewed, Plan.paths, List.map_append, List.map_map, List.map_map,
    List.map_map, Plan.renewed, List.map_map]
  rfl

section Settled

variable {c : MsiContents} {workspace : Nat} {r : Revision} {s s' : Rewrite} {path : Path}

/-- After the signing every payload is left alone. -/
theorem Settled.leftAlone (h : Settled (MadeSigned IsSigned) lib c workspace plan r s s')
    (hpath : path ∈ plan.paths) : LeftAlone IsSigned (s'.world.data path) := by
  obtain ⟨signed, hturn⟩ := h.passing.turn hpath
  intro hcandidate
  cases signed with
  | false =>
      rw [hturn.unsigned rfl] at hcandidate ⊢
      exact (hturn.answer hcandidate).unsigned.mp rfl
  | true => exact (hturn.answer (hturn.candidate rfl)).signed rfl

/-- The images are the same ones before and after the signing. -/
theorem Settled.peCandidate_data (h : Settled (MadeSigned IsSigned) lib c workspace plan r s s')
    (hpath : path ∈ plan.paths) :
    peCandidate (s'.world.data path) = peCandidate (s.world.data path) := by
  obtain ⟨signed, hturn⟩ := h.passing.turn hpath
  cases signed with
  | false => rw [hturn.unsigned rfl]
  | true =>
      have hcandidate := hturn.candidate rfl
      rw [hcandidate, (hturn.answer hcandidate).candidate rfl]

end Settled

theorem preflightRun_opens {s : Rewrite} (h : preflightRun env lib staged w = (.ok plan, s)) :
    lib.Opens w staged := by
  have hends : Ends (openDatabase env lib staged >>= fun _ => preflight env lib w.nextDir)
      (.inWorkspace w) (fun _ _ => lib.Opens w staged) fun _ _ => True := by
    rw [ends_bind, openDatabase, ends_bind, ends_onWorld]
    apply ends_readFile
    swap
    · exact fun _ => trivial
    intro file hfile
    rw [ends_bind]
    apply ends_lift_of
    swap
    · exact fun _ => trivial
    intro c hopen
    rw [ends_change]
    apply ends_of_forall
    swap
    · exact fun _ _ => trivial
    refine fun _ _ => ⟨file, c, hfile, ?_⟩
    rw [liftLibrary] at hopen
    cases hlib : lib.openMsi file with
    | ok c' =>
        rw [hlib] at hopen
        cases hopen
        rfl
    | error what =>
        rw [hlib] at hopen
        cases hopen
  exact hends.of_ok h

theorem MsiLibrary.contents_of {file : Bytes} {c : MsiContents} (hfile : w.files staged = some file)
    (hopen : lib.openMsi file = .ok c) : lib.contents w staged = c := by
  simp [MsiLibrary.contents, hfile, hopen]

theorem MsiLibrary.Opens.congr {w' : World} (h : lib.Opens w staged)
    (hfile : w'.files staged = w.files staged) :
    lib.Opens w' staged ∧ lib.contents w' staged = lib.contents w staged := by
  obtain ⟨file, c, hold, hopen⟩ := h
  exact ⟨⟨file, c, hfile.trans hold, hopen⟩,
    (contents_of (hfile.trans hold) hopen).trans (contents_of hold hopen).symm⟩

/-- A revision for nothing that is signed revises nothing. -/
theorem SignedOnly.eq_none {events : List MsiEvent} {r : Revision}
    (h : SignedOnly plan events r) (hunsigned : ∀ path, ¬ SignedAt events path) : r = .none := by
  obtain ⟨sizes, hashes, streams, binaries⟩ := r
  have hrows (name : Bytes) : sizes name = none ∧ hashes name = none := by
    by_contra hne
    obtain ⟨member, -, -, hsigned⟩ := h.rows name (not_and_or.mp hne)
    exact hunsigned _ hsigned
  have hstreams (name : Bytes) : streams name = none := by
    by_contra hne
    obtain ⟨cabinet, -, -, member, -, hsigned⟩ := h.streams name hne
    exact hunsigned _ hsigned
  have hbinaries (name : Bytes) : binaries name = none := by
    by_contra hne
    obtain ⟨binary, -, -, hsigned⟩ := h.binaries name hne
    exact hunsigned _ hsigned
  rw [Revision.none, Revision.mk.injEq]
  exact ⟨funext fun name => (hrows name).1, funext fun name => (hrows name).2, funext hstreams,
    funext hbinaries⟩

/-- The installer that a rewriting leaves is opened again, and revised as it was. -/
theorem Rewritten.contents {R : Bytes → Bool → Bytes → Prop} {w' : World} {r : Revision}
    {result : MsiRewriteResult} {s s₁ s₂ : Rewrite}
    (h : Rewritten R env lib staged w result s plan r s₁ s₂)
    (hstore : ∀ c, s.world.files staged = some (lib.storeMsi c) →
      lib.openMsi (lib.storeMsi c) = .ok c)
    (hfile : w'.files staged = s.world.files staged) :
    lib.Opens w' staged ∧ ∃ code, lib.contents w' staged =
      { (lib.contents w staged).revise r with packageCode := code } := by
  by_cases hzero : s₂.signedFiles = 0
  · have hunsigned := h.settled.passing.unsigned hzero
    obtain ⟨hopens, hsame⟩ := (preflightRun_opens h.preflight).congr
      (hfile.trans (h.unsigned hzero).1)
    refine ⟨hopens, (lib.contents w staged).packageCode, ?_⟩
    rw [hsame, h.settled.signedOnly.eq_none hunsigned, MsiContents.revise_none]
  · obtain ⟨code, hstored, -⟩ := h.signed hzero
    have hopen := hstore _ hstored
    exact ⟨⟨_, _, hfile.trans hstored, hopen⟩, code,
      MsiLibrary.contents_of (hfile.trans hstored) hopen⟩

end Runs

/-- A second rewriting, with a callback that knows what is signed and on a calm platform,
passes the preflight, signs nothing, counts every image as preserved, edits nothing and
leaves the installer as the first one has committed it. -/
theorem rewriteMsiPayload_idempotent {env env' : Env} {lib : MsiLibrary} {staged : Path}
    {callback : Callback} {IsSigned : Bytes → Prop} {w w' : World} {result : MsiRewriteResult}
    {s : Rewrite} (hcallback : callback.Sound) (hsigns : callback.Signs IsSigned)
    (hlib : lib.Inverse) (hbuilds : lib.Builds)
    (hrun : rewriteMsiPayload env lib staged callback (.start w) = (.ok result, s))
    (hstore : ∀ c, s.world.files staged = some (lib.storeMsi c) →
      lib.openMsi (lib.storeMsi c) = .ok c)
    (hcalm : env'.Calm) (hfile : w'.files staged = s.world.files staged) :
    ∃ s', rewriteMsiPayload env' lib staged callback (.start w') =
        (.ok ⟨0, result.signedFiles + result.preservedFiles⟩, s') ∧
      (∃ plan s₁, preflightRun env' lib staged w' = (.ok plan, s₁) ∧
        plan.Complete (lib.contents w' staged) w'.nextDir) ∧
      s'.world.files staged = s.world.files staged ∧ ∀ event ∈ s'.events, ¬ event.IsEdit := by
  obtain ⟨plan, r, s₁, s₂, h⟩ := (rewriteMsiPayload_rewrites hcallback.honest hsigns.answers).of_ok hrun
  obtain ⟨hopens, code, hcontents⟩ := h.contents hstore hfile
  have hheld := (h.settled.committed hlib code).holds
  -- The plan of the second run is the first one with the payloads that the first run left.
  obtain ⟨finish, hrenewed⟩ : ∃ finish, (plan.renewed w'.nextDir s₂.world.data).Accepted lib
      (lib.contents w' staged) w'.nextDir 0 finish := by
    rw [hcontents]
    exact h.settled.renewed hlib hbuilds (preflightRun_accepts h.preflight)
  rw [← hcontents] at hheld
  have hleft : ∀ data, (lib.contents w' staged).Holds lib (plan.renewed w'.nextDir s₂.world.data)
      data → ∀ path ∈ (plan.renewed w'.nextDir s₂.world.data).paths,
        LeftAlone IsSigned (data path) := by
    intro data hdata path' hpath'
    rw [paths_renewed] at hpath'
    obtain ⟨path, hpath, rfl⟩ := List.mem_map.mp hpath'
    rw [hheld.renewed hdata path hpath]
    exact h.settled.leftAlone hpath
  obtain ⟨result', s', hrun', ⟨hzero, hedits⟩, plan', r', s₁', s₂', h'⟩ :=
    ((rewriteMsiPayload_idle hcallback hsigns hcalm hopens hrenewed hleft).both
      (rewriteMsiPayload_rewrites hcallback.honest hsigns.answers)).exists_run
  obtain ⟨⟨hcabinets, hbinaries⟩, hstaged, -⟩ :=
    (openedPreflight_returns hcalm hopens hrenewed).of_ok h'.preflight
  have hdata : ∀ path ∈ plan.paths, s₁'.world.data (path.moved w'.nextDir) = s₂.world.data path :=
    hheld.renewed (hstaged.holds.congr hcabinets.symm hbinaries.symm)
  have hpaths : plan'.paths = plan.paths.map (Path.moved w'.nextDir) := by
    rw [← paths_renewed, Plan.paths, Plan.paths, Plan.members, Plan.members, hcabinets, hbinaries]
  -- Signing keeps a candidate a candidate, so both runs meet equally many.
  have hcounted : candidates s₁'.world plan'.paths = candidates s₁.world plan.paths := by
    rw [candidates, candidates, hpaths, List.countP_map]
    apply List.countP_congr
    intro path hpath
    change peCandidate (s₁'.world.data (path.moved w'.nextDir)) = true ↔
      peCandidate (s₁.world.data path) = true
    rw [hdata path hpath, h.settled.peCandidate_data hpath]
  have hfirst := h.settled.passing.counted
  have hsecond := h'.settled.passing.counted
  rw [h'.result] at hzero
  have hzero : s₂'.signedFiles = 0 := hzero
  have hresult : result' = ⟨0, result.signedFiles + result.preservedFiles⟩ := by
    rw [h'.result, h.result, hzero]
    congr 1
    change s₂'.preservedFiles = s₂.signedFiles + s₂.preservedFiles
    omega
  refine ⟨s', hresult ▸ hrun', ⟨plan', s₁', h'.preflight, h'.settled.complete⟩, ?_, hedits⟩
  exact (h'.unsigned hzero).1.trans hfile

/-! ## A sample -/

def signedImage : Bytes := [77, 90, 1]

/-- Knows one signed image, and makes it of every other payload. -/
def signingCallback : Callback := fun path _ => do
  let file ← readFile calmEnv path
  if file = signedImage then
    return false
  else
    writeFile calmEnv path signedImage
    return true

theorem signingCallback_sound : signingCallback.Sound := by
  refine ⟨fun path name => ?_, fun path name w => ?_⟩
  · refine moves_readFile.bind fun file => moves_ite (fun _ => moves_pure _) fun _ => ?_
    have hwrite : Moves (Frame (· = path) fun _ => True) (writeFile calmEnv path signedImage) :=
      moves_writeFile rfl
    exact hwrite.bind fun _ => moves_pure _
  · rw [signingCallback, ends_bind]
    apply ends_readFile
    swap
    · exact fun _ => trivial
    intro file _
    rw [ends_ite]
    refine ⟨fun _ _ => rfl, fun _ => ?_⟩
    rw [ends_bind]
    apply ends_writeFile
    · exact fun _ => nofun
    · exact fun _ _ => trivial

theorem signingCallback_signs : signingCallback.Signs fun data => data = signedImage := by
  refine ⟨fun path name w before hbefore => ?_, fun path name w data hdata hsigned => ?_⟩
  · rw [signingCallback, ends_bind]
    apply ends_readFile
    swap
    · exact fun _ => trivial
    intro file hfile
    obtain rfl : before = file := Option.some.inj (hbefore.symm.trans hfile)
    rw [ends_ite]
    refine ⟨fun hsigned after _ => ⟨iff_of_true rfl hsigned, nofun, nofun⟩, fun hunsigned => ?_⟩
    rw [ends_bind]
    apply ends_writeFile
    swap
    · exact fun _ _ => trivial
    intro hholds after hafter
    obtain rfl : signedImage = after :=
      Option.some.inj ((World.files_set_self hholds).symm.trans hafter)
    exact ⟨iff_of_false nofun hunsigned, fun _ => rfl, fun _ => rfl⟩
  · have hcalm : calmEnv.Calm := fun _ => rfl
    rw [signingCallback, ends_bind, hcalm.ends_readFile hdata, if_pos hsigned]
    rfl

def signedFile : PackedFile := ⟨ascii "a", signedImage, 1, 2, 32⟩

/-- The sample installer with its member signed. -/
def signedContents : MsiContents :=
  { cabinetContents with
    file := [⟨ascii "a", ascii "3", [], [], ascii "1"⟩]
    fileHash := [⟨ascii "a", ascii "0", (0, 0, 0, 0)⟩]
    streams := [(ascii "c", shortCabinet signedFile)] }

/-- Packs the signed member only, and stores what the rewriting makes of the sample. -/
def signedLibrary : MsiLibrary :=
  { cabinetLibrary with
    openMsi := fun file => .ok (if file = [1] then signedContents else cabinetContents)
    storeMsi := fun c => if c = signedContents then [1] else []
    pack := fun files => if files = [signedFile] then .ok (shortCabinet signedFile)
      else .error "unsupported files" }

theorem signedLibrary_pack {files : List PackedFile} {cabinet : Bytes}
    (h : signedLibrary.pack files = .ok cabinet) :
    files = [signedFile] ∧ cabinet = shortCabinet signedFile := by
  change (if _ then _ else _) = _ at h
  split at h
  · next hfiles => exact ⟨hfiles, (Except.ok.inj h).symm⟩
  · cases h

theorem signedLibrary_inverse : signedLibrary.Inverse := by
  have hpack : cabinetLibrary.pack [signedFile] = .ok (shortCabinet signedFile) := by
    decide +kernel
  refine ⟨fun files cabinet h => ?_, fun files cabinet patched h hpatched => ?_⟩
  · obtain ⟨rfl, rfl⟩ := signedLibrary_pack h
    exact cabinetLibrary_inverse.header _ _ hpack
  · obtain ⟨rfl, rfl⟩ := signedLibrary_pack h
    exact cabinetLibrary_inverse.unpacked _ _ _ hpack hpatched

theorem signedLibrary_builds : signedLibrary.Builds := by
  refine ⟨fun files cabinet h => ?_⟩
  obtain ⟨rfl, rfl⟩ := signedLibrary_pack h
  have htotal : (inspectCabinet (.user []) [] (shortCabinet signedFile) 0 0 0).map
      Inspected.total = .ok 3 := by decide +kernel
  cases hinspected : inspectCabinet (.user []) [] (shortCabinet signedFile) 0 0 0 with
  | error e =>
      rw [hinspected] at htotal
      cases htotal
  | ok inspected =>
      obtain ⟨format, hspent, -⟩ := inspected_format hinspected
      rw [hinspected] at htotal
      have htotal : inspected.total = 3 := Except.ok.inj htotal
      exact ⟨format, show expandedBytes format.folders ≤ 3 by omega⟩

theorem signedLibrary_reopens (c : MsiContents) (h : some [1] = some (signedLibrary.storeMsi c)) :
    signedLibrary.openMsi (signedLibrary.storeMsi c) = .ok c := by
  have hstored : ([1] : Bytes) = if c = signedContents then [1] else [] := Option.some.inj h
  split at hstored
  · next hsigned =>
    subst hsigned
    rfl
  · cases hstored

theorem signedRewrite_run :
    (rewriteMsiPayload calmEnv signedLibrary (.user []) signingCallback (.start sampleWorld)).1 =
        .ok ⟨1, 0⟩ ∧
      (rewriteMsiPayload calmEnv signedLibrary (.user []) signingCallback
        (.start sampleWorld)).2.world.files (.user []) = some [1] := by decide +kernel

theorem signedRewrite_idempotent : ∃ s s',
    rewriteMsiPayload calmEnv signedLibrary (.user []) signingCallback (.start sampleWorld) =
      (.ok ⟨1, 0⟩, s) ∧
    rewriteMsiPayload calmEnv signedLibrary (.user []) signingCallback (.start s.world) =
      (.ok ⟨0, 1 + 0⟩, s') ∧
    (∃ plan s₁, preflightRun calmEnv signedLibrary (.user []) s.world = (.ok plan, s₁) ∧
      plan.Complete (signedLibrary.contents s.world (.user [])) s.world.nextDir) ∧
    s'.world.files (.user []) = s.world.files (.user []) ∧ ∀ event ∈ s'.events, ¬ event.IsEdit := by
  obtain ⟨hresult, hfile⟩ := signedRewrite_run
  obtain ⟨s, hrun⟩ := exists_run hresult
  rw [hrun] at hfile
  have hfile : s.world.files (.user []) = some [1] := hfile
  have hcalm : calmEnv.Calm := fun _ => rfl
  obtain ⟨s', hsecond⟩ := rewriteMsiPayload_idempotent signingCallback_sound signingCallback_signs
    signedLibrary_inverse signedLibrary_builds hrun
    (fun c hstored => signedLibrary_reopens c (hfile.symm.trans hstored)) hcalm rfl
  exact ⟨s, s', hrun, hsecond⟩

end AasSign
