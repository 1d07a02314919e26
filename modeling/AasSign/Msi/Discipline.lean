import AasSign.Msi.Untouched

/-! # Preflight first, commit last

For every database, every callback and every failure: the callback is reached
through a complete preflight only, the commit is the last step, and without it
the installer keeps its bytes.
-/

namespace AasSign

open Foundation Program

/-- The contents of the installer, empty if it cannot be opened. -/
def MsiLibrary.contents (lib : MsiLibrary) (w : World) (staged : Path) : MsiContents :=
  match (w.files staged).map lib.openMsi with
  | some (.ok c) => c
  | _ => default

/-- The state in which `rewrite_msi_payload` opens the database. -/
def Rewrite.inWorkspace (w : World) : Rewrite := { Rewrite.start w with world := w.tick.makeDir }

section Open

variable {env : Env} {lib : MsiLibrary} {staged : Path} {w : World}

/-- An open database is all there is at first. -/
theorem openDatabase_ends :
    Ends (openDatabase env lib staged) (.inWorkspace w)
      (fun _ s => Staged lib (lib.contents w staged) w.nextDir [] [] s ∧ s.events = [] ∧
        s.signedFiles = 0 ∧ w.Holds staged)
      fun e s => e.Thrown ∧ s.log = [] ∧ s.world.files = w.files := by
  rw [openDatabase, ends_bind, ends_onWorld]
  apply ends_readFile
  swap
  · exact fun what => ⟨trivial, rfl, rfl⟩
  intro file hfile
  have hstaged : w.files staged = some file := hfile
  rw [ends_bind, ends_lift]
  cases hopen : lib.openMsi file with
  | error what => exact ⟨trivial, rfl, rfl⟩
  | ok c =>
      have hcontents : lib.contents w staged = c := by
        simp [MsiLibrary.contents, hstaged, hopen]
      rw [hcontents]
      refine ⟨?_, rfl, rfl, World.holds_of_file hstaged⟩
      refine ⟨rfl, Nat.lt_succ_self _, by simp, by simp, rfl, fun n _ => ?_,
        ⟨Nat.zero_le _, le_rfl, Nat.zero_le _, by simp [Accounted, Rewrite.inWorkspace,
          Rewrite.start]⟩, by simp, by simp⟩
      exact w.unmade w.nextDir _ le_rfl

end Open

/-- The steps are in order, and a callback was reached with a complete plan only. -/
structure Disciplined (c : MsiContents) (workspace : Nat) (s : Rewrite) : Prop where
  orderly : Orderly c s.events
  complete : (∃ event ∈ s.events, event.IsCall) → ∃ plan : Plan, plan.Complete c workspace

section Order

variable {env : Env} {lib : MsiLibrary} {staged : Path} {w : World} {workspace : Nat}
  {c : MsiContents} {callback : Callback} {s : Rewrite}

/-- The log of a preflight, whether it returns or not. -/
theorem Quietly.orderly {s' : Rewrite} (h : Quietly s s') (hevents : s.events = []) :
    Orderly c s'.events ∧ ∀ event ∈ s'.events, event.Quiet := by
  obtain ⟨steps, hlog, hquiet⟩ := h.log
  have hmore : s'.events = [] ++ steps.map MsiStep.event := by
    rw [Rewrite.events, hlog, List.map_append]
    exact congrArg (· ++ _) hevents
  have hall : ∀ event ∈ steps.map MsiStep.event, event.Quiet := by
    intro event hevent
    obtain ⟨step, hstep, rfl⟩ := List.mem_map.mp hevent
    exact hquiet step hstep
  rw [hmore]
  exact ⟨Orderly.append_quiet guarded_nil (by simp) hall, by simpa using hall⟩

theorem Staged.preflighted {plan : Plan} (hplan : plan.Complete c workspace)
    (h : Staged lib c workspace plan.cabinets plan.binaries s) (hmapped : .mapped ∈ s.events)
    (hoptions : .optionsChecked ∈ s.events) : Preflighted c s.events := by
  refine ⟨fun row hrow => ?_, hmapped, fun row hrow => ?_, hoptions⟩
  · have hmem : row.cabinet.drop 1 ∈ c.mediaRows.map fun row => row.cabinet.drop 1 :=
      List.mem_map_of_mem hrow
    rw [hplan.media.ranges.names] at hmem
    obtain ⟨cabinet, hcabinet, hname⟩ := List.mem_map.mp hmem
    rw [← hname]
    exact h.logged.cabinet cabinet hcabinet
  · have hmem : row.1 ∈ c.binaryRows.map Prod.fst := List.mem_map_of_mem hrow
    rw [← hplan.binaries] at hmem
    obtain ⟨binary, hbinary, hname⟩ := List.mem_map.mp hmem
    rw [← hname]
    exact h.logged.binary binary hbinary

/-- From the preflight on, a run is disciplined however it ends. -/
theorem preflighted_disciplined
    (h : Staged lib c workspace [] [] s) (hevents : s.events = []) (hsigned : s.signedFiles = 0) :
    Ends (do
        let plan ← preflight env lib workspace
        signPayloads env lib workspace callback plan
        finish env lib workspace staged) s
      (fun result s' => Disciplined c workspace s' ∧
        (.committed ∈ s'.events → result.signedFiles ≠ 0))
      (fun _ s' => Disciplined c workspace s' ∧ .committed ∉ s'.events) := by
  rw [ends_bind]
  apply ((preflight_ends h).and (quietly_preflight.ends s)).mono
  · rintro plan s₁ ⟨⟨hplan, hstaged, hmapped, hoptions⟩, hquietly⟩
    obtain ⟨horderly, hquiet⟩ := hquietly.orderly (c := c) hevents
    have hinOrder : InOrder c s₁ :=
      ⟨horderly, hstaged.preflighted hplan hmapped hoptions, fun hmem => hquiet _ hmem,
        fun hmem => hquiet _ hmem, fun hne => absurd (hquietly.signed.trans hsigned) hne⟩
    have hstale : stale s₁.events = [] := by
      have hskip (events : List MsiEvent) (h : ∀ event ∈ events, event.Quiet) :
          events.foldl staleStep [] = [] := by
        induction events with
        | nil => rfl
        | cons event rest ih =>
            have hevent := h event List.mem_cons_self
            have hrest := ih fun other hother => h other (List.mem_cons_of_mem event hother)
            cases event <;> first | exact hrest | exact hevent.elim
      exact hskip _ hquiet
    rw [ends_bind]
    apply (signPayloads_inOrder hinOrder hstale).mono
    · rintro _ s₂ ⟨h₂, hstale₂⟩
      apply (finish_inOrder h₂ hstale₂).mono
      · exact fun result s₃ h₃ => ⟨⟨h₃.1, fun _ => ⟨plan, hplan⟩⟩, h₃.2⟩
      · exact fun e s₃ h₃ => ⟨⟨h₃.1, fun _ => ⟨plan, hplan⟩⟩, h₃.2⟩
    · exact fun e s₂ h₂ => ⟨⟨h₂.1, fun _ => ⟨plan, hplan⟩⟩, h₂.2⟩
  · rintro e s₁ ⟨-, hquietly⟩
    obtain ⟨horderly, hquiet⟩ := hquietly.orderly (c := c) hevents
    refine ⟨⟨horderly, ?_⟩, fun hmem => hquiet _ hmem⟩
    rintro ⟨event, hevent, hcall⟩
    have hnot := hquiet event hevent
    cases event <;> first | exact hcall.elim | exact hnot.elim

/-- Without a commit the installer stays as it is. -/
theorem finish_inside :
    Ends (finish env lib workspace staged) s
      (fun result s' => result.signedFiles = 0 → Inside workspace s s')
      (fun _ s' => Inside workspace s s') := by
  rw [finish, ends_bind, ends_current]
  split
  · next hsigned =>
    rw [ends_bind]
    apply (inside_renewPackageCode.ends s).mono
    swap
    · exact fun _ _ => id
    intro _ s₁ h₁
    rw [ends_bind, commit, ends_bind, ends_current, ends_bind, ends_onWorld, commitFile, ends_bind]
    apply ends_attempt
    · exact fun hzero => absurd hzero hsigned
    · intro what
      have htick : Inside workspace s₁ { s₁ with world := s₁.world.tick } := Frame.ticked
      exact trans_of (Inside workspace) h₁ htick
  · exact fun _ => refl_of (Inside workspace) s

theorem preflighted_inside (h : Staged lib c workspace [] [] s) (hcallback : callback.Confined) :
    Ends (do
        let plan ← preflight env lib workspace
        signPayloads env lib workspace callback plan
        finish env lib workspace staged) s
      (fun result s' => result.signedFiles = 0 → Inside workspace s s')
      (fun _ s' => Inside workspace s s') := by
  rw [ends_bind]
  apply ((preflight_ends h).and (inside_preflight.ends s)).mono
  swap
  · exact fun _ _ hends => hends.2
  rintro plan s₁ ⟨⟨hplan, hstaged, -⟩, h₁⟩
  rw [ends_bind]
  apply ((inside_signPayloads hcallback (hstaged.inside hplan)).ends s₁).mono
  swap
  · exact fun _ _ h₂ => trans_of (Inside workspace) h₁ h₂
  intro _ s₂ h₂
  have h₂ : Inside workspace s s₂ := trans_of (Inside workspace) h₁ h₂
  apply finish_inside.mono
  · exact fun result s₃ h₃ hzero => trans_of (Inside workspace) h₂ (h₃ hzero)
  · exact fun _ s₃ h₃ => trans_of (Inside workspace) h₂ h₃

/-! ## Whole runs -/

theorem rewriteIn_ends :
    Ends (rewriteIn env lib w.nextDir staged callback) (.inWorkspace w)
      (fun result s' => Disciplined (lib.contents w staged) w.nextDir s' ∧
        (.committed ∈ s'.events → result.signedFiles ≠ 0) ∧
        (callback.Confined → result.signedFiles = 0 →
          s'.world.files staged = w.files staged))
      (fun _ s' => (Disciplined (lib.contents w staged) w.nextDir s' ∧ .committed ∉ s'.events) ∧
        (callback.Confined → s'.world.files staged = w.files staged)) := by
  rw [rewriteIn, ends_bind]
  apply (openDatabase_ends.and (inside_openDatabase.ends _)).mono
  · rintro _ s₁ ⟨⟨hstaged, hevents, hsigned, hholds⟩, h₁⟩
    have hkept {s' : Rewrite} (h' : Inside w.nextDir s₁ s') :
        s'.world.files staged = w.files staged := by
      have hinside : Inside w.nextDir (.inWorkspace w) s' :=
        trans_of (Inside w.nextDir) h₁ h'
      exact hinside.files staged (hholds.mono (Nat.le_succ _)) (World.not_in_nextDir hholds)
    have hrun := @preflighted_disciplined env lib staged _ _ callback _ hstaged hevents hsigned
    by_cases hcallback : callback.Confined
    · apply (hrun.and (preflighted_inside hstaged hcallback)).mono
      · exact fun result s₂ h₂ => ⟨h₂.1.1, h₂.1.2, fun _ hzero => hkept (h₂.2 hzero)⟩
      · exact fun _ s₂ h₂ => ⟨h₂.1, fun _ => hkept h₂.2⟩
    · apply hrun.mono
      · exact fun result s₂ h₂ => ⟨h₂.1, h₂.2, fun h => absurd h hcallback⟩
      · exact fun _ s₂ h₂ => ⟨h₂, fun h => absurd h hcallback⟩
  · rintro e s₁ ⟨⟨-, hlog, hfiles⟩, -⟩
    have hevents : s₁.events = [] := by rw [Rewrite.events, hlog]; rfl
    refine ⟨⟨⟨?_, ?_⟩, ?_⟩, fun _ => congrFun hfiles staged⟩
    · exact hevents ▸ guarded_nil
    · simp [hevents]
    · simp [hevents]

end Order

/-- The callback comes after every check, no update before a signature, and one
commit at the very end; a run that throws or signs nothing leaves the installer
as it was. -/
theorem rewriteMsiPayload_disciplined (env : Env) (lib : MsiLibrary) (staged : Path)
    (callback : Callback) (w : World) :
    Ends (rewriteMsiPayload env lib staged callback) (.start w)
      (fun result s' => Disciplined (lib.contents w staged) w.nextDir s' ∧
        (.committed ∈ s'.events → result.signedFiles ≠ 0) ∧
        (callback.Confined → result.signedFiles = 0 →
          s'.world.files staged = w.files staged))
      (fun _ s' => (Disciplined (lib.contents w staged) w.nextDir s' ∧ .committed ∉ s'.events) ∧
        (callback.Confined → s'.world.files staged = w.files staged)) := by
  rw [rewriteMsiPayload, ends_bind, ends_onWorld]
  apply ends_attempt
  · rw [ends_bind, ends_current, ends_bind, ends_onWorld, ends_change, ends_cleanly]
    apply rewriteIn_ends.mono
    · rintro result s' ⟨hdisciplined, hcommitted, hfiles⟩
      exact ⟨⟨hdisciplined.orderly, hdisciplined.complete⟩, hcommitted, fun hcallback hzero =>
        World.files_endDir_of_eq (hfiles hcallback hzero)⟩
    · rintro e s' ⟨⟨hdisciplined, hcommitted⟩, hfiles⟩
      exact ⟨⟨⟨hdisciplined.orderly, hdisciplined.complete⟩, hcommitted⟩, fun hcallback =>
        World.files_endDir_of_eq (hfiles hcallback)⟩
  · intro what
    exact ⟨⟨⟨guarded_nil, by simp [Rewrite.events, Rewrite.start]⟩,
      by simp [Rewrite.events, Rewrite.start]⟩, fun _ => rfl⟩

end AasSign
