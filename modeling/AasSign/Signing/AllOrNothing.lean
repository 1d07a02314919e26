import AasSign.Msi.Discipline
import AasSign.Signing.Verified

/-! # All or nothing

For every file, every choice of options and every failure outside: the input file
keeps its contents until a verified file replaces it, and the companion is given
files in temporary directories only.
-/

namespace AasSign

open Foundation Program

/-! ## A rewriting in a frame -/

section Rewriting

variable {env : Env} {lib : MsiLibrary} {callback : Callback} {may : Path → Prop}
  {emits : Event → Prop} {staged : Path} {workspace : Nat} {w : World}

theorem within_finish (hstaged : may staged) :
    Moves (Within may emits) (finish env lib workspace staged) := by
  refine moves_current.bind fun _ => ?_
  have hcommit : Moves (Within may emits) (commit env lib workspace staged) := by
    refine moves_current.bind fun _ => (within_onWorld ?_).bind fun _ => within_note
    refine moves_attempt.bind fun _ => ?_
    rw [moves_iff]
    exact fun _ => Frame.set hstaged
  split
  · exact within_renewPackageCode.bind fun _ => hcommit.bind fun _ => moves_pure _
  · exact moves_pure _

/-- A rewriting changes the installer and its workspace, and what its callback changes. -/
theorem rewriteIn_within (hmay : ∀ path : Path, path.In w.nextDir → may path) (hstaged : may staged)
    (hcallback : ∀ path name, path.In w.nextDir → Moves (Frame may emits) (callback path name)) :
    Ends (rewriteIn env lib w.nextDir staged callback) (.inWorkspace w)
      (fun _ s' => Within may emits (.inWorkspace w) s')
      fun _ s' => Within may emits (.inWorkspace w) s' := by
  rw [rewriteIn, ends_bind]
  apply (openDatabase_ends.and (within_openDatabase.ends _)).mono
  swap
  · exact fun _ _ => And.right
  rintro _ s₁ ⟨⟨hopened, -⟩, h₁⟩
  rw [ends_bind]
  apply ((preflight_ends hopened).and ((within_preflight hmay).ends s₁)).mono
  swap
  · exact fun _ _ hends => trans_of (Within may emits) h₁ hends.2
  rintro plan s₂ ⟨⟨hplan, hpreflighted, -⟩, h₂⟩
  have hrest : Moves (Within may emits) (do
      signPayloads env lib w.nextDir callback plan
      finish env lib w.nextDir staged) :=
    (within_signPayloads hmay hcallback (hpreflighted.inside hplan)).bind fun _ =>
      within_finish hstaged
  have hbefore := trans_of (Within may emits) h₁ h₂
  exact (hrest.ends s₂).mono (fun _ _ => trans_of (Within may emits) hbefore)
    fun _ _ => trans_of (Within may emits) hbefore

theorem moves_runRewrite (hstaged : may staged)
    (hcallback : ∀ dir path name, path.In dir →
      Moves (Frame (fun path => may path ∨ path.In dir) emits) (callback path name)) :
    Moves (Frame may emits) (runRewrite env lib staged callback) := by
  rw [moves_iff]
  intro w
  have hrun : Ends (rewriteMsiPayload env lib staged callback) (.start w)
      (fun _ s' => Frame may emits w s'.world) fun _ s' => Frame may emits w s'.world := by
    rw [rewriteMsiPayload, ends_bind, ends_onWorld]
    apply ends_attempt
    · rw [ends_bind, ends_current, ends_bind, ends_onWorld, ends_change, ends_cleanly]
      have hclean (s' : Rewrite)
          (h : Within (fun path => may path ∨ path.In w.nextDir) emits (.inWorkspace w) s') :
          Frame may emits w (s'.world.endDir env w.nextDir) :=
        trans_of (Frame may emits) .ticked (Frame.endDir (w := w.tick) h)
      apply (rewriteIn_within (fun _ => .inr) (.inl hstaged) (hcallback w.nextDir)).mono
      · exact fun _ => hclean
      · exact fun _ => hclean
    · exact fun _ => .ticked
  change Frame may emits w (rewriteMsiPayload env lib staged callback (.start w)).2.world
  revert hrun
  unfold Ends
  rcases rewriteMsiPayload env lib staged callback (.start w) with ⟨outcome, s'⟩
  cases outcome <;> exact id

end Rewriting

/-! ## What is promised -/

/-- The companion has been given files in temporary directories only. -/
def AskedAboutCopies (w w' : World) : Prop :=
  ∃ events, w'.trace = w.trace ++ events ∧ ∀ args input result output,
    .companion args input result output ∈ events → ∀ path, .file path ∈ args → path.IsTemp

/-- The file has not been replaced, and holds what it held. -/
structure Kept (path : Path) (w w' : World) : Prop where
  files : w'.files path = w.files path
  trace : ∃ events, w'.trace = w.trace ++ events ∧ ∀ staged, .replaced staged path ∉ events

/-- The file has been replaced by one that was verified before. -/
structure Replaced (sha256 : Bytes → Digest) (path : Path) (w w' : World) : Prop where
  verified : ∃ file, w'.files path = some file ∧ Verified sha256 w w' file
  trace : ∃ staged, Adds (.replaced staged path) w w'

/-- Only copies have been worked on. -/
abbrev OnCopies (path : Path) : World → World → Prop :=
  Frame (· ≠ path) (Event.On Path.IsTemp)

section Outcomes

variable {sha256 : Bytes → Digest} {path : Path} {w w' w₀ w₁ : World}

theorem Frame.askedAboutCopies {may : Path → Prop} (h : Frame may (Event.On Path.IsTemp) w w') :
    AskedAboutCopies w w' := by
  obtain ⟨events, htrace, hevents⟩ := h.trace
  exact ⟨events, htrace, fun args input result output hevent => hevents _ hevent⟩

theorem AskedAboutCopies.trans (h : AskedAboutCopies w₀ w) (h' : AskedAboutCopies w w') :
    AskedAboutCopies w₀ w' := by
  obtain ⟨before, hbefore, hasked⟩ := h
  obtain ⟨after, hafter, hasked'⟩ := h'
  refine ⟨before ++ after, ?_, fun args input result output hevent => ?_⟩
  · rw [hafter, hbefore, List.append_assoc]
  · rcases List.mem_append.mp hevent with hevent | hevent
    · exact hasked args input result output hevent
    · exact hasked' args input result output hevent

/-- The input file is not in a temporary directory, so nothing has replaced it. -/
theorem OnCopies.kept (h : OnCopies path w w') (hholds : w.Holds path) (hpath : ¬ path.IsTemp) :
    Kept path w w' := by
  refine ⟨h.files path hholds fun hne => hne rfl, ?_⟩
  obtain ⟨events, htrace, hevents⟩ := h.trace
  exact ⟨events, htrace, fun staged hevent => hpath (hevents _ hevent).2⟩

theorem Replaced.between (h : Replaced sha256 path w w') (hbefore : OnCopies path w₀ w)
    (hafter : OnCopies path w' w₁) (hholds : w'.Holds path) : Replaced sha256 path w₀ w₁ := by
  obtain ⟨⟨file, hfile, hverified⟩, staged, hadds⟩ := h
  refine ⟨⟨file, ?_, hverified.between hbefore.grows hafter.grows⟩, staged,
    hadds.between hbefore.grows hafter.grows⟩
  exact (hafter.files path hholds fun hne => hne rfl).trans hfile

theorem OnCopies.endDir {env : Env} {dir : Nat} (hpath : ¬ path.IsTemp) :
    OnCopies path w (w.endDir env dir) := by
  refine ⟨fun other _ hother => ?_, World.nextDir_endDir.ge, [], ?_, by simp⟩
  · have heq : other = path := not_not.mp hother
    exact World.files_endDir fun hin => hpath (heq ▸ hin.isTemp)
  · rw [World.trace_endDir, List.append_nil]

end Outcomes

section Staged

variable {env : Env} {lib : MsiLibrary} {sha256 : Bytes → Digest} {options : SigningOptions}
  {name : Bytes} {staged : Path} {kind : Kind} {work : Nat} {may : Path → Prop} {w : World}

theorem moves_rewriteStaged (hstaged : Given may Path.IsTemp staged) :
    Moves (Frame may (Event.On Path.IsTemp)) (rewriteStaged env sha256 lib staged options) := by
  refine (moves_runRewrite hstaged.1 fun dir payload name hpayload => ?_).bind fun _ => moves_log
  exact moves_signIfUnsigned (fun _ => id) ⟨.inr hpayload, hpayload.isTemp⟩ rfl

/-- The run worked on copies, or it has come to the replacement. -/
def AllOrNothing (sha256 : Bytes → Digest) (path : Path) (w w' : World) : Prop :=
  OnCopies path w w' ∨ AskedAboutCopies w w' ∧ Replaced sha256 path w w'

/-- The replacement of the input file, once its copy has been verified. -/
theorem replace_ends {w₀ : World} {file : Bytes}
    (hcopies : OnCopies (.user name) w₀ w) (hfile : w.files staged = some file)
    (hverified : Verified sha256 w₀ w file) :
    Ends (atomicReplaceFile env staged (.user name)) w
      (fun _ w' => AskedAboutCopies w₀ w' ∧ Replaced sha256 (.user name) w₀ w')
      fun _ w' => AllOrNothing sha256 (.user name) w₀ w' := by
  have hdone (hne : staged ≠ .user name) :
      AskedAboutCopies w₀ (w.replace staged (.user name)).tick ∧
        Replaced sha256 (.user name) w₀ (w.replace staged (.user name)).tick := by
    have hasked : AskedAboutCopies w (w.replace staged (.user name)).tick :=
      ⟨[.replaced staged (.user name)], rfl, fun _ _ _ _ hevent => by simp at hevent⟩
    refine ⟨hcopies.askedAboutCopies.trans hasked, ⟨file, ?_, ?_⟩, staged, ?_⟩
    · exact World.files_replace_self hfile trivial hne
    · exact hverified.between (List.prefix_refl _) ⟨_, rfl⟩
    · have hadds : Adds (.replaced staged (.user name)) w (w.replace staged (.user name)).tick :=
        ⟨_, rfl, List.mem_singleton_self _⟩
      exact hadds.between hcopies.grows (List.prefix_refl _)
  apply ends_atomicReplaceFile
  · exact fun _ _ _ hne => hdone hne
  · exact fun _ => .inl (trans_of (OnCopies (.user name)) hcopies .ticked)
  · exact fun _ hne => .inr (hdone hne)

theorem signCopy_ends (hwork : work < w.nextDir)
    (hdump : options.dumpCms ≠ [] → options.dumpCms ≠ name) :
    Ends (signCopy env sha256 lib (.user name) kind options work) w
      (fun _ w' => AskedAboutCopies w w' ∧ Replaced sha256 (.user name) w w')
      fun _ w' => AllOrNothing sha256 (.user name) w w' := by
  set staged := Path.temp work (ascii "input" ++ extension (.user name)) with hstaged
  have hgiven : Given (· ≠ .user name) Path.IsTemp staged := ⟨Path.noConfusion, trivial⟩
  -- The rest, on a copy that may have been rewritten.
  have hrest {w₁ : World} (h₁ : OnCopies (.user name) w w₁) :
      Ends (do
        signStaged env sha256 staged kind options
        atomicReplaceFile env staged (.user name)
        log env (ascii "Signed " ++ (Path.user name).name ++ ascii " successfully.\n")) w₁
      (fun _ w' => AskedAboutCopies w w' ∧ Replaced sha256 (.user name) w w')
      fun _ w' => AllOrNothing sha256 (.user name) w w' := by
    have hholds : w₁.Holds staged := Nat.lt_of_lt_of_le hwork h₁.nextDir
    have hsign : Moves (OnCopies (.user name)) (signStaged env sha256 staged kind options) :=
      moves_signStaged (fun _ => id) hgiven fun hkeep heq => hdump hkeep (Path.user.inj heq)
    rw [ends_bind]
    apply ((hsign w₁).both (signStaged_ends hholds)).mono
    swap
    · exact fun _ w₂ h₂ => .inl (trans_of (OnCopies _) h₁ h₂)
    rintro _ w₂ ⟨h₂, file, hfile, hverified⟩
    have hcopies := trans_of (OnCopies (.user name)) h₁ h₂
    apply (replace_ends hcopies hfile
      (hverified.between h₁.grows (List.prefix_refl _))).bind
    rintro _ w₃ ⟨hasked, hreplaced⟩
    have hdone : AskedAboutCopies w w₃.tick ∧ Replaced sha256 (.user name) w w₃.tick :=
      ⟨hasked, hreplaced.between (refl_of (OnCopies _) w) .ticked trivial⟩
    exact ends_log hdone fun _ => .inr hdone
  have hcopy : Moves (OnCopies (.user name)) (copyFile env (.user name) staged) :=
    moves_copyFile hgiven.1
  rw [signCopy]
  refine hcopy.bind_ends (fun _ w₁ h₁ => ?_) fun _ w₁ h₁ => .inl h₁
  split
  · refine (moves_rewriteStaged hgiven).bind_ends (fun _ w₂ h₂ => ?_) fun _ w₂ h₂ => ?_
    · exact hrest (trans_of (OnCopies _) h₁ h₂)
    · exact .inl (trans_of (OnCopies _) h₁ h₂)
  · exact hrest h₁

theorem signWorkspace_ends (hdump : options.dumpCms ≠ [] → options.dumpCms ≠ name) :
    Ends (withTempDir env (signCopy env sha256 lib (.user name) kind options)) w
      (fun _ w' => AskedAboutCopies w w' ∧ Replaced sha256 (.user name) w w')
      fun _ w' => AllOrNothing sha256 (.user name) w w' := by
  rw [withTempDir, ends_bind]
  apply ends_attempt
  swap
  · exact fun _ => .inl .ticked
  rw [ends_bind, ends_current, ends_bind, ends_change, ends_cleanly]
  have hbegin : OnCopies (.user name) w w.tick.makeDir :=
    trans_of (OnCopies _) .ticked .makeDir
  have hend (w' : World) : OnCopies (.user name) w' (w'.endDir env w.tick.nextDir) :=
    OnCopies.endDir Path.not_isTemp_user
  have hdone {w' : World} (h : AskedAboutCopies w.tick.makeDir w' ∧
      Replaced sha256 (.user name) w.tick.makeDir w') :
      AskedAboutCopies w (w'.endDir env w.tick.nextDir) ∧
        Replaced sha256 (.user name) w (w'.endDir env w.tick.nextDir) :=
    ⟨(hbegin.askedAboutCopies.trans h.1).trans (hend w').askedAboutCopies,
      h.2.between hbegin (hend w') trivial⟩
  apply (signCopy_ends (Nat.lt_succ_self _) hdump).mono
  · exact fun _ w' => hdone
  · rintro e w' (h | h)
    · exact .inl (trans_of (OnCopies _) (trans_of (OnCopies _) hbegin h) (hend w'))
    · exact .inr (hdone h)

/-- The signature is not kept in the input file, as that file is there. -/
theorem identified_ends {w₁ : World} (h₁ : OnCopies (.user name) w w₁)
    (hdump : options.dumpCms ≠ [] → options.dumpCms = name → w₁.files (.user name) = none) :
    Ends (do
      let kind ← identify env (.user name)
      if kind = .pe then
        let _ ← inspectPe env (.user name)
      withTempDir env (signCopy env sha256 lib (.user name) kind options)) w₁
      (fun _ w' => AskedAboutCopies w w' ∧ Replaced sha256 (.user name) w w')
      fun _ w' => AllOrNothing sha256 (.user name) w w' := by
  rw [identify, ends_bind, ends_bind]
  apply ends_readFile
  swap
  · exact fun _ => .inl (trans_of (OnCopies _) h₁ .ticked)
  intro file hfile
  have h₂ : OnCopies (.user name) w w₁.tick := trans_of (OnCopies _) h₁ .ticked
  have hdump : options.dumpCms ≠ [] → options.dumpCms ≠ name := by
    intro hkeep heq
    rw [hdump hkeep heq] at hfile
    cases hfile
  have hsign {w₂ : World} {kind : Kind} (h₂ : OnCopies (.user name) w w₂) :
      Ends (withTempDir env (signCopy env sha256 lib (.user name) kind options)) w₂
        (fun _ w' => AskedAboutCopies w w' ∧ Replaced sha256 (.user name) w w')
        fun _ w' => AllOrNothing sha256 (.user name) w w' := by
    apply (signWorkspace_ends hdump).mono
    · exact fun _ w' h => ⟨h₂.askedAboutCopies.trans h.1,
        h.2.between h₂ (refl_of (OnCopies _) w') trivial⟩
    · rintro _ w' (h | h)
      · exact .inl (trans_of (OnCopies _) h₂ h)
      · exact .inr ⟨h₂.askedAboutCopies.trans h.1,
          h.2.between h₂ (refl_of (OnCopies _) w') trivial⟩
  apply ends_lift_of
  swap
  · exact fun _ => .inl h₂
  intro kind _
  dsimp only
  split
  · have hinspect : Moves (OnCopies (.user name)) (inspectPe env (.user name)) := moves_inspectPe
    refine hinspect.bind_ends (fun _ w₃ h₃ => ?_) fun _ w₃ h₃ => ?_
    · exact hsign (trans_of (OnCopies _) h₂ h₃)
    · exact .inl (trans_of (OnCopies _) h₂ h₃)
  · exact hsign h₂

end Staged

/-- However a signing ends, the companion was given copies only. If it returns, a file
has replaced the input whose signature and data were extracted again in this run and
belong together, and that is what the signer has signed. If it throws, the input holds
what it held, unless it had been replaced so before. -/
theorem signFile_allOrNothing (env : Env) (sha256 : Bytes → Digest) (lib : MsiLibrary)
    (name : Bytes) (options : SigningOptions) (w : World) :
    Ends (signFile env sha256 lib (.user name) options) w
      (fun _ w' => AskedAboutCopies w w' ∧ Replaced sha256 (.user name) w w')
      (fun _ w' => AskedAboutCopies w w' ∧
        (Kept (.user name) w w' ∨ Replaced sha256 (.user name) w w')) := by
  have hrun : Ends (signFile env sha256 lib (.user name) options) w
      (fun _ w' => AskedAboutCopies w w' ∧ Replaced sha256 (.user name) w w')
      fun _ w' => AllOrNothing sha256 (.user name) w w' := by
    rw [signFile]
    split
    · next hkeep =>
      rw [ends_bind]
      apply ends_sameFile
      · intro same hsame
        refine ends_lift_bind (fun _ hdiffers => ?_) fun _ => .inl .ticked
        rw [throwIf_eq_ok, hsame] at hdiffers
        apply identified_ends .ticked
        rintro - rfl
        simpa using hdiffers
      · exact fun _ => .inl .ticked
    · next hkeep => exact identified_ends (refl_of _ w) fun h => absurd h hkeep
  apply hrun.mono
  · exact fun _ _ => id
  · rintro _ w' (h | h)
    · exact ⟨h.askedAboutCopies, .inl (h.kept trivial Path.not_isTemp_user)⟩
    · exact ⟨h.1, .inr h.2⟩

end AasSign
