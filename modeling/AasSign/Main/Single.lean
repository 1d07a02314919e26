import AasSign.Main.Preparation
import AasSign.Signing.AllOrNothing

/-! # `sign` with a single file

From the arguments to the file: it is replaced by a verified one, or the command fails. Nothing
else of the user is changed but the file that the signature is dumped to.
-/

namespace AasSign

open Foundation Program

/-! ## What a signing changes -/

/-- The files of the user that a signing of `name` may change. -/
def Changes (name : Bytes) (options : SigningOptions) (path : Path) : Prop :=
  path = .user name ∨ options.dumpCms ≠ [] ∧ path = .user options.dumpCms

/-- Only files that may be changed differ. -/
abbrev ChangesOnly (name : Bytes) (options : SigningOptions) : World → World → Prop :=
  Frame (Changes name options) fun _ => True

section Changes

variable {env : Env} {sha256 : Bytes → Digest} {lib : MsiLibrary} {name : Bytes}
  {options : SigningOptions} {kind : Kind} {work : Nat} {may : Path → Prop}

theorem moves_anyEvent {α : Type} {emits : Event → Prop} {m : Prog α} (h : Moves (Frame may emits) m) :
    Moves (Frame may fun _ => True) m :=
  h.mono fun _ _ hframe => hframe.mono (fun _ => id) fun _ _ => trivial

theorem changesOnly_signCopy : Moves
    (Frame (fun path => Changes name options path ∨ path.In work) fun _ => True)
    (signCopy env sha256 lib (.user name) kind options work) := by
  have hstaged {ok : Path → Prop} (hok : ok (.temp work (ascii "input" ++ extension (.user name)))) :
      Given (fun path => Changes name options path ∨ path.In work) ok
        (.temp work (ascii "input" ++ extension (.user name))) := ⟨.inr rfl, hok⟩
  have hsign : Moves (Frame (fun path => Changes name options path ∨ path.In work) fun _ => True) (do
      signStaged env sha256 (.temp work (ascii "input" ++ extension (.user name))) kind options
      atomicReplaceFile env (.temp work (ascii "input" ++ extension (.user name))) (.user name)
      log env (ascii "Signed " ++ (Path.user name).name ++ ascii " successfully.\n")) := by
    refine Moves.bind ?_ fun _ => Moves.bind ?_ fun _ => moves_log
    · exact moves_anyEvent (moves_signStaged (fun _ => id) (hstaged trivial) fun hkeep =>
        .inl (.inr ⟨hkeep, rfl⟩))
    · exact moves_atomicReplaceFile (.inr rfl) (.inl (.inl rfl)) trivial
  refine (moves_copyFile (.inr rfl)).bind fun _ => ?_
  split
  · exact (moves_anyEvent (moves_rewriteStaged (hstaged trivial))).bind fun _ => hsign
  · exact hsign

theorem changesOnly_signFile :
    Moves (ChangesOnly name options) (signFile env sha256 lib (.user name) options) := by
  have hrest : Moves (ChangesOnly name options) (do
      let kind ← identify env (.user name)
      if kind = .pe then
        let _ ← inspectPe env (.user name)
      withTempDir env (signCopy env sha256 lib (.user name) kind options)) := by
    refine Moves.bind ?_ fun kind => ?_
    · exact moves_readFile.bind fun _ => moves_lift _
    · split
      · exact moves_inspectPe.bind fun _ => moves_withTempDir fun _ => changesOnly_signCopy
      · exact moves_withTempDir fun _ => changesOnly_signCopy
  rw [signFile]
  split
  · refine Moves.bind ?_ fun _ => (moves_lift _).bind fun _ => hrest
    exact fun w => ends_sameFile (fun _ _ => .ticked) fun _ => .ticked
  · exact hrest

end Changes

/-- A signing returns with the file replaced, or it throws with the file kept or replaced. -/
theorem ends_signFile (env : Env) (sha256 : Bytes → Digest) (lib : MsiLibrary) (name : Bytes)
    (options : SigningOptions) (w : World) : Ends (signFile env sha256 lib (.user name) options) w
      (fun _ w' => AskedAboutCopies w w' ∧ Replaced sha256 (.user name) w w')
      fun _ w' => AllOrNothing sha256 (.user name) w w' := by
  rw [signFile]
  split
  next =>
    rw [ends_bind]
    refine ends_sameFile (fun same hsame => ?_) fun _ => .inl .ticked
    refine ends_lift_bind (fun _ hdiffers => ?_) fun _ => .inl .ticked
    refine identified_ends .ticked fun _ hname => ?_
    rw [throwIf_eq_ok, hsame, hname] at hdiffers
    simpa using hdiffers
  next hkeep => exact identified_ends (refl_of _ w) fun h => absurd h hkeep

theorem AllOrNothing.kept_or_replaced {sha256 : Bytes → Digest} {name : Bytes} {w w' : World}
    (h : AllOrNothing sha256 (.user name) w w') : AskedAboutCopies w w' ∧
      (Kept (.user name) w w' ∨ Replaced sha256 (.user name) w w') := by
  rcases h with h | ⟨hasked, hreplaced⟩
  · exact ⟨h.askedAboutCopies, .inl (h.kept trivial Path.not_isTemp_user)⟩
  · exact ⟨hasked, .inr hreplaced⟩

theorem MainEnv.Disciplined.world {env : MainEnv} {start : SignArguments} {args : List Bytes}
    {s s' : MainState} (h : env.Disciplined start args s s') : s'.world = s.world := by
  rcases h with h | h
  · exact h.world
  · exact h.1.world

/-! ## The command -/

/-- How `sign` ends. -/
inductive SignRun (env : MainEnv) (start : SignArguments) (args : List Bytes) (s s' : MainState) :
    Except Leave SignEnd → Prop where
  /-- The signing has not begun. -/
  | stopped {stop : Leave} (hnone : ∀ session, ¬ env.Begins start args s session)
      (hworld : s'.world = s.world) : SignRun env start args s s' (.error stop)
  /-- Several files are left to the workers. -/
  | pooled {session : SignSession} (hbegins : env.Begins start args s session)
      (hmany : 1 < session.files.length) (hworld : s'.world = s.world) :
      SignRun env start args s s' (.ok (.pooled session))
  | signed {session : SignSession} {file : Bytes} (hbegins : env.Begins start args s session)
      (hfile : session.files = [file]) (hasked : AskedAboutCopies s.world s'.world)
      (hreplaced : Replaced env.sha256 (.user file) s.world s'.world)
      (hothers : ∀ name, ¬ Changes file session.config.options (.user name) →
        s'.world.files (.user name) = s.world.files (.user name)) :
      SignRun env start args s s' (.ok (.exited 0))
  | failed {session : SignSession} {file : Bytes} {outcome : Except Leave SignEnd}
      (hbegins : env.Begins start args s session) (hfile : session.files = [file])
      (houtcome : outcome = .ok (.exited 1) ∨ outcome = .error .undefined)
      (hasked : AskedAboutCopies s.world s'.world)
      (hkept : Kept (.user file) s.world s'.world ∨
        Replaced env.sha256 (.user file) s.world s'.world)
      (hothers : ∀ name, ¬ Changes file session.config.options (.user name) →
        s'.world.files (.user name) = s.world.files (.user name)) :
      SignRun env start args s s' outcome

/-- A failed signing has the exit code 1, whatever it tells. -/
theorem ends_signSingle {env : MainEnv} {config : Config} {file : Bytes} {s : MainState}
    {Q : Int → MainState → Prop} {E : Leave → MainState → Prop}
    (h : Ends (signWith env config file) s.world (fun _ world => Q 0 { s with world })
      fun _ world => (∀ log, Q 1 { s with world, log }) ∧ E .undefined { s with world }) :
    Ends (signSingle env config file) s Q E := by
  revert h
  unfold Ends signSingle
  rcases signWith env config file s.world with ⟨outcome, world⟩
  match outcome with
  | .ok _ => exact id
  | .error (.error what) => exact fun h => h.1 _
  | .error (.fault kind) => exact fun h => h.2

end AasSign
