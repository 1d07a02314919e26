import AasSign.Platform.Files

/-! # Rules for the file operations

For each operation the states it can end in, and what it leaves alone: a frame
names the files a program may change and the events it may add to the trace.
-/

namespace AasSign

open Foundation Program

/-- A computation without faults, run inside a program. -/
theorem ends_lift_safe {σ α : Type} {x : Except Exn α} {P : α → Prop} {s : σ} {Q : α → σ → Prop}
    {E : Exn → σ → Prop} (h : Safe x P) (hQ : ∀ a, P a → Q a s) (hE : ∀ e, e.Thrown → E e s) :
    Ends (lift x) s Q E :=
  ends_lift.mpr (Sat.mono h hQ hE)

section Rules

variable {env : Env} {w : World} {path staged destination : Path} {data : Bytes}

theorem ends_attempt {Q : Unit → World → Prop} {E : Exn → World → Prop} (hQ : Q () w.tick)
    (hE : ∀ what, E (.error what) w.tick) : Ends (attempt env) w Q E := by
  unfold Ends attempt
  cases env.fails w.clock with
  | none => exact hQ
  | some what => exact hE what

theorem ends_readFile {Q : Bytes → World → Prop} {E : Exn → World → Prop}
    (hQ : ∀ data, w.files path = some data → Q data w.tick)
    (hE : ∀ what, E (.error what) w.tick) : Ends (readFile env path) w Q E := by
  rw [readFile, ends_bind]
  apply ends_attempt
  · rw [ends_bind, ends_current]
    cases hdata : w.tick.files path with
    | some data => exact hQ data hdata
    | none => exact hE _
  · exact hE

theorem ends_writeFile {Q : Unit → World → Prop} {E : Exn → World → Prop}
    (hQ : w.Holds path → Q () (w.set path (some data)).tick)
    (hE : ∀ what contents, E (.error what) (w.set path contents).tick) :
    Ends (writeFile env path data) w Q E := by
  unfold Ends writeFile
  cases env.fails w.clock with
  | some what => exact hE what _
  | none =>
      by_cases hholds : w.Holds path
      · simpa [hholds] using hQ hholds
      · have hsame : (w.set path none).tick = w.tick := by
          simp [World.set, hholds]
        simpa [hholds, hsame] using hE _ none

theorem ends_createFile {Q : Unit → World → Prop} {E : Exn → World → Prop}
    (hQ : w.files path = none → w.Holds path → Q () (w.set path (some data)).tick)
    (hE : ∀ what, E (.error what) w.tick) : Ends (createFile env path data) w Q E := by
  unfold Ends createFile
  cases hfile : w.files path with
  | some old => exact hE _
  | none =>
      cases env.fails w.clock with
      | some what => exact hE what
      | none =>
          by_cases hholds : w.Holds path
          · simpa [hholds] using hQ hfile hholds
          · simpa [hholds] using hE _

theorem ends_sameFile {Q : Bool → World → Prop} {E : Exn → World → Prop}
    (hQ : ∀ same : Bool, (same = true ↔
      (w.files staged).isSome ∧ (w.files destination).isSome ∧ staged = destination) →
      Q same w.tick)
    (hE : ∀ what, E (.error what) w.tick) : Ends (sameFile env staged destination) w Q E := by
  rw [sameFile, ends_bind]
  apply ends_attempt
  · rw [ends_bind, ends_current]
    exact hQ _ decide_eq_true_iff
  · exact hE

theorem ends_atomicReplaceFile {Q : Unit → World → Prop} {E : Exn → World → Prop}
    (hQ : ∀ data, w.files staged = some data → w.files destination ≠ none →
      staged ≠ destination → Q () (w.replace staged destination).tick)
    (hunchanged : ∀ what, E (.error what) w.tick)
    (hcommitted : ∀ what, staged ≠ destination →
      E (.error what) (w.replace staged destination).tick) :
    Ends (atomicReplaceFile env staged destination) w Q E := by
  unfold Ends atomicReplaceFile
  by_cases hguard : w.files staged = none ∨ w.files destination = none ∨ staged = destination
  · simpa [hguard] using hunchanged _
  · simp only [hguard, if_false]
    simp only [not_or] at hguard
    obtain ⟨data, hdata⟩ := Option.ne_none_iff_exists'.mp hguard.1
    cases env.fails w.clock with
    | none => exact hQ data hdata hguard.2.1 hguard.2.2
    | some what =>
        cases env.commits w.clock with
        | true => exact hcommitted what hguard.2.2
        | false => exact hunchanged what

/-- The exception is what the outside makes of one of the operations. -/
def Env.FailsWith (env : Env) (e : Exn) : Prop :=
  ∃ clock what, env.fails clock = some what ∧ e = .error what

theorem ends_attempt_outside {Q : Unit → World → Prop} (hQ : Q () w.tick) :
    Ends (attempt env) w Q fun e _ => env.FailsWith e := by
  unfold Ends attempt
  cases hfails : env.fails w.clock with
  | none => exact hQ
  | some what => exact ⟨w.clock, what, hfails, rfl⟩

/-- A file that is there is read, unless the outside fails. -/
theorem ends_readFile_of {Q : Bytes → World → Prop} {E : Exn → World → Prop}
    (hdata : w.files path = some data) (hQ : env.fails w.clock = none → Q data w.tick)
    (hE : ∀ what, env.fails w.clock = some what → E (.error what) w.tick) :
    Ends (readFile env path) w Q E := by
  unfold Ends readFile attempt
  simp only [Bind.bind, current]
  cases hfails : env.fails w.clock with
  | none =>
      simp only [World.files_tick, hdata]
      exact hQ hfails
  | some what => exact hE what hfails

theorem ends_readFile_outside {Q : Bytes → World → Prop} (hdata : w.files path = some data)
    (hQ : Q data w.tick) : Ends (readFile env path) w Q fun e _ => env.FailsWith e :=
  ends_readFile_of hdata (fun _ => hQ) fun what hfails => ⟨w.clock, what, hfails, rfl⟩

theorem ends_writeFile_outside {Q : Unit → World → Prop} (hholds : w.Holds path)
    (hQ : Q () (w.set path (some data)).tick) :
    Ends (writeFile env path data) w Q fun e _ => env.FailsWith e := by
  unfold Ends writeFile
  cases hfails : env.fails w.clock with
  | none => simpa [hholds] using hQ
  | some what => exact ⟨w.clock, what, hfails, rfl⟩

theorem ends_log {text : Bytes} {Q : Unit → World → Prop} {E : Exn → World → Prop}
    (hQ : Q () w.tick) (hE : ∀ what, E (.error what) w.tick) : Ends (log env text) w Q E :=
  ends_attempt hQ hE

end Rules

namespace World

variable {w : World} {staged destination other : Path}

theorem files_replace_self {data : Bytes} (hstaged : w.files staged = some data)
    (hdestination : w.Holds destination) (hne : staged ≠ destination) :
    (w.replace staged destination).files destination = some data := by
  rw [replace, files_record, files_set_ne hne.symm, files_set_self hdestination, hstaged]

theorem not_in_nextDir (h : w.Holds other) : ¬ other.In w.nextDir := by
  cases other with
  | user name => exact id
  | temp dir name => exact Nat.ne_of_lt h

/-- A file that a workspace has not changed is the same after its end. -/
theorem files_endDir_of_eq {env : Env} {w' : World} (h : w'.files other = w.files other) :
    (w'.endDir env w.nextDir).files other = w.files other := by
  unfold endDir
  split
  · exact h
  · rw [files_tick, files_removeDir]
    split
    · next hin =>
      cases other with
      | user name => exact hin.elim
      | temp dir name => exact (w.unmade dir name (Nat.le_of_eq hin.symm)).symm
    · exact h

/-- The end of a workspace removes nothing outside it. -/
theorem files_endDir {env : Env} {dir : Nat} (h : ¬ other.In dir) :
    (w.endDir env dir).files other = w.files other := by
  unfold endDir
  split
  · rfl
  · rw [files_tick, files_removeDir, if_neg h]

theorem trace_endDir {env : Env} {dir : Nat} : (w.endDir env dir).trace = w.trace := by
  unfold endDir
  split <;> rfl

theorem nextDir_endDir {env : Env} {dir : Nat} : (w.endDir env dir).nextDir = w.nextDir := by
  unfold endDir
  split <;> rfl

@[simp] theorem nextDir_replace : (w.replace staged destination).nextDir = w.nextDir := rfl

@[simp] theorem trace_replace :
    (w.replace staged destination).trace = w.trace ++ [.replaced staged destination] := rfl

end World

/-! ## Frames -/

/-- Files change only where `may` holds, or in directories made meanwhile, and
every event added to the trace satisfies `emits`. -/
structure Frame (may : Path → Prop) (emits : Event → Prop) (w w' : World) : Prop where
  files : ∀ path, w.Holds path → ¬ may path → w'.files path = w.files path
  nextDir : w.nextDir ≤ w'.nextDir
  trace : ∃ events, w'.trace = w.trace ++ events ∧ ∀ event ∈ events, emits event

theorem World.Holds.mono {w w' : World} {path : Path} (h : w.Holds path)
    (hdir : w.nextDir ≤ w'.nextDir) : w'.Holds path := by
  cases path with
  | user name => trivial
  | temp dir name => exact Nat.lt_of_lt_of_le h hdir

instance (may : Path → Prop) (emits : Event → Prop) : IsPreorder World (Frame may emits) where
  refl w := ⟨fun _ _ _ => rfl, le_rfl, [], by simp, by simp⟩
  trans := by
    intro w w' w'' h h'
    obtain ⟨events, htrace, hevents⟩ := h.trace
    obtain ⟨events', htrace', hevents'⟩ := h'.trace
    refine ⟨fun path hholds hmay => ?_, h.nextDir.trans h'.nextDir, events ++ events', ?_, ?_⟩
    · rw [h'.files path (hholds.mono h.nextDir) hmay, h.files path hholds hmay]
    · rw [htrace', htrace, List.append_assoc]
    · simp only [List.mem_append]
      rintro event (hevent | hevent)
      · exact hevents event hevent
      · exact hevents' event hevent

namespace Frame

variable {may : Path → Prop} {emits : Event → Prop} {w w' : World}

theorem mono {may' : Path → Prop} {emits' : Event → Prop} (h : Frame may emits w w')
    (hmay : ∀ path, may path → may' path) (hemits : ∀ event, emits event → emits' event) :
    Frame may' emits' w w' := by
  obtain ⟨events, htrace, hevents⟩ := h.trace
  exact ⟨fun path hholds hnot => h.files path hholds fun hmay' => hnot (hmay path hmay'),
    h.nextDir, events, htrace, fun event hevent => hemits event (hevents event hevent)⟩

theorem tick (h : Frame may emits w w') : Frame may emits w w'.tick := ⟨h.files, h.nextDir, h.trace⟩

theorem ticked : Frame may emits w w.tick := (refl_of (Frame may emits) w).tick

theorem set {path : Path} {contents : Option Bytes} (hpath : may path) :
    Frame may emits w (w.set path contents) :=
  ⟨fun other _ hother => World.files_set_ne fun heq => hother (heq ▸ hpath), le_rfl, [],
    by simp, by simp⟩

theorem record {event : Event} (hevent : emits event) : Frame may emits w (w.record event) :=
  ⟨fun _ _ _ => rfl, le_rfl, [event], rfl, by simpa using hevent⟩

theorem makeDir : Frame may emits w w.makeDir :=
  ⟨fun _ _ _ => rfl, Nat.le_succ _, [], by simp, by simp⟩

theorem replace {staged destination : Path} (hstaged : may staged)
    (hdestination : may destination) (hevent : emits (.replaced staged destination)) :
    Frame may emits w (w.replace staged destination) :=
  trans_of (Frame may emits) (trans_of (Frame may emits) (set hdestination) (set hstaged))
    (record hevent)

/-- What a workspace changes inside itself is gone with it. -/
theorem endDir {env : Env} (h : Frame (fun path => may path ∨ path.In w.nextDir) emits w.makeDir w') :
    Frame may emits w (w'.endDir env w.nextDir) := by
  refine ⟨fun path hholds hmay => ?_, ?_, ?_⟩
  · apply World.files_endDir_of_eq
    exact h.files path (hholds.mono (Nat.le_succ _)) (by simp [hmay, World.not_in_nextDir hholds])
  · rw [World.nextDir_endDir]
    exact (Nat.le_succ _).trans h.nextDir
  · rw [World.trace_endDir]
    exact h.trace

end Frame

section Moves

variable {may : Path → Prop} {emits : Event → Prop} {env : Env} {path staged destination : Path}

theorem moves_attempt : Moves (Frame may emits) (attempt env) :=
  fun _ => ends_attempt .ticked fun _ => .ticked

theorem moves_readFile : Moves (Frame may emits) (readFile env path) :=
  fun _ => ends_readFile (fun _ _ => .ticked) fun _ => .ticked

theorem moves_log {text : Bytes} : Moves (Frame may emits) (log env text) :=
  fun _ => ends_log .ticked fun _ => .ticked

theorem moves_writeFile {data : Bytes} (hpath : may path) :
    Moves (Frame may emits) (writeFile env path data) :=
  fun _ => ends_writeFile (fun _ => (Frame.set hpath).tick) fun _ _ => (Frame.set hpath).tick

theorem moves_createFile {data : Bytes} (hpath : may path) :
    Moves (Frame may emits) (createFile env path data) :=
  fun _ => ends_createFile (fun _ _ => (Frame.set hpath).tick) fun _ => .ticked

theorem moves_copyFile (hpath : may destination) :
    Moves (Frame may emits) (copyFile env staged destination) :=
  moves_readFile.bind fun _ => moves_createFile hpath

theorem moves_atomicReplaceFile (hstaged : may staged) (hdestination : may destination)
    (hevent : emits (.replaced staged destination)) :
    Moves (Frame may emits) (atomicReplaceFile env staged destination) := by
  have hframe (w : World) : Frame may emits w (w.replace staged destination).tick :=
    (Frame.replace hstaged hdestination hevent).tick
  exact fun w => ends_atomicReplaceFile (fun _ _ _ _ => hframe w) (fun _ => .ticked)
    fun _ _ => hframe w

theorem moves_runProcess {executable : Bytes} {args : List Arg}
    (hout : ∀ path, fileAfter (arg "-out") args = some path → may path)
    (hevent : ∀ input result output, emits (.companion args input result output)) :
    Moves (Frame may emits) (runProcess env executable args) := by
  rw [moves_iff]
  intro w
  unfold runProcess
  apply Frame.tick
  cases hpath : fileAfter (arg "-out") args with
  | none => exact .record (hevent _ _ _)
  | some path => exact trans_of _ (Frame.set (hout path hpath)) (.record (hevent _ _ _))

theorem moves_signDigest {digest : Bytes} (hevent : ∀ result, emits (.digestSigned digest result)) :
    Moves (Frame may emits) (signDigest env digest) := by
  rw [moves_iff]
  exact fun w => (Frame.record (hevent _)).tick

theorem moves_withTempDir {α : Type} {body : Nat → Prog α}
    (h : ∀ dir, Moves (Frame (fun path => may path ∨ path.In dir) emits) (body dir)) :
    Moves (Frame may emits) (withTempDir env body) := by
  refine moves_attempt.bind fun _ w => ?_
  rw [ends_bind, ends_current, ends_bind, ends_change, ends_cleanly]
  exact (h w.nextDir w.makeDir).mono (fun _ _ => Frame.endDir) fun _ _ => Frame.endDir

end Moves

end AasSign
