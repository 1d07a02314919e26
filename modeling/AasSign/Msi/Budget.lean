import AasSign.Msi.Discipline
import AasSign.Msi.Metadata

/-! # The extraction budget

The count and the expanded size are kept across every step: the expanded size
covers the payload files, so taking a payload out of it never goes below zero.
-/

namespace AasSign

open Foundation Program

/-- A callback that changes its own payload only, and not when it returns false. -/
structure Callback.Sound (callback : Callback) : Prop where
  confined : callback.Confined
  unchanged : ∀ path name w, Ends (callback path name) w
    (fun signed w' => signed = false → w'.files path = w.files path) fun e _ => e.Thrown

/-- A callback that changes its own payload only, and that has not changed it when it
returns false; whatever it throws. -/
structure Callback.Honest (callback : Callback) : Prop where
  confined : callback.Confined
  unchanged : ∀ path name w, Ends (callback path name) w
    (fun signed w' => signed = false → w'.files path = w.files path) fun _ _ => True

theorem Callback.Sound.honest {callback : Callback} (h : callback.Sound) : callback.Honest :=
  ⟨h.confined, fun path name w => (h.unchanged path name w).mono (fun _ _ => id) fun _ _ _ => trivial⟩

/-- The payload files fitted the limit whenever a payload was signed. -/
def Fits (log : List MsiStep) : Prop :=
  ∀ step ∈ log, ∀ container path left, step.event = .returned container path true left →
    step.payloadBytes ≤ expansionLimit

section Sums

variable {workspace count : Nat} {w w' : World}

theorem payloadBytes_succ : payloadBytes workspace (count + 1) w =
    payloadBytes workspace count w + fileSize w (payloadPath workspace count) := by
  rw [payloadBytes_add]
  simp

theorem fileSize_le_payloadBytes {n : Nat} (hn : n < count) :
    fileSize w (payloadPath workspace n) ≤ payloadBytes workspace count w := by
  induction count with
  | zero => omega
  | succ count ih =>
      rw [payloadBytes_succ]
      by_cases hlast : n = count
      · rw [hlast]
        exact Nat.le_add_left _ _
      · have hrest := ih (by omega)
        omega

/-- Changing one payload changes the sum by its change in size. -/
theorem payloadBytes_update {n : Nat} (hn : n < count)
    (hothers : ∀ m, m ≠ n → w'.files (payloadPath workspace m) = w.files (payloadPath workspace m)) :
    payloadBytes workspace count w' + fileSize w (payloadPath workspace n) =
      payloadBytes workspace count w + fileSize w' (payloadPath workspace n) := by
  induction count with
  | zero => omega
  | succ count ih =>
      rw [payloadBytes_succ, payloadBytes_succ]
      by_cases hlast : n = count
      · subst hlast
        rw [payloadBytes_congr fun m hm => hothers m (Nat.ne_of_lt hm)]
        omega
      · rw [fileSize_congr (hothers count (Ne.symm hlast))]
        have hrest := ih (by omega)
        omega

end Sums

/-- The budget holds, with a fixed number of payloads. -/
structure Counting (workspace count : Nat) (s : Rewrite) : Prop where
  budget : Budgeted workspace s
  counted : s.count = count
  made : workspace < s.world.nextDir
  fits : Fits s.log

section Steps

variable {env : Env} {lib : MsiLibrary} {workspace count : Nat} {callback : Callback}
  {plan : Plan} {s : Rewrite} {w : World}

theorem Counting.withWorld (h : Counting workspace count s)
    (hfiles : ∀ n, w.files (payloadPath workspace n) = s.world.files (payloadPath workspace n))
    (hdir : s.world.nextDir ≤ w.nextDir) : Counting workspace count { s with world := w } :=
  ⟨h.budget.withWorld fun n _ => hfiles n, h.counted, Nat.lt_of_lt_of_le h.made hdir, h.fits⟩

theorem Fits.snoc {log : List MsiStep} {step : MsiStep} (h : Fits log)
    (hstep : ∀ container path left, step.event = .returned container path true left →
      step.payloadBytes ≤ expansionLimit) : Fits (log ++ [step]) := by
  intro other hother
  rcases List.mem_append.mp hother with hold | hnew
  · exact h other hold
  · rw [List.mem_singleton] at hnew
    subst hnew
    exact hstep

theorem Counting.noted (h : Counting workspace count s) (event : MsiEvent) :
    Counting workspace count (s.noted workspace event) :=
  ⟨h.budget.noted event, h.counted, h.made,
    h.fits.snoc fun _ _ _ _ => h.budget.payload.trans h.budget.limit⟩

theorem Counting.stops {e : Exn} (h : Counting workspace count s) (he : e.Thrown) : Stops e s :=
  ⟨he, h.budget.log⟩

theorem ends_readFile_counting {path : Path} {Q : Bytes → Rewrite → Prop}
    (h : Counting workspace count s)
    (hQ : ∀ data s', s.world.files path = some data → s'.world.files = s.world.files →
      Counting workspace count s' → Q data s') :
    Ends (onWorld (readFile env path)) s Q Stops := by
  rw [ends_onWorld]
  apply ends_readFile
  · exact fun data hdata => hQ data _ hdata rfl (h.withWorld (w := s.world.tick) (fun _ => rfl) le_rfl)
  · exact fun what => ⟨trivial, h.budget.log⟩

theorem ends_execute_counting {update : MsiUpdate} {Q : Unit → Rewrite → Prop}
    (h : Counting workspace count s) (hQ : ∀ s', Counting workspace count s' → Q () s') :
    Ends (execute env workspace update) s Q Stops := by
  apply ends_execute
  · apply hQ
    have hupdated : Counting workspace count
        { s with world := s.world.tick, db := update.apply s.db } :=
      ⟨⟨h.budget.count, h.budget.payload, h.budget.limit, h.budget.log⟩, h.counted, h.made, h.fits⟩
    exact hupdated.noted _
  · exact fun what => ⟨trivial, h.budget.log⟩

/-- Signing one payload keeps the budget, or stops. -/
theorem sign_counting {container : MsiStream} {path : Path} {name : Bytes} {n : Nat}
    (hcallback : callback.Sound) (hn : n < count) (hpath : path = payloadPath workspace n)
    (h : Counting workspace count s) :
    Ends (sign env workspace callback container path name) s
      (fun _ s' => Counting workspace count s') Stops := by
  rw [sign, ends_bind]
  apply ends_readFile_counting h
  intro candidate s₁ _ _ h₁
  split
  swap
  · exact h₁
  rw [ends_bind]
  apply ends_readFile_counting h₁
  intro before s₂ hbefore hsame₂ h₂
  replace h₂ := h₂.noted (.called container path name)
  rw [ends_bind, ends_note, ends_bind, ends_onWorld]
  generalize hs₃ : s₂.noted workspace _ = s₃ at h₂ ⊢
  have hsize : fileSize s₃.world path = before.length := by
    rw [← hs₃, fileSize, world_noted, hsame₂, hbefore]
    rfl
  apply ((hcallback.confined path name).ends s₃.world |>.and
    (hcallback.unchanged path name s₃.world)).mono
  swap
  · exact fun e w hends => ⟨hends.2, h₂.budget.log⟩
  rintro signed w ⟨hframe, hunchanged⟩
  have hholds (m : Nat) : s₃.world.Holds (payloadPath workspace m) := h₂.made
  -- The callback may write its own payload only, so one summand of the payload bytes moves.
  have hothers (m : Nat) (hm : m ≠ n) :
      w.files (payloadPath workspace m) = s₃.world.files (payloadPath workspace m) :=
    hframe.files _ (hholds m) fun heq => hm (payloadPath_inj (heq.trans hpath))
  have hmade : workspace < w.nextDir := Nat.lt_of_lt_of_le h₂.made hframe.nextDir
  rw [noteReturned, ends_bind, ends_bind, ends_current, ends_note]
  cases signed with
  | false =>
      have hfiles (m : Nat) :
          w.files (payloadPath workspace m) = s₃.world.files (payloadPath workspace m) := by
        by_cases hm : m = n
        · rw [hm, ← hpath, hunchanged rfl]
        · exact hothers m hm
      have hnoted := (h₂.withWorld hfiles hframe.nextDir).noted
        (.returned container path false (w.files path))
      rw [if_neg (by simp), ends_bind, ends_change, ends_pure]
      exact ⟨⟨hnoted.budget.count, hnoted.budget.payload, hnoted.budget.limit, hnoted.budget.log⟩,
        hnoted.counted, hnoted.made, hnoted.fits⟩
  | true =>
      -- Between the callback and the account of its output the log still ends in its answer.
      have hlog : Accounted (Rewrite.noted workspace (.returned container path true (w.files path))
          { s₃ with world := w }).log := by
        intro step hstep hreturn
        rcases List.mem_append.mp hstep with hold | hnew
        · exact h₂.budget.log step hold hreturn
        · rw [List.mem_singleton] at hnew
          subst hnew
          exact absurd trivial hreturn
      rw [if_pos rfl, ends_bind, ends_onWorld]
      apply ends_readFile
      swap
      · exact fun what => ⟨trivial, hlog⟩
      intro file hfile
      have hafter : fileSize w path = file.length := by
        rw [fileSize, show w.files path = some file from hfile]
        rfl
      have hupdate : payloadBytes workspace count w + fileSize s₃.world (payloadPath workspace n) =
          payloadBytes workspace count s₃.world + fileSize w (payloadPath workspace n) :=
        payloadBytes_update hn hothers
      rw [← hpath, hsize, hafter] at hupdate
      have hle : fileSize s₃.world (payloadPath workspace n) ≤
          payloadBytes workspace count s₃.world := fileSize_le_payloadBytes hn
      rw [← hpath, hsize] at hle
      have hpayload := h₂.budget.payload
      have hlimit := h₂.budget.limit
      have hcount := h₂.counted
      rw [hcount] at hpayload
      -- What is expanded covers the payload, so the payload can be taken out of it.
      have hothersRoom : usub s₃.expanded before.length = .ok (s₃.expanded - before.length) :=
        usub_of_le (by omega)
      have hroom : usub expansionLimit (s₃.expanded - before.length) =
          .ok (expansionLimit - (s₃.expanded - before.length)) := usub_of_le (by omega)
      rw [ends_bind, ends_current, ends_bind, ends_lift]
      change Sat (usub s₃.expanded before.length) _ _
      rw [hothersRoom, sat_ok, ends_bind, ends_lift, hroom, sat_ok, ends_bind]
      apply ends_lift_safe invalidIf_safe
      swap
      · exact fun e he => ⟨he, hlog⟩
      intro _ hfits
      rw [ends_bind, ends_change, ends_bind, ends_note, ends_pure]
      have hbytes : payloadBytes workspace count w ≤ s₃.expanded - before.length + file.length := by
        omega
      have hwithin : s₃.expanded - before.length + file.length ≤ expansionLimit := by omega
      have hnext : Counting workspace count { s₃ with
          world := w.tick
          expanded := s₃.expanded - before.length + file.length
          signedFiles := s₃.signedFiles + 1
          log := (Rewrite.noted workspace (.returned container path true (w.files path))
            { s₃ with world := w }).log } := by
        refine ⟨⟨h₂.budget.count, ?_, hwithin, hlog⟩, hcount, hmade, h₂.fits.snoc ?_⟩
        · rw [hcount]
          exact hbytes
        · intro _ _ _ _
          change payloadBytes workspace s₃.count w ≤ expansionLimit
          rw [hcount]
          exact hbytes.trans hwithin
      exact hnext.noted _

theorem updateMember_counting {member : CabinetMember} (h : Counting workspace count s) :
    Ends (updateMember env lib workspace plan member) s
      (fun _ s' => Counting workspace count s') Stops := by
  rw [updateMember, ends_bind]
  apply ends_readFile_counting h
  intro file s₁ _ _ h₁
  rw [ends_bind]
  apply ends_lift_safe invalidIf_safe
  swap
  · exact fun e he => h₁.stops he
  intro _ _
  rw [ends_bind]
  apply ends_execute_counting h₁
  intro s₂ h₂
  split
  · rw [ends_bind]
    apply ends_readFile_counting h₂
    intro data s₃ _ _ h₃
    exact ends_execute_counting h₃ fun s₄ h₄ => h₄
  · exact h₂

/-- The numbers that a plan gives to its staging files. -/
structure Plan.Numbered (plan : Plan) (workspace count : Nat) : Prop where
  cabinets : ∀ cabinet ∈ plan.cabinets, ∃ i, cabinet.path = cabinetPath workspace i
  members : ∀ cabinet ∈ plan.cabinets, ∀ member ∈ cabinet.members,
    member.Fits ∧ ∃ n < count, member.path = payloadPath workspace n
  binaries : ∀ binary ∈ plan.binaries, ∃ n < count, binary.2 = payloadPath workspace n

theorem Staged.numbered {c : MsiContents} (hplan : plan.Complete c workspace)
    (h : Staged lib c workspace plan.cabinets plan.binaries s) :
    plan.Numbered workspace s.count := by
  refine ⟨fun cabinet hcabinet => ?_, fun cabinet hcabinet member hmember => ⟨?_, ?_⟩,
    fun binary hbinary => ?_⟩
  · have hmem : cabinet.path ∈ plan.cabinets.map Cabinet.path := List.mem_map_of_mem hcabinet
    rw [hplan.media.paths, List.mem_map] at hmem
    obtain ⟨i, -, hi⟩ := hmem
    exact ⟨i, hi.symm⟩
  · obtain ⟨raw, files, hstaged⟩ := h.eachCabinet cabinet hcabinet
    obtain ⟨start, hinspected⟩ := hstaged.inspected
    obtain ⟨finish, htable⟩ := hinspected.table
    exact htable.fits member hmember
  · obtain ⟨n, hn, hpath⟩ := h.number_lt (.inl (List.mem_map_of_mem
      (List.mem_flatMap.mpr ⟨cabinet, hcabinet, hmember⟩)))
    exact ⟨n, hn, hpath.symm⟩
  · obtain ⟨n, hn, hpath⟩ := h.number_lt (.inr (List.mem_map_of_mem hbinary))
    exact ⟨n, hn, hpath.symm⟩

/-- Building a cabinet again touches no payload. -/
theorem rebuildCabinet_counting {cabinet : Cabinet} (hnumbered : plan.Numbered workspace count)
    (hcabinet : cabinet ∈ plan.cabinets) (h : Counting workspace count s) :
    Ends (rebuildCabinet env lib workspace cabinet) s
      (fun _ s' => Counting workspace count s') Stops := by
  obtain ⟨i, hi⟩ := hnumbered.cabinets cabinet hcabinet
  have houtput (n : Nat) : payloadPath workspace n ≠ cabinet.path.append (ascii ".rebuilt") := by
    rw [hi]
    exact cabinetPath_append_ne_payloadPath.symm
  have hkept {s₁ : Rewrite} (h₁ : Counting workspace count s₁) {w : World}
      (hframe : Frame (· = cabinet.path.append (ascii ".rebuilt")) (fun _ => True) s₁.world w) :
      Counting workspace count { s₁ with world := w } :=
    h₁.withWorld (fun n => hframe.files _ h₁.made (houtput n)) hframe.nextDir
  rw [rebuildCabinet, ends_bind, ends_onWorld]
  have hcreate : Moves (Frame (· = cabinet.path.append (ascii ".rebuilt")) fun _ => True)
      (createCabinet env lib (cabinet.path.append (ascii ".rebuilt")) cabinet.members) :=
    moves_createCabinet rfl
  apply (createCabinet_ends.and (hcreate.ends s.world)).mono
  swap
  · exact fun e w hends => ⟨hends.1, h.budget.log⟩
  rintro _ w ⟨-, hframe⟩
  have h₁ := hkept h hframe
  rw [ends_bind, ends_onWorld]
  have hpreserve : Moves (Frame (· = cabinet.path.append (ascii ".rebuilt")) fun _ => True)
      (preserveCabinetMetadata env (cabinet.path.append (ascii ".rebuilt")) cabinet.members) :=
    moves_preserveCabinetMetadata rfl
  apply ((preserveCabinetMetadata_ends fun member hmember =>
    (hnumbered.members cabinet hcabinet member hmember).1).and (hpreserve.ends w)).mono
  · rintro _ w' ⟨-, hframe'⟩
    have h₂ := hkept h₁ hframe'
    rw [ends_bind]
    apply ends_readFile_counting h₂
    intro data s₃ _ _ h₃
    exact ends_execute_counting h₃ fun s₄ h₄ => h₄
  · exact fun e w' hends => ⟨hends.1, h₁.budget.log⟩

theorem signCabinet_counting {cabinet : Cabinet} (hcallback : callback.Sound)
    (hnumbered : plan.Numbered workspace count) (hcabinet : cabinet ∈ plan.cabinets)
    (h : Counting workspace count s) :
    Ends (signCabinet env lib workspace callback plan () cabinet) s
      (fun _ s' => Counting workspace count s') Stops := by
  rw [signCabinet, ends_bind]
  have hmembers : Ends (foldItems (signMember env lib workspace callback plan cabinet) false
      cabinet.members) s (fun _ s' => Counting workspace count s') Stops := by
    apply ends_foldItems fun _ _ s' => Counting workspace count s'
    · intro done member rest changed s₁ hsplit h₁
      obtain ⟨-, n, hn, hpath⟩ := hnumbered.members cabinet hcabinet member (by simp [hsplit])
      rw [signMember, ends_bind]
      apply (sign_counting hcallback hn hpath h₁).mono
      · intro signed s₂ h₂
        split
        · rw [ends_bind]
          exact updateMember_counting h₂
        · exact h₂
      · exact fun _ _ => id
    · exact h
  apply hmembers.mono
  · intro changed s₁ h₁
    split
    · exact rebuildCabinet_counting hnumbered hcabinet h₁
    · exact h₁
  · exact fun _ _ => id

theorem signBinary_counting {binary : Bytes × Path} (hcallback : callback.Sound)
    (hnumbered : plan.Numbered workspace count) (hbinary : binary ∈ plan.binaries)
    (h : Counting workspace count s) :
    Ends (signBinary env workspace callback () binary) s
      (fun _ s' => Counting workspace count s') Stops := by
  obtain ⟨n, hn, hpath⟩ := hnumbered.binaries binary hbinary
  rw [signBinary, ends_bind]
  apply (sign_counting hcallback hn hpath h).mono
  · intro signed s₁ h₁
    split
    · rw [ends_bind]
      apply ends_readFile_counting h₁
      intro data s₂ _ _ h₂
      exact ends_execute_counting h₂ fun s₃ h₃ => h₃
    · exact h₁
  · exact fun _ _ => id

theorem signPayloads_counting (hcallback : callback.Sound)
    (hnumbered : plan.Numbered workspace count) (h : Counting workspace count s) :
    Ends (signPayloads env lib workspace callback plan) s
      (fun _ s' => Counting workspace count s') Stops := by
  rw [signPayloads, ends_bind]
  have hcabinets : Ends (foldItems (signCabinet env lib workspace callback plan) () plan.cabinets)
      s (fun _ s' => Counting workspace count s') Stops := by
    apply ends_foldItems fun _ _ s' => Counting workspace count s'
    · intro done cabinet rest _ s₁ hsplit h₁
      exact signCabinet_counting hcallback hnumbered (by simp [hsplit]) h₁
    · exact h
  apply hcabinets.mono
  · intro _ s₁ h₁
    apply ends_foldItems fun _ _ s' => Counting workspace count s'
    · intro done binary rest _ s₂ hsplit h₂
      exact signBinary_counting hcallback hnumbered (by simp [hsplit]) h₂
    · exact h₁
  · exact fun _ _ => id

theorem finish_counting {staged : Path} (hstaged : ¬ staged.In workspace)
    (h : Counting workspace count s) :
    Ends (finish env lib workspace staged) s (fun _ s' => Accounted s'.log ∧ Fits s'.log)
      Stops := by
  rw [finish, ends_bind, ends_current]
  split
  · rw [ends_bind, renewPackageCode, ends_bind, ends_onWorld]
    apply ends_attempt
    swap
    · exact fun what => ⟨trivial, h.budget.log⟩
    rw [ends_bind, ends_change, ends_note]
    have hrenewed : Counting workspace count { s with
        world := s.world.tick
        db := { s.db with packageCode := lib.packageCode s.world.tick.clock } } :=
      ⟨⟨h.budget.count, h.budget.payload, h.budget.limit, h.budget.log⟩, h.counted, h.made, h.fits⟩
    have h₁ := hrenewed.noted .renewed
    rw [ends_bind, commit, ends_bind, ends_current, ends_bind, ends_onWorld, commitFile, ends_bind]
    apply ends_attempt
    swap
    · exact fun what => ⟨trivial, h₁.budget.log⟩
    rw [ends_change, ends_note, ends_pure]
    generalize Rewrite.noted workspace .renewed _ = s₁ at h₁ ⊢
    have hcommitted : Counting workspace count
        { s₁ with world := s₁.world.tick.set staged (some (lib.storeMsi s₁.db)) } := by
      refine h₁.withWorld (fun n => World.files_set_ne fun heq => ?_) le_rfl
      exact hstaged (heq ▸ payloadPath_in workspace n)
    exact ⟨(hcommitted.noted .committed).budget.log,
      (hcommitted.noted .committed).fits⟩
  · exact ⟨h.budget.log, h.fits⟩

end Steps

section Runs

variable {env : Env} {lib : MsiLibrary} {staged : Path} {callback : Callback} {w : World}

theorem rewriteIn_accounted (hcallback : callback.Sound) :
    Ends (rewriteIn env lib w.nextDir staged callback) (.inWorkspace w)
      (fun _ s => Accounted s.log ∧ Fits s.log) Stops := by
  have hempty {s : Rewrite} (hlog : s.log = []) : Accounted s.log ∧ Fits s.log := by
    simp [hlog, Accounted, Fits]
  rw [rewriteIn, ends_bind]
  apply openDatabase_ends.mono
  swap
  · rintro e s ⟨he, hlog, -⟩
    exact ⟨he, (hempty hlog).1⟩
  rintro _ s₁ ⟨hopened, hevents, -, hholds⟩
  have hquiet : ∀ step ∈ s₁.log, step.event.Quiet := by
    have hlog : s₁.log = [] := List.map_eq_nil_iff.mp hevents
    simp [hlog]
  rw [ends_bind]
  apply ((preflight_ends hopened).and (quietly_preflight.ends s₁)).mono
  swap
  · exact fun e s₂ hends => hends.1
  rintro plan s₂ ⟨⟨hplan, hstaged, -⟩, hquietly⟩
  obtain ⟨steps, hsteps, hmore⟩ := hquietly.log
  have hfits : Fits s₂.log := by
    intro step hstep container path left hreturned
    rw [hsteps, List.mem_append] at hstep
    have hstepQuiet : step.event.Quiet := hstep.elim (hquiet step) (hmore step)
    rw [hreturned] at hstepQuiet
    exact hstepQuiet.elim
  have hcounting : Counting w.nextDir s₂.count s₂ :=
    ⟨hstaged.budget, rfl, hstaged.made, hfits⟩
  rw [ends_bind]
  apply (signPayloads_counting hcallback (hstaged.numbered hplan) hcounting).mono
  · exact fun _ s₃ h₃ => finish_counting (World.not_in_nextDir hholds) h₃
  · exact fun _ _ => id

end Runs

/-- At every step but a return of the callback the counters bound the payload files
and stay below their limits; no subtraction wraps, however the run ends; a run that
throws has not committed, and one that returns has never let the payloads pass the
limit. -/
theorem rewriteMsiPayload_accounted (env : Env) (lib : MsiLibrary) (staged : Path)
    (callback : Callback) (w : World) (hcallback : callback.Sound) :
    Ends (rewriteMsiPayload env lib staged callback) (.start w)
      (fun _ s => Accounted s.log ∧ Fits s.log)
      (fun e s => e.Thrown ∧ Accounted s.log ∧ .committed ∉ s.events) := by
  rw [rewriteMsiPayload, ends_bind, ends_onWorld]
  apply ends_attempt
  swap
  · exact fun what => ⟨trivial, by simp [Accounted, Rewrite.start], by
      simp [Rewrite.events, Rewrite.start]⟩
  rw [ends_bind, ends_current, ends_bind, ends_onWorld, ends_change, ends_cleanly]
  apply ((rewriteIn_accounted hcallback).and rewriteIn_ends).mono
  · exact fun result s h => h.1
  · exact fun e s h => ⟨h.1.1, h.1.2, h.2.1.2⟩

/-! ## A sample -/

/-- Every read but the last fills the buffer. -/
def fullReads (length : Nat) : StreamReads length where
  sizes :=
    List.replicate (length / 65536) 65536 ++ if length % 65536 = 0 then [] else [length % 65536]
  bounded := by
    intro n hn
    rcases List.mem_append.mp hn with hfull | hlast
    · rw [List.eq_of_mem_replicate hfull]
      decide
    · split at hlast
      · cases hlast
      · rw [List.mem_singleton.mp hlast]
        omega
  total := by
    have hdivision := Nat.div_add_mod length 65536
    rw [List.sum_append_nat, List.sum_replicate_nat]
    split
    · rw [List.sum_nil]
      omega
    · rw [List.sum_singleton]
      omega

/-- Nothing fails. -/
def calmEnv : Env where
  fails _ := none
  leftover _ contents := contents
  commits _ := false
  companion _ _ _ _ := ⟨.error "no companion", none⟩
  signDigest _ _ := .error "no signer"
  streamReads _ := fullReads

/-- An installer with one stream of the Binary table, an image without a signature. -/
def sampleContents : MsiContents :=
  { (default : MsiContents) with
    tables := [ascii "Binary"]
    binary := [(ascii "a", [77, 90])] }

def sampleLibrary : MsiLibrary where
  openMsi _ := .ok sampleContents
  storeMsi _ := []
  packageCode _ := []
  unpack _ := .error "not a cabinet"
  pack _ := .error "no cabinets"
  md5 _ := List.replicate 16 0

def sampleWorld : World where
  files path := if path = .user [] then some [] else none
  nextDir := 0
  clock := 0
  trace := []
  unmade _ _ _ := rfl

/-- The payload gets one octet more. -/
def sampleCallback : Callback := fun path _ => do
  change fun w => w.set path (some [77, 90, 1])
  return true

theorem sampleCallback_sound : sampleCallback.Sound := by
  refine ⟨fun path name => moves_iff.mpr fun w => Frame.set rfl, fun path name w => ?_⟩
  rw [sampleCallback, ends_bind, ends_change, ends_pure]
  simp

theorem sampleRewrite_accounted :
    Ends (rewriteMsiPayload calmEnv sampleLibrary (.user []) sampleCallback) (.start sampleWorld)
      (fun _ s => Accounted s.log ∧ Fits s.log)
      (fun e s => e.Thrown ∧ Accounted s.log ∧ .committed ∉ s.events) :=
  rewriteMsiPayload_accounted calmEnv sampleLibrary (.user []) sampleCallback sampleWorld
    sampleCallback_sound

example : (rewriteMsiPayload calmEnv sampleLibrary (.user []) sampleCallback
    (.start sampleWorld)).1 = .ok ⟨1, 0⟩ := by decide

end AasSign
