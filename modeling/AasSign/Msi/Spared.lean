import AasSign.Msi.Committed
import AasSign.Msi.Restored

/-! # A payload that is no candidate

Its turn is a look at its file. No step of a rewriting acts on it, an installer that is
committed holds it as it was, and a rewriting that throws does so for another payload,
for a cabinet that another payload has changed, or because the outside fails.
-/

namespace AasSign

open Foundation Program

/-! ## Its turn -/

section Turn

variable {env : Env} {workspace : Nat} {container : MsiStream} {path : Path} {name file : Bytes}
  {callback : Callback} {s : Rewrite}

/-- The payload is only looked at; nothing but a failure from outside ends the run. -/
def Passes (env : Env) (callback : Callback) (workspace : Nat) (container : MsiStream)
    (path : Path) (name : Bytes) (s : Rewrite) : Prop :=
  Ends (sign env workspace callback container path name) s
    (fun signed s' => signed = false ∧ s' = { s with world := s.world.tick })
    (fun e s' => s' = { s with world := s.world.tick } ∧
      ∃ what, env.fails s.world.clock = some what ∧ e = .error what)

theorem passes_of_not_candidate (hfile : s.world.files path = some file)
    (hcandidate : peCandidate file = false) :
    Passes env callback workspace container path name s := by
  rw [Passes, sign, ends_bind, ends_onWorld]
  apply ends_readFile_of hfile
  · intro _
    rw [if_neg (Bool.eq_false_iff.mp hcandidate)]
    exact ⟨rfl, rfl⟩
  · exact fun what hfails => ⟨rfl, what, hfails, rfl⟩

end Turn

/-! ## The others' turns -/

/-- The step is about the payload with this path. -/
def MsiEvent.ActsOn (path : Path) : MsiEvent → Prop
  | .called _ other _ => other = path
  | .returned _ other _ _ => other = path
  | .accounted other => other = path
  | _ => False

theorem MsiEvent.Quiet.not_actsOn {event : MsiEvent} (h : event.Quiet) (path : Path) :
    ¬ event.ActsOn path := by
  cases event <;> first | exact id | exact h.elim

/-- If the file holds these contents it goes on to, and no step acts on it. -/
def Spares (path : Path) (file : Bytes) (s s' : Rewrite) : Prop :=
  s.world.files path = some file → s'.world.files path = some file ∧
    ∃ events, s'.events = s.events ++ events ∧ ∀ event ∈ events, ¬ event.ActsOn path

instance (path : Path) (file : Bytes) : IsPreorder Rewrite (Spares path file) where
  refl s := fun h => ⟨h, [], by simp, by simp⟩
  trans := by
    intro s s' s'' h h' hfile
    obtain ⟨hfile', events, hevents, hcalls⟩ := h hfile
    obtain ⟨hfile'', events', hevents', hcalls'⟩ := h' hfile'
    refine ⟨hfile'', events ++ events', by rw [hevents', hevents, List.append_assoc], ?_⟩
    simp only [List.mem_append]
    rintro event (hevent | hevent)
    · exact hcalls event hevent
    · exact hcalls' event hevent

section Spares

variable {env : Env} {lib : MsiLibrary} {callback : Callback} {plan : Plan} {workspace : Nat}
  {container : MsiStream} {path other : Path} {name file : Bytes}

theorem spares_onWorld {α : Type} {m : Prog α} {may : Path → Prop} {emits : Event → Prop}
    (h : Moves (Frame may emits) m) (hpath : ¬ may path) :
    Moves (Spares path file) (onWorld m) := by
  rw [moves_iff] at h ⊢
  intro s hfile
  refine ⟨?_, [], (List.append_nil _).symm, by simp⟩
  exact ((h s.world).files path (World.holds_of_file hfile) hpath).trans hfile

theorem spares_readFile : Moves (Spares path file) (onWorld (readFile env other)) := by
  have hread : Moves (Frame (fun _ => False) fun _ => True) (readFile env other) := moves_readFile
  exact spares_onWorld hread id

theorem spares_note {event : MsiEvent} (h : ¬ event.ActsOn path) :
    Moves (Spares path file) (note workspace event) := by
  rw [moves_iff]
  exact fun s hfile => ⟨hfile, [event], events_noted workspace event s, by simpa using h⟩

theorem spares_change {f : Rewrite → Rewrite} (hworld : ∀ s, (f s).world = s.world)
    (hevents : ∀ s, (f s).events = s.events) :
    Moves (Spares path file) (change f : Rewriting Unit) := by
  rw [moves_iff]
  intro s hfile
  refine ⟨?_, [], ?_, by simp⟩
  · rw [← hfile]
    exact congrArg (fun w => World.files w path) (hworld s)
  · exact (hevents s).trans (List.append_nil _).symm

theorem spares_execute {update : MsiUpdate} :
    Moves (Spares path file) (execute env workspace update) := by
  have hframe : Moves (Frame (fun _ => False) fun _ => True) (attempt env) := moves_attempt
  have hattempt : Moves (Spares path file) (onWorld (attempt env)) := spares_onWorld hframe id
  exact hattempt.bind fun _ => (spares_change (by simp) (by simp [Rewrite.events])).bind fun _ =>
    spares_note id

/-- Signing another payload. -/
theorem spares_sign_ne (hcallback : callback.Confined) (hne : other ≠ path) :
    Moves (Spares path file) (sign env workspace callback container other name) := by
  refine spares_readFile.bind fun _ => moves_ite (fun _ => ?_) fun _ => moves_pure _
  refine spares_readFile.bind fun _ => (spares_note (by exact hne)).bind fun _ =>
    (spares_onWorld (hcallback other name) hne.symm).bind fun signed => ?_
  refine Moves.bind (moves_current.bind fun _ => spares_note (by exact hne)) fun _ =>
    moves_ite (fun _ => ?_) fun _ => ?_
  · exact spares_readFile.bind fun _ => moves_current.bind fun _ => (moves_lift _).bind fun _ =>
      (moves_lift _).bind fun _ => (moves_lift _).bind fun _ =>
        (spares_change (by simp) (by simp [Rewrite.events])).bind fun _ =>
          (spares_note (by exact hne)).bind fun _ => moves_pure _
  · exact (spares_change (by simp) (by simp [Rewrite.events])).bind fun _ => moves_pure _

/-- A payload that is no candidate is spared when its own turn comes. -/
theorem spares_sign (hcallback : callback.Confined) (hcandidate : peCandidate file = false) :
    Moves (Spares path file) (sign env workspace callback container other name) := by
  by_cases hpath : other = path
  · subst hpath
    intro s
    by_cases hfile : s.world.files other = some file
    · have hpasses : Passes env callback workspace container other name s :=
        passes_of_not_candidate hfile hcandidate
      apply hpasses.mono
      · rintro _ _ ⟨-, rfl⟩
        exact fun h => ⟨h, [], (List.append_nil _).symm, by simp⟩
      · rintro _ _ ⟨rfl, -⟩
        exact fun h => ⟨h, [], (List.append_nil _).symm, by simp⟩
    · exact ends_of_forall (fun _ _ h => absurd h hfile) fun _ _ h => absurd h hfile
  · exact spares_sign_ne hcallback hpath

theorem spares_updateMember {member : CabinetMember} :
    Moves (Spares path file) (updateMember env lib workspace plan member) :=
  spares_readFile.bind fun _ => (moves_lift _).bind fun _ => spares_execute.bind fun _ =>
    moves_ite (fun _ => spares_readFile.bind fun _ => spares_execute) fun _ => moves_pure _

theorem spares_signMember (hcallback : callback.Confined) (hcandidate : peCandidate file = false)
    {cabinet : Cabinet} (changed : Bool) (member : CabinetMember) :
    Moves (Spares path file) (signMember env lib workspace callback plan cabinet changed member) :=
  (spares_sign hcallback hcandidate).bind fun _ =>
    moves_ite (fun _ => spares_updateMember.bind fun _ => moves_pure _) fun _ => moves_pure _

theorem spares_rebuildCabinet {cabinet : Cabinet}
    (hpath : path ≠ cabinet.path.append (ascii ".rebuilt")) :
    Moves (Spares path file) (rebuildCabinet env lib workspace cabinet) := by
  have hcreate : Moves (Frame (· = cabinet.path.append (ascii ".rebuilt")) fun _ => True)
      (createCabinet env lib (cabinet.path.append (ascii ".rebuilt")) cabinet.members) :=
    moves_createCabinet rfl
  have hpreserve : Moves (Frame (· = cabinet.path.append (ascii ".rebuilt")) fun _ => True)
      (preserveCabinetMetadata env (cabinet.path.append (ascii ".rebuilt")) cabinet.members) :=
    moves_preserveCabinetMetadata rfl
  exact (spares_onWorld hcreate hpath).bind fun _ => (spares_onWorld hpreserve hpath).bind fun _ =>
    spares_readFile.bind fun _ => spares_execute

theorem spares_signCabinet (hcallback : callback.Confined) (hcandidate : peCandidate file = false)
    {cabinet : Cabinet} (hpath : path ≠ cabinet.path.append (ascii ".rebuilt")) :
    Moves (Spares path file) (signCabinet env lib workspace callback plan () cabinet) :=
  (moves_foldItems (spares_signMember hcallback hcandidate) _ _).bind fun _ =>
    moves_ite (fun _ => spares_rebuildCabinet hpath) fun _ => moves_pure _

theorem spares_signBinary (hcallback : callback.Confined) (hcandidate : peCandidate file = false)
    (binary : Bytes × Path) :
    Moves (Spares path file) (signBinary env workspace callback () binary) :=
  (spares_sign hcallback hcandidate).bind fun _ =>
    moves_ite (fun _ => spares_readFile.bind fun _ => spares_execute) fun _ => moves_pure _

theorem spares_signPayloads (hcallback : callback.Confined) (hcandidate : peCandidate file = false)
    (hpath : ∀ cabinet ∈ plan.cabinets, path ≠ cabinet.path.append (ascii ".rebuilt")) :
    Moves (Spares path file) (signPayloads env lib workspace callback plan) := by
  refine Moves.bind (moves_foldItems_of_mem ?_ _) fun _ => moves_foldItems ?_ _ _
  · exact fun _ cabinet hcabinet => spares_signCabinet hcallback hcandidate (hpath cabinet hcabinet)
  · exact fun _ binary => spares_signBinary hcallback hcandidate binary

/-- The commit changes the staged package only. -/
theorem spares_finish {staged : Path} (hpath : path ≠ staged) :
    Moves (Spares path file) (finish env lib workspace staged) := by
  have hframe : Moves (Frame (fun _ => False) fun _ => True) (attempt env) := moves_attempt
  have hattempt : Moves (Spares path file) (onWorld (attempt env)) := spares_onWorld hframe id
  have hrenew : Moves (Spares path file) (renewPackageCode env lib workspace) :=
    hattempt.bind fun _ => (spares_change (by simp) (by simp [Rewrite.events])).bind fun _ =>
      spares_note id
  have hcommit : Moves (Spares path file) (commit env lib workspace staged) := by
    refine moves_current.bind fun s => ?_
    have hstore : Moves (Frame (· = staged) fun _ => True)
        (commitFile env staged (lib.storeMsi s.db)) := by
      refine moves_attempt.bind fun _ => ?_
      rw [moves_iff]
      exact fun _ => Frame.set rfl
    exact (spares_onWorld hstore hpath).bind fun _ => spares_note id
  exact moves_current.bind fun _ => moves_ite
    (fun _ => hrenew.bind fun _ => hcommit.bind fun _ => moves_pure _) fun _ => moves_pure _

end Spares

/-! ## The rebuilding of a cabinet -/

/-- The library does not build the cabinet, or builds one without the members in its table. -/
def PackFails (lib : MsiLibrary) (path : Path) (w : World) (members : List CabinetMember) (e : Exn) :
    Prop :=
  match lib.pack (members.map (packed w)) with
  | .error what => e = .error what
  | .ok raw => ¬ Listing path w members raw

section Rebuild

variable {env : Env} {lib : MsiLibrary} {path : Path} {members : List CabinetMember} {w w' : World}
  {raw : Bytes}

theorem Listing.congr (h : Listing path w members raw)
    (hfiles : ∀ member ∈ members, w'.files member.path = w.files member.path) :
    Listing path w' members raw := by
  obtain ⟨hlong, hmagic, entries, hread, hmap⟩ := h
  refine ⟨hlong, hmagic, entries, hread, hmap.trans (List.map_congr_left fun member hmember => ?_)⟩
  rw [fileSize_congr (hfiles member hmember)]

/-- A cabinet of files that are there is built, unless the outside or the library fails. -/
theorem createCabinet_outside (hholds : w.Holds path)
    (hmade : ∀ member ∈ members, ∃ data, w.files member.path = some data) :
    Ends (createCabinet env lib path members) w
      (fun _ w' => ∃ raw, lib.pack (members.map (packed w)) = .ok raw ∧ w'.files path = some raw)
      fun e _ => env.FailsWith e ∨ PackFails lib path w members e := by
  rw [createCabinet, ends_bind]
  have hloop : Ends (foldItems (fun contents member => do
        let data ← readFile env member.path
        return contents ++ [packMember member data]) [] members) w
      (fun contents w' => w'.files = w.files ∧ w'.Holds path ∧ contents = members.map (packed w))
      fun e _ => env.FailsWith e := by
    apply ends_foldItems (fun done contents (w' : World) => w'.files = w.files ∧ w'.Holds path ∧
      contents = done.map (packed w))
    · rintro done member rest contents w' hsplit ⟨hfiles, hholds, rfl⟩
      obtain ⟨data, hdata⟩ := hmade member (by simp [hsplit])
      rw [ends_bind]
      apply ends_readFile_outside (hfiles ▸ hdata)
      exact ⟨hfiles, hholds, by simp [packed, hdata]⟩
    · exact ⟨rfl, hholds, rfl⟩
  apply hloop.mono
  swap
  · exact fun _ _ => .inl
  rintro contents w' ⟨hfiles, hholds, rfl⟩
  rw [ends_bind, ends_lift]
  cases hpack : lib.pack (members.map (packed w)) with
  | error what =>
      refine .inr ?_
      rw [PackFails, hpack]
  | ok cabinet =>
      apply (ends_writeFile_outside hholds ?_).mono (fun _ _ => id) fun _ _ => .inl
      exact ⟨cabinet, rfl, World.files_set_self hholds⟩

/-- A cabinet of files that are there is rebuilt, unless the outside or the library fails. -/
theorem rebuildCabinet_outside {workspace : Nat} {cabinet : Cabinet} {s : Rewrite}
    (hholds : s.world.Holds (cabinet.path.append (ascii ".rebuilt")))
    (hmembers : ∀ member ∈ cabinet.members, member.Fits ∧
      member.path ≠ cabinet.path.append (ascii ".rebuilt") ∧
      ∃ data, s.world.files member.path = some data) :
    Ends (rebuildCabinet env lib workspace cabinet) s (fun _ _ => True) fun e _ =>
      env.FailsWith e ∨
        PackFails lib (cabinet.path.append (ascii ".rebuilt")) s.world cabinet.members e := by
  have hframe : Moves (Frame (· = cabinet.path.append (ascii ".rebuilt")) fun _ => True)
      (createCabinet env lib (cabinet.path.append (ascii ".rebuilt")) cabinet.members) :=
    moves_createCabinet rfl
  rw [rebuildCabinet, ends_bind, ends_onWorld]
  apply ((createCabinet_outside hholds fun member hmember => (hmembers member hmember).2.2).and
    (hframe.ends s.world)).mono
  swap
  · exact fun _ _ => And.left
  rintro _ w ⟨⟨raw, hpack, hraw⟩, hkept⟩
  have hfiles : ∀ member ∈ cabinet.members, w.files member.path = s.world.files member.path := by
    intro member hmember
    obtain ⟨-, hne, data, hdata⟩ := hmembers member hmember
    exact hkept.files _ (World.holds_of_file hdata) hne
  by_cases hlisting : Listing (cabinet.path.append (ascii ".rebuilt")) s.world cabinet.members raw
  swap
  · -- A cabinet that does not list its members may be refused.
    refine ends_of_forall (fun _ _ => trivial) fun e _ => .inr ?_
    rw [PackFails, hpack]
    exact hlisting
  rw [ends_bind, ends_onWorld]
  apply ((hlisting.congr hfiles).preserves hraw (fun member hmember => (hmembers member hmember).1)
    fun member hmember => ?_).mono
  · rintro _ w' ⟨file, hfile⟩
    rw [ends_bind, ends_onWorld]
    apply (ends_readFile_outside hfile ?_).mono (fun _ _ => id) fun _ _ => .inl
    rw [execute, ends_bind, ends_onWorld]
    apply (ends_attempt_outside ?_).mono (fun _ _ => id) fun _ _ => .inl
    exact trivial
  · exact fun _ _ => .inl
  · rw [hfiles member hmember]
    exact (hmembers member hmember).2.2

end Rebuild

/-! ## Exceptions -/

/-- Where a signing that began in `start` has thrown, if not because of one payload: the
outside fails; in its turn another payload, or the update of its rows; the library, at
a cabinet that another payload has changed. -/
inductive FailsElsewhere (env : Env) (lib : MsiLibrary) (workspace : Nat) (callback : Callback)
    (plan : Plan) (path : Path) (start : Rewrite) (e : Exn) : Prop
  | outside (fails : env.FailsWith e)
  | member {first rest : List Cabinet} {cabinet : Cabinet} {earlier later : List CabinetMember}
      {member : CabinetMember} {changed : Bool} {s₁ s₂ s₃ : Rewrite}
      (cabinets : plan.cabinets = first ++ cabinet :: rest)
      (members : cabinet.members = earlier ++ member :: later)
      (before : foldItems (signCabinet env lib workspace callback plan) () first start = (.ok (), s₁))
      (turns : foldItems (signMember env lib workspace callback plan cabinet) false earlier s₁ =
        (.ok changed, s₂))
      (other : member.path ≠ path)
      (throws : signMember env lib workspace callback plan cabinet changed member s₂ = (.error e, s₃))
  | cabinet {first rest : List Cabinet} {cabinet : Cabinet} {s₁ s₂ : Rewrite}
      (cabinets : plan.cabinets = first ++ cabinet :: rest)
      (before : foldItems (signCabinet env lib workspace callback plan) () first start = (.ok (), s₁))
      (turns : foldItems (signMember env lib workspace callback plan cabinet) false cabinet.members s₁ =
        (.ok true, s₂))
      (signed : ∃ member ∈ cabinet.members, member.path ≠ path ∧ SignedAt s₂.events member.path)
      (fails : PackFails lib (cabinet.path.append (ascii ".rebuilt")) s₂.world cabinet.members e)
  | binary {first rest : List (Bytes × Path)} {binary : Bytes × Path} {s₁ s₂ s₃ : Rewrite}
      (binaries : plan.binaries = first ++ binary :: rest)
      (cabinets : foldItems (signCabinet env lib workspace callback plan) () plan.cabinets start =
        (.ok (), s₁))
      (before : foldItems (signBinary env workspace callback) () first s₁ = (.ok (), s₂))
      (other : binary.2 ≠ path)
      (throws : signBinary env workspace callback () binary s₂ = (.error e, s₃))

section Exceptions

variable {R : Bytes → Bool → Bytes → Prop} {env : Env} {lib : MsiLibrary} {c : MsiContents}
  {callback : Callback} {plan : Plan} {workspace : Nat} {start s s' : Rewrite} {path : Path}
  {file : Bytes} {e : Exn}

theorem Spares.of_run {α : Type} {m : Rewriting α} {outcome : Except Exn α}
    (h : Moves (Spares path file) m) (hrun : m s = (outcome, s')) : Spares path file s s' := by
  have hspares := moves_iff.mp h s
  rwa [hrun] at hspares

/-- A turn with nothing to do behind the look throws if the outside fails only. -/
theorem Passes.fails_outside {α : Type} {container : MsiStream} {name : Bytes}
    {rest : Bool → Rewriting α} (h : Passes env callback workspace container path name s)
    (hrun : (sign env workspace callback container path name >>= rest) s = (.error e, s'))
    (hrest : ∀ s, Ends (rest false) s (fun _ _ => True) fun _ _ => False) : env.FailsWith e := by
  have hends : Ends (sign env workspace callback container path name >>= rest) s
      (fun _ _ => True) fun e _ => env.FailsWith e := by
    rw [ends_bind]
    refine Ends.mono h ?_ ?_
    · rintro _ s' ⟨rfl, -⟩
      exact (hrest s').mono (fun _ _ => id) fun _ _ => False.elim
    · exact fun _ _ hthrows => ⟨_, hthrows.2⟩
  exact hends.of_error hrun

/-- A payload that no step acts on is not signed. -/
theorem Spares.not_signedAt (h : Spares path file start s)
    (hfile : start.world.files path = some file) (hstart : ¬ SignedAt start.events path) :
    ¬ SignedAt s.events path := by
  obtain ⟨-, events, hevents, hacts⟩ := h hfile
  rintro ⟨container, left, hmem⟩
  rw [hevents] at hmem
  rcases List.mem_append.mp hmem with hold | hnew
  · exact hstart ⟨container, left, hold⟩
  · exact hacts _ hnew rfl

/-- A cabinet in which a payload was signed is rebuilt, unless the outside or the library fails. -/
theorem AmongMembers.rebuilds {before : List Path} {cabinet : Cabinet}
    (hsigning : SigningOf R callback plan workspace start) (hcabinet : cabinet ∈ plan.cabinets)
    (h : AmongMembers R lib c plan start before cabinet cabinet.members true s) :
    Ends (rebuildCabinet env lib workspace cabinet) s (fun _ _ => True) fun e _ =>
      env.FailsWith e ∨
        PackFails lib (cabinet.path.append (ascii ".rebuilt")) s.world cabinet.members e := by
  have hmade : ∀ member ∈ cabinet.members, ∃ data, s.world.files member.path = some data := by
    intro member hmember
    obtain ⟨_, after, _, hturn⟩ :=
      h.passing.passed _ (List.mem_append_right _ (List.mem_map_of_mem hmember))
    exact ⟨after, hturn.holds⟩
  apply rebuildCabinet_outside
  · -- The output is in the directory of the payloads, of which there is one.
    obtain ⟨member, hmember, -⟩ := h.changed.mp rfl
    obtain ⟨data, hdata⟩ := hmade member hmember
    obtain ⟨i, hi⟩ := hsigning.numbered.cabinets cabinet hcabinet
    obtain ⟨-, n, -, hn⟩ := hsigning.numbered.members cabinet hcabinet member hmember
    have hholds := World.holds_of_file hdata
    rw [hn] at hholds
    rw [hi]
    exact hholds
  · intro member hmember
    refine ⟨(hsigning.numbered.members cabinet hcabinet member hmember).1, ?_, hmade member hmember⟩
    exact hsigning.numbered.rebuilt_ne hcabinet _
      (Plan.member_path (Plan.mem_members hcabinet hmember))

theorem signCabinets_fails (hsigning : SigningOf R callback plan workspace start)
    (hbetween : Between R lib c plan start [] start) (hpath : path ∈ plan.paths)
    (hfile : start.world.files path = some file) (hcandidate : peCandidate file = false)
    (hrun : foldItems (signCabinet env lib workspace callback plan) () plan.cabinets start =
      (.error e, s')) :
    FailsElsewhere env lib workspace callback plan path start e := by
  have hconfined := hsigning.honest.confined
  obtain ⟨first, cabinet, rest, _, s₁, hcabinets, hbefore, hthrows⟩ := foldItems_raises hrun
  have hmem : ∀ other ∈ first ++ [cabinet], other ∈ plan.cabinets := by
    intro other hother
    rw [hcabinets]
    rcases List.mem_append.mp hother with hfirst | hlast
    · exact List.mem_append_left _ hfirst
    · rw [List.mem_singleton.mp hlast]
      simp
  have hcabinet := hmem cabinet (by simp)
  have hspares₁ : Spares path file start s₁ := Spares.of_run (moves_foldItems_of_mem
    (fun _ other hother => spares_signCabinet hconfined hcandidate
      (hsigning.numbered.rebuilt_ne (hmem other (by simp [hother])) path hpath)) ()) hbefore
  rw [signCabinet] at hthrows
  rcases bind_raises hthrows with hmembers | ⟨changed, s₂, hmembers, hrebuild⟩
  · -- The turn of a member throws.
    obtain ⟨earlier, member, later, changed, s₂, hsplit, hturns, hmember⟩ := foldItems_raises hmembers
    by_cases hother : member.path = path
    · have hspares₂ : Spares path file s₁ s₂ :=
        Spares.of_run (moves_foldItems (spares_signMember hconfined hcandidate) _ _) hturns
      have hheld : s₂.world.files member.path = some file :=
        hother ▸ (hspares₂ (hspares₁ hfile).1).1
      exact .outside
        ((passes_of_not_candidate hheld hcandidate).fails_outside hmember fun _ => trivial)
    · exact .member hcabinets hsplit hbefore hturns hother hmember
  · cases changed with
    | false => cases hrebuild
    | true =>
        have hbetween₁ := (signCabinets_settle hsigning hcabinets hbetween).of_ok hbefore
        have hnodup := hsigning.distinct.paths
        rw [Plan.paths] at hnodup
        replace hnodup := (List.nodup_append.mp hnodup).1
        rw [Plan.members, hcabinets, List.flatMap_append, List.flatMap_cons, ← List.append_assoc,
          List.map_append, List.map_append] at hnodup
        have hamong := (signMembers_settle hsigning hcabinet (List.nodup_append.mp hnodup).1
          hbetween₁).of_ok hmembers
        rcases (hamong.rebuilds hsigning hcabinet).of_error hrebuild with hfails | hfails
        · exact .outside hfails
        · refine .cabinet hcabinets hbefore hmembers ?_ hfails
          obtain ⟨member, hmember, hsigned⟩ := hamong.changed.mp rfl
          refine ⟨member, hmember, ?_, hsigned⟩
          rintro rfl
          have hspares₂ : Spares member.path file s₁ s₂ :=
            Spares.of_run (moves_foldItems (spares_signMember hconfined hcandidate) _ _) hmembers
          have hahead := hbetween.passing.ahead member.path hpath List.not_mem_nil
          exact (trans_of (Spares member.path file) hspares₁ hspares₂).not_signedAt hfile
            hahead.not_signedAt hsigned

/-- A signing that throws does so elsewhere. -/
theorem signPayloads_fails (hsigning : SigningOf R callback plan workspace start)
    (hbetween : Between R lib c plan start [] start) (hpath : path ∈ plan.paths)
    (hfile : start.world.files path = some file) (hcandidate : peCandidate file = false)
    (hrun : signPayloads env lib workspace callback plan start = (.error e, s')) :
    FailsElsewhere env lib workspace callback plan path start e := by
  have hconfined := hsigning.honest.confined
  rw [signPayloads] at hrun
  rcases bind_raises hrun with hcabinets | ⟨_, s₁, hcabinets, hbinaries⟩
  · exact signCabinets_fails hsigning hbetween hpath hfile hcandidate hcabinets
  · obtain ⟨first, binary, rest, _, s₂, hsplit, hbefore, hthrows⟩ := foldItems_raises hbinaries
    by_cases hother : binary.2 = path
    · have hspares₁ : Spares path file start s₁ := Spares.of_run (moves_foldItems_of_mem
        (fun _ cabinet hcabinet => spares_signCabinet hconfined hcandidate
          (hsigning.numbered.rebuilt_ne hcabinet path hpath)) ()) hcabinets
      have hspares₂ : Spares path file s₁ s₂ := Spares.of_run
        (moves_foldItems (fun _ => spares_signBinary hconfined hcandidate) _ _) hbefore
      have hheld : s₂.world.files binary.2 = some file := hother ▸ (hspares₂ (hspares₁ hfile).1).1
      exact .outside
        ((passes_of_not_candidate hheld hcandidate).fails_outside hthrows fun _ => trivial)
    · exact .binary hsplit hcabinets hbefore hother hthrows

end Exceptions

/-! ## A whole rewriting -/

/-- A rewriting that returned has passed over the payload that holds these bytes: no step was
about it, and the installer is as it was, or one with the payload as it was. -/
structure PassedOver (lib : MsiLibrary) (staged : Path) (w : World) (plan : Plan) (path : Path)
    (file : Bytes) (result : MsiRewriteResult) (s : Rewrite) : Prop where
  silent : ∀ event ∈ s.events, ¬ event.ActsOn path
  kept : result.signedFiles = 0 → s.world.files staged = w.files staged
  held : result.signedFiles ≠ 0 → ∃ c data, s.world.files staged = some (lib.storeMsi c) ∧
    c.Holds lib plan data ∧ data path = file

/-- A rewriting that threw has not done so because of the payload, and the installer is as it
was. -/
structure FailedElsewhere (env : Env) (lib : MsiLibrary) (staged : Path) (w : World)
    (callback : Callback) (plan : Plan) (path : Path) (start : Rewrite) (e : Exn) (s : Rewrite) :
    Prop where
  silent : ∀ event ∈ s.events, ¬ event.ActsOn path
  kept : s.world.files staged = w.files staged
  elsewhere : FailsElsewhere env lib w.nextDir callback plan path start e

section Rewriting

variable {R : Bytes → Bool → Bytes → Prop} {env : Env} {lib : MsiLibrary} {callback : Callback}
  {plan : Plan} {workspace : Nat} {start s : Rewrite} {path staged : Path} {file : Bytes} {w : World}

theorem raises_finish : Raises env.FailsWith (finish env lib workspace staged) := by
  have hattempt : Raises env.FailsWith (attempt env) := fun w =>
    ends_attempt_outside (w := w) trivial
  have hrenew : Raises env.FailsWith (renewPackageCode env lib workspace) :=
    (hattempt.within _ _).bind fun _ => (raises_change _).bind fun _ => raises_change _
  have hcommit : Raises env.FailsWith (commit env lib workspace staged) :=
    raises_current.bind fun _ =>
      ((hattempt.bind fun _ => raises_change _).within _ _).bind fun _ => raises_change _
  exact raises_current.bind fun _ =>
    raises_ite (hrenew.bind fun _ => hcommit.bind fun _ => raises_pure _) (raises_pure _)

theorem Spares.silent (h : Spares path file start s) (hfile : start.world.files path = some file)
    (hstart : ∀ event ∈ start.events, ¬ event.ActsOn path) :
    ∀ event ∈ s.events, ¬ event.ActsOn path := by
  obtain ⟨-, events, hevents, hacts⟩ := h hfile
  rw [hevents]
  intro event hevent
  rcases List.mem_append.mp hevent with hold | hnew
  · exact hstart event hold
  · exact hacts event hnew

/-- No step of the run is about the payload, and an exception comes from elsewhere. -/
theorem rewriteMsiPayload_silent (hcallback : callback.Honest)
    (hpreflight : preflightRun env lib staged w = (.ok plan, start)) (hpath : path ∈ plan.paths)
    (hfile : start.world.files path = some file) (hcandidate : peCandidate file = false) :
    Ends (rewriteMsiPayload env lib staged callback) (.start w)
      (fun _ s => ∀ event ∈ s.events, ¬ event.ActsOn path)
      fun e s => (∀ event ∈ s.events, ¬ event.ActsOn path) ∧
        FailsElsewhere env lib w.nextDir callback plan path start e := by
  have hready := preflightRun_ready hpreflight
  have hquiet : ∀ event ∈ start.events, ¬ event.ActsOn path := fun event hevent =>
    (hready.quiet event hevent).not_actsOn path
  have hsigning := hready.signing hcallback answers_true
  obtain ⟨_, s₀, hopen, hplan⟩ := bind_returns hpreflight
  -- The staging files are in the directory of the run, the package is not.
  have hstaged : path ≠ staged := by
    rintro rfl
    obtain ⟨n, -, hn⟩ := hready.payloads.number_lt (List.mem_append.mp hpath)
    exact World.not_in_nextDir hready.held (hn ▸ payloadPath_in w.nextDir n)
  rw [rewriteMsiPayload, ends_bind, ends_onWorld]
  apply (ends_attempt_outside ?_).mono (fun _ _ => id)
  · exact fun _ _ hfails => ⟨by simp [Rewrite.events, Rewrite.start], .outside hfails⟩
  rw [ends_bind, ends_current, ends_bind, ends_onWorld, ends_change, ends_cleanly, rewriteIn, ends_bind]
  apply ends_of_run hopen
  rw [ends_bind]
  apply ends_of_run hplan
  rw [ends_bind]
  have hspares : Moves (Spares path file) (signPayloads env lib w.nextDir callback plan) :=
    spares_signPayloads hcallback.confined hcandidate fun _ hcabinet =>
      hsigning.numbered.rebuilt_ne hcabinet path hpath
  apply ((hspares.ends start).and ends_run).mono
  · rintro _ s₁ ⟨h₁, -⟩
    apply ((spares_finish hstaged).ends s₁ |>.and (raises_finish s₁)).mono
    · rintro _ s₂ ⟨h₂, -⟩
      exact (trans_of (Spares path file) h₁ h₂).silent hfile hquiet
    · rintro e s₂ ⟨h₂, hfails⟩
      exact ⟨(trans_of (Spares path file) h₁ h₂).silent hfile hquiet, .outside hfails⟩
  · rintro e s₁ ⟨h₁, hrun⟩
    exact ⟨h₁.silent hfile hquiet,
      signPayloads_fails hsigning hready.between hpath hfile hcandidate hrun⟩

/-- A rewriting passes over a payload that is no candidate, or fails elsewhere. -/
theorem rewriteMsiPayload_spares (hcallback : callback.Honest) (hlib : lib.Inverse)
    (hpreflight : preflightRun env lib staged w = (.ok plan, start)) (hpath : path ∈ plan.paths)
    (hfile : start.world.files path = some file) (hcandidate : peCandidate file = false) :
    Ends (rewriteMsiPayload env lib staged callback) (.start w)
      (fun result s => PassedOver lib staged w plan path file result s)
      fun e s => FailedElsewhere env lib staged w callback plan path start e s := by
  apply ((rewriteMsiPayload_silent hcallback hpreflight hpath hfile hcandidate).and
    ((rewriteMsiPayload_rewrites hcallback answers_true).and
      (rewriteMsiPayload_disciplined env lib staged callback w))).mono
  swap
  · rintro e s ⟨⟨hsilent, helsewhere⟩, -, -, hkept⟩
    exact ⟨hsilent, hkept hcallback.confined, helsewhere⟩
  rintro result s ⟨hsilent, ⟨plan', r, s₁, s₂, h⟩, -, -, hkept⟩
  refine ⟨hsilent, hkept hcallback.confined, fun hsigned => ?_⟩
  obtain ⟨rfl, rfl⟩ : plan' = plan ∧ s₁ = start := by
    have hsame := h.preflight.symm.trans hpreflight
    obtain ⟨hplans, hstates⟩ := Prod.mk.inj hsame
    exact ⟨Except.ok.inj hplans, hstates⟩
  rw [h.result] at hsigned
  obtain ⟨code, hstored, -⟩ := h.signed hsigned
  have hcommitted := h.settled.committed hlib code
  refine ⟨_, s₂.world.data, hstored, hcommitted.holds, ?_⟩
  obtain ⟨signed, hturn⟩ := h.settled.passing.turn hpath
  have hbefore : s₁.world.data path = file := World.data_of hfile
  have hnot : ¬ SignedAt s₂.events path := by
    rw [hturn.signedAt_iff]
    intro htrue
    have hsigns := hturn.candidate htrue
    rw [hbefore, hcandidate] at hsigns
    cases hsigns
  exact (hcommitted.others path hpath hnot).trans hbefore

end Rewriting

end AasSign
