import AasSign.Msi.Budget
import AasSign.Msi.Revision

/-! # The steps of the signing

What each step of the signing phase leaves behind when it returns: the payload it
was about, the database, the counters and the log.
-/

namespace AasSign

open Foundation Program

/-- What the callback makes of a payload, and what it answers. -/
def Callback.Answers (callback : Callback) (R : Bytes → Bool → Bytes → Prop) : Prop :=
  ∀ path name w before, w.files path = some before → Ends (callback path name) w
    (fun signed w' => ∀ after, w'.files path = some after → R before signed after)
    fun _ _ => True

/-- The turn of one payload. -/
structure Visit (R : Bytes → Bool → Bytes → Prop) (container : MsiStream) (path : Path)
    (before after : Bytes) (signed : Bool) (s s' : Rewrite) : Prop where
  held : s.world.files path = some before
  holds : s'.world.files path = some after
  unsigned : signed = false → after = before
  candidate : signed = true → peCandidate before = true
  answer : peCandidate before = true → R before signed after
  db : s'.db = s.db
  made : s.world.nextDir ≤ s'.world.nextDir
  others : ∀ other, s.world.Holds other → other ≠ path →
    s'.world.files other = s.world.files other
  events : ∃ events, s'.events = s.events ++ events ∧
    (∀ container' path' returned left, .returned container' path' returned left ∈ events →
      path' = path ∧ returned = signed ∧ left = some after) ∧
    (signed = true → .returned container path true (some after) ∈ events)
  signedFiles : s'.signedFiles = s.signedFiles + if signed then 1 else 0
  preservedFiles : s'.preservedFiles = s.preservedFiles +
    if peCandidate before = true ∧ signed = false then 1 else 0
  count : s'.count = s.count
  expanded : s'.expanded + before.length = s.expanded + after.length
  limit : s.expanded ≤ expansionLimit → s'.expanded ≤ expansionLimit

section Steps

variable {env : Env} {lib : MsiLibrary} {workspace : Nat} {callback : Callback} {plan : Plan}
  {R : Bytes → Bool → Bytes → Prop} {s : Rewrite}

theorem answers_true : callback.Answers fun _ _ _ => True :=
  fun _ _ _ _ _ => ends_of_forall (fun _ _ _ _ => trivial) fun _ _ => trivial

theorem sign_visits {container : MsiStream} {path : Path} {name : Bytes}
    (hcallback : callback.Honest) (hanswers : callback.Answers R) :
    Ends (sign env workspace callback container path name) s
      (fun signed s' => ∃ before after, Visit R container path before after signed s s')
      fun _ _ => True := by
  rw [sign, ends_bind, ends_onWorld]
  apply ends_readFile
  swap
  · exact fun _ => trivial
  intro before hbefore
  split
  swap
  · next hcandidate =>
    refine ⟨before, before, hbefore, hbefore, fun _ => rfl, by simp, fun h => absurd h hcandidate,
      rfl, le_rfl, fun _ _ _ => rfl, ⟨[], (List.append_nil _).symm, by simp, by simp⟩, rfl, ?_, rfl,
      rfl, id⟩
    rw [if_neg fun h => hcandidate h.1]
    rfl
  next hcandidate =>
  rw [ends_bind, ends_onWorld]
  apply ends_readFile
  swap
  · exact fun _ => trivial
  intro again hagain
  -- Both reads are of the same file, so the callback gets what made it a candidate.
  obtain rfl : before = again := Option.some.inj (hbefore.symm.trans hagain)
  rw [ends_bind, ends_note, ends_bind, ends_onWorld]
  apply (((hcallback.confined path name).ends s.world.tick.tick).and
    ((hcallback.unchanged path name s.world.tick.tick).and
      (hanswers path name s.world.tick.tick before hbefore))).mono
  swap
  · exact fun _ _ _ => trivial
  rintro signed w ⟨hframe, hunchanged, hanswer⟩
  have hothers (other : Path) (hholds : s.world.Holds other) (hother : other ≠ path) :
      w.files other = s.world.files other := hframe.files other hholds hother
  rw [noteReturned, ends_bind, ends_bind, ends_current, ends_note]
  cases signed with
  | false =>
      have hsame : w.files path = some before := (hunchanged rfl).trans hbefore
      rw [if_neg (by simp), ends_bind, ends_change, ends_pure]
      refine ⟨before, before, hbefore, hsame, fun _ => rfl, by simp, fun _ => hanswer before hsame,
        rfl, hframe.nextDir, hothers, ⟨[.called container path name,
          .returned container path false (some before)], ?_, by simp, by simp⟩, rfl, ?_, rfl, rfl, id⟩
      · simp [Rewrite.events, Rewrite.noted, hsame]
      · rw [if_pos ⟨hcandidate, rfl⟩]
        rfl
  | true =>
      rw [if_pos rfl, ends_bind, ends_onWorld]
      apply ends_readFile
      swap
      · exact fun _ => trivial
      intro after hafter
      rw [ends_bind, ends_current, ends_bind]
      apply ends_lift_of
      swap
      · exact fun _ => trivial
      intro others hothersRoom
      rw [ends_bind]
      apply ends_lift_of
      swap
      · exact fun _ => trivial
      intro room hroom
      rw [ends_bind]
      apply ends_lift_of
      swap
      · exact fun _ => trivial
      intro _ hfits
      rw [ends_bind, ends_change, ends_bind, ends_note, ends_pure]
      obtain ⟨hle, rfl⟩ := usub_eq_ok.mp hothersRoom
      obtain ⟨hroomLe, rfl⟩ := usub_eq_ok.mp hroom
      have hfits : ¬ _ < after.length := throwIf_eq_ok.mp hfits
      refine ⟨before, after, hbefore, hafter, by simp, fun _ => hcandidate,
        fun _ => hanswer after hafter, rfl, hframe.nextDir, hothers, ⟨[.called container path name,
          .returned container path true (some after), .accounted path], ?_, by simp, by simp⟩,
        rfl, ?_, rfl, ?_, fun _ => ?_⟩
      · simp [Rewrite.events, Rewrite.noted, show w.files path = some after from hafter]
      · rw [if_neg (by simp)]
        rfl
      · change s.expanded - before.length + after.length + before.length = _
        have hle : before.length ≤ s.expanded := hle
        omega
      · change s.expanded - before.length + after.length ≤ expansionLimit
        have hfits : ¬ expansionLimit - (s.expanded - before.length) < after.length := hfits
        have hroomLe : s.expanded - before.length ≤ expansionLimit := hroomLe
        omega

end Steps

/-! ## Updates -/

/-- No callback is called; files, counters and the log are kept, apart from the files
that may change and from new lines of the log. -/
structure Keeps (may : Path → Prop) (s s' : Rewrite) : Prop where
  files : ∀ path, s.world.Holds path → ¬ may path → s'.world.files path = s.world.files path
  made : s.world.nextDir ≤ s'.world.nextDir
  count : s'.count = s.count
  expanded : s'.expanded = s.expanded
  signedFiles : s'.signedFiles = s.signedFiles
  preservedFiles : s'.preservedFiles = s.preservedFiles
  events : ∃ events, s'.events = s.events ++ events ∧ ∀ event ∈ events, ¬ event.IsReturn

section Updates

variable {env : Env} {lib : MsiLibrary} {workspace : Nat} {plan : Plan} {c : MsiContents}
  {r : Revision} {s s' s'' : Rewrite} {may : Path → Prop}

theorem Keeps.refl : Keeps may s s :=
  ⟨fun _ _ _ => rfl, le_rfl, rfl, rfl, rfl, rfl, [], (List.append_nil _).symm, by simp⟩

theorem Keeps.trans (h : Keeps may s s') (h' : Keeps may s' s'') : Keeps may s s'' := by
  obtain ⟨events, hevents, hreturns⟩ := h.events
  obtain ⟨events', hevents', hreturns'⟩ := h'.events
  refine ⟨fun path hholds hmay => ?_, h.made.trans h'.made, h'.count.trans h.count,
    h'.expanded.trans h.expanded, h'.signedFiles.trans h.signedFiles,
    h'.preservedFiles.trans h.preservedFiles, events ++ events', ?_, ?_⟩
  · rw [h'.files path (hholds.mono h.made) hmay, h.files path hholds hmay]
  · rw [hevents', hevents, List.append_assoc]
  · exact List.forall_mem_append.mpr ⟨hreturns, hreturns'⟩

theorem Keeps.withWorld {w : World} {emits : Event → Prop} (h : Frame may emits s.world w) :
    Keeps may s { s with world := w } :=
  ⟨h.files, h.nextDir, rfl, rfl, rfl, rfl, [], (List.append_nil _).symm, by simp⟩

theorem Keeps.ticked : Keeps may s { s with world := s.world.tick } :=
  ⟨fun _ _ _ => rfl, le_rfl, rfl, rfl, rfl, rfl, [], (List.append_nil _).symm, by simp⟩

/-- An update of a revised database is one more revision. -/
theorem ends_execute_revise {update : MsiUpdate} {Q : Unit → Rewrite → Prop}
    (hdb : s.db = c.revise r) (hQ : ∀ s', s'.db = c.revise (r.update update) → (∀ may, Keeps may s s') →
      (∀ path, s'.world.files path = s.world.files path) → Q () s') :
    Ends (execute env workspace update) s Q fun _ _ => True := by
  apply ends_execute
  swap
  · exact fun _ => trivial
  apply hQ
  · rw [db_noted, hdb]
    exact MsiContents.apply_revise update
  · refine fun may => ⟨fun _ _ _ => rfl, le_rfl, rfl, rfl, rfl, rfl, [.updated update], ?_,
      by simp [MsiEvent.IsReturn]⟩
    exact events_noted workspace _ _
  · exact fun _ => rfl

/-- The rows of a signed member, brought up to date. -/
def Revision.withMember (r : Revision) (lib : MsiLibrary) (plan : Plan) (member : CabinetMember)
    (data : Bytes) : Revision :=
  if member.name ∈ plan.hashRows ∧ plan.version member.name = some [] then
    (r.update (.fileSize data.length member.name)).update
      (.fileHash (msiFileHash lib data) member.name)
  else r.update (.fileSize data.length member.name)

theorem updateMember_revises {member : CabinetMember} {data : Bytes} (hdb : s.db = c.revise r)
    (hdata : s.world.files member.path = some data) :
    Ends (updateMember env lib workspace plan member) s
      (fun _ s' => s'.db = c.revise (r.withMember lib plan member data) ∧
        Keeps (fun _ => False) s s' ∧ data.length < 2 ^ 31)
      fun _ _ => True := by
  rw [updateMember, ends_bind, ends_onWorld]
  apply ends_readFile
  swap
  · exact fun _ => trivial
  intro file hfile
  obtain rfl : data = file := Option.some.inj (hdata.symm.trans hfile)
  rw [ends_bind]
  apply ends_lift_of
  swap
  · exact fun _ => trivial
  intro _ hfits
  have hfits : ¬ 2 ^ 31 - 1 < data.length := throwIf_eq_ok.mp hfits
  rw [ends_bind]
  refine ends_execute_revise (by exact hdb) ?_
  intro s₁ hdb₁ hkeeps₁ hfiles₁
  unfold Revision.withMember
  split
  · rw [ends_bind, ends_onWorld]
    apply ends_readFile
    swap
    · exact fun _ => trivial
    intro again hagain
    rw [hfiles₁] at hagain
    obtain rfl : data = again := Option.some.inj (hdata.symm.trans hagain)
    refine ends_execute_revise (by exact hdb₁) ?_
    intro s₂ hdb₂ hkeeps₂ _
    exact ⟨hdb₂, ((Keeps.ticked.trans (hkeeps₁ _)).trans .ticked).trans (hkeeps₂ _), by omega⟩
  · exact ⟨hdb₁, Keeps.ticked.trans (hkeeps₁ _), by omega⟩

/-! ## Rebuilt cabinets -/

/-- The cabinet was built from the members' files, and their words were put back. -/
structure Rebuilt (lib : MsiLibrary) (w : World) (members : List CabinetMember)
    (cabinet : Bytes) : Prop where
  built : ∃ raw finish, lib.pack (members.map (packed w)) = .ok raw ∧ MetadataOnly raw cabinet ∧
    u16 raw 28 = members.length ∧ raw.take 4 = cabinetMagic ∧
    FileTable cabinet (u32 raw 16) (members.map (CabinetMember.rebuilt w)) finish
  made : ∀ member ∈ members, ∃ data, w.files member.path = some data

theorem Rebuilt.congr {w w' : World} {members : List CabinetMember} {cabinet : Bytes}
    (h : Rebuilt lib w members cabinet)
    (hfiles : ∀ member ∈ members, w'.files member.path = w.files member.path) :
    Rebuilt lib w' members cabinet := by
  obtain ⟨raw, finish, hpack, hpatched, hcount, hmagic, htable⟩ := h.built
  have hpacked : members.map (packed w') = members.map (packed w) := by
    apply List.map_congr_left
    intro member hmember
    rw [packed, hfiles member hmember, packed]
  have hrebuilt : members.map (CabinetMember.rebuilt w') =
      members.map (CabinetMember.rebuilt w) := by
    apply List.map_congr_left
    intro member hmember
    rw [CabinetMember.rebuilt, fileSize_congr (hfiles member hmember), CabinetMember.rebuilt]
  refine ⟨⟨raw, finish, hpacked ▸ hpack, hpatched, hcount, hmagic, hrebuilt ▸ htable⟩, ?_⟩
  intro member hmember
  rw [hfiles member hmember]
  exact h.made member hmember

theorem rebuildCabinet_revises {cabinet : Cabinet} (hdb : s.db = c.revise r)
    (hfits : ∀ member ∈ cabinet.members, member.Fits)
    (hpaths : ∀ member ∈ cabinet.members, s.world.Holds member.path ∧
      member.path ≠ cabinet.path.append (ascii ".rebuilt")) :
    Ends (rebuildCabinet env lib workspace cabinet) s
      (fun _ s' => ∃ raw, Rebuilt lib s.world cabinet.members raw ∧
        s'.db = c.revise (r.update (.stream raw cabinet.name)) ∧
        Keeps (· = cabinet.path.append (ascii ".rebuilt")) s s')
      fun _ _ => True := by
  rw [rebuildCabinet, ends_bind, ends_onWorld]
  have hcreate : Moves (Frame (· = cabinet.path.append (ascii ".rebuilt")) fun _ => True)
      (createCabinet env lib (cabinet.path.append (ascii ".rebuilt")) cabinet.members) :=
    moves_createCabinet rfl
  apply (createCabinet_ends.and (hcreate.ends s.world)).mono
  swap
  · exact fun _ _ _ => trivial
  rintro _ w ⟨⟨⟨raw, hpack, hraw⟩, hmade⟩, hframe⟩
  -- The output is none of the members, so it is packed from what the callbacks left.
  have hsame (member : CabinetMember) (hmember : member ∈ cabinet.members) :
      w.files member.path = s.world.files member.path :=
    hframe.files _ (hpaths member hmember).1 (hpaths member hmember).2
  rw [ends_bind, ends_onWorld]
  have hpreserve : Moves (Frame (· = cabinet.path.append (ascii ".rebuilt")) fun _ => True)
      (preserveCabinetMetadata env (cabinet.path.append (ascii ".rebuilt")) cabinet.members) :=
    moves_preserveCabinetMetadata rfl
  apply ((preserveCabinetMetadata_ends hfits).and (hpreserve.ends w)).mono
  · rintro _ w' ⟨⟨raw', file, finish, hpreserved⟩, hframe'⟩
    obtain rfl : raw = raw' := Option.some.inj (hraw.symm.trans hpreserved.before)
    rw [ends_bind, ends_onWorld]
    apply ends_readFile
    swap
    · exact fun _ => trivial
    intro data hdata
    obtain rfl : file = data := Option.some.inj (hpreserved.after.symm.trans hdata)
    refine ends_execute_revise (by exact hdb) ?_
    intro s₁ hdb₁ hkeeps _
    have hbuilt : Rebuilt lib w cabinet.members file := by
      refine ⟨⟨raw, finish, ?_, hpreserved.patched, hpreserved.count, hpreserved.magic,
        hpreserved.table⟩, fun member hmember => ?_⟩
      · rw [← hpack]
        congr 1
        apply List.map_congr_left
        intro member hmember
        rw [packed, hsame member hmember, packed]
      · rw [hsame member hmember]
        exact hmade member hmember
    refine ⟨file, hbuilt.congr fun member hmember => (hsame member hmember).symm, hdb₁, ?_⟩
    have hread : Frame (· = cabinet.path.append (ascii ".rebuilt")) (fun _ => True) s.world
        w'.tick := (trans_of (Frame _ _) hframe hframe').tick
    exact (Keeps.withWorld hread).trans (hkeeps _)
  · exact fun _ _ _ => trivial

end Updates

end AasSign
