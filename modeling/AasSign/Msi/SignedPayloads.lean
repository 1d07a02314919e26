import AasSign.Msi.Consistent

/-! # All payloads

The loops of the signing phase: between two turns the database follows the
payloads, and at the end every payload had its turn.
-/

namespace AasSign

open Foundation Program

theorem Keeps.sameAt {may : Path → Prop} {s s' : Rewrite} {path : Path} (h : Keeps may s s')
    (hholds : s.world.Holds path) (hmay : ¬ may path) : SameAt s s' path :=
  ⟨h.signedAt_iff, h.files path hholds hmay⟩

/-- Between two cabinets, or two streams. -/
structure Between (R : Bytes → Bool → Bytes → Prop) (lib : MsiLibrary) (c : MsiContents)
    (plan : Plan) (start : Rewrite) (done : List Path) (s : Rewrite) : Prop where
  passing : Passing R start plan.paths done s
  revised : ∃ r, Revised lib c plan (fun _ => False) r s

/-- Between two members of a cabinet. -/
structure AmongMembers (R : Bytes → Bool → Bytes → Prop) (lib : MsiLibrary) (c : MsiContents)
    (plan : Plan) (start : Rewrite) (before : List Path) (cabinet : Cabinet)
    (members : List CabinetMember) (changed : Bool) (s : Rewrite) : Prop where
  passing : Passing R start plan.paths (before ++ members.map CabinetMember.path) s
  revised : ∃ r, Revised lib c plan (· = cabinet) r s ∧ r.streams cabinet.name = none
  changed : changed = true ↔ ∃ member ∈ members, SignedAt s.events member.path

/-- What the signing relies on: the callback, and the staging files of the plan. -/
structure SigningOf (R : Bytes → Bool → Bytes → Prop) (callback : Callback) (plan : Plan)
    (workspace : Nat) (start : Rewrite) : Prop where
  honest : callback.Honest
  answers : callback.Answers R
  distinct : plan.Distinct
  numbered : plan.Numbered workspace start.count
  held : ∀ path ∈ plan.paths, start.world.Holds path

section Loops

variable {R : Bytes → Bool → Bytes → Prop} {env : Env} {lib : MsiLibrary} {c : MsiContents}
  {callback : Callback} {plan : Plan} {workspace : Nat} {start s : Rewrite} {before : List Path}
  {cabinet : Cabinet} {members : List CabinetMember} {member : CabinetMember} {changed : Bool}
  {binary : Bytes × Path}

theorem signMember_settles (hsigning : SigningOf R callback plan workspace start)
    (hcabinet : cabinet ∈ plan.cabinets) (hmembers : members ⊆ cabinet.members)
    (hmember : member ∈ cabinet.members)
    (hnew : member.path ∉ before ++ members.map CabinetMember.path)
    (h : AmongMembers R lib c plan start before cabinet members changed s) :
    Ends (signMember env lib workspace callback plan cabinet changed member) s
      (fun changed' s' =>
        AmongMembers R lib c plan start before cabinet (members ++ [member]) changed' s')
      fun _ _ => True := by
  have hpath : member.path ∈ plan.paths := Plan.member_path (Plan.mem_members hcabinet hmember)
  have hahead := h.passing.ahead member.path hpath hnew
  obtain ⟨r, hrevised, hstream⟩ := h.revised
  rw [signMember, ends_bind]
  apply (sign_visits hsigning.honest hsigning.answers).mono
  swap
  · exact fun _ _ _ => trivial
  rintro signed s₁ ⟨old, new, hvisit⟩
  have hturn := hvisit.turn hahead
  have hpassing := hvisit.passing hsigning.distinct.paths hsigning.held hpath hnew h.passing
  rw [List.append_assoc] at hpassing
  have hheld {s' : Rewrite} (hmade : start.world.nextDir ≤ s'.world.nextDir) {path : Path}
      (hpath : path ∈ plan.paths) : s'.world.Holds path := (hsigning.held path hpath).mono hmade
  -- The turn of one payload leaves the other ones as they are.
  have hothers : ∀ path ∈ plan.paths, path ≠ member.path → SameAt s s₁ path := fun path hmem hne =>
    ⟨hvisit.signedAt_iff hne, hvisit.others path (hheld h.passing.made hmem) hne⟩
  cases signed with
  | false =>
      have hsame : ∀ path ∈ plan.paths, SameAt s s₁ path := by
        intro path hmem
        by_cases hne : path = member.path
        · subst hne
          refine ⟨iff_of_false ?_ hahead.not_signedAt, ?_⟩
          · rw [hturn.signedAt_iff]
            exact Bool.false_ne_true
          · rw [hvisit.holds, hvisit.held, hvisit.unsigned rfl]
        · exact hothers path hmem hne
      refine ⟨by simpa using hpassing, ⟨r, hrevised.congr hvisit.db hsame, hstream⟩, ?_⟩
      rw [h.changed]
      simp only [List.mem_append, List.mem_singleton]
      constructor
      · rintro ⟨other, hother, hsigned⟩
        have hmem := Plan.mem_members hcabinet (hmembers hother)
        exact ⟨other, .inl hother, (hsame _ (Plan.member_path hmem)).signedAt.mpr hsigned⟩
      · rintro ⟨other, hother, hsigned⟩
        rcases hother with hother | hother
        · have hmem := Plan.mem_members hcabinet (hmembers hother)
          exact ⟨other, hother, (hsame _ (Plan.member_path hmem)).signedAt.mp hsigned⟩
        · rw [hother, hturn.signedAt_iff] at hsigned
          exact absurd hsigned Bool.false_ne_true
  | true =>
      rw [if_pos rfl, ends_bind]
      apply (updateMember_revises (hvisit.db.trans hrevised.db) hvisit.holds).mono
      swap
      · exact fun _ _ _ => trivial
      rintro _ s₂ ⟨hdb, hkeeps, hlength⟩
      have hkept : ∀ path ∈ plan.paths, SameAt s₁ s₂ path := fun path hmem =>
        hkeeps.sameAt (hheld hpassing.made hmem) id
      have hsigned : SignedAt s₂.events member.path :=
        (hkept _ hpath).signedAt.mpr (hturn.returned rfl)
      refine ⟨?_, ⟨r.withMember lib plan member new, ?_, ?_⟩, ?_⟩
      · exact hkeeps.passing (fun _ _ => id) hsigning.held (by simpa using hpassing)
      · exact hrevised.signedMember hsigning.distinct hcabinet hmember hahead.not_signedAt hdb hsigned
          ((hkept _ hpath).file.trans hvisit.holds) hlength fun path hmem hne =>
            (hothers path hmem hne).trans (hkept path hmem)
      · rw [withMember_streams, hstream]
      · exact iff_of_true rfl ⟨member, by simp, hsigned⟩

/-- The members of a cabinet have their turns. -/
theorem signMembers_settle (hsigning : SigningOf R callback plan workspace start)
    (hcabinet : cabinet ∈ plan.cabinets)
    (hnew : (before ++ cabinet.members.map CabinetMember.path).Nodup)
    (h : Between R lib c plan start before s) :
    Ends (foldItems (signMember env lib workspace callback plan cabinet) false cabinet.members) s
      (fun changed s' => AmongMembers R lib c plan start before cabinet cabinet.members changed s')
      fun _ _ => True := by
  obtain ⟨hpassing, r, hrevised⟩ := h
  have hahead : ∀ member ∈ cabinet.members, ¬ SignedAt s.events member.path := by
    intro member hmember
    have hpath : member.path ∈ plan.paths := Plan.member_path (Plan.mem_members hcabinet hmember)
    refine (hpassing.ahead member.path hpath fun hbefore => ?_).not_signedAt
    exact (List.nodup_append.mp hnew).2.2 _ hbefore _ (List.mem_map_of_mem hmember) rfl
  apply ends_foldItems (AmongMembers R lib c plan start before cabinet)
  · intro done member rest changed s₁ hsplit h₁
    apply signMember_settles hsigning hcabinet ?_ (by simp [hsplit]) ?_ h₁
    · rw [hsplit]
      exact List.subset_append_left _ _
    · rw [hsplit, List.map_append, List.map_cons, ← List.append_assoc] at hnew
      exact fun hmem => (List.nodup_append.mp hnew).2.2 _ hmem _ List.mem_cons_self rfl
  · refine ⟨by simpa using hpassing, ⟨r, ?_, ?_⟩, by simp⟩
    · exact ⟨hrevised.db, hrevised.members, fun other hother _ =>
        hrevised.cabinets other hother id, hrevised.binaries, hrevised.otherRows,
        hrevised.otherStreams, hrevised.otherBinaries⟩
    · exact (hrevised.cabinets cabinet hcabinet id).unchanged hahead

/-- The rebuilt cabinet is a file of its own, apart from every payload. -/
theorem Plan.Numbered.rebuilt_ne {count : Nat} (h : plan.Numbered workspace count)
    (hcabinet : cabinet ∈ plan.cabinets) :
    ∀ path ∈ plan.paths, path ≠ cabinet.path.append (ascii ".rebuilt") := by
  intro path hpath
  obtain ⟨i, hi⟩ := h.cabinets cabinet hcabinet
  obtain ⟨n, rfl⟩ := h.payload hpath
  rw [hi]
  exact cabinetPath_append_ne_payloadPath.symm

theorem signCabinet_settles (hsigning : SigningOf R callback plan workspace start)
    (hcabinet : cabinet ∈ plan.cabinets)
    (hnew : (before ++ cabinet.members.map CabinetMember.path).Nodup)
    (h : Between R lib c plan start before s) :
    Ends (signCabinet env lib workspace callback plan () cabinet) s
      (fun _ s' =>
        Between R lib c plan start (before ++ cabinet.members.map CabinetMember.path) s')
      fun _ _ => True := by
  have hpaths : ∀ member ∈ cabinet.members, member.path ∈ plan.paths := fun member hmember =>
    Plan.member_path (Plan.mem_members hcabinet hmember)
  rw [signCabinet, ends_bind]
  apply (signMembers_settle hsigning hcabinet hnew h).mono
  swap
  · exact fun _ _ _ => trivial
  rintro changed s₁ ⟨hpassing₁, ⟨r₁, hrevised₁, hstream₁⟩, hchanged₁⟩
  cases changed with
  | false =>
      -- Nothing of this cabinet was signed, so its stream stays the one it was read from.
      refine ⟨hpassing₁, r₁, hrevised₁.unchanged (fun member hmember hsigned => ?_) hstream₁⟩
      exact Bool.false_ne_true (hchanged₁.mpr ⟨member, hmember, hsigned⟩)
  | true =>
      have houtput := hsigning.numbered.rebuilt_ne hcabinet
      have hheld : ∀ path ∈ plan.paths, s₁.world.Holds path := fun path hpath =>
        (hsigning.held path hpath).mono hpassing₁.made
      apply (rebuildCabinet_revises hrevised₁.db (fun member hmember =>
        (hsigning.numbered.members cabinet hcabinet member hmember).1) fun member hmember =>
          ⟨hheld _ (hpaths member hmember), houtput _ (hpaths member hmember)⟩).mono
      swap
      · exact fun _ _ _ => trivial
      rintro _ s₂ ⟨raw, hbuilt, hdb, hkeeps⟩
      refine ⟨hkeeps.passing houtput hsigning.held hpassing₁, r₁.update (.stream raw cabinet.name), ?_⟩
      exact hrevised₁.rebuilt hsigning.distinct hcabinet (hchanged₁.mp rfl) hbuilt hdb
        fun path hpath => hkeeps.sameAt (hheld path hpath) (houtput path hpath)

theorem signBinary_settles (hsigning : SigningOf R callback plan workspace start)
    (hbinary : binary ∈ plan.binaries) (hnew : binary.2 ∉ before)
    (h : Between R lib c plan start before s) :
    Ends (signBinary env workspace callback () binary) s
      (fun _ s' => Between R lib c plan start (before ++ [binary.2]) s') fun _ _ => True := by
  obtain ⟨hpassing, r, hrevised⟩ := h
  have hpath : binary.2 ∈ plan.paths := Plan.binary_path hbinary
  have hahead := hpassing.ahead binary.2 hpath hnew
  rw [signBinary, ends_bind]
  apply (sign_visits hsigning.honest hsigning.answers).mono
  swap
  · exact fun _ _ _ => trivial
  rintro signed s₁ ⟨old, new, hvisit⟩
  have hturn := hvisit.turn hahead
  have hpassing₁ := hvisit.passing hsigning.distinct.paths hsigning.held hpath hnew hpassing
  have hothers : ∀ path ∈ plan.paths, path ≠ binary.2 → SameAt s s₁ path := fun path hmem hne =>
    ⟨hvisit.signedAt_iff hne,
      hvisit.others path ((hsigning.held path hmem).mono hpassing.made) hne⟩
  cases signed with
  | false =>
      refine ⟨hpassing₁, r, hrevised.congr hvisit.db fun path hmem => ?_⟩
      by_cases hne : path = binary.2
      · subst hne
        refine ⟨iff_of_false ?_ hahead.not_signedAt, ?_⟩
        · rw [hturn.signedAt_iff]
          exact Bool.false_ne_true
        · rw [hvisit.holds, hvisit.held, hvisit.unsigned rfl]
      · exact hothers path hmem hne
  | true =>
      rw [if_pos rfl, ends_bind, ends_onWorld]
      apply ends_readFile
      swap
      · exact fun _ => trivial
      intro data hdata
      obtain rfl : new = data := Option.some.inj (hvisit.holds.symm.trans hdata)
      refine ends_execute_revise (by exact hvisit.db.trans hrevised.db) ?_
      intro s₂ hdb hkeeps _
      have hkept : Keeps (fun _ => False) s₁ s₂ := Keeps.ticked.trans (hkeeps _)
      have hsame : ∀ path ∈ plan.paths, SameAt s₁ s₂ path := fun path hmem =>
        hkept.sameAt ((hsigning.held path hmem).mono hpassing₁.made) id
      refine ⟨hkept.passing (fun _ _ => id) hsigning.held hpassing₁, _,
        hrevised.signedBinary hsigning.distinct hbinary hdb
          ((hsame _ hpath).signedAt.mpr (hturn.returned rfl))
          ((hsame _ hpath).file.trans hvisit.holds) fun path hmem hne =>
            (hothers path hmem hne).trans (hsame path hmem)⟩

/-- The payloads of the first cabinets have their turns. -/
theorem signCabinets_settle {first rest : List Cabinet}
    (hsigning : SigningOf R callback plan workspace start) (hsplit : plan.cabinets = first ++ rest)
    (h : Between R lib c plan start [] start) :
    Ends (foldItems (signCabinet env lib workspace callback plan) () first) start
      (fun _ s' =>
        Between R lib c plan start ((first.flatMap Cabinet.members).map CabinetMember.path) s')
      fun _ _ => True := by
  apply ends_foldItems (fun done _ s' =>
    Between R lib c plan start ((done.flatMap Cabinet.members).map CabinetMember.path) s')
  · intro done cabinet others _ s₁ hfirst h₁
    have hmembers := hsigning.distinct.paths
    rw [Plan.paths] at hmembers
    replace hmembers := (List.nodup_append.mp hmembers).1
    rw [hfirst, List.append_assoc] at hsplit
    rw [Plan.members, hsplit, List.flatMap_append, List.cons_append, List.flatMap_cons,
      ← List.append_assoc, List.map_append, List.map_append] at hmembers
    apply (signCabinet_settles hsigning (by simp [hsplit]) (List.nodup_append.mp hmembers).1
      h₁).mono
    · exact fun _ _ hnext => by simpa using hnext
    · exact fun _ _ => id
  · exact h

/-- Every payload has its turn, and the database follows. -/
theorem signPayloads_settles (hsigning : SigningOf R callback plan workspace start)
    (h : Between R lib c plan start [] start) :
    Ends (signPayloads env lib workspace callback plan) start
      (fun _ s' => Between R lib c plan start plan.paths s') fun _ _ => True := by
  have hnodup := hsigning.distinct.paths
  rw [Plan.paths] at hnodup
  rw [signPayloads, ends_bind]
  apply (signCabinets_settle hsigning (List.append_nil _).symm h).mono
  swap
  · exact fun _ _ _ => trivial
  intro _ s₁ h₁
  rw [Plan.paths]
  apply ends_foldItems (fun done _ s' => Between R lib c plan start
    (plan.members.map CabinetMember.path ++ done.map Prod.snd) s')
  · intro done binary rest _ s₂ hsplit h₂
    rw [hsplit, List.map_append, List.map_cons, ← List.append_assoc] at hnodup
    have hnew : binary.2 ∉ plan.members.map CabinetMember.path ++ done.map Prod.snd := fun hmem =>
      (List.nodup_append.mp hnodup).2.2 _ hmem _ List.mem_cons_self rfl
    apply (signBinary_settles hsigning (by simp [hsplit]) hnew h₂).mono
    · exact fun _ _ hnext => by simpa using hnext
    · exact fun _ _ => id
  · simpa [Plan.members] using h₁

end Loops

end AasSign
