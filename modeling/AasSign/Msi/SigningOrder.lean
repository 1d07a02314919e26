import AasSign.Msi.Order

/-! # The order of the signing steps

Every step from the first callback to the commit meets its requirements, for
any callback. Between two cabinets, and between two Binary streams, nothing is
left to write back; inside a cabinet only that cabinet may be.
-/

namespace AasSign

open Foundation Program

/-- The preflight is over and nothing is renewed or committed yet. -/
structure InOrder (c : MsiContents) (s : Rewrite) : Prop where
  orderly : Orderly c s.events
  preflighted : Preflighted c s.events
  notRenewed : .renewed ∉ s.events
  notCommitted : .committed ∉ s.events
  signed : s.signedFiles ≠ 0 → Signed s.events

/-- The rewriting was left before the commit. -/
def Uncommitted (c : MsiContents) (_ : Exn) (s : Rewrite) : Prop :=
  Orderly c s.events ∧ .committed ∉ s.events

section Steps

variable {env : Env} {lib : MsiLibrary} {workspace : Nat} {c : MsiContents} {s : Rewrite}
  {callback : Callback} {plan : Plan} {w : World}

theorem InOrder.withWorld (h : InOrder c s) : InOrder c { s with world := w } :=
  ⟨h.orderly, h.preflighted, h.notRenewed, h.notCommitted, h.signed⟩

theorem InOrder.noted {event : MsiEvent} (h : InOrder c s) (hallowed : event.Allowed c s.events)
    (hrenewed : event ≠ .renewed) (hcommitted : event ≠ .committed) :
    InOrder c (s.noted workspace event) := by
  have hsubset : s.events ⊆ (s.noted workspace event).events := by
    rw [events_noted]
    exact List.subset_append_left _ _
  refine ⟨?_, h.preflighted.mono hsubset, ?_, ?_, fun hsigned => (h.signed hsigned).mono hsubset⟩
  · rw [events_noted]
    exact h.orderly.snoc hallowed
  · rw [events_noted]
    simp [h.notRenewed, hrenewed.symm]
  · rw [events_noted]
    simp [h.notCommitted, hcommitted.symm]

theorem ends_onWorld_inOrder {α : Type} {m : Prog α} {Q : α → Rewrite → Prop} (h : InOrder c s)
    (hQ : ∀ a s', InOrder c s' → s'.events = s.events → Q a s') :
    Ends (onWorld m) s Q (Uncommitted c) := by
  rw [ends_onWorld]
  apply ends_of_forall
  · exact fun a w => hQ a _ h.withWorld rfl
  · exact fun _ _ => ⟨h.orderly, h.notCommitted⟩

theorem ends_lift_inOrder {α : Type} {x : Except Exn α} {Q : α → Rewrite → Prop}
    (h : InOrder c s) (hQ : ∀ a, x = .ok a → Q a s) : Ends (lift x) s Q (Uncommitted c) := by
  rw [ends_lift, sat_iff]
  exact ⟨hQ, fun _ _ => ⟨h.orderly, h.notCommitted⟩⟩

theorem ends_execute_inOrder {update : MsiUpdate} {Q : Unit → Rewrite → Prop} (h : InOrder c s)
    (hsigned : Signed s.events)
    (hQ : ∀ s', InOrder c s' → Signed s'.events →
      stale s'.events = staleStep (stale s.events) (.updated update) → Q () s') :
    Ends (execute env workspace update) s Q (Uncommitted c) := by
  apply ends_execute
  · apply hQ
    · have hworld : InOrder c { s with world := s.world.tick, db := update.apply s.db } :=
        ⟨h.orderly, h.preflighted, h.notRenewed, h.notCommitted, h.signed⟩
      exact hworld.noted ⟨h.notCommitted, hsigned, h.notRenewed⟩ (by simp) (by simp)
    · rw [events_noted]
      exact hsigned.mono (List.subset_append_left _ _)
    · rw [events_noted, stale_snoc]
      rfl
  · exact fun _ => ⟨h.orderly, h.notCommitted⟩

/-! ## One payload -/

theorem sign_inOrder {container : MsiStream} {path : Path} {name : Bytes} (h : InOrder c s) :
    Ends (sign env workspace callback container path name) s
      (fun signed s' => InOrder c s' ∧
        (signed = true → Signed s'.events ∧ stale s'.events = container :: stale s.events) ∧
        (signed = false → stale s'.events = stale s.events ∧ s.events ⊆ s'.events))
      (Uncommitted c) := by
  rw [sign, ends_bind]
  apply ends_onWorld_inOrder h
  intro candidate s₁ h₁ hevents₁
  rw [← hevents₁]
  split
  swap
  · exact ⟨h₁, by simp, fun _ => ⟨rfl, List.Subset.refl _⟩⟩
  rw [ends_bind]
  apply ends_onWorld_inOrder h₁
  intro before s₂ h₂ hevents₂
  rw [← hevents₂, ends_bind, ends_note]
  have hcalled : InOrder c (s₂.noted workspace (.called container path name)) :=
    h₂.noted ⟨h₂.notCommitted, h₂.preflighted, h₂.notRenewed⟩ (by simp) (by simp)
  rw [ends_bind]
  apply ends_onWorld_inOrder hcalled
  intro signed s₃ h₃ hevents₃
  have hreturned : InOrder c
      (s₃.noted workspace (.returned container path signed (s₃.world.files path))) :=
    h₃.noted ⟨h₃.notCommitted, trivial⟩ (by simp) (by simp)
  -- The answer decides whether its container is stale from now on.
  have hstale : stale (s₃.noted workspace
      (.returned container path signed (s₃.world.files path))).events =
        if signed then container :: stale s₂.events else stale s₂.events := by
    rw [events_noted, stale_snoc, hevents₃, events_noted, stale_snoc]
    cases signed <;> rfl
  have hmem : .returned container path signed (s₃.world.files path) ∈ (s₃.noted workspace
      (.returned container path signed (s₃.world.files path))).events := by
    rw [events_noted]
    exact List.mem_concat_self
  rw [ends_bind, noteReturned, ends_bind, ends_current, ends_note]
  have hsubset : s₂.events ⊆ (s₃.noted workspace
      (.returned container path signed (s₃.world.files path))).events := by
    rw [events_noted, hevents₃, events_noted, List.append_assoc]
    exact List.subset_append_left _ _
  generalize s₃.noted workspace _ = s₄ at hreturned hstale hmem hsubset ⊢
  cases signed with
  | false =>
      rw [if_neg (by simp), ends_bind, ends_change, ends_pure]
      exact ⟨⟨hreturned.orderly, hreturned.preflighted, hreturned.notRenewed,
        hreturned.notCommitted, hreturned.signed⟩, by simp, fun _ => ⟨hstale, hsubset⟩⟩
  | true =>
      rw [if_pos rfl, ends_bind]
      apply ends_onWorld_inOrder hreturned
      intro file s₅ h₅ hevents₅
      have hsigned : Signed s₅.events := ⟨_, _, _, hevents₅ ▸ hmem⟩
      rw [ends_bind, ends_current, ends_bind]
      apply ends_lift_inOrder h₅
      intro others _
      rw [ends_bind]
      apply ends_lift_inOrder h₅
      intro room _
      rw [ends_bind]
      apply ends_lift_inOrder h₅
      intro _ _
      rw [ends_bind, ends_change, ends_bind, ends_note, ends_pure]
      have hcounted : InOrder c { s₅ with
          expanded := others + file.length, signedFiles := s₅.signedFiles + 1 } :=
        ⟨h₅.orderly, h₅.preflighted, h₅.notRenewed, h₅.notCommitted, fun _ => hsigned⟩
      refine ⟨hcounted.noted ⟨h₅.notCommitted, trivial⟩ (by simp) (by simp), fun _ => ?_, by simp⟩
      rw [events_noted, stale_snoc]
      refine ⟨hsigned.mono (List.subset_append_left _ _), ?_⟩
      change stale s₅.events = _
      rw [hevents₅, hstale, if_pos rfl]

/-! ## Members and cabinets -/

theorem updateMember_inOrder {member : CabinetMember} (h : InOrder c s)
    (hsigned : Signed s.events) :
    Ends (updateMember env lib workspace plan member) s
      (fun _ s' => InOrder c s' ∧ Signed s'.events ∧ stale s'.events = stale s.events)
      (Uncommitted c) := by
  rw [updateMember, ends_bind]
  apply ends_onWorld_inOrder h
  intro file s₁ h₁ hevents₁
  rw [← hevents₁] at hsigned ⊢
  rw [ends_bind]
  apply ends_lift_inOrder h₁
  intro _ _
  rw [ends_bind]
  apply ends_execute_inOrder h₁ hsigned
  intro s₂ h₂ hsigned₂ hstale₂
  split
  · rw [ends_bind]
    apply ends_onWorld_inOrder h₂
    intro data s₃ h₃ hevents₃
    apply ends_execute_inOrder h₃ (hevents₃ ▸ hsigned₂)
    intro s₄ h₄ hsigned₄ hstale₄
    exact ⟨h₄, hsigned₄, hstale₄.trans (hevents₃ ▸ hstale₂)⟩
  · exact ⟨h₂, hsigned₂, hstale₂⟩

/-- Inside a cabinet: nothing else is stale, and nothing at all before a change. -/
structure InCabinet (c : MsiContents) (name : Bytes) (changed : Bool) (s : Rewrite) : Prop where
  inOrder : InOrder c s
  stale : ∀ container ∈ stale s.events, container = .cabinet name
  unchanged : changed = false → AasSign.stale s.events = []
  signed : changed = true → Signed s.events

theorem signMember_inOrder {cabinet : Cabinet} {changed : Bool} {member : CabinetMember}
    (h : InCabinet c cabinet.name changed s) :
    Ends (signMember env lib workspace callback plan cabinet changed member) s
      (fun changed' s' => InCabinet c cabinet.name changed' s') (Uncommitted c) := by
  rw [signMember, ends_bind]
  apply (sign_inOrder h.inOrder).mono
  swap
  · exact fun _ _ => id
  rintro signed s₁ ⟨h₁, htrue, hfalse⟩
  cases signed with
  | false =>
      obtain ⟨hstale, hsubset⟩ := hfalse rfl
      exact ⟨h₁, hstale ▸ h.stale, fun hchanged => hstale.trans (h.unchanged hchanged),
        fun hchanged => (h.signed hchanged).mono hsubset⟩
  | true =>
      obtain ⟨hsigned, hstale⟩ := htrue rfl
      rw [if_pos rfl, ends_bind]
      apply (updateMember_inOrder h₁ hsigned).mono
      swap
      · exact fun _ _ => id
      rintro _ s₂ ⟨h₂, hsigned₂, hstale₂⟩
      refine ⟨h₂, ?_, by simp, fun _ => hsigned₂⟩
      rw [hstale₂, hstale]
      simpa using h.stale

theorem rebuildCabinet_inOrder {cabinet : Cabinet} (h : InCabinet c cabinet.name true s) :
    Ends (rebuildCabinet env lib workspace cabinet) s
      (fun _ s' => InOrder c s' ∧ stale s'.events = []) (Uncommitted c) := by
  rw [rebuildCabinet, ends_bind]
  apply ends_onWorld_inOrder h.inOrder
  intro _ s₁ h₁ hevents₁
  rw [ends_bind]
  apply ends_onWorld_inOrder h₁
  intro _ s₂ h₂ hevents₂
  rw [ends_bind]
  apply ends_onWorld_inOrder h₂
  intro data s₃ h₃ hevents₃
  have hevents : s₃.events = s.events := hevents₃.trans (hevents₂.trans hevents₁)
  apply ends_execute_inOrder h₃ (hevents ▸ h.signed rfl)
  intro s₄ h₄ _ hstale
  refine ⟨h₄, hstale.trans ?_⟩
  rw [hevents]
  apply List.filter_eq_nil_iff.mpr
  intro container hcontainer
  simp [h.stale container hcontainer]

theorem signCabinet_inOrder {cabinet : Cabinet} (h : InOrder c s) (hstale : stale s.events = []) :
    Ends (signCabinet env lib workspace callback plan () cabinet) s
      (fun _ s' => InOrder c s' ∧ stale s'.events = []) (Uncommitted c) := by
  rw [signCabinet, ends_bind]
  have hmembers := ends_foldItems (s := s) (b := false) (l := cabinet.members)
    (f := signMember env lib workspace callback plan cabinet) (E := Uncommitted c)
    (fun _ changed s' => InCabinet c cabinet.name changed s')
    (fun _ _ _ _ _ _ hin => signMember_inOrder hin)
    ⟨h, by simp [hstale], fun _ => hstale, by simp⟩
  apply hmembers.mono
  swap
  · exact fun _ _ => id
  intro changed s₁ h₁
  cases changed with
  | true => exact rebuildCabinet_inOrder h₁
  | false => exact ⟨h₁.inOrder, h₁.unchanged rfl⟩

theorem signBinary_inOrder {binary : Bytes × Path} (h : InOrder c s)
    (hstale : stale s.events = []) :
    Ends (signBinary env workspace callback () binary) s
      (fun _ s' => InOrder c s' ∧ stale s'.events = []) (Uncommitted c) := by
  rw [signBinary, ends_bind]
  apply (sign_inOrder h).mono
  swap
  · exact fun _ _ => id
  rintro signed s₁ ⟨h₁, htrue, hfalse⟩
  cases signed with
  | false => exact ⟨h₁, (hfalse rfl).1.trans hstale⟩
  | true =>
      obtain ⟨hsigned, hstale₁⟩ := htrue rfl
      rw [if_pos rfl, ends_bind]
      apply ends_onWorld_inOrder h₁
      intro data s₂ h₂ hevents₂
      apply ends_execute_inOrder h₂ (hevents₂ ▸ hsigned)
      intro s₃ h₃ _ hstale₃
      refine ⟨h₃, hstale₃.trans ?_⟩
      rw [hevents₂, hstale₁, hstale]
      simp [staleStep]

theorem signPayloads_inOrder (h : InOrder c s) (hstale : stale s.events = []) :
    Ends (signPayloads env lib workspace callback plan) s
      (fun _ s' => InOrder c s' ∧ stale s'.events = []) (Uncommitted c) := by
  rw [signPayloads, ends_bind]
  have hcabinets := ends_foldItems (s := s) (b := ()) (l := plan.cabinets)
    (f := signCabinet env lib workspace callback plan) (E := Uncommitted c)
    (fun _ _ s' => InOrder c s' ∧ stale s'.events = [])
    (fun _ _ _ _ _ _ hin => signCabinet_inOrder hin.1 hin.2) ⟨h, hstale⟩
  apply hcabinets.mono
  swap
  · exact fun _ _ => id
  rintro _ s₁ ⟨h₁, hstale₁⟩
  exact ends_foldItems (fun _ _ s' => InOrder c s' ∧ stale s'.events = [])
    (fun _ _ _ _ _ _ hin => signBinary_inOrder hin.1 hin.2) ⟨h₁, hstale₁⟩

/-! ## The end -/

/-- Renewing and committing come last, and only after a signature. -/
theorem finish_inOrder {staged : Path} (h : InOrder c s) (hstale : stale s.events = []) :
    Ends (finish env lib workspace staged) s
      (fun result s' => Orderly c s'.events ∧ (.committed ∈ s'.events → result.signedFiles ≠ 0))
      (Uncommitted c) := by
  rw [finish, ends_bind, ends_current]
  split
  swap
  · exact ⟨h.orderly, fun hcommitted => absurd hcommitted h.notCommitted⟩
  next hsigned =>
    have hrenewed : Orderly c (s.events ++ [.renewed]) :=
      h.orderly.snoc ⟨h.notCommitted, h.signed hsigned, hstale, h.notRenewed⟩
    have hopen : .committed ∉ s.events ++ [.renewed] := by simp [h.notCommitted]
    rw [ends_bind, renewPackageCode, ends_bind, ends_onWorld]
    apply ends_attempt
    swap
    · exact fun what => ⟨h.orderly, h.notCommitted⟩
    rw [ends_bind, ends_change, ends_note, ends_bind, commit, ends_bind, ends_current, ends_bind,
      ends_onWorld]
    apply ends_of_forall
    · intro _ w
      rw [ends_note, ends_pure, events_noted]
      refine ⟨?_, fun _ => hsigned⟩
      refine Guarded.snoc (?_ : Orderly c (Rewrite.events _)) ⟨?_, ?_⟩
      · exact (congrArg (Orderly c) (events_noted workspace .renewed _)).mpr hrenewed
      · exact fun hmem => hopen ((events_noted workspace .renewed _) ▸ hmem)
      · exact (events_noted workspace .renewed _).symm ▸ List.mem_concat_self
    · intro e w
      exact ⟨(congrArg (Orderly c) (events_noted workspace .renewed _)).mpr hrenewed,
        fun hmem => hopen ((events_noted workspace .renewed _) ▸ hmem)⟩

end Steps

end AasSign
