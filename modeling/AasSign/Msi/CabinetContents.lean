import AasSign.Msi.CabinetAccounting

/-! # What an extraction leaves

Each member is completed at most once, and as many octets are written as it declares. They
are where they belong unless the system moves inside a member's file or empties it: then each
file holds what was written of its member, and if the copy succeeds, every expected member.
-/

namespace AasSign

open Foundation

namespace Fdi

variable {s s' : Extraction} {callback : Callback} {members : List CabinetMember}
variable {κ : Type} {key : CabinetMember → κ}

/-- The descriptor was opened for the member. -/
def Extraction.Serves (s : Extraction) (fd : Fd) (member : CabinetMember) : Prop :=
  ∃ d, s.descriptors fd = some d ∧ d.member = some member

/-! ## Members in progress -/

/-- No two descriptors serve members of one key, nor does one serve a member of a key that
is completed. -/
structure Unshared (key : CabinetMember → κ) (s : Extraction) : Prop where
  alone : ∀ fd m fd' m', s.Serves fd m → s.Serves fd' m' → key m = key m' → fd = fd'
  apart : ∀ fd m, s.Serves fd m → ∀ record ∈ s.closed, key record.1 ≠ key m
  once : (s.closed.map fun record => key record.1).Nodup

theorem unshared_start {cabinet : Path} {others : Fd → Option Path} {files : Path → Option Bytes} :
    Unshared key (start cabinet members others files) where
  alone := by
    rintro fd m - - ⟨d, hd, hm⟩ - -
    obtain ⟨path, -, rfl⟩ := Option.map_eq_some_iff.mp hd
    cases hm
  apart := fun _ _ _ => nofun
  once := List.nodup_nil

namespace Unshared

theorem shrink (h : Unshared key s) (hserves : ∀ fd m, s'.Serves fd m → s.Serves fd m)
    (hclosed : s'.closed = s.closed) : Unshared key s' where
  alone := fun fd m fd' m' hm hm' => h.alone fd m fd' m' (hserves fd m hm) (hserves fd' m' hm')
  apart := by
    intro fd m hm
    rw [hclosed]
    exact h.apart fd m (hserves fd m hm)
  once := by
    rw [hclosed]
    exact h.once

/-- A member whose key is not in use is opened. -/
theorem openedMember (h : Unshared key s) {fd : Fd} {member : CabinetMember}
    (hserves : ∀ fd m, s.Serves fd m → key m ≠ key member)
    (hclosed : ∀ record ∈ s.closed, key record.1 ≠ key member) :
    Unshared key (s.openMember fd member) := by
  have hnew : ∀ other m, (s.openMember fd member).Serves other m →
      other = fd ∧ m = member ∨ s.Serves other m := by
    rintro other m ⟨d, hd, hm⟩
    rcases update_eq_some.mp hd with ⟨heq, hnew⟩ | ⟨-, hold⟩
    · cases hnew
      cases hm
      exact .inl ⟨heq, rfl⟩
    · exact .inr ⟨d, hold, hm⟩
  refine ⟨?_, ?_, h.once⟩
  · intro other m other' m' hm hm' hkey
    rcases hnew other m hm with ⟨heq, hmember⟩ | hold
    · rcases hnew other' m' hm' with ⟨heq', -⟩ | hold'
      · exact heq.trans heq'.symm
      · exact absurd (hkey.symm.trans (congrArg key hmember)) (hserves other' m' hold')
    · rcases hnew other' m' hm' with ⟨-, hmember⟩ | hold'
      · exact absurd (hkey.trans (congrArg key hmember)) (hserves other m hold)
      · exact h.alone other m other' m' hold hold' hkey
  · intro other m hm
    rcases hnew other m hm with ⟨-, hmember⟩ | hold
    · exact hmember ▸ hclosed
    · exact h.apart other m hold

theorem completed (h : Unshared key s) {fd : Fd} {d : Descriptor} {member : CabinetMember}
    (hd : s.descriptors fd = some d) (hm : d.member = some member) :
    Unshared key ((s.closeHandle fd .closed).recordClosed (some (member, d.written))) := by
  have hserves : s.Serves fd member := ⟨d, hd, hm⟩
  have hold : ∀ other m, (s.closeHandle fd .closed).Serves other m → other ≠ fd ∧ s.Serves other m := by
    rintro other m ⟨e, he, hm⟩
    rcases update_eq_some.mp he with ⟨-, hnone⟩ | ⟨hne, hold⟩
    · exact absurd hnone nofun
    · exact ⟨hne, e, hold, hm⟩
  refine ⟨?_, ?_, ?_⟩
  · intro other m other' m' hm hm'
    exact h.alone other m other' m' (hold other m hm).2 (hold other' m' hm').2
  · intro other m hm
    obtain ⟨hne, hm⟩ := hold other m hm
    refine List.forall_mem_cons.mpr ⟨?_, h.apart other m hm⟩
    exact fun hkey => hne (h.alone other m fd member hm hserves hkey.symm)
  · refine List.nodup_cons.mpr ⟨?_, h.once⟩
    intro hin
    obtain ⟨record, hrecord, hkey⟩ := List.mem_map.mp hin
    exact h.apart fd member hserves record hrecord hkey

end Unshared

theorem Extraction.serves_of_insertHandle {fd other : Fd} {path : Path} {clears : Bool}
    {m : CabinetMember} (h : (s.insertHandle fd path none clears).Serves other m) :
    s.Serves other m := by
  obtain ⟨d, hd, hm⟩ := h
  rcases update_eq_some.mp hd with ⟨-, hnew⟩ | ⟨-, hold⟩
  · cases hnew
    cases hm
  · exact ⟨d, hold, hm⟩

theorem Extraction.serves_of_putChunk {fd other : Fd} {d : Descriptor} {left : Nat} {chunk : Bytes}
    {m : CabinetMember} (hd : s.descriptors fd = some d)
    (h : (s.putChunk fd d left chunk).Serves other m) : s.Serves other m := by
  obtain ⟨e, he, hm⟩ := h
  rcases update_eq_some.mp he with ⟨rfl, hput⟩ | ⟨-, hold⟩
  · cases hput
    exact ⟨d, hd, hm⟩
  · exact ⟨e, hold, hm⟩

theorem Extraction.serves_of_move {fd other : Fd} {d : Descriptor} {pos : Nat} {m : CabinetMember}
    (hd : s.descriptors fd = some d) (h : (s.move fd d pos).Serves other m) : s.Serves other m := by
  obtain ⟨e, he, hm⟩ := h
  rcases update_eq_some.mp he with ⟨rfl, hmoved⟩ | ⟨-, hold⟩
  · cases hmoved
    exact ⟨d, hd, hm⟩
  · exact ⟨e, hold, hm⟩

theorem Extraction.serves_of_closeHandle {fd other : Fd} {closing : Closing} {m : CabinetMember}
    (h : (s.closeHandle fd closing).Serves other m) : s.Serves other m := by
  obtain ⟨d, hd, hm⟩ := h
  exact ⟨d, s.descriptors_of_closeHandle hd, hm⟩

/-- A member whose key is not in use is all that an effect needs. -/
theorem Unshared.effect (h : Unshared key s) (haccounted : Accounted members s)
    (heffect : Effect s callback s')
    (hfree : ∀ fd member, s' = s.openMember fd member → member.name ∉ s.ctx.extracted →
      s.files (s.target member.path) = none →
        (∀ fd m, s.Serves fd m → key m ≠ key member) ∧
          ∀ record ∈ s.closed, key record.1 ≠ key member) : Unshared key s' := by
  cases heffect with
  | told haborted => exact h.shrink (fun _ _ hm => hm) rfl
  | refused hexpected hnew => exact h.shrink (fun _ _ hm => hm) rfl
  | openedMember hexpected hnew hfresh habsent =>
      obtain ⟨hserves, hclosed⟩ := hfree _ _ rfl hnew habsent
      exact h.openedMember hserves hclosed
  | openedFile hfresh => exact h.shrink (fun _ _ => s.serves_of_insertHandle) rfl
  | wrote hleft hfits hd => exact h.shrink (fun _ _ => s.serves_of_putChunk hd) rfl
  | moved hd _ => exact h.shrink (fun _ _ => s.serves_of_move hd) rfl
  | closed => exact h.shrink (fun _ _ => s.serves_of_closeHandle) rfl
  | completed hleft hd =>
      obtain ⟨d, hd', m, hm, -⟩ := haccounted.owes _ _ hleft
      obtain rfl := Option.some.inj (hd.symm.trans hd')
      rw [hm]
      exact h.completed hd hm

/-- The members that are open or completed count as extracted. -/
structure Listed (s : Extraction) : Prop where
  serves : ∀ fd m, s.Serves fd m → m.name ∈ s.ctx.extracted
  closed : ∀ record ∈ s.closed, record.1.name ∈ s.ctx.extracted

theorem listed_start {cabinet : Path} {others : Fd → Option Path} {files : Path → Option Bytes} :
    Listed (start cabinet members others files) where
  serves := by
    rintro fd m ⟨d, hd, hm⟩
    obtain ⟨path, -, rfl⟩ := Option.map_eq_some_iff.mp hd
    cases hm
  closed := nofun

theorem Listed.shrink (h : Listed s) (hserves : ∀ fd m, s'.Serves fd m → s.Serves fd m)
    (hclosed : s'.closed = s.closed) (hextracted : s.ctx.extracted ⊆ s'.ctx.extracted) :
    Listed s' where
  serves := fun fd m hm => hextracted (h.serves fd m (hserves fd m hm))
  closed := by
    rw [hclosed]
    exact fun record hrecord => hextracted (h.closed record hrecord)

theorem Listed.effect (h : Listed s) (heffect : Effect s callback s') : Listed s' := by
  cases heffect with
  | told haborted => exact h.shrink (fun _ _ hm => hm) rfl (List.Subset.refl _)
  | refused hexpected hnew => exact h.shrink (fun _ _ hm => hm) rfl (List.subset_cons_self _ _)
  | openedMember hexpected hnew hfresh habsent =>
      refine ⟨?_, fun record hrecord => List.mem_cons_of_mem _ (h.closed record hrecord)⟩
      rintro other m ⟨d, hd, hm⟩
      rcases update_eq_some.mp hd with ⟨-, hopened⟩ | ⟨-, hold⟩
      · cases hopened
        cases hm
        exact List.mem_cons_self
      · exact List.mem_cons_of_mem _ (h.serves other m ⟨d, hold, hm⟩)
  | openedFile hfresh =>
      exact h.shrink (fun _ _ => s.serves_of_insertHandle) rfl (List.Subset.refl _)
  | wrote hleft hfits hd =>
      exact h.shrink (fun _ _ => s.serves_of_putChunk hd) rfl (List.Subset.refl _)
  | moved hd _ => exact h.shrink (fun _ _ => s.serves_of_move hd) rfl (List.Subset.refl _)
  | closed => exact h.shrink (fun _ _ => s.serves_of_closeHandle) rfl (List.Subset.refl _)
  | @completed _ fd d hleft hd =>
      have hclose : Listed (s.closeHandle fd .closed) :=
        h.shrink (fun _ _ => s.serves_of_closeHandle) rfl (List.Subset.refl _)
      refine ⟨hclose.serves, ?_⟩
      intro record hrecord
      rcases List.mem_append.mp hrecord with hin | hold
      · obtain ⟨m, hm, rfl⟩ := Option.map_eq_some_iff.mp (Option.mem_toList.mp hin)
        exact h.serves _ m ⟨_, hd, hm⟩
      · exact h.closed record hold

/-- Under one name at most one member is in progress or completed. -/
theorem unshared_name {allowed : Extraction → Callback → Prop} {cabinet : Path}
    {others : Fd → Option Path} {files : Path → Option Bytes}
    (h : Reaches step allowed (start cabinet members others files) s) :
    Unshared (·.name) s := by
  have hinv : Listed s ∧ Unshared (·.name) s := by
    induction h with
    | start => exact ⟨listed_start, unshared_start⟩
    | next hreaches _ hstep ih =>
        obtain ⟨hlisted, hunshared⟩ := ih
        have heffect := step_effect hstep
        refine ⟨hlisted.effect heffect, ?_⟩
        refine hunshared.effect (accounted_of_reaches hreaches) heffect ?_
        rintro fd member - hnew -
        refine ⟨fun fd m hm heq => hnew (heq ▸ hlisted.serves fd m hm), ?_⟩
        exact fun record hrecord heq => hnew (heq ▸ hlisted.closed record hrecord)
  exact hinv.2

/-! ## Files -/

/-- The system does not move inside the file of a member, nor does it empty one. -/
def Orderly (s : Extraction) : Callback → Prop
  | .seek fd (some pos) => ∀ d ∈ s.descriptors fd, d.member.isSome → pos = d.pos
  | .openFile name clears _ =>
      clears → ∀ m ∈ s.ctx.members, s.target m.path ≠ s.target (.user name)
  | _ => True

/-- The file of a member holds what was written of it. -/
structure Kept (s : Extraction) : Prop where
  serves : ∀ fd d m, s.descriptors fd = some d → d.member = some m →
    d.path = s.target m.path ∧ d.pos = d.written.length ∧ s.files d.path = some d.written
  closed : ∀ record ∈ s.closed, s.files (s.target record.1.path) = some record.2

theorem kept_start {cabinet : Path} {others : Fd → Option Path} {files : Path → Option Bytes} :
    Kept (start cabinet members others files) where
  serves := by
    intro fd d m hd hm
    obtain ⟨path, -, rfl⟩ := Option.map_eq_some_iff.mp hd
    cases hm
  closed := nofun

theorem writeAt_length {file chunk : Bytes} : writeAt file file.length chunk = file ++ chunk := by
  simp [writeAt]

namespace Kept

variable (h : Kept s)

include h

/-- The path of a new file is not in use. -/
theorem free {path : Path} (habsent : s.files (s.target path) = none) :
    (∀ fd m, s.Serves fd m → s.target m.path ≠ s.target path) ∧
      ∀ record ∈ s.closed, s.target record.1.path ≠ s.target path := by
  constructor
  · rintro fd m ⟨d, hd, hm⟩ heq
    obtain ⟨hpath, -, hfile⟩ := h.serves fd d m hd hm
    rw [hpath, heq, habsent] at hfile
    cases hfile
  · intro record hrecord heq
    have hfile := h.closed record hrecord
    rw [heq, habsent] at hfile
    cases hfile

theorem openedMember {fd : Fd} {member : CabinetMember}
    (habsent : s.files (s.target member.path) = none) : Kept (s.openMember fd member) := by
  obtain ⟨hserves, hclosed⟩ := h.free habsent
  constructor
  · intro other d m hd hm
    rcases update_eq_some.mp hd with ⟨-, hopened⟩ | ⟨-, hold⟩
    · cases hopened
      cases hm
      exact ⟨rfl, rfl, Function.update_self ..⟩
    · obtain ⟨hpath, hpos, hfile⟩ := h.serves other d m hold hm
      have hne : d.path ≠ s.target member.path := hpath ▸ hserves other m ⟨d, hold, hm⟩
      exact ⟨hpath, hpos, (Function.update_of_ne hne ..).trans hfile⟩
  · intro record hrecord
    exact (Function.update_of_ne (hclosed record hrecord) ..).trans (h.closed record hrecord)

/-- A file that is opened without a member is none of theirs when it is emptied. -/
theorem openedFile (haccounted : Accounted members s) {fd : Fd} {path : Path} {clears : Bool}
    (hclears : clears → ∀ m ∈ members, s.target m.path ≠ s.target path) :
    Kept (s.insertHandle fd path none clears) := by
  have hsame : ∀ m ∈ members,
      (s.insertHandle fd path none clears).files (s.target m.path) = s.files (s.target m.path) := by
    intro m hm
    cases clears with
    | false => rfl
    | true => exact Function.update_of_ne (hclears rfl m hm) ..
  constructor
  · intro other d m hd hm
    rcases update_eq_some.mp hd with ⟨-, hopened⟩ | ⟨-, hold⟩
    · cases hopened
      cases hm
    · obtain ⟨hpath, hpos, hfile⟩ := h.serves other d m hold hm
      have hmember : m ∈ members := ((haccounted.within other d hold).member m hm).1
      exact ⟨hpath, hpos, by rw [hpath, hsame m hmember, ← hpath, hfile]⟩
  · intro record hrecord
    exact (hsame _ (haccounted.completed record hrecord).1).trans (h.closed record hrecord)

/-- A write goes to the end of the file, and no other member has that file. -/
theorem wrote (hunshared : Unshared (fun m => s.target m.path) s) {fd : Fd} {d : Descriptor}
    {left : Nat} {chunk : Bytes} {member : CabinetMember} (hd : s.descriptors fd = some d)
    (hm : d.member = some member) : Kept (s.putChunk fd d left chunk) := by
  obtain ⟨hpath, hpos, hfile⟩ := h.serves fd d member hd hm
  constructor
  · intro other e m he hm'
    rcases update_eq_some.mp he with ⟨-, hput⟩ | ⟨hne, hold⟩
    · cases hput
      obtain rfl : member = m := Option.some.inj (hm.symm.trans hm')
      refine ⟨hpath, by simp [hpos], ?_⟩
      refine (Function.update_self ..).trans ?_
      rw [hfile, Option.getD_some, hpos, writeAt_length]
    · obtain ⟨hpath', hpos', hfile'⟩ := h.serves other e m hold hm'
      have hapart : e.path ≠ d.path := by
        intro heq
        exact hne (hunshared.alone other m fd member ⟨e, hold, hm'⟩ ⟨d, hd, hm⟩
          (hpath'.symm.trans (heq.trans hpath)))
      exact ⟨hpath', hpos', (Function.update_of_ne hapart ..).trans hfile'⟩
  · intro record hrecord
    have hapart : s.target record.1.path ≠ d.path := by
      rw [hpath]
      exact hunshared.apart fd member ⟨d, hd, hm⟩ record hrecord
    exact (Function.update_of_ne hapart ..).trans (h.closed record hrecord)

theorem moved {fd : Fd} {d : Descriptor} {pos : Nat} (hd : s.descriptors fd = some d)
    (hpos : d.member.isSome → pos = d.pos) : Kept (s.move fd d pos) := by
  refine ⟨?_, h.closed⟩
  intro other e m he hm
  rcases update_eq_some.mp he with ⟨-, hmoved⟩ | ⟨-, hold⟩
  · cases hmoved
    obtain rfl : pos = d.pos := hpos (Option.isSome_of_eq_some hm)
    exact h.serves fd d m hd hm
  · exact h.serves other e m hold hm

theorem closeHandle {fd : Fd} {closing : Closing} : Kept (s.closeHandle fd closing) where
  serves := fun other d m hd hm => h.serves other d m (s.descriptors_of_closeHandle hd) hm
  closed := h.closed

theorem completed {fd : Fd} {d : Descriptor} {member : CabinetMember}
    (hd : s.descriptors fd = some d) (hm : d.member = some member) :
    Kept ((s.closeHandle fd .closed).recordClosed (some (member, d.written))) := by
  have hclose : Kept (s.closeHandle fd .closed) := h.closeHandle
  refine ⟨hclose.serves, List.forall_mem_cons.mpr ⟨?_, h.closed⟩⟩
  obtain ⟨hpath, -, hfile⟩ := h.serves fd d member hd hm
  exact hpath ▸ hfile

theorem effect (haccounted : Accounted members s)
    (hunshared : Unshared (fun m => s.target m.path) s) (horderly : Orderly s callback)
    (heffect : Effect s callback s') : Kept s' := by
  cases heffect with
  | told haborted => exact ⟨h.serves, h.closed⟩
  | refused hexpected hnew => exact ⟨h.serves, h.closed⟩
  | openedMember hexpected hnew hfresh habsent => exact h.openedMember habsent
  | openedFile hfresh =>
      exact h.openedFile haccounted fun hclears => haccounted.expects ▸ horderly hclears
  | wrote hleft hfits hd =>
      obtain ⟨d, hd', m, hm, -⟩ := haccounted.owes _ _ hleft
      obtain rfl := Option.some.inj (hd.symm.trans hd')
      exact h.wrote hunshared hd hm
  | @moved _ fd d pos hd hmember =>
      refine h.moved hd fun hserves => ?_
      rcases hmember with hnone | rfl
      · rw [hnone] at hserves
        cases hserves
      · exact horderly d hd hserves
  | closed => exact h.closeHandle
  | completed hleft hd =>
      obtain ⟨d, hd', m, hm, -⟩ := haccounted.owes _ _ hleft
      obtain rfl := Option.some.inj (hd.symm.trans hd')
      rw [hm]
      exact h.completed hd hm

end Kept

/-- What `aliases` say does not change. -/
theorem Effect.target (heffect : Effect s callback s') : s'.target = s.target := by
  cases heffect <;> rfl

theorem kept_of_orderly {cabinet : Path} {others : Fd → Option Path} {files : Path → Option Bytes}
    (h : Reaches step Orderly (start cabinet members others files) s) : Kept s := by
  have hinv : Unshared (fun m => s.target m.path) s ∧ Kept s := by
    induction h with
    | start => exact ⟨unshared_start, kept_start⟩
    | next hreaches horderly hstep ih =>
        obtain ⟨hunshared, hkept⟩ := ih
        have haccounted := accounted_of_reaches hreaches
        have heffect := step_effect hstep
        refine ⟨?_, hkept.effect haccounted hunshared horderly heffect⟩
        rw [heffect.target]
        exact hunshared.effect haccounted heffect fun _ _ _ _ habsent => hkept.free habsent
  exact hinv.2

/-! ## The whole extraction -/

/-- What a successful `FDICopy` stands for: no notification has failed, and each member that
was opened was closed through `CLOSE_FILE_INFO`. -/
structure CopySucceeded (s : Extraction) : Prop where
  accepted : s.aborted = false
  closed : ∀ name ∈ s.opened, ∃ record ∈ s.closed, record.1.name = name

/-- After a copy that succeeds and the check of the count, every expected member is
complete. -/
theorem Accounted.complete (h : Accounted members s) (hcopy : CopySucceeded s) {erfOper : Int}
    (hreturns : extractCabinet s true erfOper = .ok ()) {m : CabinetMember} (hm : m ∈ members) :
    ∃ data, (m, data) ∈ s.closed ∧ data.length = m.size := by
  have hcount : s.ctx.extracted.length = members.length := by
    by_contra hne
    rw [← h.expects] at hne
    simp [extractCabinet, hne] at hreturns
  have hperm : s.ctx.extracted.Perm (members.map (·.name)) := by
    refine (List.subperm_of_subset h.distinct h.expected).perm_of_length_le ?_
    rw [List.length_map, hcount]
  have hnames : (members.map (·.name)).Nodup := hperm.nodup_iff.mp h.distinct
  have hopened : m.name ∈ s.opened :=
    h.whole hcopy.accepted (hperm.mem_iff.mpr (List.mem_map_of_mem hm))
  obtain ⟨record, hrecord, hname⟩ := hcopy.closed m.name hopened
  obtain ⟨hin, hlength⟩ := h.completed record hrecord
  obtain rfl : record.1 = m := List.inj_on_of_nodup_map hnames hin hm hname
  exact ⟨record.2, hrecord, hlength⟩

/-- The account of an extraction after any history of callbacks. -/
structure Counts (members : List CabinetMember) (s : Extraction) : Prop where
  /-- Of an open member, what was written and what remains make up the declared size. -/
  balanced : ∀ fd ∈ s.ctx.handles, ∀ d m, s.descriptors fd = some d → d.member = some m →
    m ∈ members ∧ ∃ left, s.ctx.remaining fd = some left ∧ d.written.length + left = m.size
  /-- A write that reaches a file is one to an open member, of no more than what remains. -/
  fits : ∀ fd buffer n r t, call s (.write fd buffer n) = some (r, t) →
    t.files = s.files ∨ ∃ d m, s.descriptors fd = some d ∧ d.member = some m ∧ r = n ∧ 0 < n ∧
      n ≤ buffer.length ∧ d.written.length + n.toNat ≤ m.size ∧
        (∃ d', t.descriptors fd = some d' ∧ d'.written = d.written ++ buffer.take n.toNat) ∧
          t.files = Function.update s.files d.path
            (some (writeAt ((s.files d.path).getD []) d.pos (buffer.take n.toNat)))
  bounded : ∀ fd d, s.descriptors fd = some d → d.Within members
  /-- A member is opened when it is expected and was not opened before. -/
  opens : ∀ name cb opening r t, call s (.copyFile name cb opening) = some (r, t) → r ≠ -1 →
    name ∉ s.opened ∧ t.opened = name :: s.opened ∧ ∃ m ∈ members, m.name = name ∧ cb = toLong m.size
  once : s.opened.Nodup
  expected : ∀ name ∈ s.opened, ∃ m ∈ members, m.name = name
  completedOnce : (s.closed.map fun record => record.1.name).Nodup
  full : ∀ hf closing r t, call s (.closeFileInfo hf closing) = some (r, t) → r ≠ -1 →
    s.ctx.remaining hf = some 0
  counted : CopySucceeded s → ∀ erfOper, extractCabinet s true erfOper = .ok () →
    ∀ m ∈ members, ∃ data, (m, data) ∈ s.closed ∧ data.length = m.size

/-- The account, and that the octets are where they belong. -/
structure WritesExactly (members : List CabinetMember) (s : Extraction) : Prop
    extends Counts members s where
  /-- The file of an open member holds what was written of it. -/
  holds : ∀ fd d m, s.descriptors fd = some d → d.member = some m →
    d.path = s.target m.path ∧ s.files d.path = some d.written
  /-- A write that reaches a file ends within the declared size of its member. -/
  inside : ∀ fd buffer n r t, call s (.write fd buffer n) = some (r, t) →
    t.files = s.files ∨ ∃ d m, s.descriptors fd = some d ∧ d.member = some m ∧
      d.pos = d.written.length ∧ d.pos + n.toNat ≤ m.size ∧
        t.files = Function.update s.files d.path (some (d.written ++ buffer.take n.toNat))
  contents : ∀ record ∈ s.closed, s.files (s.target record.1.path) = some record.2
  /-- The file of every expected member has the declared size when the copy succeeds. -/
  complete : CopySucceeded s → ∀ erfOper, extractCabinet s true erfOper = .ok () →
    ∀ m ∈ members, ∃ data, s.files (s.target m.path) = some data ∧ data.length = m.size

/-- A notification's result is told apart from a refusal. -/
theorem copyFile_opens (h : Accounted members s) {name : Bytes} {cb : Int} {opening : Opening}
    {r : Int} {t : Extraction} (hcall : s.copyFile name cb opening = some (r, t)) (hr : r ≠ -1) :
    name ∉ s.opened ∧ t.opened = name :: s.opened ∧
      ∃ m ∈ members, m.name = name ∧ cb = toLong m.size := by
  simp only [Extraction.copyFile] at hcall
  cases hfind : s.ctx.members.find? (·.name = name) with
  | none =>
      simp only [hfind, Option.some.injEq, Prod.mk.injEq] at hcall
      exact absurd hcall.1.symm hr
  | some member =>
      have hmember : member ∈ members := h.expects ▸ List.mem_of_find?_eq_some hfind
      have hname : member.name = name := by simpa using List.find?_some hfind
      simp only [hfind] at hcall
      split_ifs at hcall with hold hcb
      · exact absurd (Prod.mk.inj (Option.some.inj hcall)).1.symm hr
      · exact absurd (Prod.mk.inj (Option.some.inj hcall)).1.symm hr
      · cases opening with
        | failed strerror => exact absurd (Prod.mk.inj (Option.some.inj hcall)).1.symm hr
        | threw what => exact absurd (Prod.mk.inj (Option.some.inj hcall)).1.symm hr
        | opened fd =>
            obtain ⟨-, hcall⟩ := Option.ite_none_right_eq_some.mp hcall
            rw [← (Prod.mk.inj (Option.some.inj hcall)).2]
            exact ⟨fun hin => hold (h.extracted hin), rfl, member, hmember, hname, not_not.mp hcb⟩

theorem write_fits (h : Accounted members s) {fd : Fd} {buffer : Bytes} {n r : Int}
    {t : Extraction} (hcall : s.write fd buffer n = some (r, t)) :
    t.files = s.files ∨ ∃ d m, s.descriptors fd = some d ∧ d.member = some m ∧ r = n ∧ 0 < n ∧
      n ≤ buffer.length ∧ d.written.length + n.toNat ≤ m.size ∧
        (∃ d', t.descriptors fd = some d' ∧ d'.written = d.written ++ buffer.take n.toNat) ∧
          t.files = Function.update s.files d.path
            (some (writeAt ((s.files d.path).getD []) d.pos (buffer.take n.toNat))) := by
  simp only [Extraction.write] at hcall
  cases hleft : s.ctx.remaining fd with
  | none =>
      simp only [hleft, Option.some.injEq, Prod.mk.injEq] at hcall
      exact .inl (hcall.2 ▸ rfl)
  | some left =>
      simp only [hleft] at hcall
      by_cases hexceeds : left < buffer.length
      · simp only [if_pos hexceeds, Option.some.injEq, Prod.mk.injEq] at hcall
        exact .inl (hcall.2 ▸ rfl)
      rw [if_neg hexceeds] at hcall
      by_cases hnone : n ≤ 0
      · simp only [if_pos hnone, Option.some.injEq, Prod.mk.injEq] at hcall
        exact .inl (hcall.2 ▸ rfl)
      rw [if_neg hnone] at hcall
      obtain ⟨d, hd, m, hm, hsize⟩ := h.owes fd left hleft
      simp only [hd] at hcall
      obtain ⟨hn, hcall⟩ := Option.ite_none_right_eq_some.mp hcall
      simp only [Option.some.injEq, Prod.mk.injEq] at hcall
      obtain ⟨hr, rfl⟩ := hcall
      exact .inr ⟨d, m, hd, hm, hr.symm, by omega, hn, by omega,
        ⟨_, Function.update_self .., rfl⟩, rfl⟩

theorem closeFileInfo_full {hf : Fd} {closing : Closing} {r : Int} {t : Extraction}
    (hcall : s.closeFileInfo hf closing = some (r, t)) (hr : r ≠ -1) :
    s.ctx.remaining hf = some 0 := by
  simp only [Extraction.closeFileInfo] at hcall
  split at hcall
  · assumption
  · exact absurd (Prod.mk.inj (Option.some.inj hcall)).1.symm hr

/-- The account is right, whatever the system calls. -/
theorem counts_of_reaches {allowed : Extraction → Callback → Prop} {cabinet : Path}
    {others : Fd → Option Path} {files : Path → Option Bytes}
    (h : Reaches step allowed (start cabinet members others files) s) : Counts members s := by
  have haccounted : Accounted members s := accounted_of_reaches h
  refine
    { balanced := ?_
      fits := fun fd buffer n r t hcall => write_fits haccounted hcall
      bounded := haccounted.within
      opens := fun name cb opening r t hcall => copyFile_opens haccounted hcall
      once := haccounted.once
      expected := ?_
      completedOnce := (unshared_name h).once
      full := fun hf closing r t hcall => closeFileInfo_full hcall
      counted := fun hcopy erfOper hreturns m hm => haccounted.complete hcopy hreturns hm }
  · intro fd hin d m hd hm
    obtain ⟨left, hleft⟩ := Option.isSome_iff_exists.mp
      (haccounted.tracked fd d hd (Option.isSome_of_eq_some hm) hin)
    obtain ⟨d', hd', m', hm', hsize⟩ := haccounted.owes fd left hleft
    obtain rfl := Option.some.inj (hd.symm.trans hd')
    obtain rfl := Option.some.inj (hm.symm.trans hm')
    exact ⟨((haccounted.within fd d hd).member m hm).1, left, hleft, hsize⟩
  · intro name hname
    obtain ⟨m, hm, rfl⟩ := List.mem_map.mp (haccounted.expected (haccounted.extracted hname))
    exact ⟨m, hm, rfl⟩

/-- Where the files hold what was written, a right account is one of the files. -/
theorem Counts.writesExactly (h : Counts members s) (hkept : Kept s) : WritesExactly members s := by
  refine { h with holds := ?_, inside := ?_, contents := hkept.closed, complete := ?_ }
  · intro fd d m hd hm
    obtain ⟨hpath, -, hfile⟩ := hkept.serves fd d m hd hm
    exact ⟨hpath, hfile⟩
  · intro fd buffer n r t hcall
    rcases h.fits fd buffer n r t hcall with hsame | ⟨d, m, hd, hm, -, -, -, hsize, -, hfiles⟩
    · exact .inl hsame
    obtain ⟨-, hpos, hfile⟩ := hkept.serves fd d m hd hm
    refine .inr ⟨d, m, hd, hm, hpos, hpos ▸ hsize, ?_⟩
    rw [hfiles, hfile, Option.getD_some, hpos, writeAt_length]
  · intro hcopy erfOper hreturns m hm
    obtain ⟨data, hrecord, hlength⟩ := h.counted hcopy erfOper hreturns m hm
    exact ⟨data, hkept.closed (m, data) hrecord, hlength⟩

/-- Every member is written once, and as many octets of it as it declares, whatever the
system calls; where that does not move in a member's file, they are its file. -/
theorem cabinetCallbacks_exact {cabinet : Path} {others : Fd → Option Path}
    {files : Path → Option Bytes}
    (h : Reaches step (fun _ _ => True) (start cabinet members others files) s) :
    Counts members s ∧
      (Reaches step Orderly (start cabinet members others files) s → WritesExactly members s) := by
  have hcounts : Counts members s := counts_of_reaches h
  exact ⟨hcounts, fun horderly => hcounts.writesExactly (kept_of_orderly horderly)⟩

/-! ## A copy of one member -/

/-- A payload of three bytes. -/
def onePayload : CabinetMember where
  name := ascii "app.exe"
  path := payloadPath 0 0
  size := 3
  date := 0
  time := 0
  attributes := 0

def oneCabinet : Extraction :=
  start (.temp 0 (ascii "cabinet-0")) [onePayload] (fun _ => none) (fun _ => none)

/-- The system opens the cabinet, and the runtime takes the payload in two writes. -/
def oneCopy : List Callback :=
  [.openFile (ascii "input.cab") false (.opened 3), .read 3 36, .seek 3 (some 44),
    .copyFile (ascii "app.exe") 3 (.opened 4), .write 4 [77, 90, 0] 2, .write 4 [0] 1,
    .closeFileInfo 4 .closed, .close 3 .closed]

def oneCopied : Extraction := ((steps step oneCabinet oneCopy).getD oneCabinet)

theorem steps_oneCopy : steps step oneCabinet oneCopy = some oneCopied := by
  rfl

instance (s : Extraction) : ∀ callback, Decidable (Orderly s callback)
  | .seek fd (some pos) =>
      inferInstanceAs (Decidable (∀ d ∈ s.descriptors fd, d.member.isSome → pos = d.pos))
  | .openFile name clears _ =>
      inferInstanceAs (Decidable
        (clears → ∀ m ∈ s.ctx.members, s.target m.path ≠ s.target (.user name)))
  | .seek _ none => .isTrue trivial
  | .copyFile .. => .isTrue trivial
  | .closeFileInfo .. => .isTrue trivial
  | .nextCabinet => .isTrue trivial
  | .partialFile => .isTrue trivial
  | .otherNotification => .isTrue trivial
  | .read .. => .isTrue trivial
  | .write .. => .isTrue trivial
  | .close .. => .isTrue trivial

/-- The system moves in the cabinet only. -/
theorem orderly_oneCopy : Reaches step Orderly oneCabinet oneCopied := by
  have hguarded : steps (fun s callback => if Orderly s callback then step s callback else none)
      oneCabinet oneCopy = some oneCopied := by
    rfl
  exact Reaches.start.of_guarded hguarded

theorem cabinetCallbacks_oneCopy :
    oneCopied.closed = [(onePayload, [77, 90, 0])] ∧ extractCabinet oneCopied true 0 = .ok () ∧
      WritesExactly [onePayload] oneCopied :=
  ⟨by decide +kernel, by decide +kernel, (cabinetCallbacks_exact
    (Reaches.start.of_steps (fun _ _ _ => trivial) steps_oneCopy)).2 orderly_oneCopy⟩

/-- A member whose file has another size after a copy that succeeds. -/
theorem not_writesExactly_of_file (hcopy : CopySucceeded s)
    (hreturns : extractCabinet s true 0 = .ok ()) {m : CabinetMember} (hm : m ∈ members)
    {data : Bytes} (hfile : s.files (s.target m.path) = some data) (hsize : data.length ≠ m.size) :
    ¬ WritesExactly members s := by
  intro hexact
  obtain ⟨held, hheld, hlength⟩ := hexact.complete hcopy 0 hreturns m hm
  obtain rfl : data = held := Option.some.inj (hfile.symm.trans hheld)
  exact hsize hlength

/-- The system moves past the end of the payload before it writes. -/
def soughtCopy : List Callback :=
  [.openFile (ascii "input.cab") false (.opened 3), .copyFile (ascii "app.exe") 3 (.opened 4),
    .seek 4 (some 100), .write 4 [77, 90, 0] 3, .closeFileInfo 4 .closed, .close 3 .closed]

def soughtCopied : Extraction := ((steps step oneCabinet soughtCopy).getD oneCabinet)

/-- The payload, extracted to a path that the system can name. -/
def namedCabinet : Extraction :=
  start (.temp 0 (ascii "cabinet-0")) [{ onePayload with path := .user (ascii "app.exe") }]
    (fun _ => none) (fun _ => none)

/-- The system opens the payload's file again, and empties it. -/
def emptiedCopy : List Callback :=
  [.copyFile (ascii "app.exe") 3 (.opened 4), .write 4 [77, 90, 0] 3, .closeFileInfo 4 .closed,
    .openFile (ascii "app.exe") true (.opened 3), .close 3 .closed]

def emptiedCopied : Extraction := ((steps step namedCabinet emptiedCopy).getD namedCabinet)

/-- The copies succeed and the account of three octets is right, but the file of the payload
has 103 of them or none. -/
theorem not_writesExactly_disorderly :
    (steps step oneCabinet soughtCopy = some soughtCopied ∧ CopySucceeded soughtCopied ∧
      extractCabinet soughtCopied true 0 = .ok () ∧
      soughtCopied.files onePayload.path = some (List.replicate 100 0 ++ [77, 90, 0]) ∧
      ¬ WritesExactly soughtCopied.ctx.members soughtCopied) ∧
    (steps step namedCabinet emptiedCopy = some emptiedCopied ∧ CopySucceeded emptiedCopied ∧
      extractCabinet emptiedCopied true 0 = .ok () ∧
      emptiedCopied.files (.user (ascii "app.exe")) = some [] ∧
      ¬ WritesExactly emptiedCopied.ctx.members emptiedCopied) := by
  constructor
  · have hcopy : CopySucceeded soughtCopied := ⟨by decide +kernel, by decide +kernel⟩
    have hreturns : extractCabinet soughtCopied true 0 = .ok () := by decide +kernel
    have hfile :
        soughtCopied.files onePayload.path = some (List.replicate 100 0 ++ [77, 90, 0]) := by
      decide +kernel
    exact ⟨by rfl, hcopy, hreturns, hfile,
      not_writesExactly_of_file hcopy hreturns List.mem_cons_self hfile (by decide)⟩
  · have hcopy : CopySucceeded emptiedCopied := ⟨by decide +kernel, by decide +kernel⟩
    have hreturns : extractCabinet emptiedCopied true 0 = .ok () := by decide +kernel
    have hfile : emptiedCopied.files (.user (ascii "app.exe")) = some [] := by decide +kernel
    exact ⟨by rfl, hcopy, hreturns, hfile,
      not_writesExactly_of_file hcopy hreturns List.mem_cons_self hfile (by decide)⟩

end Fdi

end AasSign
