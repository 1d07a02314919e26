import AasSign.Msi.CabinetCallbacks

/-! # The account of an extraction

Whatever the system calls, what is left of a member is its declared size without what has
been written of it. `Effect` lists what a callback can do; each invariant is checked
against that list.
-/

namespace AasSign

open Foundation

namespace Fdi

/-- A table after one entry was set. -/
theorem update_eq_some {α β : Type} [DecidableEq α] {f : α → Option β} {a b : α} {v : Option β}
    {c : β} : Function.update f a v b = some c ↔ b = a ∧ v = some c ∨ b ≠ a ∧ f b = some c := by
  by_cases h : b = a
  · simp [h]
  · simp [h]

variable {s s' : Extraction} {callback : Callback} {members : List CabinetMember}

/-- The state with an error text; `FDICopy` may be told to fail. -/
def Extraction.told (s : Extraction) (error : Bytes) (aborted : Bool) : Extraction :=
  { s with ctx := { s.ctx with error }, aborted }

/-- `COPY_FILE` with success. -/
def Extraction.openMember (s : Extraction) (fd : Fd) (member : CabinetMember) : Extraction :=
  (((s.insertExtracted member.name).insertHandle fd member.path (some member) true).emplaceRemaining
    fd member.size).recordOpened member.name

/-- A descriptor that is read or written next at another place. -/
def Extraction.move (s : Extraction) (fd : Fd) (d : Descriptor) (pos : Nat) : Extraction :=
  { s with descriptors := Function.update s.descriptors fd (some { d with pos }) }

theorem Extraction.closeHandle_descriptors_of_ne (s : Extraction) {fd other : Fd}
    (closing : Closing) (hne : other ≠ fd) :
    (s.closeHandle fd closing).descriptors other = s.descriptors other := by
  simp only [Extraction.closeHandle]
  split_ifs
  · rfl
  · exact Function.update_of_ne hne ..

theorem Extraction.descriptors_of_closeHandle (s : Extraction) {fd other : Fd} {closing : Closing}
    {d : Descriptor} (hd : (s.closeHandle fd closing).descriptors other = some d) :
    s.descriptors other = some d := by
  simp only [Extraction.closeHandle] at hd
  split_ifs at hd
  · exact hd
  · rcases update_eq_some.mp hd with ⟨-, hnone⟩ | ⟨-, hold⟩
    · exact absurd hnone nofun
    · exact hold

/-- What a callback can do. -/
inductive Effect (s : Extraction) : Callback → Extraction → Prop where
  | told {callback : Callback} {error : Bytes} {aborted : Bool} (haborted : s.aborted → aborted) :
      Effect s callback (s.told error aborted)
  | refused {callback : Callback} {name error : Bytes} (hexpected : ∃ m ∈ s.ctx.members, m.name = name)
      (hnew : name ∉ s.ctx.extracted) :
      Effect s callback ((s.insertExtracted name).told error true)
  | openedMember {callback : Callback} {fd : Fd} {member : CabinetMember}
      (hexpected : member ∈ s.ctx.members) (hnew : member.name ∉ s.ctx.extracted)
      (hfresh : s.Fresh fd) (habsent : s.files (s.target member.path) = none) :
      Effect s callback (s.openMember fd member)
  | openedFile {name : Bytes} {clears : Bool} {fd : Fd} (hfresh : s.Fresh fd) :
      Effect s (.openFile name clears (.opened fd)) (s.insertHandle fd (.user name) none clears)
  | wrote {fd : Fd} {buffer chunk : Bytes} {n : Int} {d : Descriptor} {left : Nat}
      (hleft : s.ctx.remaining fd = some left) (hfits : chunk.length ≤ left)
      (hd : s.descriptors fd = some d) :
      Effect s (.write fd buffer n) (s.putChunk fd d left chunk)
  | moved {callback : Callback} {fd : Fd} {d : Descriptor} {pos : Nat} (hd : s.descriptors fd = some d)
      (hmember : d.member = none ∨ callback = .seek fd (some pos)) :
      Effect s callback (s.move fd d pos)
  | closed {callback : Callback} {fd : Fd} {closing : Closing} :
      Effect s callback (s.closeHandle fd closing)
  | completed {callback : Callback} {fd : Fd} {d : Descriptor}
      (hleft : s.ctx.remaining fd = some 0) (hd : s.descriptors fd = some d) :
      Effect s callback ((s.closeHandle fd .closed).recordClosed
        (d.member.map fun member => (member, d.written)))

/-! ## The callbacks have these effects -/

theorem step_eq_some : step s callback = some s' ↔
    ∃ r t, call s callback = some (r, t) ∧
      s' = { t with aborted := t.aborted || (callback.Notifies && r = -1) } := by
  simp only [step, Option.map_eq_some_iff, Prod.exists]
  constructor
  · rintro ⟨r, t, hcall, rfl⟩
    exact ⟨r, t, hcall, rfl⟩
  · rintro ⟨r, t, hcall, rfl⟩
    exact ⟨r, t, hcall, rfl⟩

/-- The flag stays when the system is not told to fail. -/
theorem aborted_or_false {t : Extraction} {b : Bool} (hb : b = false) :
    { t with aborted := t.aborted || b } = t := by
  rw [hb, Bool.or_false]

theorem Effect.of_fail {what : Bytes} {b : Bool} :
    Effect s callback { s.fail what with aborted := (s.fail what).aborted || b } :=
  .told (Bool.or_eq_true_iff.mpr ∘ .inl)

theorem Effect.of_same {b : Bool} :
    Effect s callback { s with aborted := s.aborted || b } :=
  @Effect.told s callback s.ctx.error (s.aborted || b) (Bool.or_eq_true_iff.mpr ∘ .inl)

/-- A refused member counts as extracted, but then the copy fails. -/
theorem Effect.of_refused {name error : Bytes} (hexpected : ∃ m ∈ s.ctx.members, m.name = name)
    (hnew : name ∉ s.ctx.extracted) :
    Effect s callback
      { (s.insertExtracted name).fail error with
        aborted := ((s.insertExtracted name).fail error).aborted || true } := by
  rw [Bool.or_true]
  exact .refused hexpected hnew

theorem copyFile_effect {name : Bytes} {cb : Int} {opening : Opening} {r : Int} {t : Extraction}
    (h : s.copyFile name cb opening = some (r, t)) :
    Effect s (.copyFile name cb opening)
      { t with aborted := t.aborted || decide (r = -1) } := by
  simp only [Extraction.copyFile] at h
  cases hfind : s.ctx.members.find? (·.name = name) with
  | none =>
      simp only [hfind, Option.some.injEq, Prod.mk.injEq] at h
      rw [← h.2]
      exact .of_fail
  | some member =>
      have hmember : member ∈ s.ctx.members := List.mem_of_find?_eq_some hfind
      have hname : member.name = name := by simpa using List.find?_some hfind
      simp only [hfind] at h
      split_ifs at h with hold hcb
      · simp only [Option.some.injEq, Prod.mk.injEq] at h
        rw [← h.2]
        exact .of_fail
      · simp only [Option.some.injEq, Prod.mk.injEq] at h
        rw [← h.1, ← h.2]
        exact .of_refused ⟨member, hmember, hname⟩ hold
      · cases opening with
        | failed strerror =>
            simp only [Option.some.injEq, Prod.mk.injEq] at h
            rw [← h.1, ← h.2]
            exact .of_refused ⟨member, hmember, hname⟩ hold
        | threw what =>
            simp only [Option.some.injEq, Prod.mk.injEq] at h
            rw [← h.1, ← h.2]
            exact .of_refused ⟨member, hmember, hname⟩ hold
        | opened fd =>
            obtain ⟨⟨hfresh, habsent⟩, h⟩ := Option.ite_none_right_eq_some.mp h
            simp only [Option.some.injEq, Prod.mk.injEq] at h
            have hfd : decide (r = -1) = false := by
              have hpos : (0 : Int) ≤ fd := hfresh.1
              have hr : (fd : Int) = r := h.1
              exact decide_eq_false (by omega)
            rw [aborted_or_false hfd, ← h.2]
            subst hname
            exact .openedMember hmember hold hfresh habsent

theorem closeFileInfo_effect {hf : Fd} {closing : Closing} {r : Int} {t : Extraction}
    (h : s.closeFileInfo hf closing = some (r, t)) :
    Effect s (.closeFileInfo hf closing)
      { t with aborted := t.aborted || decide (r = -1) } := by
  simp only [Extraction.closeFileInfo] at h
  split at h
  · rename_i hleft
    obtain ⟨hmay, h⟩ := Option.ite_none_right_eq_some.mp h
    by_cases hclosing : closing = .closed
    · rw [if_pos hclosing] at h
      simp only [Option.some.injEq, Prod.mk.injEq] at h
      obtain ⟨d, hd⟩ := Option.isSome_iff_exists.mp (hmay hclosing)
      rw [← h.1, ← h.2, aborted_or_false (by decide), hclosing, hd]
      exact .completed hleft hd
    · rw [if_neg hclosing] at h
      simp only [Option.some.injEq, Prod.mk.injEq] at h
      rw [← h.1, ← h.2, aborted_or_false (by decide)]
      exact .closed
  · simp only [Option.some.injEq, Prod.mk.injEq] at h
    rw [← h.2]
    exact .of_fail

theorem openFile_effect {name : Bytes} {clears : Bool} {opening : Opening} {r : Int}
    {t : Extraction} (h : s.openFile name clears opening = some (r, t)) :
    Effect s (.openFile name clears opening) t := by
  cases opening with
  | failed strerror =>
      simp only [Extraction.openFile, Option.some.injEq, Prod.mk.injEq] at h
      rw [← h.2]
      exact .told id
  | threw what =>
      simp only [Extraction.openFile, Option.some.injEq, Prod.mk.injEq] at h
      rw [← h.2]
      exact .told id
  | opened fd =>
      obtain ⟨hfresh, h⟩ := Option.ite_none_right_eq_some.mp h
      simp only [Option.some.injEq, Prod.mk.injEq] at h
      rw [← h.2]
      exact .openedFile hfresh

theorem write_effect {fd : Fd} {buffer : Bytes} {n r : Int} {t : Extraction}
    (h : s.write fd buffer n = some (r, t)) : Effect s (.write fd buffer n) t := by
  simp only [Extraction.write] at h
  cases hleft : s.ctx.remaining fd with
  | none =>
      simp only [hleft, Option.some.injEq, Prod.mk.injEq] at h
      rw [← h.2]
      exact .told id
  | some left =>
      simp only [hleft] at h
      by_cases hexceeds : left < buffer.length
      · simp only [if_pos hexceeds, Option.some.injEq, Prod.mk.injEq] at h
        rw [← h.2]
        exact .told id
      rw [if_neg hexceeds] at h
      by_cases hnone : n ≤ 0
      · simp only [if_pos hnone, Option.some.injEq, Prod.mk.injEq] at h
        rw [← h.2]
        exact @Effect.told s _ s.ctx.error _ id
      rw [if_neg hnone] at h
      cases hd : s.descriptors fd with
      | none => simp [hd] at h
      | some d =>
          simp only [hd] at h
          obtain ⟨-, h⟩ := Option.ite_none_right_eq_some.mp h
          simp only [Option.some.injEq, Prod.mk.injEq] at h
          have hfits : (buffer.take n.toNat).length ≤ left := by
            rw [List.length_take]
            omega
          rw [← h.2]
          exact .wrote hleft hfits hd

theorem read_effect {fd : Fd} {n r : Int} {t : Extraction} (h : s.read fd n = some (r, t)) :
    Effect s (.read fd n) t := by
  simp only [Extraction.read] at h
  split_ifs at h
  · simp only [Option.some.injEq, Prod.mk.injEq] at h
    rw [← h.2]
    exact @Effect.told s _ s.ctx.error _ id
  · cases hd : s.descriptors fd with
    | none => simp [hd] at h
    | some d =>
        simp only [hd] at h
        obtain ⟨hmember, h⟩ := Option.ite_none_left_eq_some.mp h
        simp only [Option.some.injEq, Prod.mk.injEq] at h
        rw [← h.2]
        exact .moved hd (.inl (by simpa using hmember))

theorem seek_effect {fd : Fd} {pos : Option Nat} {r : Int} {t : Extraction}
    (h : s.seek fd pos = some (r, t)) : Effect s (.seek fd pos) t := by
  cases pos with
  | none =>
      simp only [Extraction.seek, Option.some.injEq, Prod.mk.injEq] at h
      rw [← h.2]
      exact @Effect.told s _ s.ctx.error _ id
  | some pos =>
      cases hd : s.descriptors fd with
      | none => simp [Extraction.seek, hd] at h
      | some d =>
          simp only [Extraction.seek, hd, Option.some.injEq, Prod.mk.injEq] at h
          rw [← h.2]
          exact .moved hd (.inr rfl)

theorem close_effect {fd : Fd} {closing : Closing} {r : Int} {t : Extraction}
    (h : s.close fd closing = some (r, t)) : Effect s (.close fd closing) t := by
  obtain ⟨hmay, h⟩ := Option.ite_none_right_eq_some.mp h
  simp only [Option.some.injEq, Prod.mk.injEq] at h
  rw [← h.2]
  exact .closed

/-- Every step has one of the effects. -/
theorem step_effect (h : step s callback = some s') : Effect s callback s' := by
  obtain ⟨r, t, hcall, rfl⟩ := step_eq_some.mp h
  cases callback with
  | copyFile name cb opening => exact copyFile_effect hcall
  | closeFileInfo hf closing => exact closeFileInfo_effect hcall
  | nextCabinet =>
      cases hcall
      exact .of_fail
  | partialFile =>
      cases hcall
      exact .of_fail
  | otherNotification =>
      cases hcall
      exact .of_same
  | openFile name clears opening =>
      simpa only [Callback.Notifies, Bool.false_and, Bool.or_false] using openFile_effect hcall
  | read fd n =>
      simpa only [Callback.Notifies, Bool.false_and, Bool.or_false] using read_effect hcall
  | write fd buffer n =>
      simpa only [Callback.Notifies, Bool.false_and, Bool.or_false] using write_effect hcall
  | seek fd pos =>
      simpa only [Callback.Notifies, Bool.false_and, Bool.or_false] using seek_effect hcall
  | close fd closing =>
      simpa only [Callback.Notifies, Bool.false_and, Bool.or_false] using close_effect hcall

/-! ## The account -/

/-- What is left of the descriptor's member is what has not been written of it. -/
def Descriptor.Owes (d : Descriptor) (left : Nat) : Prop :=
  ∃ m, d.member = some m ∧ d.written.length + left = m.size

/-- Only the file of an expected member is written, and no more than its size. -/
structure Descriptor.Within (members : List CabinetMember) (d : Descriptor) : Prop where
  member : ∀ m, d.member = some m → m ∈ members ∧ d.written.length ≤ m.size
  other : d.member = none → d.written = []

/-- The account is right. -/
structure Accounted (members : List CabinetMember) (s : Extraction) : Prop where
  expects : s.ctx.members = members
  owes : ∀ fd left, s.ctx.remaining fd = some left → ∃ d, s.descriptors fd = some d ∧ d.Owes left
  within : ∀ fd d, s.descriptors fd = some d → d.Within members
  /-- A member's handle has an entry until it is closed. -/
  tracked : ∀ fd d, s.descriptors fd = some d → d.member.isSome → fd ∈ s.ctx.handles →
    (s.ctx.remaining fd).isSome
  completed : ∀ record ∈ s.closed, record.1 ∈ members ∧ record.2.length = record.1.size
  distinct : s.ctx.extracted.Nodup
  expected : s.ctx.extracted ⊆ members.map (·.name)
  once : s.opened.Nodup
  extracted : s.opened ⊆ s.ctx.extracted
  whole : s.aborted = false → s.ctx.extracted ⊆ s.opened

theorem accounted_start {cabinet : Path} {others : Fd → Option Path} {files : Path → Option Bytes} :
    Accounted members (start cabinet members others files) where
  expects := rfl
  owes := by
    intro fd left h
    cases h
  within := by
    intro fd d h
    obtain ⟨path, -, rfl⟩ := Option.map_eq_some_iff.mp h
    exact ⟨nofun, fun _ => rfl⟩
  tracked := fun fd d hd hm hin => absurd hin (Finset.notMem_empty fd)
  completed := nofun
  distinct := List.nodup_nil
  expected := List.nil_subset _
  once := List.nodup_nil
  extracted := List.nil_subset _
  whole := fun _ => List.nil_subset _

namespace Accounted

variable (h : Accounted members s)

include h

/-- A new descriptor has no entry left over from an earlier file of that number. -/
theorem remaining_of_fresh {fd : Fd} (hfresh : s.Fresh fd) : s.ctx.remaining fd = none := by
  cases hleft : s.ctx.remaining fd with
  | none => rfl
  | some left =>
      obtain ⟨d, hd, -⟩ := h.owes fd left hleft
      exact absurd (hfresh.2.symm.trans hd) nofun

theorem told {error : Bytes} {aborted : Bool} (haborted : s.aborted → aborted) :
    Accounted members (s.told error aborted) :=
  { h with
    whole := by
      intro hnot
      refine h.whole (Bool.eq_false_iff.mpr fun hs => ?_)
      exact Bool.false_ne_true (hnot.symm.trans (haborted hs)) }

theorem refused {name error : Bytes} (hexpected : ∃ m ∈ s.ctx.members, m.name = name)
    (hnew : name ∉ s.ctx.extracted) :
    Accounted members ((s.insertExtracted name).told error true) :=
  { h with
    distinct := List.nodup_cons.mpr ⟨hnew, h.distinct⟩
    expected := by
      obtain ⟨m, hm, rfl⟩ := hexpected
      exact List.cons_subset.mpr ⟨List.mem_map_of_mem (h.expects ▸ hm), h.expected⟩
    extracted := List.subset_cons_of_subset name h.extracted
    whole := nofun }

theorem openedMember {fd : Fd} {member : CabinetMember} (hexpected : member ∈ s.ctx.members)
    (hnew : member.name ∉ s.ctx.extracted) (hfresh : s.Fresh fd) :
    Accounted members (s.openMember fd member) where
  expects := h.expects
  owes := by
    intro other left hleft
    rcases update_eq_some.mp hleft with ⟨rfl, hsize⟩ | ⟨hne, hold⟩
    · refine ⟨_, Function.update_self .., member, rfl, ?_⟩
      have hnone : s.ctx.remaining other = none := h.remaining_of_fresh hfresh
      have hget : (s.ctx.remaining other).getD member.size = left := Option.some.inj hsize
      rw [hnone, Option.getD_none] at hget
      simpa using hget.symm
    · obtain ⟨d, hd, howes⟩ := h.owes other left hold
      exact ⟨d, update_eq_some.mpr (.inr ⟨hne, hd⟩), howes⟩
  within := by
    intro other d hd
    rcases update_eq_some.mp hd with ⟨-, hnew⟩ | ⟨-, hold⟩
    · cases hnew
      refine ⟨?_, nofun⟩
      intro m hm
      cases hm
      exact ⟨h.expects ▸ hexpected, Nat.zero_le _⟩
    · exact h.within other d hold
  tracked := by
    intro other d hd hm hin
    rcases update_eq_some.mp hd with ⟨rfl, -⟩ | ⟨hne, hold⟩
    · exact Option.isSome_iff_exists.mpr ⟨_, Function.update_self ..⟩
    · have hentry : (s.ctx.remaining other).isSome :=
        h.tracked other d hold hm (Finset.mem_of_mem_insert_of_ne hin hne)
      exact (congrArg Option.isSome (Function.update_of_ne hne ..)).trans hentry
  completed := h.completed
  distinct := List.nodup_cons.mpr ⟨hnew, h.distinct⟩
  expected := List.cons_subset.mpr ⟨List.mem_map_of_mem (h.expects ▸ hexpected), h.expected⟩
  once := List.nodup_cons.mpr ⟨fun hin => hnew (h.extracted hin), h.once⟩
  extracted := List.cons_subset_cons member.name h.extracted
  whole := fun hnot => List.cons_subset_cons member.name (h.whole hnot)

theorem openedFile {fd : Fd} {path : Path} {clears : Bool} (hfresh : s.Fresh fd) :
    Accounted members (s.insertHandle fd path none clears) :=
  { h with
    owes := by
      intro other left hleft
      obtain ⟨d, hd, howes⟩ := h.owes other left hleft
      have hne : other ≠ fd := by
        rintro rfl
        exact Option.some_ne_none d (hd.symm.trans hfresh.2)
      exact ⟨d, update_eq_some.mpr (.inr ⟨hne, hd⟩), howes⟩
    within := by
      intro other d hd
      rcases update_eq_some.mp hd with ⟨-, hnew⟩ | ⟨-, hold⟩
      · cases hnew
        exact ⟨nofun, fun _ => rfl⟩
      · exact h.within other d hold
    tracked := by
      intro other d hd hm hin
      rcases update_eq_some.mp hd with ⟨-, hnew⟩ | ⟨hne, hold⟩
      · cases hnew
        cases hm
      · exact h.tracked other d hold hm (Finset.mem_of_mem_insert_of_ne hin hne) }

theorem wrote {fd : Fd} {d : Descriptor} {left : Nat} {chunk : Bytes}
    (hleft : s.ctx.remaining fd = some left) (hfits : chunk.length ≤ left)
    (hd : s.descriptors fd = some d) : Accounted members (s.putChunk fd d left chunk) := by
  obtain ⟨d', hd', m, hm, hsize⟩ := h.owes fd left hleft
  obtain rfl : d = d' := Option.some.inj (hd.symm.trans hd')
  refine { h with owes := ?_, within := ?_, tracked := ?_ }
  · intro other left' hleft'
    rcases update_eq_some.mp hleft' with ⟨rfl, hsub⟩ | ⟨hne, hold⟩
    · refine ⟨_, Function.update_self .., m, hm, ?_⟩
      have hsub : left - chunk.length = left' := Option.some.inj hsub
      simp only [List.length_append]
      omega
    · obtain ⟨e, he, howes⟩ := h.owes other left' hold
      exact ⟨e, update_eq_some.mpr (.inr ⟨hne, he⟩), howes⟩
  · intro other e he
    rcases update_eq_some.mp he with ⟨rfl, hput⟩ | ⟨-, hold⟩
    · cases hput
      refine ⟨?_, fun hnone => absurd (hm.symm.trans hnone) nofun⟩
      intro m' hm'
      obtain rfl : m = m' := Option.some.inj (hm.symm.trans hm')
      refine ⟨((h.within other d hd).member m hm).1, ?_⟩
      simp only [List.length_append]
      omega
    · exact h.within other e hold
  · intro other e he hm' hin
    rcases update_eq_some.mp he with ⟨rfl, -⟩ | ⟨hne, hold⟩
    · exact Option.isSome_iff_exists.mpr ⟨_, Function.update_self ..⟩
    · exact (congrArg Option.isSome (Function.update_of_ne hne ..)).trans
        (h.tracked other e hold hm' hin)

theorem moved {fd : Fd} {d : Descriptor} {pos : Nat} (hd : s.descriptors fd = some d) :
    Accounted members (s.move fd d pos) :=
  { h with
    owes := by
      intro other left hleft
      obtain ⟨e, he, howes⟩ := h.owes other left hleft
      by_cases heq : other = fd
      · subst heq
        obtain rfl : d = e := Option.some.inj (hd.symm.trans he)
        exact ⟨_, Function.update_self .., howes⟩
      · exact ⟨e, update_eq_some.mpr (.inr ⟨heq, he⟩), howes⟩
    within := by
      intro other e he
      rcases update_eq_some.mp he with ⟨rfl, hmoved⟩ | ⟨-, hold⟩
      · cases hmoved
        exact ⟨(h.within other d hd).member, (h.within other d hd).other⟩
      · exact h.within other e hold
    tracked := by
      intro other e he hm hin
      rcases update_eq_some.mp he with ⟨rfl, hmoved⟩ | ⟨-, hold⟩
      · cases hmoved
        exact h.tracked other d hd hm hin
      · exact h.tracked other e hold hm hin }

theorem closed {fd : Fd} {closing : Closing} : Accounted members (s.closeHandle fd closing) :=
  { h with
    owes := by
      intro other left hleft
      rcases update_eq_some.mp hleft with ⟨-, hnone⟩ | ⟨hne, hold⟩
      · exact absurd hnone nofun
      · obtain ⟨d, hd, howes⟩ := h.owes other left hold
        exact ⟨d, (s.closeHandle_descriptors_of_ne closing hne).trans hd, howes⟩
    within := by
      intro other d hd
      exact h.within other d (s.descriptors_of_closeHandle hd)
    tracked := by
      intro other d hd hm hin
      obtain ⟨hne, hin⟩ := Finset.mem_erase.mp hin
      exact (congrArg Option.isSome (Function.update_of_ne hne ..)).trans
        (h.tracked other d (s.descriptors_of_closeHandle hd) hm hin) }

/-- A member whose account is zero is written completely. -/
theorem completes {fd : Fd} {d : Descriptor} (hleft : s.ctx.remaining fd = some 0)
    (hd : s.descriptors fd = some d) :
    Accounted members ((s.closeHandle fd .closed).recordClosed
      (d.member.map fun member => (member, d.written))) := by
  obtain ⟨d', hd', m, hm, hsize⟩ := h.owes fd 0 hleft
  obtain rfl : d = d' := Option.some.inj (hd.symm.trans hd')
  have hclosed : Accounted members (s.closeHandle fd .closed) := h.closed
  refine { hclosed with completed := ?_ }
  rw [hm]
  exact List.forall_mem_cons.mpr ⟨⟨((h.within fd d hd).member m hm).1, hsize⟩, h.completed⟩

theorem effect (heffect : Effect s callback s') : Accounted members s' := by
  cases heffect with
  | told haborted => exact h.told haborted
  | refused hexpected hnew => exact h.refused hexpected hnew
  | openedMember hexpected hnew hfresh _ => exact h.openedMember hexpected hnew hfresh
  | openedFile hfresh => exact h.openedFile hfresh
  | wrote hleft hfits hd => exact h.wrote hleft hfits hd
  | moved hd _ => exact h.moved hd
  | closed => exact h.closed
  | completed hleft hd => exact h.completes hleft hd

end Accounted

/-- The account is right after every history. -/
theorem accounted_of_reaches {allowed : Extraction → Callback → Prop} {cabinet : Path}
    {others : Fd → Option Path} {files : Path → Option Bytes}
    (h : Reaches step allowed (start cabinet members others files) s) : Accounted members s :=
  h.invariant accounted_start fun _ _ _ hinv _ hstep => hinv.effect (step_effect hstep)

end Fdi

end AasSign
