import AasSign.Msi.SigningSteps

/-! # Turns

The payloads have their turns one after the other. Those that had theirs hold
what the callback left, the others what they held at the start; the budget
moves with the files.
-/

namespace AasSign

open Foundation Program

/-- The callback has signed the payload. -/
def SignedAt (events : List MsiEvent) (path : Path) : Prop :=
  ∃ container left, .returned container path true left ∈ events

/-- A payload that had its turn, as its file and the log tell. -/
structure Turn (R : Bytes → Bool → Bytes → Prop) (start : World) (s : Rewrite) (path : Path)
    (before after : Bytes) (signed : Bool) : Prop where
  held : start.files path = some before
  holds : s.world.files path = some after
  returns : ∀ container returned left, .returned container path returned left ∈ s.events →
    returned = signed ∧ left = some after
  returned : signed = true → SignedAt s.events path
  unsigned : signed = false → after = before
  candidate : signed = true → peCandidate before = true
  answer : peCandidate before = true → R before signed after

/-- The payload is as it was at the start, and the callback has not been called on it. -/
structure Ahead (start : World) (s : Rewrite) (path : Path) : Prop where
  same : s.world.files path = start.files path
  silent : ∀ container returned left, .returned container path returned left ∉ s.events

/-- The payloads that the callback is to see. -/
def candidates (start : World) (paths : List Path) : Nat :=
  paths.countP fun path => peCandidate ((start.files path).getD [])

/-- The payloads in `done` had their turns, the others are ahead. -/
structure Passing (R : Bytes → Bool → Bytes → Prop) (start : Rewrite) (paths done : List Path)
    (s : Rewrite) : Prop where
  subset : done ⊆ paths
  passed : ∀ path ∈ done, ∃ before after signed, Turn R start.world s path before after signed
  ahead : ∀ path ∈ paths, path ∉ done → Ahead start.world s path
  made : start.world.nextDir ≤ s.world.nextDir
  counted : s.signedFiles + s.preservedFiles = candidates start.world done
  unsigned : s.signedFiles = 0 → ∀ path, ¬ SignedAt s.events path
  expanded : s.expanded + (paths.map (fileSize start.world)).sum =
    start.expanded + (paths.map (fileSize s.world)).sum
  limit : s.expanded ≤ expansionLimit

/-- Changing one summand changes the sum by as much. -/
theorem sum_map_update {α : Type} [DecidableEq α] {f g : α → Nat} {items : List α} {a : α}
    (hitems : items.Nodup) (ha : a ∈ items) (hothers : ∀ b ∈ items, b ≠ a → g b = f b) :
    (items.map g).sum + f a = (items.map f).sum + g a := by
  have hperm := List.perm_cons_erase ha
  have hrest : (items.erase a).map g = (items.erase a).map f := by
    apply List.map_congr_left
    intro b hb
    obtain ⟨hne, hmem⟩ := hitems.mem_erase_iff.mp hb
    exact hothers b hmem hne
  rw [(hperm.map g).sum_nat, (hperm.map f).sum_nat, List.map_cons, List.map_cons, List.sum_cons,
    List.sum_cons, hrest]
  omega

section Turns

variable {R : Bytes → Bool → Bytes → Prop} {start s s' : Rewrite} {w : World}
  {paths done : List Path} {path other : Path} {before after : Bytes} {signed : Bool}
  {container : MsiStream} {may : Path → Prop}

theorem SignedAt.append {events events' : List MsiEvent} (h : SignedAt events path) :
    SignedAt (events ++ events') path := by
  obtain ⟨container, left, hmem⟩ := h
  exact ⟨container, left, List.mem_append_left _ hmem⟩

theorem Turn.signedAt_iff (h : Turn R w s path before after signed) :
    SignedAt s.events path ↔ signed = true := by
  refine ⟨?_, h.returned⟩
  rintro ⟨container, left, hmem⟩
  exact (h.returns container true left hmem).1.symm

theorem Ahead.not_signedAt (h : Ahead w s path) : ¬ SignedAt s.events path := by
  rintro ⟨container, left, hmem⟩
  exact h.silent container true left hmem

/-! ## Steps between turns -/

theorem Keeps.returned_iff (h : Keeps may s s') {returned : Bool} {left : Option Bytes} :
    .returned container path returned left ∈ s'.events ↔
      .returned container path returned left ∈ s.events := by
  obtain ⟨events, hevents, hreturns⟩ := h.events
  rw [hevents, List.mem_append, or_iff_left]
  exact fun hmem => hreturns _ hmem trivial

theorem Keeps.signedAt_iff (h : Keeps may s s') : SignedAt s'.events path ↔ SignedAt s.events path := by
  simp only [SignedAt, h.returned_iff]

theorem Keeps.turn (h : Keeps may s s') (hfile : s'.world.files path = s.world.files path)
    (hturn : Turn R w s path before after signed) : Turn R w s' path before after signed where
  held := hturn.held
  holds := hfile.trans hturn.holds
  returns := fun container returned left hmem =>
    hturn.returns container returned left (h.returned_iff.mp hmem)
  returned := fun hsigned => h.signedAt_iff.mpr (hturn.returned hsigned)
  unsigned := hturn.unsigned
  candidate := hturn.candidate
  answer := hturn.answer

theorem Keeps.passing (h : Keeps may s s') (hmay : ∀ path ∈ paths, ¬ may path)
    (hheld : ∀ path ∈ paths, start.world.Holds path)
    (hpassing : Passing R start paths done s) : Passing R start paths done s' := by
  have hfiles : ∀ path ∈ paths, s'.world.files path = s.world.files path := fun path hpath =>
    h.files path ((hheld path hpath).mono hpassing.made) (hmay path hpath)
  constructor
  case subset => exact hpassing.subset
  case passed =>
    intro path hpath
    obtain ⟨before, after, signed, hturn⟩ := hpassing.passed path hpath
    exact ⟨before, after, signed, h.turn (hfiles path (hpassing.subset hpath)) hturn⟩
  case ahead =>
    intro path hpath hnew
    obtain ⟨hsame, hsilent⟩ := hpassing.ahead path hpath hnew
    exact ⟨(hfiles path hpath).trans hsame, fun container returned left hmem =>
      hsilent container returned left (h.returned_iff.mp hmem)⟩
  case made => exact hpassing.made.trans h.made
  case counted =>
    rw [h.signedFiles, h.preservedFiles]
    exact hpassing.counted
  case unsigned =>
    intro hsigned path
    rw [h.signedAt_iff]
    exact hpassing.unsigned (h.signedFiles ▸ hsigned) path
  case expanded =>
    have hsizes : paths.map (fileSize s'.world) = paths.map (fileSize s.world) :=
      List.map_congr_left fun path hpath => fileSize_congr (hfiles path hpath)
    rw [h.expanded, hsizes]
    exact hpassing.expanded
  case limit =>
    rw [h.expanded]
    exact hpassing.limit

/-! ## One turn -/

theorem Visit.returned_iff (h : Visit R container path before after signed s s')
    (hother : other ≠ path) {container' : MsiStream} {returned : Bool} {left : Option Bytes} :
    .returned container' other returned left ∈ s'.events ↔
      .returned container' other returned left ∈ s.events := by
  obtain ⟨events, hevents, hreturns, -⟩ := h.events
  rw [hevents, List.mem_append, or_iff_left]
  exact fun hmem => hother (hreturns _ _ _ _ hmem).1

theorem Visit.signedAt_iff (h : Visit R container path before after signed s s')
    (hother : other ≠ path) : SignedAt s'.events other ↔ SignedAt s.events other := by
  simp only [SignedAt, h.returned_iff hother]

theorem Visit.turn (h : Visit R container path before after signed s s')
    (hahead : Ahead w s path) : Turn R w s' path before after signed := by
  obtain ⟨events, hevents, hreturns, hsigned⟩ := h.events
  refine ⟨hahead.same.symm.trans h.held, h.holds, fun container' returned left hmem => ?_,
    fun htrue => ?_, h.unsigned, h.candidate, h.answer⟩
  · rw [hevents] at hmem
    rcases List.mem_append.mp hmem with hold | hnew
    · exact absurd hold (hahead.silent _ _ _)
    · exact (hreturns _ _ _ _ hnew).2
  · exact ⟨container, some after, hevents ▸ List.mem_append_right _ (hsigned htrue)⟩

theorem Visit.passing (h : Visit R container path before after signed s s')
    (hpaths : paths.Nodup) (hheld : ∀ path ∈ paths, start.world.Holds path)
    (hpath : path ∈ paths) (hnew : path ∉ done) (hpassing : Passing R start paths done s) :
    Passing R start paths (done ++ [path]) s' := by
  have hahead := hpassing.ahead path hpath hnew
  have hturn := h.turn hahead
  have hfiles (other : Path) (hother : other ∈ paths) (hne : other ≠ path) :
      s'.world.files other = s.world.files other :=
    h.others other ((hheld other hother).mono hpassing.made) hne
  constructor
  case subset => exact List.append_subset.mpr ⟨hpassing.subset, by simpa using hpath⟩
  case passed =>
    simp only [List.mem_append, List.mem_singleton]
    intro other hother
    by_cases hsame : other = path
    · exact ⟨before, after, signed, hsame ▸ hturn⟩
    · have hother := hother.resolve_right hsame
      obtain ⟨before', after', signed', hturn'⟩ := hpassing.passed other hother
      exact ⟨before', after', signed', hturn'.held,
        (hfiles other (hpassing.subset hother) hsame).trans hturn'.holds,
        fun container' returned left hmem =>
          hturn'.returns container' returned left ((h.returned_iff hsame).mp hmem),
        fun htrue => (h.signedAt_iff hsame).mpr (hturn'.returned htrue), hturn'.unsigned,
        hturn'.candidate, hturn'.answer⟩
  case ahead =>
    intro other hother hnot
    simp only [List.mem_append, List.mem_singleton, not_or] at hnot
    obtain ⟨hsame, hsilent⟩ := hpassing.ahead other hother hnot.1
    exact ⟨(hfiles other hother hnot.2).trans hsame, fun container' returned left hmem =>
      hsilent container' returned left ((h.returned_iff hnot.2).mp hmem)⟩
  case made => exact hpassing.made.trans h.made
  case counted =>
    -- A candidate raises one of the two counters, and nothing else does.
    have hbefore : (start.world.files path).getD [] = before := by
      rw [hturn.held]
      rfl
    have hcounted := hpassing.counted
    have hcandidate := h.candidate
    rw [candidates, List.countP_append, List.countP_singleton, hbefore, h.signedFiles,
      h.preservedFiles]
    rw [candidates] at hcounted
    by_cases hpe : peCandidate before = true
    · cases signed <;> simp [hpe] <;> omega
    · have hfalse : signed = false := by simpa [hpe] using hcandidate
      simp [hpe, hfalse]
      omega
  case unsigned =>
    intro hzero other
    have hcount := h.signedFiles
    have hfalse : signed = false := by
      cases signed with
      | false => rfl
      | true => simp only [if_true] at hcount; omega
    have hbefore : s.signedFiles = 0 := by omega
    by_cases hsame : other = path
    · rw [hsame, hturn.signedAt_iff, hfalse]
      exact Bool.false_ne_true
    · rw [h.signedAt_iff hsame]
      exact hpassing.unsigned hbefore other
  case expanded =>
    -- The expansion moves by what the file of this path grew.
    have hsum := sum_map_update (f := fileSize s.world) (g := fileSize s'.world) hpaths hpath
      fun other hother hne => fileSize_congr (hfiles other hother hne)
    have hbefore : fileSize s.world path = before.length := by
      rw [fileSize, h.held]
      rfl
    have hafter : fileSize s'.world path = after.length := by
      rw [fileSize, h.holds]
      rfl
    have hexpanded := hpassing.expanded
    have hmoved := h.expanded
    omega
  case limit => exact h.limit hpassing.limit

end Turns

end AasSign
