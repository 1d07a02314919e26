import Mathlib.Data.List.Induction
import AasSign.Foundation.History
import AasSign.Msi.Preflight

/-! # The order of the steps

What each step of a rewriting requires of the steps before it: no callback
before the preflight is complete, no update before a signature, and one commit,
at the end, with nothing left to write back.
-/

namespace AasSign

open Foundation Program

/-! ## Requirements -/

def MsiEvent.IsCall : MsiEvent → Prop
  | .called .. => True
  | _ => False

/-- The steps of the preflight. -/
def MsiEvent.Quiet : MsiEvent → Prop
  | .queried _ => True
  | .extracted _ => True
  | .inspected _ => True
  | .unpacked _ => True
  | .mapped => True
  | .optionsChecked => True
  | _ => False

/-- A callback has returned true. -/
def Signed (events : List MsiEvent) : Prop :=
  ∃ container path left, .returned container path true left ∈ events

/-- Containers with a signed payload that have not been written back since. -/
def staleStep (containers : List MsiStream) : MsiEvent → List MsiStream
  | .returned container _ true _ => container :: containers
  | .updated (.stream _ name) => containers.filter (· ≠ .cabinet name)
  | .updated (.binary _ name) => containers.filter (· ≠ .binary name)
  | _ => containers

def stale (events : List MsiEvent) : List MsiStream := events.foldl staleStep []

/-- Every cabinet and Binary stream of the database has gone through the preflight. -/
structure Preflighted (c : MsiContents) (events : List MsiEvent) : Prop where
  cabinets : ∀ row ∈ c.mediaRows, .extracted (.cabinet (row.cabinet.drop 1)) ∈ events ∧
    .inspected (row.cabinet.drop 1) ∈ events ∧ .unpacked (row.cabinet.drop 1) ∈ events
  mapped : .mapped ∈ events
  binaries : ∀ row ∈ c.binaryRows, .extracted (.binary row.1) ∈ events
  options : .optionsChecked ∈ events

/-- What an event requires of the events before it. -/
def MsiEvent.Allowed (c : MsiContents) (before : List MsiEvent) (event : MsiEvent) : Prop :=
  .committed ∉ before ∧
    match event with
    | .called .. => Preflighted c before ∧ .renewed ∉ before
    | .updated _ => Signed before ∧ .renewed ∉ before
    | .renewed => Signed before ∧ stale before = [] ∧ .renewed ∉ before
    | .committed => .renewed ∈ before
    | _ => True

abbrev Orderly (c : MsiContents) (events : List MsiEvent) : Prop :=
  Guarded (MsiEvent.Allowed c) events

theorem Preflighted.mono {c : MsiContents} {events events' : List MsiEvent}
    (h : Preflighted c events) (hsubset : events ⊆ events') : Preflighted c events' := by
  refine ⟨fun row hrow => ?_, hsubset h.mapped, fun row hrow => hsubset (h.binaries row hrow),
    hsubset h.options⟩
  obtain ⟨hextracted, hinspected, hunpacked⟩ := h.cabinets row hrow
  exact ⟨hsubset hextracted, hsubset hinspected, hsubset hunpacked⟩

theorem Signed.mono {events events' : List MsiEvent} (h : Signed events)
    (hsubset : events ⊆ events') : Signed events' := by
  obtain ⟨container, path, left, hmem⟩ := h
  exact ⟨container, path, left, hsubset hmem⟩

theorem stale_snoc (events : List MsiEvent) (event : MsiEvent) :
    stale (events ++ [event]) = staleStep (stale events) event := by
  simp [stale]

/-! ## Quiet steps -/

/-- The log grows by steps of the preflight only. -/
structure Quietly (s s' : Rewrite) : Prop where
  log : ∃ steps, s'.log = s.log ++ steps ∧ ∀ step ∈ steps, step.event.Quiet
  signed : s'.signedFiles = s.signedFiles
  preserved : s'.preservedFiles = s.preservedFiles

instance : IsPreorder Rewrite Quietly where
  refl s := ⟨⟨[], by simp, by simp⟩, rfl, rfl⟩
  trans := by
    intro s s' s'' h h'
    obtain ⟨steps, hlog, hquiet⟩ := h.log
    obtain ⟨steps', hlog', hquiet'⟩ := h'.log
    refine ⟨⟨steps ++ steps', by rw [hlog', hlog, List.append_assoc], ?_⟩,
      h'.signed.trans h.signed, h'.preserved.trans h.preserved⟩
    simp only [List.mem_append]
    rintro step (hstep | hstep)
    · exact hquiet step hstep
    · exact hquiet' step hstep

section Quiet

variable {env : Env} {lib : MsiLibrary} {workspace : Nat}

theorem quietly_onWorld {α : Type} {m : Prog α} : Moves Quietly (onWorld m) := by
  rw [moves_iff]
  exact fun s => ⟨⟨[], (List.append_nil _).symm, by simp⟩, rfl, rfl⟩

theorem quietly_note {event : MsiEvent} (h : event.Quiet) :
    Moves Quietly (note workspace event) := by
  rw [moves_iff]
  exact fun s => ⟨⟨[_], rfl, by simpa using h⟩, rfl, rfl⟩

theorem quietly_change {f : Rewrite → Rewrite}
    (h : ∀ s, (f s).log = s.log ∧ (f s).signedFiles = s.signedFiles ∧
      (f s).preservedFiles = s.preservedFiles) : Moves Quietly (change f : Rewriting Unit) := by
  rw [moves_iff]
  intro s
  obtain ⟨hlog, hsigned, hpreserved⟩ := h s
  exact ⟨⟨[], hlog.trans (List.append_nil _).symm, by simp⟩, hsigned, hpreserved⟩

theorem quietly_query {Row : Type} {q : MsiQuery} {rows : MsiContents → List Row} :
    Moves Quietly (query env workspace q rows) :=
  quietly_onWorld.bind fun _ =>
  moves_current.bind fun _ =>
  (moves_lift _).bind fun _ =>
  (quietly_note (by trivial)).bind fun _ =>
  moves_pure _

theorem quietly_queryIf {Row : Type} {present : Bool} {q : MsiQuery}
    {rows : MsiContents → List Row} : Moves Quietly (queryIf env workspace present q rows) :=
  moves_ite (fun _ => quietly_query) fun _ => moves_pure _

theorem quietly_extractStream {stream : MsiStream} {output : Path} {limit : Nat} :
    Moves Quietly (extractStream env stream output limit) := by
  refine quietly_onWorld.bind fun _ => moves_current.bind fun s => ?_
  cases s.db.select stream with
  | nil => exact moves_raise _
  | cons data duplicates =>
      exact (moves_lift _).bind fun _ => quietly_onWorld.bind fun _ => (moves_lift _).bind fun _ =>
        moves_pure _

theorem quietly_preflightCabinet {scan : List Cabinet × List FileRow} {cabinet : Cabinet} :
    Moves Quietly (preflightCabinet env lib workspace scan cabinet) :=
  quietly_extractStream.bind fun _ =>
  (quietly_note (by trivial)).bind fun _ =>
  quietly_onWorld.bind fun _ =>
  moves_current.bind fun _ =>
  (moves_lift _).bind fun _ =>
  (quietly_change (by simp)).bind fun _ =>
  (quietly_note (by trivial)).bind fun _ =>
  (moves_lift _).bind fun _ =>
  quietly_onWorld.bind fun _ =>
  quietly_onWorld.bind fun _ =>
  (quietly_note (by trivial)).bind fun _ =>
  moves_pure _

theorem quietly_preflightBinary {binaries : List (Bytes × Path)} {row : Bytes × Bytes} :
    Moves Quietly (preflightBinary env workspace binaries row) :=
  moves_current.bind fun _ =>
  (moves_lift _).bind fun _ =>
  (quietly_change (by simp)).bind fun _ =>
  (moves_lift _).bind fun _ =>
  quietly_extractStream.bind fun _ =>
  (quietly_change (by simp)).bind fun _ =>
  (quietly_note (by trivial)).bind fun _ =>
  moves_pure _

theorem quietly_preflight : Moves Quietly (preflight env lib workspace) :=
  quietly_query.bind fun _ =>
  (moves_lift _).bind fun _ =>
  quietly_query.bind fun _ =>
  quietly_onWorld.bind fun _ =>
  moves_current.bind fun _ =>
  quietly_queryIf.bind fun _ =>
  (moves_lift _).bind fun _ =>
  quietly_queryIf.bind fun _ =>
  (moves_lift _).bind fun _ =>
  (moves_foldItems (fun _ _ => quietly_preflightCabinet) _ _).bind fun _ =>
  (moves_lift _).bind fun _ =>
  (quietly_note (by trivial)).bind fun _ =>
  quietly_queryIf.bind fun _ =>
  (moves_foldItems (fun _ _ => quietly_preflightBinary) _ _).bind fun _ =>
  quietly_queryIf.bind fun _ =>
  (moves_lift _).bind fun _ =>
  (quietly_note (by trivial)).bind fun _ =>
  moves_pure _

/-- Quiet steps are always in order, as long as nothing is committed. -/
theorem Orderly.append_quiet {c : MsiContents} {events more : List MsiEvent}
    (h : Orderly c events) (hcommitted : .committed ∉ events) (hmore : ∀ event ∈ more, event.Quiet) :
    Orderly c (events ++ more) := by
  induction more using List.reverseRecOn with
  | nil => simpa using h
  | append_singleton more event ih =>
      rw [← List.append_assoc]
      refine (ih fun other hother => hmore other (List.mem_append_left _ hother)).snoc ⟨?_, ?_⟩
      · simp only [List.mem_append, not_or]
        refine ⟨hcommitted, fun hmem => ?_⟩
        exact hmore .committed (List.mem_append_left _ hmem)
      · have hquiet := hmore event (by simp)
        cases event <;> trivial

end Quiet

end AasSign
