import Mathlib.Data.Fintype.Card
import AasSign.Pool.Workers

/-! # Every file exactly once

The counter hands out each index once; an index is with one worker until its file
is signed and its result is stored. When all workers have ended, the results are
those of the files, in their order.
-/

namespace AasSign

open Foundation

namespace Pool

section Step

variable {files : List Bytes} {maxParallel : Nat} {s s' : Pool} {w v : Nat}
  {phase : WorkerPhase} {a : PoolAction}

@[simp] theorem setPhase_phase :
    (s.setPhase w phase).phase v = if v = w then phase else s.phase v := by
  simp [setPhase, Function.update_apply]

/-- What holds of a worker still does when another one moves. -/
theorem setPhase_keep {α : Type} {f : WorkerPhase → α} {x : α} (hv : f (s.phase v) = x)
    (hw : f (s.phase w) ≠ x) : f ((s.setPhase w phase).phase v) = x := by
  rw [setPhase_phase, if_neg]
  · exact hv
  · rintro rfl
    exact hw hv

/-- What does not hold of the new phase held before. -/
theorem setPhase_before {α : Type} {f : WorkerPhase → α} {x : α}
    (hv : f ((s.setPhase w phase).phase v) = x) (hphase : f phase ≠ x) : f (s.phase v) = x := by
  rw [setPhase_phase] at hv
  split at hv
  · exact absurd hv hphase
  · exact hv

/-- What a step does to the indices and the results. -/
inductive Change (files : List Bytes) (maxParallel : Nat) (s : Pool) : Pool → Prop where
  | spawn (hlt : s.started < nWorkers files maxParallel) :
      Change files maxParallel s { s.setPhase s.started .claiming with started := s.started + 1 }
  | claim (w : Nat) (hw : s.phase w = .claiming) : Change files maxParallel s (s.claim files w)
  | quiet (w : Nat) (phase : WorkerPhase) (hidx : phase.idx = (s.phase w).idx)
      (hactive : (s.phase w).idx ≠ none) (hunsigned : phase.unsigned = (s.phase w).unsigned)
      (hold : ∀ i buf r, s.phase w ≠ .storing i buf r)
      (hnew : ∀ i buf r, phase ≠ .storing i buf r) (logMu : Option Nat)
      (stderr : List (UInt8 × Writer)) :
      Change files maxParallel s { s.setPhase w phase with logMu, stderr }
  | finish (w : Nat) (i : Nat) (buf buf' : Bytes) (result : SignResult)
      (hw : s.phase w = .signing i buf) (hfile : result.file = file files i) :
      Change files maxParallel s
        { s.setPhase w (.storing i buf' result) with signed := s.signed ++ [(i, result)] }
  | store (w : Nat) (i : Nat) (buf : Bytes) (result : SignResult)
      (hw : s.phase w = .storing i buf result) :
      Change files maxParallel s
        { s.setPhase w (.stored i buf) with results := s.results.set i result }
  | flushed (w : Nat) (i : Nat) (buf : Bytes) (off : Nat) (hw : s.phase w = .flushing i buf off)
      (logMu : Option Nat) : Change files maxParallel s { s.setPhase w .claiming with logMu }
  | main (main : MainPhase) (stderr : List (UInt8 × Writer)) :
      Change files maxParallel s { s with main, stderr }

@[simp] theorem idx_advance {n : Nat} : (advance n phase).idx = phase.idx := by
  cases phase <;> rfl

@[simp] theorem unsigned_advance {n : Nat} : (advance n phase).unsigned = phase.unsigned := by
  cases phase <;> rfl

theorem storing_advance {n : Nat} : (∀ i buf r, advance n phase ≠ .storing i buf r) ↔
    ∀ i buf r, phase ≠ .storing i buf r := by
  cases phase <;> simp [advance]

theorem output_active {found : Writer × Bytes × Nat} (h : output files phase = some found) :
    phase.idx ≠ none ∧ ∀ i buf r, phase ≠ .storing i buf r := by
  cases phase <;> simp_all [output, WorkerPhase.idx]

theorem change_leaveWrite {found : Writer × Bytes × Nat} (h : output files (s.phase w) = some found) :
    Change files maxParallel s (s.leaveWrite w) := by
  unfold leaveWrite
  cases hphase : s.phase w with
  | announcing i off =>
      exact .quiet w _ (by simp [hphase, afterWrite, WorkerPhase.idx])
        (by simp [hphase, WorkerPhase.idx]) (by simp [hphase, afterWrite, WorkerPhase.unsigned])
        (by simp [hphase]) (by simp [afterWrite]) _ _
  | retrying i buf msg off =>
      exact .quiet w _ (by simp [hphase, afterWrite, WorkerPhase.idx])
        (by simp [hphase, WorkerPhase.idx]) (by simp [hphase, afterWrite, WorkerPhase.unsigned])
        (by simp [hphase]) (by simp [afterWrite]) _ _
  | flushing i buf off => exact .flushed w i buf off hphase _
  | _ => simp [hphase, output] at h

theorem step_change (h : step files maxParallel s a = some s') : Change files maxParallel s s' := by
  cases step_acts files h with
  | spawn hmain hlt => exact .spawn hlt
  | spawnFails hmain hlt => exact .main .unwinding s.stderr
  | join hmain hall hidle => exact .main _ s.stderr
  | unwound hmain hidle => exact .main .thrown s.stderr
  | summaryWrite n text off code => exact .main _ _
  | summaryFails text off code => exact .main (.returned code) s.stderr
  | summaryWritten text code => exact .main (.returned code) s.stderr
  | fetchAdd w hw => exact .claim w hw
  | announce w i _ hw =>
      exact .quiet w _ (by simp [hw, WorkerPhase.idx]) (by simp [hw, WorkerPhase.idx])
        (by simp [hw, WorkerPhase.unsigned]) (by simp [hw]) (by simp) _ _
  | flush w i buf _ hw =>
      exact .quiet w _ (by simp [hw, WorkerPhase.idx]) (by simp [hw, WorkerPhase.idx])
        (by simp [hw, WorkerPhase.unsigned]) (by simp [hw]) (by simp) _ _
  | write w n writer text off hout =>
      obtain ⟨hactive, hstoring⟩ := output_active hout
      exact .quiet w _ idx_advance hactive unsigned_advance hstoring
        (storing_advance.mpr hstoring) _ _
  | writeFails w writer text off hout => exact change_leaveWrite hout
  | written w writer text hout => exact change_leaveWrite hout
  | line w text i buf hw =>
      exact .quiet w _ (by simp [hw, WorkerPhase.idx]) (by simp [hw, WorkerPhase.idx])
        (by simp [hw, WorkerPhase.unsigned]) (by simp [hw]) (by simp) s.logMu s.stderr
  | transient w what attempt i buf hw =>
      exact .quiet w _ (by simp [hw, WorkerPhase.idx]) (by simp [hw, WorkerPhase.idx])
        (by simp [hw, WorkerPhase.unsigned]) (by simp [hw]) (by simp) s.logMu s.stderr
  | finish w outcome i buf hw =>
      cases outcome with
      | ok _ => exact .finish w i buf _ _ hw rfl
      | error what => exact .finish w i buf _ _ hw rfl
  | store w i buf result hw => exact .store w i buf result hw

end Step

/-! ## What holds in every state -/

/-- How many indices have been handed out. -/
def taken (files : List Bytes) (s : Pool) : Nat := min s.next files.length

structure Inv (files : List Bytes) (maxParallel : Nat) (s : Pool) : Prop where
  fits : s.started ≤ nWorkers files maxParallel
  unstarted : ∀ w, s.started ≤ w → s.phase w = .unstarted
  claims : s.claims.map Prod.snd = List.range (s.taken files)
  active : ∀ w i, (s.phase w).idx = some i → (w, i) ∈ s.claims
  distinct : ∀ w v i, (s.phase w).idx = some i → (s.phase v).idx = some i → w = v
  covered : ∀ i < s.taken files, (∃ w, (s.phase w).unsigned = some i) ∨ i ∈ s.signed.map Prod.fst
  fresh : ∀ w i, (s.phase w).unsigned = some i → i ∉ s.signed.map Prod.fst
  keys : (s.signed.map Prod.fst).Nodup
  bound : ∀ i r, (i, r) ∈ s.signed → i < s.taken files ∧ r.file = file files i
  ended : ∀ w, s.phase w = .ended → files.length ≤ s.next
  length : s.results.length = files.length
  storing : ∀ w i buf r, s.phase w = .storing i buf r → (i, r) ∈ s.signed
  stored : ∀ i r, (i, r) ∈ s.signed →
    (∃ w buf, s.phase w = .storing i buf r) ∨ s.results[i]? = some r

section Facts

variable {files : List Bytes} {maxParallel : Nat} {s : Pool} {w : Nat} {phase : WorkerPhase} {i : Nat}

theorem start_inv : Inv files maxParallel (start files) where
  fits := Nat.zero_le _
  unstarted := by simp [start]
  claims := by simp [start, taken]
  active := by simp [start, WorkerPhase.idx]
  distinct := by simp [start, WorkerPhase.idx]
  covered := by simp [start, taken]
  fresh := by simp [start]
  keys := by simp [start]
  bound := by simp [start]
  ended := by simp [start]
  length := by simp [start]
  storing := by simp [start]
  stored := by simp [start]

theorem unsigned_idx (h : phase.unsigned = some i) : phase.idx = some i := by
  cases phase <;> simp_all [WorkerPhase.unsigned, WorkerPhase.idx]

/-- A worker at work has been started. -/
theorem Inv.lt_started (h : Inv files maxParallel s) (hw : s.phase w ≠ .unstarted) :
    w < s.started :=
  Nat.lt_of_not_le fun hle => hw (h.unstarted w hle)

/-- The workers that were not started stay so when one that was moves on. -/
theorem Inv.unstarted_setPhase (h : Inv files maxParallel s) (hw : s.phase w ≠ .unstarted) :
    ∀ v, s.started ≤ v → (s.setPhase w phase).phase v = .unstarted := by
  intro v hv
  rw [setPhase_phase, if_neg]
  · exact h.unstarted v hv
  · rintro rfl
    exact hw (h.unstarted v hv)

theorem Inv.lt_taken (h : Inv files maxParallel s) (hw : (s.phase w).idx = some i) : i < s.taken files := by
  have hmem := List.mem_map_of_mem (f := Prod.snd) (h.active w i hw)
  rwa [h.claims, List.mem_range] at hmem

theorem Inv.signed_unique (h : Inv files maxParallel s) {r r' : SignResult} (hr : (i, r) ∈ s.signed)
    (hr' : (i, r') ∈ s.signed) : r = r' :=
  (Prod.mk.inj (List.inj_on_of_nodup_map h.keys hr hr' rfl)).2

end Facts

section Keep

variable {files : List Bytes} {maxParallel : Nat} {s s' : Pool} {w v : Nat}
  {phase : WorkerPhase} {i : Nat} {buf : Bytes} {result : SignResult}

theorem Inv.claim_next (h : Inv files maxParallel s) (hw : s.phase w = .claiming)
    (hnext : s.next < files.length) : Inv files maxParallel
      { s.setPhase w (.claimed s.next) with
        next := s.next + 1, claims := s.claims ++ [(w, s.next)] } := by
  have htaken : s.taken files = s.next := min_eq_left (Nat.le_of_lt hnext)
  have htaken' : min (s.next + 1) files.length = s.next + 1 := min_eq_left hnext
  -- The index in hand is past all that were taken, so nobody has it and nobody had it.
  have hfresh : s.next ∉ s.signed.map Prod.fst := by
    intro hmem
    obtain ⟨⟨i, r⟩, hentry, rfl⟩ := List.mem_map.mp hmem
    have hlt := (h.bound _ _ hentry).1
    rw [htaken] at hlt
    exact Nat.lt_irrefl _ hlt
  have hnobody (v : Nat) : (s.phase v).idx ≠ some s.next := by
    intro hv
    have hlt := h.lt_taken hv
    rw [htaken] at hlt
    exact Nat.lt_irrefl _ hlt
  constructor
  case fits => exact h.fits
  case unstarted => exact h.unstarted_setPhase (by simp [hw])
  case claims =>
    rw [List.map_append, h.claims, htaken, taken, htaken', List.range_succ]
    rfl
  case active =>
    intro v i hv
    simp only [setPhase_phase] at hv
    rw [List.mem_append]
    split at hv
    next heq =>
      cases hv
      exact .inr (by simp [heq])
    next => exact .inl (h.active v i hv)
  case distinct =>
    intro v u i hv hu
    simp only [setPhase_phase] at hv hu
    split at hv
    next heqv =>
      cases hv
      split at hu
      next heq => rw [heqv, heq]
      next => exact absurd hu (hnobody u)
    next =>
      split at hu
      next =>
        cases hu
        exact absurd hv (hnobody v)
      next => exact h.distinct v u i hv hu
  case covered =>
    intro i hi
    rw [taken, htaken'] at hi
    rcases Nat.lt_succ_iff_lt_or_eq.mp hi with hlt | rfl
    · refine (h.covered i (by rwa [htaken])).imp_left ?_
      exact fun ⟨v, hv⟩ => ⟨v, setPhase_keep hv (by simp [hw, WorkerPhase.unsigned])⟩
    · exact .inl ⟨w, by simp [WorkerPhase.unsigned]⟩
  case fresh =>
    intro v i hv
    simp only [setPhase_phase] at hv
    split at hv
    · cases hv
      exact hfresh
    · exact h.fresh v i hv
  case keys => exact h.keys
  case bound =>
    intro i r hentry
    obtain ⟨hlt, hfile⟩ := h.bound i r hentry
    rw [htaken] at hlt
    exact ⟨by rw [taken, htaken']; exact Nat.lt_succ_of_lt hlt, hfile⟩
  case ended =>
    intro v hv
    simp only [setPhase_phase] at hv
    split at hv
    · cases hv
    · have hle := h.ended v hv
      exact absurd hnext (Nat.not_lt.mpr hle)
  case length => exact h.length
  case storing =>
    intro v i buf r hv
    exact h.storing v i buf r (setPhase_before (f := id) hv (by simp))
  case stored =>
    intro i r hentry
    refine (h.stored i r hentry).imp_left ?_
    exact fun ⟨v, buf, hv⟩ => ⟨v, buf, setPhase_keep (f := id) hv (by simp [hw])⟩

theorem Inv.claim_none (h : Inv files maxParallel s) (hw : s.phase w = .claiming)
    (hnext : files.length ≤ s.next) :
    Inv files maxParallel { s.setPhase w .ended with next := s.next + 1 } := by
  have htaken : s.taken files = files.length := min_eq_right hnext
  have htaken' : min (s.next + 1) files.length = files.length :=
    min_eq_right (Nat.le_succ_of_le hnext)
  have hidx (v : Nat) (i : Nat) (hv : ((s.setPhase w .ended).phase v).idx = some i) :
      (s.phase v).idx = some i := by
    exact setPhase_before hv (by simp [WorkerPhase.idx])
  constructor
  case fits => exact h.fits
  case unstarted => exact h.unstarted_setPhase (by simp [hw])
  case claims =>
    rw [taken, htaken', ← htaken]
    exact h.claims
  case active => exact fun v i hv => h.active v i (hidx v i hv)
  case distinct => exact fun v u i hv hu => h.distinct v u i (hidx v i hv) (hidx u i hu)
  case covered =>
    intro i hi
    rw [taken, htaken', ← htaken] at hi
    refine (h.covered i hi).imp_left ?_
    exact fun ⟨v, hv⟩ => ⟨v, setPhase_keep hv (by simp [hw, WorkerPhase.unsigned])⟩
  case fresh =>
    intro v i hv
    exact h.fresh v i (setPhase_before hv (by simp [WorkerPhase.unsigned]))
  case keys => exact h.keys
  case bound =>
    intro i r hentry
    rw [taken, htaken', ← htaken]
    exact h.bound i r hentry
  case ended => exact fun _ _ => Nat.le_succ_of_le hnext
  case length => exact h.length
  case storing =>
    intro v i buf r hv
    exact h.storing v i buf r (setPhase_before (f := id) hv (by simp))
  case stored =>
    intro i r hentry
    refine (h.stored i r hentry).imp_left ?_
    exact fun ⟨v, buf, hv⟩ => ⟨v, buf, setPhase_keep (f := id) hv (by simp [hw])⟩

/-- The worker goes on with its index, or with none as before. -/
theorem Inv.moved (h : Inv files maxParallel s) (hidx : phase.idx = (s.phase w).idx)
    (hunsigned : phase.unsigned = (s.phase w).unsigned)
    (hold : ∀ i buf r, s.phase w ≠ .storing i buf r) (hnew : ∀ i buf r, phase ≠ .storing i buf r)
    (hended : phase ≠ .ended) {started : Nat} (hfits : started ≤ nWorkers files maxParallel)
    (hunstarted : ∀ v, started ≤ v → (s.setPhase w phase).phase v = .unstarted)
    (logMu : Option Nat) (stderr : List (UInt8 × Writer)) :
    Inv files maxParallel { s.setPhase w phase with started, logMu, stderr } := by
  have hidx' (v : Nat) : ((s.setPhase w phase).phase v).idx = (s.phase v).idx := by
    rw [setPhase_phase]
    split
    next heq => rw [hidx, heq]
    next => rfl
  have hunsigned' (v : Nat) : ((s.setPhase w phase).phase v).unsigned = (s.phase v).unsigned := by
    rw [setPhase_phase]
    split
    next heq => rw [hunsigned, heq]
    next => rfl
  have hstoring (v : Nat) (i : Nat) (buf : Bytes) (r : SignResult) :
      (s.setPhase w phase).phase v = .storing i buf r ↔ s.phase v = .storing i buf r := by
    rw [setPhase_phase]
    split
    next heq =>
      subst heq
      exact ⟨fun hv => absurd hv (hnew i buf r), fun hv => absurd hv (hold i buf r)⟩
    next => exact Iff.rfl
  constructor
  case fits => exact hfits
  case unstarted => exact hunstarted
  case claims => exact h.claims
  case active => exact fun v i hv => h.active v i ((hidx' v).symm.trans hv)
  case distinct =>
    exact fun v u i hv hu => h.distinct v u i ((hidx' v).symm.trans hv) ((hidx' u).symm.trans hu)
  case covered =>
    exact fun i hi => (h.covered i hi).imp_left fun ⟨v, hv⟩ => ⟨v, (hunsigned' v).trans hv⟩
  case fresh => exact fun v i hv => h.fresh v i ((hunsigned' v).symm.trans hv)
  case keys => exact h.keys
  case bound => exact h.bound
  case ended =>
    intro v hv
    simp only [setPhase_phase] at hv
    split at hv
    · exact absurd hv hended
    · exact h.ended v hv
  case length => exact h.length
  case storing => exact fun v i buf r hv => h.storing v i buf r ((hstoring v i buf r).mp hv)
  case stored =>
    exact fun i r hentry => (h.stored i r hentry).imp_left fun ⟨v, buf, hv⟩ =>
      ⟨v, buf, (hstoring v i buf r).mpr hv⟩

/-- The worker goes on with its index; nothing else changes. -/
theorem Inv.quiet (h : Inv files maxParallel s) (hidx : phase.idx = (s.phase w).idx)
    (hactive : (s.phase w).idx ≠ none) (hunsigned : phase.unsigned = (s.phase w).unsigned)
    (hold : ∀ i buf r, s.phase w ≠ .storing i buf r) (hnew : ∀ i buf r, phase ≠ .storing i buf r)
    (logMu : Option Nat) (stderr : List (UInt8 × Writer)) :
    Inv files maxParallel { s.setPhase w phase with logMu, stderr } := by
  refine h.moved hidx hunsigned hold hnew ?_ h.fits (h.unstarted_setPhase ?_) logMu stderr
  · intro hended
    rw [hended] at hidx
    exact hactive hidx.symm
  · intro hunstarted
    rw [hunstarted] at hactive
    exact hactive rfl

/-- Another worker is started; it has no index yet. -/
theorem Inv.spawned (h : Inv files maxParallel s) (hlt : s.started < nWorkers files maxParallel) :
    Inv files maxParallel
      { s.setPhase s.started .claiming with started := s.started + 1 } := by
  have hw : s.phase s.started = .unstarted := h.unstarted _ (Nat.le_refl _)
  refine h.moved (by simp [hw, WorkerPhase.idx]) (by simp [hw, WorkerPhase.unsigned])
    (by simp [hw]) (by simp) (by simp) hlt ?_ s.logMu s.stderr
  intro v hv
  rw [setPhase_phase, if_neg (Nat.ne_of_gt hv)]
  exact h.unstarted v (Nat.le_of_succ_le hv)

/-- What `sign_main` does beside the workers. -/
theorem Inv.main (h : Inv files maxParallel s) (main : MainPhase)
    (stderr : List (UInt8 × Writer)) : Inv files maxParallel { s with main, stderr } :=
  ⟨h.fits, h.unstarted, h.claims, h.active, h.distinct, h.covered, h.fresh, h.keys, h.bound,
    h.ended, h.length, h.storing, h.stored⟩

/-- The file is signed; its result is on the way to its place. -/
theorem Inv.finish (h : Inv files maxParallel s) {buf' : Bytes} (hw : s.phase w = .signing i buf)
    (hfile : result.file = file files i) : Inv files maxParallel
      { s.setPhase w (.storing i buf' result) with signed := s.signed ++ [(i, result)] } := by
  have hunsigned : (s.phase w).unsigned = some i := by rw [hw]; rfl
  -- The worker keeps its index; only that it is unsigned ends here.
  have hidx (v : Nat) : ((s.setPhase w (.storing i buf' result)).phase v).idx = (s.phase v).idx := by
    rw [setPhase_phase]
    split
    next heq => rw [heq, hw]; rfl
    next => rfl
  constructor
  case fits => exact h.fits
  case unstarted => exact h.unstarted_setPhase (by simp [hw])
  case claims => exact h.claims
  case active => exact fun v j hv => h.active v j ((hidx v).symm.trans hv)
  case distinct =>
    exact fun v u j hv hu => h.distinct v u j ((hidx v).symm.trans hv) ((hidx u).symm.trans hu)
  case covered =>
    intro j hj
    rw [List.map_append, List.mem_append]
    by_cases hji : j = i
    · exact .inr (.inr (by simp [hji]))
    · rcases h.covered j hj with ⟨v, hv⟩ | hmem
      · refine .inl ⟨v, ?_⟩
        rw [setPhase_phase, if_neg]
        · exact hv
        · rintro rfl
          rw [hunsigned] at hv
          exact hji (Option.some.inj hv).symm
      · exact .inr (.inl hmem)
  case fresh =>
    intro v j hv hmem
    simp only [setPhase_phase] at hv
    split at hv
    · cases hv
    next hne =>
      rw [List.map_append, List.mem_append] at hmem
      rcases hmem with hmem | hmem
      · exact h.fresh v j hv hmem
      · simp only [List.map_cons, List.map_nil, List.mem_singleton] at hmem
        subst hmem
        exact hne (h.distinct v w j (unsigned_idx hv) (unsigned_idx hunsigned))
  case keys =>
    rw [List.map_append, List.map_singleton, ← List.concat_eq_append]
    exact h.keys.concat (h.fresh w i hunsigned)
  case bound =>
    intro j r hentry
    rcases List.mem_append.mp hentry with hentry | hentry
    · exact h.bound j r hentry
    · rw [List.mem_singleton] at hentry
      cases hentry
      exact ⟨h.lt_taken (unsigned_idx hunsigned), hfile⟩
  case ended =>
    intro v hv
    exact h.ended v (setPhase_before (f := id) hv (by simp))
  case length => exact h.length
  case storing =>
    intro v j b r hv
    simp only [setPhase_phase] at hv
    rw [List.mem_append]
    split at hv
    · cases hv
      exact .inr List.mem_cons_self
    · exact .inl (h.storing v j b r hv)
  case stored =>
    intro j r hentry
    rcases List.mem_append.mp hentry with hentry | hentry
    · refine (h.stored j r hentry).imp_left ?_
      exact fun ⟨v, b, hv⟩ => ⟨v, b, setPhase_keep (f := id) hv (by simp [hw])⟩
    · rw [List.mem_singleton] at hentry
      cases hentry
      exact .inl ⟨w, buf', by simp⟩

theorem Inv.store (h : Inv files maxParallel s) (hw : s.phase w = .storing i buf result) : Inv files maxParallel
    { s.setPhase w (.stored i buf) with results := s.results.set i result } := by
  have hidx (v : Nat) : ((s.setPhase w (.stored i buf)).phase v).idx = (s.phase v).idx := by
    rw [setPhase_phase]
    split
    next heq => rw [heq, hw]; rfl
    next => rfl
  have hmem : (i, result) ∈ s.signed := h.storing w i buf result hw
  constructor
  case fits => exact h.fits
  case unstarted => exact h.unstarted_setPhase (by simp [hw])
  case claims => exact h.claims
  case active => exact fun v j hv => h.active v j ((hidx v).symm.trans hv)
  case distinct =>
    exact fun v u j hv hu => h.distinct v u j ((hidx v).symm.trans hv) ((hidx u).symm.trans hu)
  case covered =>
    intro j hj
    refine (h.covered j hj).imp_left ?_
    exact fun ⟨v, hv⟩ => ⟨v, setPhase_keep hv (by simp [hw, WorkerPhase.unsigned])⟩
  case fresh =>
    intro v j hv
    exact h.fresh v j (setPhase_before hv (by simp [WorkerPhase.unsigned]))
  case keys => exact h.keys
  case bound => exact h.bound
  case ended =>
    intro v hv
    exact h.ended v (setPhase_before (f := id) hv (by simp))
  case length =>
    rw [List.length_set]
    exact h.length
  case storing =>
    intro v j b r hv
    exact h.storing v j b r (setPhase_before (f := id) hv (by simp))
  case stored =>
    intro j r hentry
    by_cases hji : j = i
    · subst hji
      right
      rw [h.signed_unique hentry hmem, List.getElem?_set_self]
      rw [h.length]
      exact (h.bound _ _ hmem).1.trans_le (min_le_right _ _)
    · refine (h.stored j r hentry).imp ?_ fun hresult => ?_
      · rintro ⟨v, b, hv⟩
        refine ⟨v, b, ?_⟩
        rw [setPhase_phase, if_neg]
        · exact hv
        · rintro rfl
          rw [hw] at hv
          cases hv
          exact hji rfl
      · rwa [List.getElem?_set_ne (Ne.symm hji)]

theorem Inv.flushed (h : Inv files maxParallel s) {off : Nat} (hw : s.phase w = .flushing i buf off)
    (logMu : Option Nat) : Inv files maxParallel { s.setPhase w .claiming with logMu } := by
  have hidx (v : Nat) (j : Nat) (hv : ((s.setPhase w .claiming).phase v).idx = some j) :
      (s.phase v).idx = some j := by
    exact setPhase_before hv (by simp [WorkerPhase.idx])
  constructor
  case fits => exact h.fits
  case unstarted => exact h.unstarted_setPhase (by simp [hw])
  case claims => exact h.claims
  case active => exact fun v j hv => h.active v j (hidx v j hv)
  case distinct => exact fun v u j hv hu => h.distinct v u j (hidx v j hv) (hidx u j hu)
  case covered =>
    intro j hj
    refine (h.covered j hj).imp_left ?_
    exact fun ⟨v, hv⟩ => ⟨v, setPhase_keep hv (by simp [hw, WorkerPhase.unsigned])⟩
  case fresh =>
    intro v j hv
    exact h.fresh v j (setPhase_before hv (by simp [WorkerPhase.unsigned]))
  case keys => exact h.keys
  case bound => exact h.bound
  case ended =>
    intro v hv
    exact h.ended v (setPhase_before (f := id) hv (by simp))
  case length => exact h.length
  case storing =>
    intro v j b r hv
    exact h.storing v j b r (setPhase_before (f := id) hv (by simp))
  case stored =>
    intro j r hentry
    refine (h.stored j r hentry).imp_left ?_
    exact fun ⟨v, b, hv⟩ => ⟨v, b, setPhase_keep (f := id) hv (by simp [hw])⟩

theorem Change.inv (hchange : Change files maxParallel s s') (h : Inv files maxParallel s) :
    Inv files maxParallel s' := by
  cases hchange with
  | spawn hlt => exact h.spawned hlt
  | claim w hw =>
      unfold Pool.claim
      split
      next hnext => exact h.claim_next hw hnext
      next hnext => exact h.claim_none hw (Nat.le_of_not_lt hnext)
  | quiet w phase hidx hactive hunsigned hold hnew logMu stderr =>
      exact h.quiet hidx hactive hunsigned hold hnew logMu stderr
  | finish w i buf buf' result hw hfile => exact h.finish hw hfile
  | store w i buf result hw => exact h.store hw
  | flushed w i buf off hw logMu => exact h.flushed hw logMu
  | main main stderr => exact h.main main stderr

/-- The indices are handed out once in every state of every run. -/
theorem reaches_inv {allowed : Pool → PoolAction → Prop}
    (h : Reaches (step files maxParallel) allowed (start files) s) : Inv files maxParallel s :=
  h.invariant start_inv fun _ _ _ hinv _ hstep => (step_change hstep).inv hinv

end Keep

section Ended

variable {files : List Bytes} {maxParallel : Nat} {s : Pool} {i : Nat}

theorem Inv.claims_nodup (h : Inv files maxParallel s) : (s.claims.map Prod.snd).Nodup := by
  rw [h.claims]
  exact List.nodup_range

/-- When the workers have ended, every index has been signed once. -/
theorem Inv.signed_perm (h : Inv files maxParallel s) (hworker : files ≠ [] → 0 < s.started)
    (hidle : s.Idle) : (s.signed.map Prod.fst).Perm (List.range files.length) := by
  have htaken : s.taken files = files.length := by
    by_cases hfiles : files = []
    · simp [hfiles, taken]
    · exact min_eq_right (h.ended 0 (hidle 0 (hworker hfiles)))
  rw [List.perm_ext_iff_of_nodup h.keys List.nodup_range]
  intro i
  rw [List.mem_range, ← htaken]
  constructor
  · intro hmem
    obtain ⟨⟨j, r⟩, hentry, rfl⟩ := List.mem_map.mp hmem
    exact (h.bound j r hentry).1
  · intro hi
    refine (h.covered i hi).resolve_left ?_
    rintro ⟨w, hw⟩
    rw [hidle w (h.lt_started fun hphase => by simp [hphase, WorkerPhase.unsigned] at hw)] at hw
    cases hw

theorem Inv.results_of_idle (h : Inv files maxParallel s) (hidle : s.Idle) {r : SignResult}
    (hentry : (i, r) ∈ s.signed) : s.results[i]? = some r := by
  refine (h.stored i r hentry).resolve_left ?_
  rintro ⟨w, b, hw⟩
  rw [hidle w (h.lt_started (by simp [hw]))] at hw
  cases hw

/-- The results in their order are those that `sign_one_file` returned. -/
theorem Inv.results_eq (h : Inv files maxParallel s) (hworker : files ≠ [] → 0 < s.started)
    (hidle : s.Idle) : ∃ outcome : Nat → SignResult,
      (∀ i < files.length, (i, outcome i) ∈ s.signed) ∧
        s.results = (List.range files.length).map outcome := by
  have hperm := h.signed_perm hworker hidle
  have hexists (i : Nat) : ∃ r, i < files.length → (i, r) ∈ s.signed := by
    by_cases hi : i < files.length
    · have hmem := hperm.mem_iff.mpr (List.mem_range.mpr hi)
      obtain ⟨⟨j, r⟩, hentry, rfl⟩ := List.mem_map.mp hmem
      exact ⟨r, fun _ => hentry⟩
    · exact ⟨.initial, fun hi' => absurd hi' hi⟩
  choose outcome houtcome using hexists
  refine ⟨outcome, houtcome, ?_⟩
  apply List.ext_getElem?
  intro i
  by_cases hi : i < files.length
  · rw [h.results_of_idle hidle (houtcome i hi), List.getElem?_map, List.getElem?_range hi]
    rfl
  · rw [List.getElem?_eq_none, List.getElem?_eq_none]
    · simpa using Nat.le_of_not_lt hi
    · rw [h.length]
      exact Nat.le_of_not_lt hi

/-- The file of a result is the one at its index. -/
theorem Inv.file_of_signed (h : Inv files maxParallel s) {r : SignResult}
    (hentry : (i, r) ∈ s.signed) : files[i]? = some r.file := by
  obtain ⟨hlt, hfile⟩ := h.bound i r hentry
  rw [hfile, file, List.getD_eq_getElem?_getD,
    List.getElem?_eq_getElem (hlt.trans_le (min_le_right _ _)), Option.getD_some]

/-- No more files are being signed than workers were started. -/
theorem Inv.inSigning_le (h : Inv files maxParallel s) {indices : List Nat}
    (hnodup : indices.Nodup) (hsigning : ∀ i ∈ indices, ∃ w, (s.phase w).inSigning = some i) :
    indices.length ≤ nWorkers files maxParallel := by
  have hsubset : indices.toFinset ⊆
      (Finset.range s.started).image fun w => ((s.phase w).inSigning).getD 0 := by
    intro i hi
    obtain ⟨w, hw⟩ := hsigning i (List.mem_toFinset.mp hi)
    have hlt : w < s.started := h.lt_started fun hphase => by
      simp [hphase, WorkerPhase.inSigning] at hw
    exact Finset.mem_image.mpr ⟨w, Finset.mem_range.mpr hlt, by rw [hw]; rfl⟩
  calc indices.length = indices.toFinset.card := (List.toFinset_card_of_nodup hnodup).symm
    _ ≤ _ := Finset.card_le_card hsubset
    _ ≤ (Finset.range s.started).card := Finset.card_image_le
    _ = s.started := Finset.card_range _
    _ ≤ nWorkers files maxParallel := h.fits

end Ended

end Pool

end AasSign
