import AasSign.Platform.AtomicWrite

/-! # When private files are never torn

Calls that do not overlap between the opening of the temporary name and its
renaming never show a reader an empty, partial or mixed file. Calls that overlap
can.
-/

namespace AasSign

open Foundation

namespace PrivateFile

variable {ι ρ : Type}

/-! ## The fields after an update -/

section Fields

variable (s : PrivateFile ι ρ) (inode other : Inode) (bytes : Bytes)

@[simp] theorem setContents_contents :
    (s.setContents inode bytes).contents other = if other = inode then bytes
      else s.contents other := by
  simp [setContents, Function.update_apply]

@[simp] theorem setContents_call : (s.setContents inode bytes).call = s.call := rfl

@[simp] theorem setContents_dest : (s.setContents inode bytes).dest = s.dest := rfl

@[simp] theorem setContents_tmp : (s.setContents inode bytes).tmp = s.tmp := rfl

@[simp] theorem setContents_fresh : (s.setContents inode bytes).fresh = s.fresh := rfl

@[simp] theorem setContents_reader : (s.setContents inode bytes).reader = s.reader := rfl

end Fields

section CallFields

variable [DecidableEq ι] (s : PrivateFile ι ρ) (i j : ι) (phase : CallPhase)

@[simp] theorem setCall_call :
    (s.setCall i phase).call j = if j = i then phase else s.call j := by
  simp [setCall, Function.update_apply]

@[simp] theorem setCall_contents : (s.setCall i phase).contents = s.contents := rfl

@[simp] theorem setCall_dest : (s.setCall i phase).dest = s.dest := rfl

@[simp] theorem setCall_tmp : (s.setCall i phase).tmp = s.tmp := rfl

@[simp] theorem setCall_fresh : (s.setCall i phase).fresh = s.fresh := rfl

@[simp] theorem setCall_reader : (s.setCall i phase).reader = s.reader := rfl

end CallFields

@[simp] theorem setReader_reader [DecidableEq ρ] (s : PrivateFile ι ρ) (r q : ρ)
    (phase : ReaderPhase) :
    (s.setReader r phase).reader q = if q = r then phase else s.reader q := by
  simp [setReader, Function.update_apply]


/-! ## What holds in every state when calls do not overlap -/

structure Inv (data : ι → Bytes) (before : Option Bytes) (s : PrivateFile ι ρ) : Prop where
  dest : Complete data before s.view
  reading : ∀ r inode seen, s.reader r = .reading inode seen →
    Complete data before (some (s.contents inode)) ∧ seen <+: s.contents inode
  saw : ∀ r v, s.reader r = .saw v → Complete data before v
  writing : ∀ i inode off, s.call i = .writing inode off →
    s.tmp = some inode ∧ off ≤ (data i).length ∧ s.contents inode = (data i).take off
  closed : ∀ i, s.call i = .closed → ∃ inode, s.tmp = some inode ∧ s.contents inode = data i
  alone : ∀ i j, s.Active i → s.Active j → i = j
  apart : ∀ inode, s.tmp = some inode → s.dest ≠ some inode
  unread : ∀ inode r seen, s.tmp = some inode → s.reader r ≠ .reading inode seen
  freshTmp : ∀ inode, s.tmp = some inode → inode < s.fresh
  freshDest : ∀ inode, s.dest = some inode → inode < s.fresh
  freshRead : ∀ r inode seen, s.reader r = .reading inode seen → inode < s.fresh

section Keep

variable {data : ι → Bytes} {before : Option Bytes} {s : PrivateFile ι ρ} {i : ι}
  {inode : Inode} {off : Nat}

theorem Start.inv (h : s.Start) : Inv data s.view s where
  dest := .inl rfl
  reading := by simp [h.readers]
  saw := by simp [h.readers]
  writing := by simp [h.calls]
  closed := by simp [h.calls]
  alone := by simp [Active, h.calls]
  apart := h.apart
  unread := by simp [h.readers]
  freshTmp := h.freshTmp
  freshDest := h.freshDest
  freshRead := by simp [h.readers]

/-- A call that returns or gives up leaves the files as they are. -/
theorem Inv.retire [DecidableEq ι] {phase : CallPhase} (h : Inv data before s) (hclosed : phase ≠ .closed)
    (hwriting : ∀ inode off, phase ≠ .writing inode off) : Inv data before (s.setCall i phase) := by
  have hactive (j : ι) (hj : (s.setCall i phase).Active j) : s.Active j := by
    unfold Active at hj ⊢
    rw [setCall_call] at hj
    split at hj
    · rcases hj with hj | ⟨inode, off, hj⟩
      · exact absurd hj hclosed
      · exact absurd hj (hwriting inode off)
    · exact hj
  refine ⟨h.dest, h.reading, h.saw, ?_, ?_, ?_, h.apart, h.unread, h.freshTmp, h.freshDest,
    h.freshRead⟩
  · intro j inode off hj
    rw [setCall_call] at hj
    split at hj
    · exact absurd hj (hwriting inode off)
    · exact h.writing j inode off hj
  · intro j hj
    rw [setCall_call] at hj
    split at hj
    · exact absurd hj hclosed
    · exact h.closed j hj
  · exact fun j k hj hk => h.alone j k (hactive j hj) (hactive k hk)

/-- The only active call may write to the file behind the temporary name, which
nobody else sees. -/
theorem Inv.written [DecidableEq ι] (h : Inv data before s) (htmp : s.tmp = some inode)
    (hother : ∀ j, j ≠ i → ¬ s.Active j) (hoff : off ≤ (data i).length) :
    Inv data before ((s.setContents inode ((data i).take off)).setCall i (.writing inode off)) := by
  have hactive (j : ι) (hj : ((s.setContents inode ((data i).take off)).setCall i
      (.writing inode off)).Active j) : j = i := by
    by_contra hne
    apply hother j hne
    simpa [Active, hne] using hj
  constructor
  case dest =>
    have hdest := h.dest
    unfold view at hdest ⊢
    cases hd : s.dest with
    | none => simpa [hd] using hdest
    | some n =>
        have hne : n ≠ inode := by
          rintro rfl
          exact h.apart n htmp hd
        simpa [hd, hne] using hdest
  case reading =>
    intro r n seen hr
    have hne : n ≠ inode := by
      rintro rfl
      exact h.unread n r seen htmp hr
    simpa [hne] using h.reading r n seen hr
  case saw => exact h.saw
  case writing =>
    intro j n m hj
    obtain rfl := hactive j (.inr ⟨n, m, hj⟩)
    simp only [setCall_call, if_true, CallPhase.writing.injEq] at hj
    obtain ⟨rfl, rfl⟩ := hj
    exact ⟨htmp, hoff, by simp⟩
  case closed =>
    intro j hj
    obtain rfl := hactive j (.inl hj)
    simp at hj
  case alone => exact fun j k hj hk => (hactive j hj).trans (hactive k hk).symm
  case apart => exact h.apart
  case unread => exact h.unread
  case freshTmp => exact h.freshTmp
  case freshDest => exact h.freshDest
  case freshRead => exact h.freshRead

/-- A new file behind the temporary name. -/
theorem Inv.created (h : Inv data before s) (hidle : ∀ j, ¬ s.Active j) :
    Inv data before { s with tmp := some s.fresh, fresh := s.fresh + 1 } where
  dest := h.dest
  reading := h.reading
  saw := h.saw
  writing := fun j inode off hj => absurd (.inr ⟨inode, off, hj⟩) (hidle j)
  closed := fun j hj => absurd (.inl hj) (hidle j)
  alone := fun j _ hj _ => absurd hj (hidle j)
  apart := by
    rintro inode ⟨⟩ hdest
    exact Nat.lt_irrefl _ (h.freshDest _ hdest)
  unread := by
    rintro inode r seen ⟨⟩ hr
    exact Nat.lt_irrefl _ (h.freshRead _ _ _ hr)
  freshTmp := by
    rintro inode ⟨⟩
    exact Nat.lt_succ_self _
  freshDest := fun inode hdest => (h.freshDest inode hdest).trans (Nat.lt_succ_self _)
  freshRead := fun r inode seen hr => (h.freshRead r inode seen hr).trans (Nat.lt_succ_self _)

theorem overwrite_take (bytes : Bytes) {off n : Nat} (hoff : off ≤ bytes.length) :
    overwrite (bytes.take off) off ((bytes.drop off).take n) = bytes.take (off + n) := by
  have hlength : (bytes.take off).length = off := by simp [hoff]
  have hnothing : (bytes.take off).drop (off + ((bytes.drop off).take n).length) = [] :=
    List.drop_eq_nil_of_le (by omega)
  rw [overwrite, hnothing, List.take_take, Nat.min_self, hlength, Nat.sub_self, List.take_add]
  simp

theorem Inv.openTruncated [DecidableEq ι] (h : Inv data before s) (hidle : ∀ j, ¬ s.Active j) :
    Inv data before (s.openTruncated i) := by
  unfold PrivateFile.openTruncated
  split
  next inode htmp => exact h.written htmp (fun j _ => hidle j) (Nat.zero_le _)
  next htmp => exact (h.created hidle).written rfl (fun j _ => hidle j) (Nat.zero_le _)

/-- What the descriptor of a call is good for: the file behind the temporary
name, which holds what has been written so far. -/
theorem Inv.only (h : Inv data before s) (hi : s.Active i) {j : ι} (hj : j ≠ i) : ¬ s.Active j :=
  fun hactive => hj (h.alone j i hactive hi)

theorem Inv.wrote [DecidableEq ι] (h : Inv data before s) (hi : s.call i = .writing inode off)
    {n : Nat} (hn : n ≤ (data i).length - off) :
    Inv data before ((s.setContents inode (overwrite (s.contents inode) off
      (((data i).drop off).take n))).setCall i (.writing inode (off + n))) := by
  obtain ⟨htmp, hoff, hcontents⟩ := h.writing i inode off hi
  rw [hcontents, overwrite_take _ hoff]
  exact h.written htmp (fun j hj => h.only (.inr ⟨inode, off, hi⟩) hj) (by omega)

theorem Inv.finished [DecidableEq ι] (h : Inv data before s) (hi : s.call i = .writing inode off)
    (hend : ¬ off < (data i).length) : Inv data before (s.setCall i .closed) := by
  obtain ⟨htmp, hoff, hcontents⟩ := h.writing i inode off hi
  have hactive (j : ι) (hj : (s.setCall i .closed).Active j) : s.Active j := by
    by_cases hji : j = i
    · rw [hji]
      exact .inr ⟨inode, off, hi⟩
    · simpa [Active, hji] using hj
  refine ⟨h.dest, h.reading, h.saw, ?_, ?_, ?_, h.apart, h.unread, h.freshTmp, h.freshDest,
    h.freshRead⟩
  · intro j n m hj
    rw [setCall_call] at hj
    split at hj
    · cases hj
    · exact h.writing j n m hj
  · intro j hj
    rw [setCall_call] at hj
    split at hj
    next hji =>
      refine ⟨inode, htmp, ?_⟩
      rw [setCall_contents, hcontents, hji, List.take_of_length_le (by omega)]
    next => exact h.closed j hj
  · exact fun j k hj hk => h.alone j k (hactive j hj) (hactive k hk)

/-- A rename publishes the complete data of the call that makes it. -/
theorem Inv.renamed [DecidableEq ι] (h : Inv data before s) (hi : s.call i = .closed) :
    Inv data before (s.renameTmp i) := by
  obtain ⟨inode, htmp, hcontents⟩ := h.closed i hi
  have hidle (j : ι) : ¬ (s.setCall i .returned).Active j := by
    by_cases hji : j = i
    · simp [Active, hji]
    · simpa [Active, hji] using h.only (.inl hi) hji
  have hretired : Inv data before (s.setCall i .returned) := h.retire (by simp) (by simp)
  rw [renameTmp, htmp]
  constructor
  case dest =>
    refine .inr ⟨i, ?_⟩
    · simp [view, hcontents]
  case reading => exact hretired.reading
  case saw => exact hretired.saw
  case writing => exact fun j n m hj => absurd (.inr ⟨n, m, hj⟩) (hidle j)
  case closed => exact fun j hj => absurd (.inl hj) (hidle j)
  case alone => exact fun j k hj _ => absurd hj (hidle j)
  case apart => rintro n ⟨⟩
  case unread => rintro n r seen ⟨⟩
  case freshTmp => rintro n ⟨⟩
  case freshDest =>
    rintro n ⟨⟩
    exact h.freshTmp _ htmp
  case freshRead => exact hretired.freshRead

theorem Inv.read [DecidableEq ρ] {r : ρ} {phase : ReaderPhase} (h : Inv data before s)
    (hreading : ∀ inode seen, phase = .reading inode seen →
      (Complete data before (some (s.contents inode)) ∧ seen <+: s.contents inode) ∧
        s.tmp ≠ some inode ∧ inode < s.fresh)
    (hsaw : ∀ v, phase = .saw v → Complete data before v) :
    Inv data before (s.setReader r phase) := by
  constructor
  case dest => exact h.dest
  case reading =>
    intro q inode seen hq
    rw [setReader_reader] at hq
    split at hq
    · exact (hreading inode seen hq).1
    · exact h.reading q inode seen hq
  case saw =>
    intro q v hq
    rw [setReader_reader] at hq
    split at hq
    · exact hsaw v hq
    · exact h.saw q v hq
  case writing => exact h.writing
  case closed => exact h.closed
  case alone => exact h.alone
  case apart => exact h.apart
  case unread =>
    intro inode q seen htmp hq
    rw [setReader_reader] at hq
    split at hq
    · exact (hreading inode seen hq).2.1 htmp
    · exact h.unread inode q seen htmp hq
  case freshTmp => exact h.freshTmp
  case freshDest => exact h.freshDest
  case freshRead =>
    intro q inode seen hq
    rw [setReader_reader] at hq
    split at hq
    · exact (hreading inode seen hq).2.2
    · exact h.freshRead q inode seen hq

theorem Inv.opened [DecidableEq ρ] {r : ρ} (h : Inv data before s) :
    Inv data before (s.setReader r
      (match s.dest with
        | none => .saw none
        | some inode => .reading inode [])) := by
  have hdest := h.dest
  apply h.read
  · intro inode seen hphase
    split at hphase
    · cases hphase
    next n hd =>
      cases hphase
      refine ⟨⟨?_, List.nil_prefix⟩, fun htmp => h.apart _ htmp hd, h.freshDest _ hd⟩
      simpa [view, hd] using hdest
  · intro v hphase
    split at hphase
    next hd =>
      cases hphase
      simpa [view, hd] using hdest
    · cases hphase

theorem Inv.readOn [DecidableEq ρ] {r : ρ} {seen : Bytes} {n : Nat} (h : Inv data before s)
    (hr : s.reader r = .reading inode seen) :
    Inv data before (s.setReader r
      (if seen.length < (s.contents inode).length then
        .reading inode (seen ++ ((s.contents inode).drop seen.length).take (n + 1))
      else .saw (some seen))) := by
  obtain ⟨hcomplete, hfront⟩ := h.reading r inode seen hr
  have hsplit := List.prefix_iff_eq_take.mp hfront
  apply h.read
  · intro other more hphase
    split at hphase
    · cases hphase
      refine ⟨⟨hcomplete, ?_⟩, fun htmp => h.unread inode r seen htmp hr, h.freshRead r inode seen hr⟩
      nth_rewrite 1 [hsplit]
      rw [← List.take_add]
      exact List.take_prefix _ _
    · cases hphase
  · intro v hphase
    split at hphase
    · cases hphase
    next hend =>
      cases hphase
      rwa [hsplit, List.take_of_length_le (by omega)]

end Keep

variable [DecidableEq ι] [DecidableEq ρ]

/-- Every step of calls that do not overlap keeps the invariant. -/
theorem Inv.step {data : ι → Bytes} {before : Option Bytes} {s s' : PrivateFile ι ρ}
    {action : FileAction ι ρ} (h : Inv data before s) (hexclusive : s.Exclusive action)
    (hstep : s.step data action = some s') : Inv data before s' := by
  cases action with
  | openTmp i ok =>
      simp only [PrivateFile.step, Option.ite_none_right_eq_some, Option.some.injEq] at hstep
      obtain ⟨hi, rfl⟩ := hstep
      cases ok with
      | false => exact h.retire (by simp) (by simp)
      | true =>
          -- Opening truncates whatever has the name, so it must be of no other call.
          apply h.openTruncated
          intro j
          by_cases hji : j = i
          · simp [Active, hji, hi]
          · exact hexclusive j hji
  | write i n =>
      simp only [PrivateFile.step] at hstep
      split at hstep
      next inode off hi =>
        simp only [Option.ite_none_right_eq_some, Option.some.injEq] at hstep
        obtain ⟨⟨-, hn⟩, rfl⟩ := hstep
        exact h.wrote hi hn
      next => cases hstep
  | writeFails i =>
      simp only [PrivateFile.step] at hstep
      split at hstep
      next inode off hi =>
        simp only [Option.ite_none_right_eq_some, Option.some.injEq] at hstep
        obtain ⟨-, rfl⟩ := hstep
        exact h.retire (by simp) (by simp)
      next => cases hstep
  | close i ok =>
      simp only [PrivateFile.step] at hstep
      split at hstep
      next inode off hi =>
        simp only [Option.ite_none_left_eq_some, Option.some.injEq] at hstep
        obtain ⟨hend, rfl⟩ := hstep
        cases ok with
        | false => exact h.retire (by simp) (by simp)
        | true => exact h.finished hi hend
      next => cases hstep
  | rename i ok =>
      simp only [PrivateFile.step, Option.ite_none_right_eq_some, Option.some.injEq] at hstep
      obtain ⟨hi, rfl⟩ := hstep
      cases ok with
      | false => exact h.retire (by simp) (by simp)
      | true => exact h.renamed hi
  | readerOpens r =>
      simp only [PrivateFile.step, Option.ite_none_right_eq_some, Option.some.injEq] at hstep
      obtain ⟨-, rfl⟩ := hstep
      exact h.opened
  | readerReads r n =>
      simp only [PrivateFile.step] at hstep
      split at hstep
      next inode seen hr =>
        cases hstep
        exact h.readOn hr
      next => cases hstep

/-- In every run of calls that do not overlap, whatever a reader has seen by the
end of the file is the file before the calls or the complete data of one. -/
theorem reader_saw_complete {data : ι → Bytes} {start s : PrivateFile ι ρ} (hstart : start.Start)
    (hrun : Reaches (step data) Exclusive start s) {r : ρ} {seen : Option Bytes}
    (hseen : s.reader r = .saw seen) : Complete data start.view seen := by
  have hinv : Inv data start.view s := hrun.invariant hstart.inv fun _ _ _ h => h.step
  exact hinv.saw r seen hseen

/-- Two calls and one reader, on a file that holds one octet. -/
def sampleFile : PrivateFile Bool Unit where
  contents _ := [0]
  fresh := 1
  dest := some 0
  tmp := none
  call _ := .idle
  reader _ := .waiting

def sampleData (second : Bool) : Bytes := if second then [2] else [1]

theorem sampleFile_start : sampleFile.Start where
  calls _ := rfl
  readers _ := rfl
  apart := by simp [sampleFile]
  freshTmp := by simp [sampleFile]
  freshDest := by simp [sampleFile]

/-- The rest of a call that has opened the temporary name, and a reader. -/
def publishingActions : List (FileAction Bool Unit) :=
  [.write true 1, .close true true, .rename true true, .readerOpens (), .readerReads () 0,
    .readerReads () 0]

theorem sampleFile_saw : Complete sampleData (some [0]) (some [2]) := by
  have hopened : Reaches (step sampleData) Exclusive sampleFile (sampleFile.openTruncated true) :=
    Reaches.start.next (a := .openTmp true true) (fun j _ => by simp [Active, sampleFile]) rfl
  have hseen : (steps (step sampleData) (sampleFile.openTruncated true) publishingActions).map
      (fun s => s.reader ()) = some (.saw (some [2])) := rfl
  obtain ⟨s, hsteps, hseen⟩ := Option.map_eq_some_iff.mp hseen
  refine reader_saw_complete sampleFile_start (hopened.of_steps ?_ hsteps) hseen
  intro action haction s
  simp only [publishingActions, List.mem_cons, List.not_mem_nil, or_false] at haction
  rcases haction with rfl | rfl | rfl | rfl | rfl | rfl <;> trivial

/-- No run at all shows a torn file. -/
def NeverTorn (data : ι → Bytes) (start : PrivateFile ι ρ) : Prop :=
  ∀ s, Reaches (step data) (fun _ _ => True) start s →
    ∀ r seen, s.reader r = .saw seen → Complete data start.view seen

/-- The second call truncates the file that the first one then publishes. -/
def tearingActions : List (FileAction Bool Unit) :=
  [.openTmp false true, .write false 1, .close false true, .openTmp true true,
    .rename false true, .readerOpens (), .readerReads () 0]

theorem tearingActions_seen :
    (steps (step sampleData) sampleFile tearingActions).map (fun s => s.reader ()) =
      some (.saw (some [])) := rfl

theorem not_neverTorn : ¬ NeverTorn sampleData sampleFile := by
  intro h
  obtain ⟨s, hsteps, hseen⟩ := Option.map_eq_some_iff.mp tearingActions_seen
  rcases h s (Reaches.start.of_steps (fun _ _ _ => trivial) hsteps) () _ hseen with hbefore | ⟨i, hdata⟩
  · cases hbefore
  · cases i <;> cases hdata

end PrivateFile

end AasSign
