import AasSign.Http.Response

/-! # Progress through the chunks

A chunk-size line announces a number, and the next line is looked for behind the
chunk, at a place that is a `size_t`. The loop ends and no assignment takes `pos`
back exactly if no line that it meets makes that place wrap to before its own end.
-/

namespace AasSign

open Foundation

/-- A line that announces a chunk: where it starts, where it ends, and the number. -/
structure SizeLine where
  pos : Nat
  lineEnd : Nat
  size : Nat

namespace SizeLine

/-- The line stands in the body. -/
structure In (src : Bytes) (line : SizeLine) : Prop where
  inside : line.pos < src.length
  ends : findFrom crlf src line.pos = some line.lineEnd
  announces : stoul16 ((src.drop line.pos).take (line.lineEnd - line.pos)) = .ok line.size
  nonzero : line.size ≠ 0

/-- The place behind the chunk and its line end, as a number without a bound. -/
def behind (line : SizeLine) : Nat := line.lineEnd + 2 + line.size + 2

/-- The lines of a body from the first on, each behind the chunk of the one before. -/
inductive Met (src : Bytes) : SizeLine → Prop where
  | first {line : SizeLine} (h : line.In src) (hpos : line.pos = 0) : Met src line
  | next {line line' : SizeLine} (before : Met src line) (h : line'.In src)
      (hpos : line'.pos = line.behind % 2 ^ 64) : Met src line'

/-- The place behind the chunk wraps to before the end of the line. -/
def Wraps (line : SizeLine) : Prop := line.behind % 2 ^ 64 < line.lineEnd + 2

variable {src : Bytes} {line : SizeLine}

theorem In.pos_le (h : line.In src) : line.pos ≤ line.lineEnd := (findFrom_eq_some.mp h.ends).1

theorem In.lineEnd_le (h : line.In src) : line.lineEnd + 2 ≤ src.length :=
  (findFrom_eq_some.mp h.ends).2.1.bound

/-- A line in a body of a size that exists wraps only if it announces half of memory. -/
theorem In.not_wraps_of_small (h : line.In src) (hsrc : src.length < 2 ^ 63)
    (hsize : line.size < 2 ^ 63 - 2) : ¬ line.Wraps := by
  have hend := h.lineEnd_le
  rw [Wraps, behind, Nat.mod_eq_of_lt (by omega)]
  omega

end SizeLine

section Pass

variable {src : Bytes} {state next : ChunkState}

theorem safe_stoul16 {s : Bytes} : Safe (stoul16 s) fun value => value < 2 ^ 64 := by
  unfold stoul16
  rcases splitSign (s.dropWhile isSpaceByte) with ⟨negative, number⟩
  dsimp only
  split
  · simp
  · by_cases hlarge : 2 ^ 64 ≤ digitsValue 16 (leadingDigits hexValue (dropHexMark number))
    · rw [if_pos hlarge]
      trivial
    · rw [if_neg hlarge, safe_ok]
      split
      · exact Nat.mod_lt _ (by decide)
      · exact Nat.lt_of_not_le hlarge

theorem safe_readSizeLine {pos : Nat} : Safe (readSizeLine src pos) fun _ => True := by
  unfold readSizeLine
  split
  · trivial
  · split
    · trivial
    · exact safe_stoul16.bind fun _ _ => trivial

theorem safe_chunkPass : Safe (chunkPass src state) fun _ => True := by
  apply safe_readSizeLine.bind
  rintro (_ | head) _ <;> trivial

/-- What follows a line that announces a chunk. -/
def SizeLine.head (line : SizeLine) : ChunkHead := ⟨line.lineEnd + 2, line.size⟩

theorem readSizeLine_eq_some {pos : Nat} {head : ChunkHead} :
    readSizeLine src pos = .ok (some head) ↔
      ∃ line : SizeLine, line.In src ∧ line.pos = pos ∧ line.head = head := by
  constructor
  · intro h
    unfold readSizeLine at h
    split at h
    · cases h
    next hinside =>
      split at h
      · cases h
      next nl hnl =>
        obtain ⟨size, hsize, h⟩ := bind_eq_ok.mp h
        split at h
        · cases h
        next hnonzero =>
          cases h
          exact ⟨⟨pos, nl, size⟩, ⟨Nat.lt_of_not_le hinside, hnl, hsize, hnonzero⟩, rfl, rfl⟩
  · rintro ⟨⟨pos, nl, size⟩, ⟨hinside, hnl, hsize, hnonzero⟩, rfl, rfl⟩
    simp only at hinside hnl hsize hnonzero
    rw [readSizeLine, if_neg (Nat.not_le_of_lt hinside), hnl]
    simp only [hsize, ok_bind, if_neg hnonzero]
    rfl

/-- A pass goes on at a line that announces a chunk, with the place behind the chunk. -/
theorem chunkPass_eq_again : chunkPass src state = .ok (.again next) ↔
    ∃ line : SizeLine, line.In src ∧ line.pos = state.pos ∧
      next = appendChunk src state.decoded line.head := by
  rw [chunkPass, bind_eq_ok]
  constructor
  · rintro ⟨_ | head, hread, hnext⟩
    · cases hnext
    · obtain ⟨line, hline, hpos, rfl⟩ := readSizeLine_eq_some.mp hread
      cases hnext
      exact ⟨line, hline, hpos, rfl⟩
  · rintro ⟨line, hline, hpos, rfl⟩
    exact ⟨some line.head, readSizeLine_eq_some.mpr ⟨line, hline, hpos, rfl⟩, rfl⟩

theorem appendChunk_head {line : SizeLine} {decoded : Bytes} :
    (appendChunk src decoded line.head).pos = line.behind % 2 ^ 64 := rfl

/-- The place in the body decides alone how the loop goes on. -/
theorem steered_chunkPass : Steered (chunkPass src) ChunkState.pos src.length where
  again := by
    intro s t next h hpos
    obtain ⟨line, hline, hs, rfl⟩ := chunkPass_eq_again.mp h
    exact ⟨_, chunkPass_eq_again.mpr ⟨line, hline, hs.trans hpos, rfl⟩, rfl⟩
  below := by
    intro s next h
    obtain ⟨line, hline, hs, -⟩ := chunkPass_eq_again.mp h
    exact hs ▸ hline.inside

end Pass

section Decode

variable {src : Bytes}

/-- The counted loop gives up exactly on a loop without an end. -/
theorem decodeChunks_eq_diverges :
    decodeChunks src = .error (.fault .diverges) ↔ ¬ Halts (chunkPass src) .start :=
  steered_chunkPass.loop_eq_stuck_iff fun _ h => safe_chunkPass.of_error h

/-- The lines met are those at the places of the passes. -/
theorem met_iff {line : SizeLine} : line.Met src ↔
    line.In src ∧ ∃ n state, Passes (chunkPass src) .start n state ∧ state.pos = line.pos := by
  constructor
  · intro h
    induction h with
    | first h hpos => exact ⟨h, 0, .start, .zero, hpos.symm⟩
    | @next line line' _ h hpos ih =>
        obtain ⟨hline, n, state, hpasses, hstate⟩ := ih
        refine ⟨h, n + 1, _, hpasses.succ (chunkPass_eq_again.mpr ⟨line, hline, hstate.symm, rfl⟩), ?_⟩
        exact appendChunk_head.trans hpos.symm
  · rintro ⟨h, n, state, hpasses, hstate⟩
    induction hpasses generalizing line with
    | zero => exact .first h hstate.symm
    | succ _ hagain ih =>
        obtain ⟨before, hbefore, hpos, rfl⟩ := chunkPass_eq_again.mp hagain
        exact .next (ih hbefore hpos.symm) h hstate.symm

end Decode

/-! ## The loop of a response -/

/-- The loop over the chunks is reached. -/
def ReachesChunks (raw : Bytes) : Prop := (∃ status, statusOf raw = .ok status) ∧ isChunked raw

/-- Neither assignment of a pass, `pos = nl + 2` and `pos += chunk_len + 2`, takes `pos` back. -/
def NeverBack (src : Bytes) : Prop :=
  ∀ n state head, Passes (chunkPass src) .start n state →
    readSizeLine src state.pos = .ok (some head) →
      state.pos ≤ head.pos ∧ head.pos ≤ (appendChunk src state.decoded head).pos

/-- The loop over the chunks of the response ends, and `pos` never moves backwards. -/
def ChunkLoopProgresses (raw : Bytes) : Prop :=
  ReachesChunks raw → Halts (chunkPass (bodyOf raw)) .start ∧ NeverBack (bodyOf raw)

theorem safe_stoi {s : Bytes} : Safe (stoi s) fun _ => True := by
  unfold stoi
  rcases splitSign (s.dropWhile isSpaceByte) with ⟨negative, number⟩
  dsimp only
  split
  · trivial
  · exact safe_ite.mpr ⟨fun _ => trivial, fun _ => trivial⟩

theorem safe_statusOf {raw : Bytes} : Safe (statusOf raw) fun _ => True := by
  unfold statusOf
  rw [safe_bind, safe_throwIf]
  intro _
  split
  · trivial
  · exact safe_stoi

/-- The response is never answered exactly if the loop is reached and has no end. -/
theorem parseHttpResponse_eq_diverges {raw : Bytes} :
    parseHttpResponse raw = .error (.fault .diverges) ↔
      ReachesChunks raw ∧ ¬ Halts (chunkPass (bodyOf raw)) .start := by
  unfold parseHttpResponse parseHttpResponseWith ReachesChunks
  cases hstatus : statusOf raw with
  | error e =>
      rw [error_bind]
      have hthrown : e.Thrown := safe_statusOf.of_error hstatus
      refine iff_of_false ?_ ?_
      · intro h
        cases h
        exact hthrown
      · rintro ⟨⟨⟨status, h⟩, -⟩, -⟩
        cases h
  | ok status =>
      rw [ok_bind, ← decodeChunks_eq_diverges]
      by_cases hchunked : isChunked raw
      · cases decodeChunks (bodyOf raw) <;> simp [hchunked, pure, Except.pure]
      · simp [hchunked, pure, Except.pure]

/-- The place behind a line is reached from it; the place behind the chunk, if nothing wraps. -/
theorem neverBack_iff {src : Bytes} :
    NeverBack src ↔ ∀ line : SizeLine, line.Met src → ¬ line.Wraps := by
  constructor
  · intro hback line hmet hwraps
    obtain ⟨hline, n, state, hpasses, hstate⟩ := met_iff.mp hmet
    have hread := readSizeLine_eq_some.mpr ⟨line, hline, hstate.symm, rfl⟩
    exact Nat.not_le_of_lt hwraps (hback n state line.head hpasses hread).2
  · intro hwraps n state head hpasses hread
    obtain ⟨line, hline, hstate, rfl⟩ := readSizeLine_eq_some.mp hread
    have hmet := met_iff.mpr ⟨hline, n, state, hpasses, hstate.symm⟩
    refine ⟨?_, Nat.le_of_not_lt (hwraps line hmet)⟩
    exact hstate ▸ hline.pos_le.trans (Nat.le_add_right _ 2)

/-- A loop whose lines do not wrap raises `pos` in every pass, so it ends. -/
theorem NeverBack.halts {src : Bytes} (h : NeverBack src) : Halts (chunkPass src) .start := by
  apply steered_chunkPass.halts_of_progress
  intro n state next hpasses hagain
  obtain ⟨line, hline, hstate, rfl⟩ := chunkPass_eq_again.mp hagain
  have hread := readSizeLine_eq_some.mpr ⟨line, hline, hstate, rfl⟩
  have hpos := hline.pos_le
  calc state.pos
      = line.pos := hstate.symm
    _ < line.head.pos := Nat.lt_of_le_of_lt hpos (Nat.lt_add_of_pos_right Nat.two_pos)
    _ ≤ (appendChunk src state.decoded line.head).pos := (h n state line.head hpasses hread).2

theorem chunkLoopProgresses_iff (raw : Bytes) : ChunkLoopProgresses raw ↔
    (ReachesChunks raw → ∀ line : SizeLine, line.Met (bodyOf raw) → ¬ line.Wraps) := by
  refine imp_congr_right fun _ => ?_
  rw [← neverBack_iff]
  exact ⟨And.right, fun hback => ⟨hback.halts, hback⟩⟩

/-- The size `-6` sends `pos` back to the line that announces it. -/
theorem chunkLoopProgresses_minusSix : ¬ ChunkLoopProgresses
    (ascii "HTTP/1.1 200 OK\r\nTransfer-Encoding: chunked\r\n\r\n-6\r\n") := by
  intro h
  have hreaches : ReachesChunks
      (ascii "HTTP/1.1 200 OK\r\nTransfer-Encoding: chunked\r\n\r\n-6\r\n") :=
    ⟨⟨200, by decide +kernel⟩, by decide +kernel⟩
  refine not_halts_of_cycle (chunkPass_eq_again.mpr ⟨⟨0, 2, 2 ^ 64 - 6⟩, ?_, rfl, ?_⟩) (h hreaches).1
  · exact ⟨by decide +kernel, by decide +kernel, by decide +kernel, by decide +kernel⟩
  · decide +kernel

end AasSign
