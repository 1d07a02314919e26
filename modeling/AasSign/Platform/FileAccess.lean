import AasSign.Foundation.Conversation
import AasSign.Msi.Cabinet
import AasSign.Platform.AtomicWrite
import AasSign.Platform.Copy

/-! # Access to a file at an offset

`File::read_at` and `File::write_at` on POSIX, call by call: a `pread` and a `pwrite` may move fewer
octets than they are asked to, or be interrupted. What the rest of the program relies on, that a
read is all of the range and a write is all of the data, is what the loops make of it.
-/

namespace AasSign

open Foundation

namespace Posix

/-! ## The loops -/

/-- The arguments of `pread` as the loop goes on, and what has been read. -/
structure Reading where
  offset : Nat
  len : Nat
  got : Bytes

/-- The file, and the arguments of `pwrite` as the loop goes on. -/
structure Writing where
  file : Bytes
  offset : Nat
  left : Bytes

section Loops

variable (strerror : Nat → Bytes) (path : Bytes)

def unexpectedEof : Bytes := ascii "pread " ++ path ++ ascii ": unexpected EOF"

/-- `pread`, and the advance of the loop by what it has read. -/
def Reading.pread (file : Bytes) (s : Reading) (m : Moment) : Except Bytes Reading :=
  match m.read with
  | none =>
      if m.errno = eintr then .ok s else .error (copyError strerror "pread" path m.errno)
  | some n =>
      let piece := (file.drop s.offset).take (min (n + 1) s.len)
      if piece = [] then .error (unexpectedEof path)
      else .ok ⟨s.offset + piece.length, s.len - piece.length, s.got ++ piece⟩

/-- One pass of `File::read_at`. -/
def readAtTurn (file : Bytes) (s : Reading) : LoopTurn Reading Moment Bytes Bytes :=
  if s.len = 0 then .leave (.ok s.got) else .ask (s.pread strerror path file)

/-- `pwrite`, and the advance of the loop by what it has written. -/
def Writing.pwrite (s : Writing) (m : Moment) : Except Bytes Writing :=
  match m.write with
  | none =>
      if m.errno = eintr then .ok s else .error (copyError strerror "pwrite" path m.errno)
  | some 0 => .error (ascii "pwrite " ++ path ++ ascii ": zero bytes written")
  | some (n + 1) =>
      let piece := s.left.take (n + 1)
      .ok ⟨overwrite s.file s.offset piece, s.offset + piece.length, s.left.drop (n + 1)⟩

/-- One pass of `File::write_at`. -/
def writeAtTurn (s : Writing) : LoopTurn Writing Moment Bytes Unit :=
  if s.left = [] then .leave (.ok ()) else .ask (s.pwrite strerror path)

/-- `File::read_at`. -/
def fileReadAt (file : Bytes) (offset len : Nat) (moments : List Moment) : Standing Reading Bytes Bytes :=
  converse (readAtTurn strerror path file) moments ⟨offset, len, []⟩

/-- `File::write_at`. -/
def fileWriteAt (file : Bytes) (offset : Nat) (data : Bytes) (moments : List Moment) :
    Standing Writing Bytes Unit :=
  converse (writeAtTurn strerror path) moments ⟨file, offset, data⟩

end Loops

/-! ## Pieces of a write -/

section Pieces

variable {file front rest chunk first second : Bytes} {offset : Nat}

theorem overwrite_append : overwrite (front ++ rest) front.length chunk =
    front ++ (chunk ++ rest.drop chunk.length) := by
  have hpad : front.length - (front ++ rest).length = 0 := by simp
  rw [overwrite, hpad, List.take_left, List.drop_append]
  simp

/-- What is in front of a write, the zeros up to it included. -/
theorem overwrite_front (file : Bytes) (offset : Nat) : ∃ front, front.length = offset ∧
    ∀ chunk, overwrite file offset chunk = front ++ (chunk ++ file.drop (offset + chunk.length)) := by
  refine ⟨file.take offset ++ List.replicate (offset - file.length) 0, ?_, fun chunk => ?_⟩
  · simp only [List.length_append, List.length_take, List.length_replicate]
    omega
  · simp [overwrite]

/-- A write in two pieces. -/
theorem overwrite_overwrite : overwrite (overwrite file offset first) (offset + first.length) second =
    overwrite file offset (first ++ second) := by
  obtain ⟨front, hfront, hoverwrite⟩ := overwrite_front file offset
  have hlength : offset + first.length = (front ++ first).length := by
    rw [List.length_append, hfront]
  rw [hoverwrite, hoverwrite, ← List.append_assoc front first, hlength, overwrite_append, List.drop_drop,
    ← hlength, List.length_append]
  simp [Nat.add_assoc]

/-- What is read where it was written. -/
theorem take_drop_overwrite : ((overwrite file offset chunk).drop offset).take chunk.length = chunk := by
  obtain ⟨front, hfront, hoverwrite⟩ := overwrite_front file offset
  rw [hoverwrite, List.drop_left' hfront, List.take_left]

theorem overwrite_before {n : Nat} (hn : n ≤ offset) (hfile : n ≤ file.length) :
    (overwrite file offset chunk).take n = file.take n := by
  have hshort : n ≤ (file.take offset).length := by
    rw [List.length_take]
    omega
  rw [overwrite, List.append_assoc, List.append_assoc, List.take_append_of_le_length hshort, List.take_take,
    Nat.min_eq_left hn]

theorem overwrite_after {n : Nat} (hn : offset + chunk.length ≤ n) :
    (overwrite file offset chunk).drop n = file.drop n := by
  obtain ⟨front, hfront, hoverwrite⟩ := overwrite_front file offset
  obtain ⟨more, rfl⟩ := Nat.exists_eq_add_of_le hn
  have hlength : (front ++ chunk).length = offset + chunk.length := by
    rw [List.length_append, hfront]
  rw [hoverwrite, ← List.append_assoc, ← List.drop_drop, List.drop_left' hlength, List.drop_drop]

end Pieces

/-! ## What the loops do -/

/-- The file after a front of the data has been written. -/
def splice (file : Bytes) (offset : Nat) (done : Bytes) : Bytes :=
  if done = [] then file else overwrite file offset done

/-- Where a read stands: what it has got, what is left of the range, and nothing skipped. -/
structure Reading.Of (file : Bytes) (offset len : Nat) (s : Reading) : Prop where
  whole : file.drop offset = s.got ++ file.drop s.offset
  offset : s.offset = offset + s.got.length
  len : s.got.length + s.len = len

/-- Where a write stands: what is done of the data, and the file with that. -/
def Writing.Of (file : Bytes) (offset : Nat) (data : Bytes) (s : Writing) : Prop :=
  ∃ done, data = done ++ s.left ∧ s.offset = offset + done.length ∧ s.file = splice file offset done

section Passes

variable {strerror : Nat → Bytes} {path file data : Bytes} {offset len : Nat} {m : Moment}

theorem Reading.pread_ok {s s' : Reading} (h : s.pread strerror path file m = .ok s') :
    m.read = none ∧ s' = s ∨ ∃ n, 0 < n ∧ n ≤ s.len ∧ n ≤ (file.drop s.offset).length ∧
      s' = ⟨s.offset + n, s.len - n, s.got ++ (file.drop s.offset).take n⟩ := by
  unfold Reading.pread at h
  split at h
  next hread =>
    split_ifs at h
    cases h
    exact .inl ⟨hread, rfl⟩
  next n hread =>
    dsimp only at h
    split_ifs at h with hpiece
    cases h
    have hpos := List.length_pos_of_ne_nil hpiece
    have hlength : ((file.drop s.offset).take (min (n + 1) s.len)).length =
        min (min (n + 1) s.len) (file.drop s.offset).length := List.length_take
    refine .inr ⟨_, hpos, by omega, by omega, ?_⟩
    rw [← List.prefix_iff_eq_take.mp (List.take_prefix _ _)]

theorem Reading.Of.pread {s s' : Reading} (h : s.Of file offset len)
    (hnext : s.pread strerror path file m = .ok s') : s'.Of file offset len := by
  rcases Reading.pread_ok hnext with ⟨-, rfl⟩ | ⟨n, -, hn, hle, rfl⟩
  · exact h
  · have hlength : ((file.drop s.offset).take n).length = n := List.length_take_of_le hle
    exact {
      whole := by
        rw [h.whole, List.append_assoc, ← List.drop_drop, List.take_append_drop]
      offset := by
        rw [List.length_append, hlength, h.offset, Nat.add_assoc]
      len := by
        have hall := h.len
        change (s.got ++ (file.drop s.offset).take n).length + (s.len - n) = len
        rw [List.length_append, hlength]
        omega }

theorem Writing.pwrite_ok {s s' : Writing} (h : s.pwrite strerror path m = .ok s') :
    m.write = none ∧ s' = s ∨ ∃ n, 0 < n ∧ s' = ⟨overwrite s.file s.offset (s.left.take n),
      s.offset + (s.left.take n).length, s.left.drop n⟩ := by
  unfold Writing.pwrite at h
  split at h
  next hwrite =>
    split_ifs at h
    cases h
    exact .inl ⟨hwrite, rfl⟩
  · cases h
  next n hwrite =>
    cases h
    exact .inr ⟨n + 1, Nat.succ_pos n, rfl⟩

theorem splice_append {done piece : Bytes} (h : piece ≠ []) :
    overwrite (splice file offset done) (offset + done.length) piece = splice file offset (done ++ piece) := by
  have hne : done ++ piece ≠ [] := List.append_ne_nil_of_right_ne_nil done h
  rw [splice, splice, if_neg hne]
  split
  next hdone => rw [hdone, List.length_nil, Nat.add_zero, List.nil_append]
  next => exact overwrite_overwrite

theorem Writing.Of.pwrite {s s' : Writing} (h : s.Of file offset data) (hleft : s.left ≠ [])
    (hnext : s.pwrite strerror path m = .ok s') : s'.Of file offset data := by
  obtain ⟨done, hdata, hoffset, hfile⟩ := h
  rcases Writing.pwrite_ok hnext with ⟨-, rfl⟩ | ⟨n, hn, rfl⟩
  · exact ⟨done, hdata, hoffset, hfile⟩
  · have hpiece : s.left.take n ≠ [] := by
      rw [ne_eq, List.take_eq_nil_iff, not_or]
      exact ⟨hn.ne', hleft⟩
    refine ⟨done ++ s.left.take n, ?_, ?_, ?_⟩
    · rw [List.append_assoc, List.take_append_drop]
      exact hdata
    · rw [List.length_append, hoffset, Nat.add_assoc]
    · rw [hfile, hoffset]
      exact splice_append hpiece

end Passes

/-! ## What the rest of the program relies on -/

section Runs

variable (strerror : Nat → Bytes) (path : Bytes)

/-- A read is what `readAt` says, unless a call fails. -/
structure Reads (file : Bytes) (offset len : Nat) (moments : List Moment)
    (standing : Standing Reading Bytes Bytes) : Prop where
  returned : ∀ got, standing.outcome = some (.ok got) → ∀ path', readAt path' file offset len = .ok got
  threw : ∀ what, standing.outcome = some (.error what) →
    (∃ m ∈ moments, m.read = none ∧ m.errno ≠ eintr ∧ what = copyError strerror "pread" path m.errno) ∨
    (what = unexpectedEof path ∧ ∀ path', readAt path' file offset len =
      .error (.error ("pread " ++ path'.text ++ ": unexpected EOF")))
  waiting : standing.outcome = none → moments.countP (fun m => m.read.isSome) < len

/-- A write leaves a front of the data at its place, and all of the data if it returns. -/
structure Writes (file : Bytes) (offset : Nat) (data : Bytes) (moments : List Moment)
    (standing : Standing Writing Bytes Unit) : Prop where
  written : ∃ done rest, data = done ++ rest ∧ standing.state.file = splice file offset done ∧
    (standing.outcome = some (.ok ()) → rest = [])
  threw : ∀ what, standing.outcome = some (.error what) → ∃ m ∈ moments,
    (m.write = none ∧ m.errno ≠ eintr ∧ what = copyError strerror "pwrite" path m.errno) ∨
    (m.write = some 0 ∧ what = ascii "pwrite " ++ path ++ ascii ": zero bytes written")
  waiting : standing.outcome = none → moments.countP (fun m => m.write.isSome) < data.length

variable {strerror path} {file data : Bytes} {offset len : Nat} {moments : List Moment}

theorem readAtTurn_ask {s : Reading} {next : Moment → Except Bytes Reading}
    (h : readAtTurn strerror path file s = .ask next) : 0 < s.len ∧ next = s.pread strerror path file := by
  unfold readAtTurn at h
  split_ifs at h with hlen
  cases h
  exact ⟨Nat.pos_of_ne_zero hlen, rfl⟩

theorem writeAtTurn_ask {s : Writing} {next : Moment → Except Bytes Writing}
    (h : writeAtTurn strerror path s = .ask next) : s.left ≠ [] ∧ next = s.pwrite strerror path := by
  unfold writeAtTurn at h
  split_ifs at h with hleft
  cases h
  exact ⟨hleft, rfl⟩

theorem Reading.Of.readAt_ok {s : Reading} (h : s.Of file offset len) (hlen : s.len = 0) (path' : Path) :
    readAt path' file offset len = .ok s.got := by
  have hall := h.len
  have hlength := congrArg List.length h.whole
  rw [List.length_drop, List.length_append] at hlength
  rw [readAt, if_pos (by omega), h.whole, show len = s.got.length by omega, List.take_left]

theorem Reading.Of.readAt_eof {s : Reading} (h : s.Of file offset len) (hlen : 0 < s.len)
    (heof : file.drop s.offset = []) (path' : Path) : readAt path' file offset len =
      .error (.error ("pread " ++ path'.text ++ ": unexpected EOF")) := by
  have hall := h.len
  have hoffset := h.offset
  have hend := List.drop_eq_nil_iff.mp heof
  rw [readAt, if_neg (by omega)]

theorem readAtTurn_leave {s : Reading} {outcome : Except Bytes Bytes}
    (h : readAtTurn strerror path file s = .leave outcome) : s.len = 0 ∧ outcome = .ok s.got := by
  unfold readAtTurn at h
  split_ifs at h with hlen
  cases h
  exact ⟨hlen, rfl⟩

theorem writeAtTurn_leave {s : Writing} {outcome : Except Bytes Unit}
    (h : writeAtTurn strerror path s = .leave outcome) : s.left = [] ∧ outcome = .ok () := by
  unfold writeAtTurn at h
  split_ifs at h with hleft
  cases h
  exact ⟨hleft, rfl⟩

theorem fileReadAt_of : (fileReadAt strerror path file offset len moments).state.Of file offset len := by
  refine converse_invariant (fun s : Reading => s.Of file offset len) ?_ ⟨rfl, rfl, Nat.zero_add _⟩
  intro s next m s' hturn hnext hs
  obtain ⟨-, rfl⟩ := readAtTurn_ask hturn
  exact hs.pread hnext

theorem fileReadAt_ends (h : len ≤ moments.countP fun m => m.read.isSome) :
    (fileReadAt strerror path file offset len moments).outcome ≠ none := by
  refine converse_outcome Reading.len (fun m : Moment => m.read.isSome) ?_ ?_ h
  · intro s next m s' hturn hnext
    obtain ⟨hpos, rfl⟩ := readAtTurn_ask hturn
    rcases Reading.pread_ok hnext with ⟨hread, rfl⟩ | ⟨n, hn, hle, -, rfl⟩
    · simp [hread]
    · dsimp only
      omega
  · intro s next hturn
    exact (readAtTurn_ask hturn).1

theorem fileReadAt_reads : Reads strerror path file offset len moments
    (fileReadAt strerror path file offset len moments) where
  returned got hgot path' := by
    obtain ⟨hlen, hout⟩ := readAtTurn_leave (converse_ok hgot)
    rw [Except.ok.inj hout]
    exact fileReadAt_of.readAt_ok hlen path'
  threw what hwhat := by
    rcases converse_threw hwhat with hleave | ⟨next, hturn, m, hmem, hnext⟩
    · cases (readAtTurn_leave hleave).2
    · obtain ⟨hpos, rfl⟩ := readAtTurn_ask hturn
      unfold Reading.pread at hnext
      split at hnext
      next hread =>
        split_ifs at hnext with hinterrupted
        cases hnext
        exact .inl ⟨m, hmem, hread, hinterrupted, rfl⟩
      next n hread =>
        dsimp only at hnext
        split_ifs at hnext with hpiece
        cases hnext
        have heof := (List.take_eq_nil_iff.mp hpiece).resolve_left (by omega)
        exact .inr ⟨rfl, fileReadAt_of.readAt_eof hpos heof⟩
  waiting hnone := by
    by_contra hmany
    exact fileReadAt_ends (by omega) hnone

theorem fileWriteAt_of :
    (fileWriteAt strerror path file offset data moments).state.Of file offset data := by
  refine converse_invariant (fun s : Writing => s.Of file offset data) ?_ ⟨[], rfl, rfl, rfl⟩
  intro s next m s' hturn hnext hs
  obtain ⟨hleft, rfl⟩ := writeAtTurn_ask hturn
  exact hs.pwrite hleft hnext

theorem fileWriteAt_ends (h : data.length ≤ moments.countP fun m => m.write.isSome) :
    (fileWriteAt strerror path file offset data moments).outcome ≠ none := by
  refine converse_outcome (fun s : Writing => s.left.length) (fun m : Moment => m.write.isSome) ?_ ?_ h
  · intro s next m s' hturn hnext
    obtain ⟨hleft, rfl⟩ := writeAtTurn_ask hturn
    have hpos := List.length_pos_of_ne_nil hleft
    rcases Writing.pwrite_ok hnext with ⟨hwrite, rfl⟩ | ⟨n, hn, rfl⟩
    · simp [hwrite]
    · simp only [List.length_drop]
      omega
  · intro s next hturn
    exact List.length_pos_of_ne_nil (writeAtTurn_ask hturn).1

theorem fileWriteAt_writes : Writes strerror path file offset data moments
    (fileWriteAt strerror path file offset data moments) where
  written := by
    obtain ⟨done, hdata, -, hfile⟩ := fileWriteAt_of
    exact ⟨done, _, hdata, hfile, fun hreturned => (writeAtTurn_leave (converse_ok hreturned)).1⟩
  threw what hwhat := by
    rcases converse_threw hwhat with hleave | ⟨next, hturn, m, hmem, hnext⟩
    · cases (writeAtTurn_leave hleave).2
    · obtain ⟨hleft, rfl⟩ := writeAtTurn_ask hturn
      unfold Writing.pwrite at hnext
      split at hnext
      next hwrite =>
        split_ifs at hnext with hinterrupted
        cases hnext
        exact ⟨m, hmem, .inl ⟨hwrite, hinterrupted, rfl⟩⟩
      next hwrite =>
        cases hnext
        exact ⟨m, hmem, .inr ⟨hwrite, rfl⟩⟩
      · cases hnext
  waiting hnone := by
    by_contra hmany
    exact fileWriteAt_ends (by omega) hnone

theorem eq_of_readAt {path' : Path} {got : Bytes} (h : readAt path' file offset len = .ok got) :
    got = (file.drop offset).take len := by
  unfold readAt at h
  split_ifs at h
  exact (Except.ok.inj h).symm

/-- A range that a write does not touch is as before. -/
theorem splice_apart {done : Bytes} {start : Nat} (hrange : start + len ≤ file.length)
    (happart : start + len ≤ offset ∨ offset + done.length ≤ start) :
    ((splice file offset done).drop start).take len = (file.drop start).take len := by
  unfold splice
  split
  · rfl
  · rcases happart with hbefore | hafter
    · rw [List.take_drop, List.take_drop, overwrite_before hbefore hrange]
    · rw [overwrite_after hafter]

theorem take_drop_splice : ((splice file offset data).drop offset).take data.length = data := by
  unfold splice
  split
  next hdata => simp [hdata]
  · exact take_drop_overwrite

/-- However many octets the calls move: a read that returns is the range, and one that throws met a
failed call or the end of the file; a write that returns has put the data at its place, one that
does not has put a front of it there; what is then read there is the data, and a range beside it
is read as before. -/
theorem fileAt_readBack (strerror : Nat → Bytes) (path file : Bytes) (offset : Nat) (data : Bytes)
    (moments : List Moment) :
    let written := fileWriteAt strerror path file offset data moments
    Writes strerror path file offset data moments written ∧
    ∀ start len moments',
      let read := fileReadAt strerror path written.state.file start len moments'
      Reads strerror path written.state.file start len moments' read ∧
      (written.outcome = some (.ok ()) → start = offset → len = data.length →
        ∀ got, read.outcome = some (.ok got) → got = data) ∧
      (start + len ≤ file.length → (start + len ≤ offset ∨ offset + data.length ≤ start) →
        ∀ got, read.outcome = some (.ok got) → got = (file.drop start).take len) := by
  intro written
  have hwrites : Writes strerror path file offset data moments written := fileWriteAt_writes
  refine ⟨hwrites, fun start len moments' => ?_⟩
  intro read
  have hreads : Reads strerror path written.state.file start len moments' read := fileReadAt_reads
  obtain ⟨done, rest, hdata, hfile, hwhole⟩ := hwrites.written
  refine ⟨hreads, fun hreturned hstart hlen got hgot => ?_, fun hrange happart got hgot => ?_⟩
  · have hall : done = data := by rw [hdata, hwhole hreturned, List.append_nil]
    have hread := eq_of_readAt (hreads.returned got hgot (.user path))
    rw [hfile, hall, hstart, hlen, take_drop_splice] at hread
    exact hread
  · have hread := eq_of_readAt (hreads.returned got hgot (.user path))
    have hlength := congrArg List.length hdata
    rw [List.length_append] at hlength
    rw [hfile, splice_apart hrange (happart.imp_right (by omega))] at hread
    exact hread

end Runs

end Posix

end AasSign
