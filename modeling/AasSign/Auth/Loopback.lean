import AasSign.Auth.Query
import AasSign.Foundation.Conversation

/-! # The loopback server

`LoopbackServer::accept_request` on a connection that may be cut into any pieces: the target that
it returns is that of the whole request, and it keeps no more of a request than a bound.
-/

namespace AasSign

open Foundation

/-! ## The loops -/

/-- `sizeof(tmp)`. -/
def readSize : Nat := 4096

/-- `buf.size() < 16384`. -/
def requestCap : Nat := 16384

abbrev crlfBytes : Bytes := [13, 10]

/-- What a `read` on the connection of the browser returns; nothing read is the end of it. -/
inductive SocketRead where
  | gave (octets : { octets : Bytes // octets.length ≤ readSize })
  /-- `EINTR`. -/
  | interrupted
  | failed (what : Bytes)

/-- The variables of the loop that reads a request. -/
structure Accepting where
  buf : Bytes
  ended : Bool

/-- The loop has what it waits for. -/
def Accepting.Full (s : Accepting) : Prop :=
  s.ended = true ∨ (findFrom (crlfBytes ++ crlfBytes) s.buf 0).isSome ∨ requestCap ≤ s.buf.length

instance (s : Accepting) : Decidable s.Full := inferInstanceAs (Decidable (_ ∨ _))

/-- What a pass does with what it reads. -/
def Accepting.take (s : Accepting) : SocketRead → Except Bytes Accepting
  | .gave octets =>
      if octets.1 = [] then .ok { s with ended := true } else .ok { s with buf := s.buf ++ octets.1 }
  | .interrupted => .ok s
  | .failed what => .error (ascii "read: " ++ what)

/-- One pass of the loop. -/
def acceptTurn (s : Accepting) : LoopTurn Accepting SocketRead Bytes Bytes :=
  if s.Full then .leave (.ok s.buf) else .ask s.take

def Accepting.start : Accepting := ⟨[], false⟩

def malformedLine : Bytes := ascii "malformed HTTP request line"

/-- `buf.substr(0, buf.find("\r\n"))`. -/
def firstLine (buf : Bytes) : Bytes :=
  match findFrom crlfBytes buf 0 with
  | none => buf
  | some stop => buf.take stop

/-- The target in the first line of what was read. -/
def requestTarget (buf : Bytes) : Except Bytes Bytes :=
  let line := firstLine buf
  match findFrom [32] line 0 with
  | none => .error malformedLine
  | some sp1 =>
      match findFrom [32] line (sp1 + 1) with
      | none => .error malformedLine
      | some sp2 => .ok ((line.drop (sp1 + 1)).take (sp2 - sp1 - 1))

/-- `accept_request` on an accepted connection; none while it waits. -/
def acceptRequest (reads : List SocketRead) : Option (Except Bytes Bytes) :=
  (converse acceptTurn reads .start).outcome.map (· >>= requestTarget)

/-! ## The target -/

/-- The front of a request up to the space behind its target. -/
def requestFront (method target : Bytes) : Bytes := method ++ 32 :: target

section Target

variable {buf line target method rest : Bytes}

/-- The first line ends at the first line break, or where the buffer does. -/
theorem firstLine_spec (buf : Bytes) : ∃ after, buf = firstLine buf ++ after ∧
    ¬ crlfBytes <:+: firstLine buf ∧ (after = [] ∨ crlfBytes <+: after) := by
  unfold firstLine
  cases hfind : findFrom crlfBytes buf 0 with
  | none =>
      refine ⟨[], (List.append_nil _).symm, ?_, .inl rfl⟩
      rw [← findFrom_isSome, hfind]
      simp
  | some stop =>
      obtain ⟨-, hoccurs, hfirst⟩ := findFrom_eq_some.mp hfind
      obtain ⟨hstop, hprefix⟩ := occursAt_iff.mp hoccurs
      refine ⟨buf.drop stop, (List.take_append_drop stop buf).symm, ?_, .inr hprefix⟩
      rintro ⟨before, after, htake⟩
      have hbuf : buf = before ++ (crlfBytes ++ (after ++ buf.drop stop)) := by
        rw [← List.append_assoc, ← List.append_assoc, htake, List.take_append_drop]
      have hlength := congrArg List.length htake
      simp only [List.length_append, List.length_cons, List.length_nil, List.length_take] at hlength
      exact hfirst before.length (Nat.zero_le _) (by omega) ⟨before, _, hbuf, rfl⟩

/-- Between the first two spaces of a line. -/
theorem betweenSpaces : (match findFrom [32] line 0 with
    | none => .error malformedLine
    | some sp1 =>
        match findFrom [32] line (sp1 + 1) with
        | none => .error malformedLine
        | some sp2 => .ok ((line.drop (sp1 + 1)).take (sp2 - sp1 - 1)) : Except Bytes Bytes) =
      .ok target ↔ ∃ method tail, line = requestFront method target ++ 32 :: tail ∧ 32 ∉ method ∧
        32 ∉ target := by
  by_cases hspace : 32 ∈ line
  · obtain ⟨method, back, rfl, hmethod⟩ := List.eq_append_cons_of_mem hspace
    have hdrop : (method ++ 32 :: back).drop (method.length + 1) = back := by simp
    rw [findFrom_symbol hmethod]
    dsimp only
    rw [findFrom_symbol_from (by simp), hdrop]
    by_cases hback : 32 ∈ back
    · obtain ⟨found, tail, rfl, hfound⟩ := List.eq_append_cons_of_mem hback
      rw [if_pos hback, (takeWhile_symbol hfound tail).1]
      dsimp only
      rw [show method.length + 1 + found.length - method.length - 1 = found.length by omega,
        List.take_left]
      constructor
      · intro h
        cases h
        exact ⟨method, tail, by simp [requestFront], hmethod, hfound⟩
      · rintro ⟨method', tail', heq, hmethod', htarget⟩
        rw [requestFront, List.append_assoc, List.cons_append] at heq
        obtain ⟨-, hrest⟩ := split_at_symbol hmethod hmethod' heq
        rw [(split_at_symbol hfound htarget hrest).1]
    · rw [if_neg hback]
      refine iff_of_false (fun h => by cases h) ?_
      rintro ⟨method', tail', heq, hmethod', -⟩
      rw [requestFront, List.append_assoc, List.cons_append] at heq
      obtain ⟨-, hrest⟩ := split_at_symbol hmethod hmethod' heq
      exact hback (hrest ▸ by simp)
  · have hnone : findFrom [32] line 0 = none := by
      rw [findFrom_symbol_from (Nat.zero_le _), List.drop_zero, if_neg hspace]
    rw [hnone]
    refine iff_of_false (fun h => by cases h) ?_
    rintro ⟨method, tail, rfl, -⟩
    exact hspace (by simp [requestFront])

/-- A line break that is not in the front of a buffer comes behind the space that ends it. -/
theorem front_prefix_line {front : Bytes} (h : buf = front ++ 32 :: rest) (hfront : ¬ crlfBytes <:+: front) :
    front ++ [32] <+: firstLine buf := by
  obtain ⟨after, hbuf, -, hafter⟩ := firstLine_spec buf
  have hspaced : front ++ [32] <+: buf := ⟨rest, by rw [h, List.append_assoc]; rfl⟩
  rcases hafter with rfl | hbreak
  · rw [List.append_nil] at hbuf
    rw [← hbuf]
    exact hspaced
  · rcases List.prefix_or_prefix_of_prefix hspaced ⟨after, hbuf.symm⟩ with hline | hline
    · exact hline
    · rcases List.prefix_concat_iff.mp hline with heq | ⟨middle, hmiddle⟩
      · exact heq ▸ List.prefix_refl _
      · -- The line would end inside the front, at a line break.
        exfalso
        rw [hbuf, ← hmiddle, List.append_assoc] at h
        rw [List.append_cancel_left h] at hbreak
        match middle, hbreak with
        | [], hbreak => simp at hbreak
        | [c], hbreak => simp at hbreak
        | c :: d :: middle, hbreak =>
            refine hfront (hmiddle ▸ ?_)
            have hinside : crlfBytes <+: c :: d :: middle := by simpa using hbreak
            exact hinside.isInfix.trans (List.suffix_append _ _).isInfix

/-- A target is what stands between the first two spaces, before the first line ends. -/
theorem requestTarget_eq_ok : requestTarget buf = .ok target ↔
    ∃ method rest, buf = requestFront method target ++ 32 :: rest ∧ 32 ∉ method ∧ 32 ∉ target ∧
      ¬ crlfBytes <:+: requestFront method target := by
  rw [requestTarget, betweenSpaces]
  constructor
  · rintro ⟨method, tail, hline, hmethod, htarget⟩
    obtain ⟨after, hbuf, hfree, -⟩ := firstLine_spec buf
    refine ⟨method, tail ++ after, ?_, hmethod, htarget, fun hinfix => hfree ?_⟩
    · rw [hbuf, hline, List.append_assoc, List.cons_append]
    · rw [hline]
      exact hinfix.trans (List.prefix_append _ _).isInfix
  · rintro ⟨method, rest, hbuf, hmethod, htarget, hfront⟩
    obtain ⟨tail, htail⟩ := front_prefix_line hbuf hfront
    exact ⟨method, tail, by rw [← htail, List.append_assoc]; rfl, hmethod, htarget⟩

/-- What is read behind a target does not change it. -/
theorem requestTarget_append (h : requestTarget buf = .ok target) (more : Bytes) :
    requestTarget (buf ++ more) = .ok target := by
  obtain ⟨method, rest, rfl, hrest⟩ := requestTarget_eq_ok.mp h
  exact requestTarget_eq_ok.mpr ⟨method, rest ++ more, by simp, hrest⟩

/-- A front of a request that has come to the end of a line has its target. -/
theorem requestTarget_of_prefix {whole : Bytes} (hfront : buf <+: whole)
    (h : requestTarget whole = .ok target) (hbreak : crlfBytes <:+: buf) :
    requestTarget buf = .ok target := by
  obtain ⟨method, rest, rfl, hmethod, htarget, hunbroken⟩ := requestTarget_eq_ok.mp h
  have hspaced : requestFront method target ++ [32] <+: requestFront method target ++ 32 :: rest :=
    ⟨rest, by rw [List.append_assoc]; rfl⟩
  rcases List.prefix_or_prefix_of_prefix hspaced hfront with ⟨tail, rfl⟩ | hshort
  · exact requestTarget_eq_ok.mpr ⟨method, tail, by simp, hmethod, htarget, hunbroken⟩
  · exfalso
    rcases List.prefix_concat_iff.mp hshort with rfl | hshorter
    · -- A line break does not end in a space.
      rcases List.infix_concat_iff.mp hbreak with hlast | hinside
      · rcases List.suffix_concat_iff.mp hlast with hnil | ⟨before, hspace, -⟩
        · cases hnil
        · simpa using congrArg List.getLast? hspace
      · exact hunbroken hinside
    · exact hunbroken (hbreak.trans hshorter.isInfix)

end Target

/-! ## Runs of the loop -/

/-- What the browser has sent, up to the end of the connection. -/
def delivered : List SocketRead → Bytes
  | [] => []
  | .gave octets :: rest => if octets.1 = [] then [] else octets.1 ++ delivered rest
  | _ :: rest => delivered rest

/-- The connection has ended, or a request that is long enough or has all of its fields is there. -/
def Complete (reads : List SocketRead) : Prop :=
  (∃ octets, .gave octets ∈ reads ∧ octets.1 = []) ∨ crlfBytes ++ crlfBytes <:+: delivered reads ∨
    requestCap ≤ (delivered reads).length

/-- Where the loop stands after some reads, if `buf` was read before them. -/
structure Followed (buf : Bytes) (reads : List SocketRead)
    (standing : Standing Accepting Bytes Bytes) : Prop where
  kept : standing.state.buf <+: buf ++ delivered reads
  ended : standing.state.ended = true → standing.state.buf = buf ++ delivered reads
  waiting : standing.outcome = none → ¬standing.state.Full ∧
    standing.state.buf = buf ++ delivered reads ∧ ∀ octets, .gave octets ∈ reads → octets.1 ≠ []
  failed : ∀ what, standing.outcome = some (.error what) → ∃ what, .failed what ∈ reads

section Runs

variable {s s' : Accepting} {buf target : Bytes} {reads : List SocketRead}
  {next : SocketRead → Except Bytes Accepting} {answer : SocketRead}

theorem acceptTurn_full (h : s.Full) : acceptTurn s = .leave (.ok s.buf) := by
  rw [acceptTurn, if_pos h]

theorem acceptTurn_leave {outcome : Except Bytes Bytes} (h : acceptTurn s = .leave outcome) :
    s.Full ∧ outcome = .ok s.buf := by
  rw [acceptTurn] at h
  split_ifs at h with hfull
  cases h
  exact ⟨hfull, rfl⟩

theorem acceptTurn_ask (h : acceptTurn s = .ask next) : ¬s.Full ∧ next = s.take := by
  rw [acceptTurn] at h
  split_ifs at h with hfull
  cases h
  exact ⟨hfull, rfl⟩

theorem followed (h : s.ended = false) :
    Followed s.buf reads (converse acceptTurn reads s) := by
  induction reads generalizing s with
  | nil =>
      have hbuf : s.buf = s.buf ++ delivered [] := (List.append_nil s.buf).symm
      cases hturn : acceptTurn s with
      | leave outcome =>
          rw [converse_leave hturn, (acceptTurn_leave hturn).2]
          exact ⟨hbuf ▸ List.prefix_refl _, fun _ => hbuf, nofun, nofun⟩
      | ask next =>
          rw [converse_nil_ask hturn]
          exact ⟨hbuf ▸ List.prefix_refl _, fun _ => hbuf,
            fun _ => ⟨(acceptTurn_ask hturn).1, hbuf, nofun⟩, nofun⟩
  | cons answer rest ih =>
      cases hturn : acceptTurn s with
      | leave outcome =>
          rw [converse_leave hturn, (acceptTurn_leave hturn).2]
          refine ⟨List.prefix_append _ _, fun hended => ?_, nofun, nofun⟩
          rw [h] at hended
          cases hended
      | ask next =>
          obtain ⟨-, rfl⟩ := acceptTurn_ask hturn
          cases answer with
          | interrupted =>
              rw [converse_ask hturn rfl]
              obtain ⟨hkept, hended, hwaiting, hfailed⟩ := ih h
              refine ⟨hkept, hended, fun hnone => ?_, fun what hwhat => ?_⟩
              · obtain ⟨hfull, hbuf, hgave⟩ := hwaiting hnone
                exact ⟨hfull, hbuf, fun octets hmem => hgave octets (by simpa using hmem)⟩
              · obtain ⟨what, hmem⟩ := hfailed what hwhat
                exact ⟨what, List.mem_cons_of_mem _ hmem⟩
          | failed what =>
              rw [converse_error hturn rfl]
              refine ⟨List.prefix_append _ _, fun hended => ?_, nofun,
                fun _ _ => ⟨what, List.mem_cons_self⟩⟩
              rw [h] at hended
              cases hended
          | gave octets =>
              by_cases hempty : octets.1 = []
              · -- The end of the connection is seen in the pass behind it.
                have hfull : Accepting.Full { s with ended := true } := .inl rfl
                have htake : s.take (.gave octets) = .ok { s with ended := true } := if_pos hempty
                rw [converse_ask hturn htake, converse_leave (acceptTurn_full hfull)]
                have hbuf : s.buf = s.buf ++ delivered (.gave octets :: rest) := by
                  rw [delivered, if_pos hempty, List.append_nil]
                exact ⟨⟨[], (List.append_nil _).trans hbuf⟩, fun _ => hbuf, nofun, nofun⟩
              · have htake : s.take (.gave octets) = .ok { s with buf := s.buf ++ octets.1 } :=
                  if_neg hempty
                rw [converse_ask hturn htake]
                have hdelivered : s.buf ++ delivered (.gave octets :: rest) =
                    (s.buf ++ octets.1) ++ delivered rest := by
                  rw [delivered, if_neg hempty, List.append_assoc]
                obtain ⟨hkept, hended, hwaiting, hfailed⟩ :=
                  ih (s := { s with buf := s.buf ++ octets.1 }) h
                refine ⟨hdelivered ▸ hkept, hdelivered ▸ hended, fun hnone => ?_, fun what hwhat => ?_⟩
                · obtain ⟨hfull, hbuf, hgave⟩ := hwaiting hnone
                  refine ⟨hfull, hdelivered ▸ hbuf, fun octets' hmem => ?_⟩
                  rcases List.mem_cons.mp hmem with heq | hmem
                  · cases heq
                    exact hempty
                  · exact hgave octets' hmem
                · obtain ⟨what, hmem⟩ := hfailed what hwhat
                  exact ⟨what, List.mem_cons_of_mem _ hmem⟩

/-- The buffer is never longer than the cap and one more read. -/
theorem accepting_bounded (reads : List SocketRead) :
    (converse acceptTurn reads .start).state.buf.length < requestCap + readSize := by
  refine converse_invariant (fun s : Accepting => s.buf.length < requestCap + readSize) ?_
    (by decide)
  intro s next answer s' hturn hnext hbound
  obtain ⟨hfull, rfl⟩ := acceptTurn_ask hturn
  have hroom : s.buf.length < requestCap := by
    simp only [Accepting.Full, not_or, Nat.not_le] at hfull
    exact hfull.2.2
  cases answer with
  | failed what => cases hnext
  | interrupted =>
      cases hnext
      exact hbound
  | gave octets =>
      have hread := octets.2
      rw [Accepting.take] at hnext
      split_ifs at hnext with hempty
      · cases hnext
        exact hbound
      · cases hnext
        rw [List.length_append]
        omega

/-- A request that is complete has been read, if no read failed. -/
theorem accepted_of_complete (hcomplete : Complete reads) (hfailed : ∀ what, .failed what ∉ reads) :
    ∃ s : Accepting, s.Full ∧ (s.ended = true → s.buf = delivered reads) ∧
      s.buf <+: delivered reads ∧
      (converse acceptTurn reads .start).outcome = some (.ok s.buf) := by
  have h : Followed Accepting.start.buf reads (converse acceptTurn reads .start) := followed rfl
  generalize hstanding : converse acceptTurn reads .start = standing at h
  obtain ⟨s, outcome⟩ := standing
  cases outcome with
  | none =>
      exfalso
      obtain ⟨hfull, hbuf, hgave⟩ := h.waiting rfl
      rw [show Accepting.start.buf = [] from rfl, List.nil_append] at hbuf
      rcases hcomplete with ⟨octets, hmem, hempty⟩ | hfields | hlong
      · exact hgave octets hmem hempty
      · refine hfull (.inr (.inl ?_))
        rw [findFrom_isSome, hbuf]
        exact hfields
      · exact hfull (.inr (.inr (hbuf ▸ hlong)))
  | some outcome =>
      cases outcome with
      | error what =>
          obtain ⟨what, hmem⟩ := h.failed what rfl
          exact absurd hmem (hfailed what)
      | ok buf =>
          have hreturned : (converse acceptTurn reads .start).outcome = some (.ok buf) := by rw [hstanding]
          have hleave := converse_ok hreturned
          rw [hstanding] at hleave
          obtain ⟨hfull, hbuf⟩ := acceptTurn_leave hleave
          rw [Except.ok.inj hbuf]
          exact ⟨s, hfull, h.ended, h.kept, rfl⟩

theorem acceptRequest_eq_ok : acceptRequest reads = some (.ok target) ↔
    ∃ buf, (converse acceptTurn reads .start).outcome = some (.ok buf) ∧
      requestTarget buf = .ok target := by
  rw [acceptRequest]
  cases (converse acceptTurn reads .start).outcome with
  | none => simp
  | some outcome =>
      cases outcome with
      | error what => simp [Bind.bind, Except.bind]
      | ok buf => simp [Bind.bind, Except.bind]

end Runs

end AasSign
