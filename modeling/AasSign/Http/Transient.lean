import AasSign.Http.Delivery

/-! # Failures that may pass

`retry_transient` tries a request again after a `TransientNetworkError`. That is a failure to
connect, a handshake, a write or a read that breaks off, and nothing else.
-/

namespace AasSign

open Foundation Program

/-! ## Transient outcomes -/

/-- The computation ends with a failure that `retry_transient` catches. -/
def Transient {α : Type} (x : Except NetError α) : Prop := ∃ what, x = .error (.transient what)

section Outcomes

variable {α β : Type} {x : Except NetError α}

theorem transient_bind {f : α → Except NetError β} :
    Transient (x >>= f) ↔ Transient x ∨ ∃ a, x = .ok a ∧ Transient (f a) := by
  cases x with
  | ok a => simp [Transient, Bind.bind, Except.bind]
  | error e => simp [Transient, Bind.bind, Except.bind]

theorem not_transient_ok {a : α} : ¬ Transient (.ok a : Except NetError α) := nofun

theorem not_transient_pure {a : α} : ¬ Transient (pure a : Except NetError α) := nofun

theorem not_transient_thrown {e : Exn} : ¬ Transient (.error (.thrown e) : Except NetError α) :=
  nofun

theorem not_transient_mapError {x : Except Exn α} :
    ¬ Transient (x.mapError NetError.thrown) := by
  cases x with
  | ok a => exact not_transient_ok
  | error e => exact not_transient_thrown

theorem failWith_eq_ok {outcome : Option Bytes} {error : Bytes → NetError} {u : Unit} :
    failWith outcome error = .ok u ↔ outcome = none := by
  cases outcome with
  | none => exact iff_of_true rfl rfl
  | some what => exact iff_of_false nofun nofun

theorem transient_failWith {outcome : Option Bytes} {error : Bytes → Bytes} :
    Transient (failWith outcome fun what => .transient (error what)) ↔ outcome ≠ none := by
  cases outcome with
  | none => exact iff_of_false not_transient_ok (not_not.mpr rfl)
  | some what => exact iff_of_true ⟨error what, rfl⟩ nofun

theorem not_transient_netError {outcome : Option Bytes} {error : Bytes → Bytes} :
    ¬ Transient (failWith outcome fun what => netError (error what)) := by
  cases outcome with
  | none => exact not_transient_ok
  | some what => exact not_transient_thrown

theorem transient_settle {outcome : Option (Except NetError α)} :
    Transient (settle outcome) ↔ ∃ what, outcome = some (.error (.transient what)) := by
  cases outcome with
  | none => simp [Transient, settle]
  | some outcome => simp [Transient, settle]

theorem not_transient_configureTrust {trust : TlsTrust} {c : Connection} :
    ¬ Transient (configureTrust trust c) := by
  unfold configureTrust
  split
  · exact not_transient_ok
  · dsimp only
    split
    · exact not_transient_thrown
    · split
      · exact not_transient_thrown
      · exact not_transient_ok

end Outcomes

/-! ## Loops that break off -/

/-- The library reports that the connection is lost. -/
def TlsReturn.Breaks {α : Type} (r : TlsReturn α) : Prop :=
  ∃ what, r = .closeNotify what ∨ r = .failed what

/-- The library asks for the handshake to be called again. -/
def TlsReturn.Continues (r : TlsReturn Unit) : Prop := r = .wantsIo ∨ r = .sessionTicket

/-- A write makes no progress and is not to be called again. -/
def TlsReturn.StopsWrite (r : TlsReturn Nat) : Prop :=
  r = .gave 0 ∨ r = .sessionTicket ∨ r.Breaks

theorem heard_handshake {host : Bytes} {answers : List (TlsReturn Unit)} {done : Bool}
    (h : Heard (handshakeTurn host) false answers done) (hopen : done = false) :
    ∀ r ∈ answers, r.Continues := by
  generalize hstart : false = start at h
  induction h with
  | refl => simp
  | @next s s' t next r rest hturn hnext heard ih =>
      subst hstart
      cases hturn
      cases r with
      | gave u =>
          cases hnext
          cases heard with
          | refl => cases hopen
          | next hask _ _ => cases hask
      | wantsIo =>
          cases hnext
          exact List.forall_mem_cons.mpr ⟨.inl rfl, ih hopen rfl⟩
      | sessionTicket =>
          cases hnext
          exact List.forall_mem_cons.mpr ⟨.inr rfl, ih hopen rfl⟩
      | closeNotify what => cases hnext
      | failed what => cases hnext

theorem handshake_heard {host : Bytes} {answers : List (TlsReturn Unit)}
    (h : ∀ r ∈ answers, r.Continues) : Heard (handshakeTurn host) false answers false := by
  induction answers with
  | nil => exact .refl false
  | cons r answers ih =>
      obtain ⟨hr, hrest⟩ := List.forall_mem_cons.mp h
      refine .next rfl ?_ (ih hrest)
      rcases hr with rfl | rfl <;> rfl

theorem handshake_transient_iff {host : Bytes} {answers : List (TlsReturn Unit)} :
    (∃ what, (converse (handshakeTurn host) answers false).outcome =
        some (.error (.transient what))) ↔
      ∃ front r back, answers = front ++ r :: back ∧ (∀ r ∈ front, r.Continues) ∧ r.Breaks := by
  simp only [converse_eq_error]
  constructor
  · rintro ⟨what, front, rest, done, rfl, heard, hleave | ⟨next, r, back, hturn, rfl, hnext⟩⟩
    · cases done with
      | false => cases hleave
      | true => cases hleave
    · cases done with
      | true => cases hturn
      | false =>
          refine ⟨front, r, back, rfl, heard_handshake heard rfl, ?_⟩
          cases hturn
          cases r with
          | gave u => cases hnext
          | wantsIo => cases hnext
          | sessionTicket => cases hnext
          | closeNotify what => exact ⟨what, .inl rfl⟩
          | failed what => exact ⟨what, .inr rfl⟩
  · rintro ⟨front, r, back, rfl, hfront, what, rfl | rfl⟩
    · exact ⟨_, front, _, false, rfl, handshake_heard hfront, .inr ⟨_, _, _, rfl, rfl, rfl⟩⟩
    · exact ⟨_, front, _, false, rfl, handshake_heard hfront, .inr ⟨_, _, _, rfl, rfl, rfl⟩⟩

theorem writes_heard {answers : List (TlsReturn Nat)} {s : Sending} (h : ∀ r ∈ answers, r.Writes)
    (hmore : (answers.map TlsReturn.taken).sum < s.rest.length) :
    ∃ t, Heard writeTurn s answers t ∧ t.rest ≠ [] := by
  induction answers generalizing s with
  | nil => exact ⟨s, .refl s, List.ne_nil_of_length_pos hmore⟩
  | cons r answers ih =>
      obtain ⟨hr, hrest⟩ := List.forall_mem_cons.mp h
      have hsome : s.rest ≠ [] := List.ne_nil_of_length_pos (Nat.zero_lt_of_lt hmore)
      obtain ⟨next, hturn, hnext⟩ := writeTurn_writes hsome hr
      have hleft : (answers.map TlsReturn.taken).sum < (s.rest.drop r.taken).length := by
        rw [List.map_cons, List.sum_cons] at hmore
        rw [List.length_drop]
        omega
      obtain ⟨t, heard, ht⟩ := ih (s := ⟨_, s.rest.drop r.taken⟩) hrest hleft
      exact ⟨t, .next hturn hnext heard, ht⟩

theorem writeTurn_stops {s : Sending} (hrest : s.rest ≠ []) {r : TlsReturn Nat} :
    r.StopsWrite ↔ ∃ next what, writeTurn s = .ask next ∧ next r = .error (.transient what) := by
  constructor
  · rintro (rfl | rfl | ⟨what, rfl | rfl⟩)
    all_goals exact ⟨_, _, if_neg hrest, rfl⟩
  · rintro ⟨next, what, hturn, hnext⟩
    obtain rfl := LoopTurn.ask.inj ((if_neg hrest).symm.trans hturn)
    cases r with
    | gave n =>
        cases n with
        | zero => exact .inl rfl
        | succ n => cases hnext
    | wantsIo => cases hnext
    | sessionTicket => exact .inr (.inl rfl)
    | closeNotify what => exact .inr (.inr ⟨what, .inl rfl⟩)
    | failed what => exact .inr (.inr ⟨what, .inr rfl⟩)

theorem writeAll_transient_iff {c : Connection} {text : Bytes} :
    (∃ what, (writeAll c text).outcome = some (.error (.transient what))) ↔
      ∃ front r back, c.writes = front ++ r :: back ∧ (∀ r ∈ front, r.Writes) ∧
        (front.map TlsReturn.taken).sum < text.length ∧ r.StopsWrite := by
  simp only [writeAll, converse_eq_error]
  constructor
  · rintro ⟨what, front, rest, t, hsplit, heard, hleave | ⟨next, r, back, hturn, rfl, hnext⟩⟩
    · obtain ⟨-, hreturned⟩ := writeTurn_leave hleave
      cases hreturned
    · obtain ⟨hwrites, hrest⟩ := heard_writes heard
      have hsome : t.rest ≠ [] := by
        intro hnone
        rw [writeTurn_done hnone] at hturn
        cases hturn
      refine ⟨front, r, back, hsplit, hwrites, ?_,
        (writeTurn_stops hsome).mpr ⟨next, what, hturn, hnext⟩⟩
      by_contra hle
      exact hsome (hrest.trans (List.drop_eq_nil_iff.mpr (Nat.le_of_not_lt hle)))
  · rintro ⟨front, r, back, hsplit, hwrites, hmore, hstops⟩
    obtain ⟨t, heard, hsome⟩ := writes_heard (s := ⟨[], text⟩) hwrites hmore
    obtain ⟨next, what, hturn, hnext⟩ := (writeTurn_stops hsome).mp hstops
    exact ⟨what, front, _, t, hsplit, heard, .inr ⟨next, r, back, hturn, rfl, hnext⟩⟩

/-- A loop that has not heard of the end was given octets, or asked to be called again. -/
theorem heard_open {s t : Receiving} {answers : List (TlsReturn Bytes)}
    (h : Heard readTurn s answers t) (hopen : t.closed = false) : ∀ r ∈ answers, r.Reads := by
  induction h with
  | refl => simp
  | @next s s' t next r rest hturn hnext heard ih =>
      obtain ⟨-, -, hkind⟩ := readTurn_next hturn hnext
      rcases hkind with ⟨hreads, -⟩ | ⟨-, hshut⟩
      · exact List.forall_mem_cons.mpr ⟨hreads, ih hopen⟩
      · cases heard with
        | refl => exact absurd (hshut.symm.trans hopen) nofun
        | next hask _ _ =>
            rw [readTurn_closed hshut] at hask
            cases hask

theorem readAll_transient_iff {c : Connection} :
    (∃ what, (readAll c).outcome = some (.error (.transient what))) ↔
      ∃ front what back, c.reads = front ++ .failed what :: back ∧ ∀ r ∈ front, r.Reads := by
  constructor
  · simp only [readAll, converse_eq_error]
    rintro ⟨what, front, rest, t, hsplit, heard, hleave | ⟨next, r, back, hturn, rfl, hnext⟩⟩
    · obtain ⟨-, hreturned⟩ := readTurn_leave hleave
      cases hreturned
    · have hopen : t.closed = false := by
        by_contra hshut
        rw [readTurn_closed (Bool.not_eq_false _ ▸ hshut)] at hturn
        cases hturn
      obtain rfl := LoopTurn.ask.inj ((if_neg (Bool.eq_false_iff.mp hopen)).symm.trans hturn)
      have hreads := heard_open heard hopen
      cases r with
      | gave octets =>
          cases octets with
          | nil => cases hnext
          | cons octet octets => cases hnext
      | wantsIo => cases hnext
      | sessionTicket => cases hnext
      | closeNotify what => cases hnext
      | failed what => exact ⟨front, what, back, hsplit, hreads⟩
  · rintro ⟨front, what, back, hsplit, hreads⟩
    obtain ⟨t, hopen, -, heq⟩ :=
      converse_reads (s := ⟨[], false⟩) hreads rfl (.failed what :: back)
    have hturn : ∃ next, readTurn t = .ask next ∧
        next (.failed what) = .error (.transient (ascii "ssl_read: " ++ what)) :=
      ⟨_, if_neg (Bool.eq_false_iff.mp hopen), rfl⟩
    obtain ⟨next, hask, hnext⟩ := hturn
    exact ⟨_, by rw [readAll, hsplit, heq, converse_error hask hnext]⟩

/-! ## Connections that break off -/

namespace Connection

variable (trust : TlsTrust) (request : HttpsRequest) (c : Connection)

/-- Everything is in place for the handshake. -/
structure Configured : Prop where
  psaInit : c.psaInit = none
  seed : c.seed = none
  connect : c.connect = none
  configDefaults : c.configDefaults = none
  trusted : ∃ authmode, configureTrust trust c = .ok authmode
  setup : c.setup = none
  setHostname : c.setHostname = none

/-- The connection is lost while it is made, in the handshake, or while the request is written
or the answer is read. -/
inductive BreaksOff : Prop where
  | connecting (hpsaInit : c.psaInit = none) (hseed : c.seed = none) (hrefused : c.connect ≠ none)
  | handshake {front back : List (TlsReturn Unit)} {r : TlsReturn Unit}
      (hconfigured : c.Configured trust) (hsplit : c.handshake = front ++ r :: back)
      (hfront : ∀ r ∈ front, r.Continues) (hbreaks : r.Breaks)
  | writing {front back : List (TlsReturn Nat)} {r : TlsReturn Nat}
      (hopen : ∃ authmode, openConnection trust c request.host = .ok authmode)
      (hsplit : c.writes = front ++ r :: back) (hfront : ∀ r ∈ front, r.Writes)
      (hmore : (front.map TlsReturn.taken).sum < request.text.length) (hstops : r.StopsWrite)
  | reading {front back : List (TlsReturn Bytes)} {what : Bytes}
      (hopen : ∃ authmode, openConnection trust c request.host = .ok authmode)
      (haccepts : Accepts c.writes request.text)
      (hsplit : c.reads = front ++ .failed what :: back) (hfront : ∀ r ∈ front, r.Reads)

end Connection

section Breaks

variable {trust : TlsTrust} {request : HttpsRequest} {c : Connection} {host : Bytes}

theorem openConnection_transient_iff : Transient (openConnection trust c host) ↔
    c.psaInit = none ∧ c.seed = none ∧ c.connect ≠ none ∨
      c.Configured trust ∧ ∃ front r back, c.handshake = front ++ r :: back ∧
        (∀ r ∈ front, r.Continues) ∧ r.Breaks := by
  simp only [openConnection, transient_bind, not_transient_netError, transient_failWith,
    not_transient_configureTrust, not_transient_pure, transient_settle, handshake_transient_iff,
    failWith_eq_ok, false_or, exists_const, and_false, or_false]
  constructor
  · rintro ⟨hpsaInit, hseed, hrefused | ⟨hconnect, hdefaults, authmode, htrust, hsetup, hname, h⟩⟩
    · exact .inl ⟨hpsaInit, hseed, hrefused⟩
    · exact .inr ⟨⟨hpsaInit, hseed, hconnect, hdefaults, ⟨authmode, htrust⟩, hsetup, hname⟩, h⟩
  · rintro (⟨hpsaInit, hseed, hrefused⟩ | ⟨hconfigured, h⟩)
    · exact ⟨hpsaInit, hseed, .inl hrefused⟩
    · obtain ⟨authmode, htrust⟩ := hconfigured.trusted
      exact ⟨hconfigured.psaInit, hconfigured.seed, .inr ⟨hconfigured.connect,
        hconfigured.configDefaults, authmode, htrust, hconfigured.setup, hconfigured.setHostname, h⟩⟩

/-- A request fails in a way that may pass exactly if its connection is lost. -/
theorem passes_iff : c.Passes trust request ↔ c.BreaksOff trust request := by
  change Transient (c.answer trust request) ↔ _
  simp only [Connection.answer, transient_bind, transient_settle, openConnection_transient_iff,
    writeAll_transient_iff, readAll_transient_iff, not_transient_mapError, settle_eq_ok, and_false,
    exists_false, or_false]
  constructor
  · rintro ((⟨hpsaInit, hseed, hrefused⟩ | ⟨hconfigured, front, r, back, hsplit, hfront, hbreaks⟩) |
      ⟨authmode, hopen, ⟨front, r, back, hsplit, hfront, hmore, hstops⟩ |
        ⟨_, hwritten, front, what, back, hsplit, hfront⟩⟩)
    · exact .connecting hpsaInit hseed hrefused
    · exact .handshake hconfigured hsplit hfront hbreaks
    · exact .writing ⟨authmode, hopen⟩ hsplit hfront hmore hstops
    · exact .reading ⟨authmode, hopen⟩ (writeAll_iff.mp hwritten) hsplit hfront
  · intro h
    cases h with
    | connecting hpsaInit hseed hrefused => exact .inl (.inl ⟨hpsaInit, hseed, hrefused⟩)
    | handshake hconfigured hsplit hfront hbreaks =>
        exact .inl (.inr ⟨hconfigured, _, _, _, hsplit, hfront, hbreaks⟩)
    | writing hopen hsplit hfront hmore hstops =>
        obtain ⟨authmode, hopen⟩ := hopen
        exact .inr ⟨authmode, hopen, .inl ⟨_, _, _, hsplit, hfront, hmore, hstops⟩⟩
    | reading hopen haccepts hsplit hfront =>
        obtain ⟨authmode, hopen⟩ := hopen
        exact .inr ⟨authmode, hopen, .inr ⟨(), writeAll_iff.mpr haccepts, _, _, _, hsplit, hfront⟩⟩

end Breaks

end AasSign
