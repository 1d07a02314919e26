import AasSign.Http.Transport

/-! # What the transport delivers

A request is answered exactly if one of the first three connections, those before it having
failed in a way that may pass, takes the whole request and sends an answer up to its end. How
the TLS library cuts what it takes and gives makes no difference.
-/

namespace AasSign

open Foundation Program

/-! ## Scripts -/

/-- The library makes progress on a write, or asks to be called again. -/
def TlsReturn.Writes (r : TlsReturn Nat) : Prop := r = .wantsIo ∨ ∃ n, r = .gave (n + 1)

/-- The library makes progress on a read, or asks to be called again. -/
def TlsReturn.Reads (r : TlsReturn Bytes) : Prop :=
  r = .wantsIo ∨ r = .sessionTicket ∨ ∃ octets, octets ≠ [] ∧ r = .gave octets

/-- The peer has closed the connection. -/
def TlsReturn.Closes (r : TlsReturn Bytes) : Prop := r = .gave [] ∨ ∃ what, r = .closeNotify what

/-- The number of octets that an answer has taken. -/
def TlsReturn.taken : TlsReturn Nat → Nat
  | .gave n => n
  | _ => 0

/-- The octets that an answer has given. -/
def TlsReturn.octets : TlsReturn Bytes → Bytes
  | .gave octets => octets
  | _ => []

/-- The answers take the whole text before any of them is a failure. -/
def Accepts (writes : List (TlsReturn Nat)) (text : Bytes) : Prop :=
  ∃ front rest, writes = front ++ rest ∧ (∀ r ∈ front, r.Writes) ∧
    text.length ≤ (front.map TlsReturn.taken).sum

/-- The answers give these octets, and then the end of the connection. -/
def Conveys (reads : List (TlsReturn Bytes)) (raw : Bytes) : Prop :=
  ∃ front close rest, reads = front ++ close :: rest ∧ (∀ r ∈ front, r.Reads) ∧ close.Closes ∧
    raw = front.flatMap TlsReturn.octets

section Write

variable {s s' t : Sending} {next : TlsReturn Nat → Except NetError Sending} {r : TlsReturn Nat}
  {writes : List (TlsReturn Nat)}

/-- An answer that does not end `write_all` moves octets from what is left to what is sent. -/
theorem writeTurn_next (hturn : writeTurn s = .ask next) (hnext : next r = .ok s') :
    r.Writes ∧ s' = ⟨s.sent ++ s.rest.take r.taken, s.rest.drop r.taken⟩ := by
  unfold writeTurn at hturn
  split at hturn
  · cases hturn
  · cases hturn
    cases r with
    | gave n =>
        cases n with
        | zero => cases hnext
        | succ n =>
            cases hnext
            exact ⟨.inr ⟨n, rfl⟩, rfl⟩
    | wantsIo =>
        cases hnext
        refine ⟨.inl rfl, ?_⟩
        simp [TlsReturn.taken]
    | sessionTicket => cases hnext
    | closeNotify what => cases hnext
    | failed what => cases hnext

theorem writeTurn_writes (hrest : s.rest ≠ []) (hr : r.Writes) : ∃ next, writeTurn s = .ask next ∧
    next r = .ok ⟨s.sent ++ s.rest.take r.taken, s.rest.drop r.taken⟩ := by
  refine ⟨_, if_neg hrest, ?_⟩
  rcases hr with rfl | ⟨n, rfl⟩
  · simp [TlsReturn.taken]
  · rfl

theorem writeTurn_leave {outcome : Except NetError Unit} (h : writeTurn s = .leave outcome) :
    s.rest = [] ∧ outcome = .ok () := by
  unfold writeTurn at h
  split at h
  next hrest =>
    cases h
    exact ⟨hrest, rfl⟩
  next => cases h

theorem writeTurn_done (h : s.rest = []) : writeTurn s = .leave (.ok ()) := if_pos h

/-- What is sent and what is left are the text, wherever the loop stands. -/
theorem writeAll_split (c : Connection) (text : Bytes) :
    (writeAll c text).state.sent ++ (writeAll c text).state.rest = text := by
  apply converse_invariant (fun s : Sending => s.sent ++ s.rest = text)
  · intro s next r s' hturn hnext hinv
    obtain ⟨-, rfl⟩ := writeTurn_next hturn hnext
    rw [List.append_assoc, List.take_append_drop]
    exact hinv
  · exact List.nil_append text

/-- How much the answers that were heard have taken. -/
theorem heard_writes (h : Heard writeTurn s writes t) : (∀ r ∈ writes, r.Writes) ∧
    t.rest = s.rest.drop (writes.map TlsReturn.taken).sum := by
  induction h with
  | refl s => simp
  | next hturn hnext _ ih =>
      obtain ⟨hwrites, rfl⟩ := writeTurn_next hturn hnext
      obtain ⟨hall, hrest⟩ := ih
      refine ⟨List.forall_mem_cons.mpr ⟨hwrites, hall⟩, ?_⟩
      rw [hrest, List.map_cons, List.sum_cons, List.drop_drop]

/-- Answers that take all there is end the loop. -/
theorem converse_writes {rest : List (TlsReturn Nat)} (hwrites : ∀ r ∈ writes, r.Writes)
    (henough : s.rest.length ≤ (writes.map TlsReturn.taken).sum) :
    (converse writeTurn (writes ++ rest) s).outcome = some (.ok ()) := by
  induction writes generalizing s with
  | nil =>
      have hrest : s.rest = [] := List.length_eq_zero_iff.mp (Nat.le_zero.mp henough)
      rw [List.nil_append, converse_leave (writeTurn_done hrest)]
  | cons r writes ih =>
      by_cases hrest : s.rest = []
      · rw [converse_leave (writeTurn_done hrest)]
      · obtain ⟨hr, hwrites⟩ := List.forall_mem_cons.mp hwrites
        obtain ⟨next, hturn, hnext⟩ := writeTurn_writes hrest hr
        rw [List.cons_append, converse_ask hturn hnext]
        apply ih hwrites
        rw [List.map_cons, List.sum_cons] at henough
        rw [List.length_drop]
        omega

theorem writeAll_iff {c : Connection} {text : Bytes} :
    (writeAll c text).outcome = some (.ok ()) ↔ Accepts c.writes text := by
  constructor
  · intro hok
    have hconcluded : Concluded writeTurn ⟨[], text⟩ c.writes (writeAll c text) := concluded
    generalize writeAll c text = standing at hok hconcluded
    cases hconcluded with
    | waiting heard hturn => cases hok
    | @left t outcome front rest hsplit heard hturn =>
        obtain ⟨hwrites, hrest⟩ := heard_writes heard
        rw [(writeTurn_leave hturn).1] at hrest
        exact ⟨front, rest, hsplit, hwrites, List.drop_eq_nil_iff.mp hrest.symm⟩
    | failed hsplit heard hturn hnext => cases hok
  · rintro ⟨front, rest, hsplit, hwrites, henough⟩
    rw [writeAll, hsplit]
    exact converse_writes hwrites henough

/-- A write that has returned has sent the text. -/
theorem writeAll_sent {c : Connection} {text : Bytes}
    (h : (writeAll c text).outcome = some (.ok ())) : (writeAll c text).state.sent = text := by
  have hrest : (writeAll c text).state.rest = [] := (writeTurn_leave (converse_ok h)).1
  have hsplit := writeAll_split c text
  rwa [hrest, List.append_nil] at hsplit

end Write

section Read

variable {s s' t : Receiving} {next : TlsReturn Bytes → Except NetError Receiving}
  {r : TlsReturn Bytes} {reads : List (TlsReturn Bytes)} {raw : Bytes}

/-- An answer that does not end `read_all` gives octets or is the end of the connection. -/
theorem readTurn_next (hturn : readTurn s = .ask next) (hnext : next r = .ok s') :
    s.closed = false ∧ s'.result = s.result ++ r.octets ∧
      (r.Reads ∧ s'.closed = false ∨ r.Closes ∧ s'.closed = true) := by
  unfold readTurn at hturn
  split at hturn
  · cases hturn
  · next hopen =>
    have hclosed : s.closed = false := Bool.eq_false_iff.mpr hopen
    cases hturn
    cases r with
    | gave octets =>
        cases octets with
        | nil =>
            cases hnext
            exact ⟨hclosed, (List.append_nil _).symm, .inr ⟨.inl rfl, rfl⟩⟩
        | cons octet octets =>
            cases hnext
            exact ⟨hclosed, rfl, .inl ⟨.inr (.inr ⟨_, List.cons_ne_nil _ _, rfl⟩), hclosed⟩⟩
    | wantsIo =>
        cases hnext
        exact ⟨hclosed, (List.append_nil _).symm, .inl ⟨.inl rfl, hclosed⟩⟩
    | sessionTicket =>
        cases hnext
        exact ⟨hclosed, (List.append_nil _).symm, .inl ⟨.inr (.inl rfl), hclosed⟩⟩
    | closeNotify what =>
        cases hnext
        exact ⟨hclosed, (List.append_nil _).symm, .inr ⟨.inr ⟨what, rfl⟩, rfl⟩⟩
    | failed what => cases hnext

theorem readTurn_leave {outcome : Except NetError Bytes} (h : readTurn s = .leave outcome) :
    s.closed = true ∧ outcome = .ok s.result := by
  unfold readTurn at h
  split at h
  next hclosed =>
    cases h
    exact ⟨hclosed, rfl⟩
  next => cases h

theorem readTurn_closed (h : s.closed = true) : readTurn s = .leave (.ok s.result) := if_pos h

/-- A loop that has heard of the end has heard of it last, and holds what was given before. -/
theorem heard_reads (h : Heard readTurn s reads t) : t.result = s.result ++ reads.flatMap TlsReturn.octets ∧
    (s.closed = false → t.closed = true → ∃ front close, reads = front ++ [close] ∧
      (∀ r ∈ front, r.Reads) ∧ close.Closes) := by
  induction h with
  | refl s => simp
  | @next s s' t next r rest hturn hnext hheard ih =>
      obtain ⟨-, hresult, hkind⟩ := readTurn_next hturn hnext
      obtain ⟨hgiven, hend⟩ := ih
      constructor
      · rw [hgiven, hresult, List.flatMap_cons, List.append_assoc]
      · intro _ hclosed
        rcases hkind with ⟨hreads, hopen⟩ | ⟨hcloses, hshut⟩
        · obtain ⟨front, close, rfl, hfront, hclose⟩ := hend hopen hclosed
          exact ⟨r :: front, close, rfl, List.forall_mem_cons.mpr ⟨hreads, hfront⟩, hclose⟩
        · cases hheard with
          | refl => exact ⟨[], r, rfl, by simp, hcloses⟩
          | next hask _ _ => rw [readTurn_closed hshut] at hask; cases hask

theorem converse_reads (hreads : ∀ r ∈ reads, r.Reads) (hopen : s.closed = false)
    (rest : List (TlsReturn Bytes)) : ∃ t, t.closed = false ∧
      t.result = s.result ++ reads.flatMap TlsReturn.octets ∧
        converse readTurn (reads ++ rest) s = converse readTurn rest t := by
  induction reads generalizing s with
  | nil => exact ⟨s, hopen, (List.append_nil _).symm, rfl⟩
  | cons r reads ih =>
      obtain ⟨hr, hreads⟩ := List.forall_mem_cons.mp hreads
      have hturn : ∃ next, readTurn s = .ask next ∧
          next r = .ok { s with result := s.result ++ r.octets } := by
        refine ⟨_, if_neg (Bool.eq_false_iff.mp hopen), ?_⟩
        rcases hr with rfl | rfl | ⟨octets, hne, rfl⟩
        · simp [TlsReturn.octets]
        · simp [TlsReturn.octets]
        · cases octets with
          | nil => exact absurd rfl hne
          | cons octet octets => rfl
      obtain ⟨next, hask, hnext⟩ := hturn
      obtain ⟨t, hclosed, hresult, heq⟩ := ih (s := { s with result := s.result ++ r.octets }) hreads hopen
      refine ⟨t, hclosed, ?_, ?_⟩
      · rw [hresult, List.flatMap_cons, List.append_assoc]
      · rw [List.cons_append, converse_ask hask hnext, heq]

theorem readAll_iff {c : Connection} :
    (readAll c).outcome = some (.ok raw) ↔ Conveys c.reads raw := by
  constructor
  · intro hok
    have hconcluded : Concluded readTurn ⟨[], false⟩ c.reads (readAll c) := concluded
    generalize readAll c = standing at hok hconcluded
    cases hconcluded with
    | waiting heard hturn => cases hok
    | @left t outcome front rest hsplit heard hturn =>
        obtain ⟨hclosed, rfl⟩ := readTurn_leave hturn
        obtain ⟨hresult, hend⟩ := heard_reads heard
        obtain ⟨given, close, rfl, hreads, hcloses⟩ := hend rfl hclosed
        have hoctets : close.octets = [] := by
          rcases hcloses with rfl | ⟨what, rfl⟩ <;> rfl
        refine ⟨given, close, rest, by simpa using hsplit, hreads, hcloses, ?_⟩
        cases hok
        simpa [hoctets] using hresult
    | failed hsplit heard hturn hnext => cases hok
  · rintro ⟨front, close, rest, hsplit, hreads, hcloses, rfl⟩
    obtain ⟨t, hopen, hresult, heq⟩ := converse_reads (s := ⟨[], false⟩) hreads rfl (close :: rest)
    have hclose : ∃ next, readTurn t = .ask next ∧ next close = .ok { t with closed := true } := by
      refine ⟨_, if_neg (Bool.eq_false_iff.mp hopen), ?_⟩
      rcases hcloses with rfl | ⟨what, rfl⟩ <;> rfl
    obtain ⟨next, hask, hnext⟩ := hclose
    rw [readAll, hsplit, heq, converse_ask hask hnext, converse_leave (readTurn_closed rfl), hresult]
    rfl

end Read

/-! ## One connection -/

namespace Connection

variable (trust : TlsTrust) (request : HttpsRequest) (c : Connection)

/-- What a request ends in on this connection. -/
def answer : Except NetError HttpResponse := do
  let _ ← openConnection trust c request.host
  settle (writeAll c request.text).outcome
  let raw ← settle (readAll c).outcome
  (parseHttpResponse raw).mapError .thrown

/-- What the connection carries; nothing, if it is not opened. -/
def carries : List Carried :=
  match openConnection trust c request.host with
  | .ok authmode => [⟨request.host, authmode, (writeAll c request.text).state.sent⟩]
  | .error _ => []

/-- The request fails on this connection, in a way that may pass. -/
def Passes : Prop := ∃ what, c.answer trust request = .error (.transient what)

/-- The connection takes the whole request, and what it gives up to its end is the response. -/
def Delivers (resp : HttpResponse) : Prop :=
  (∃ authmode, openConnection trust c request.host = .ok authmode) ∧
    Accepts c.writes request.text ∧ ∃ raw, Conveys c.reads raw ∧ parseHttpResponse raw = .ok resp

end Connection

section Exchange

variable {env : NetEnv} {trust : TlsTrust} {request : HttpsRequest} {c : Connection}
  {s t : NetState} {resp : HttpResponse}

theorem settle_eq_ok {α : Type} {outcome : Option (Except NetError α)} {a : α} :
    settle outcome = .ok a ↔ outcome = some (.ok a) := by
  cases outcome with
  | none => simp [settle]
  | some outcome => simp [settle]

theorem mapError_eq_ok {ε ε' α : Type} {x : Except ε α} {f : ε → ε'} {a : α} :
    x.mapError f = .ok a ↔ x = .ok a := by
  cases x with
  | ok b => simp [Except.mapError]
  | error e => simp [Except.mapError]

theorem answer_eq_ok : c.answer trust request = .ok resp ↔ c.Delivers trust request resp := by
  unfold Connection.answer Connection.Delivers
  simp only [bind_eq_ok, settle_eq_ok, mapError_eq_ok, readAll_iff]
  constructor
  · rintro ⟨authmode, hopen, _, hwritten, raw, hconveys, hparse⟩
    exact ⟨⟨authmode, hopen⟩, writeAll_iff.mp hwritten, raw, hconveys, hparse⟩
  · rintro ⟨⟨authmode, hopen⟩, haccepts, raw, hconveys, hparse⟩
    exact ⟨authmode, hopen, (), writeAll_iff.mpr haccepts, raw, hconveys, hparse⟩

/-- An exchange depends on its connection only, and leaves a record of what it has carried. -/
theorem exchange_eq : exchange env request s =
    ((env.connection s.opened).answer env.trust request,
      { s with
        opened := s.opened + 1
        wire := s.wire ++ (env.connection s.opened).carries env.trust request }) := by
  unfold exchange Connection.answer Connection.carries
  cases hopen : openConnection env.trust (env.connection s.opened) request.host with
  | error e => simp [Bind.bind, Except.bind, current, change, lift, hopen]
  | ok authmode =>
      cases hwrite : settle (writeAll (env.connection s.opened) request.text).outcome with
      | error e => simp [Bind.bind, Except.bind, current, change, lift, hopen, hwrite]
      | ok u =>
          cases hread : settle (readAll (env.connection s.opened)).outcome with
          | error e => simp [Bind.bind, Except.bind, current, change, lift, hopen, hwrite, hread]
          | ok raw => simp [Bind.bind, Except.bind, current, change, lift, hopen, hwrite, hread]

namespace TlsTrust

variable (trust : TlsTrust)

/-- `SSL_CERT_FILE` is set to the name of a file. -/
def Names (path : Bytes) : Prop :=
  trust.sslCertFile = some path ∧ path ≠ [] ∧ trust.isFile path = true

/-- The bundle that a server is checked against: that of `--cacert`; without it that of
`SSL_CERT_FILE`; without both the first that lies where systems keep it. -/
inductive Bundle : Bytes → Prop where
  | cacert (hgiven : trust.caBundleOverride ≠ []) : Bundle trust.caBundleOverride
  | sslCertFile {path : Bytes} (hnone : trust.caBundleOverride = []) (hnames : trust.Names path) :
      Bundle path
  | wellKnown {path : Bytes} {front back : List Bytes} (hnone : trust.caBundleOverride = [])
      (hunset : ∀ path, ¬ trust.Names path) (hsplit : wellKnownBundles = front ++ path :: back)
      (hfile : trust.isFile path = true) (hfirst : ∀ p ∈ front, trust.isFile p = false) :
      Bundle path

/-- How the certificate of a server is checked: not at all only under `--insecure`, and
otherwise against the bundle that was asked for. -/
def Checks : Authmode → Prop
  | .none => trust.insecure = true
  | .required bundle => trust.insecure = false ∧ trust.Bundle bundle

end TlsTrust

theorem bundle_findCaBundle (h : findCaBundle trust ≠ []) :
    trust.Bundle (findCaBundle trust) := by
  by_cases hgiven : trust.caBundleOverride ≠ []
  · rw [findCaBundle, if_pos hgiven]
    exact .cacert hgiven
  · have hnone : trust.caBundleOverride = [] := not_not.mp hgiven
    rw [findCaBundle, if_neg hgiven] at h ⊢
    cases hnamed : trust.sslCertFile.filter fun p => p ≠ [] ∧ trust.isFile p with
    | some path =>
        obtain ⟨hset, hfile⟩ := Option.filter_eq_some_iff.mp hnamed
        exact .sslCertFile hnone ⟨hset, by simpa using hfile⟩
    | none =>
        have hunset (path : Bytes) : ¬ trust.Names path := by
          rintro ⟨hset, hnames⟩
          exact Option.filter_eq_none_iff.mp hnamed path hset (by simpa using hnames)
        cases hfound : wellKnownBundles.find? trust.isFile with
        | none =>
            rw [hnamed, hfound] at h
            exact absurd rfl h
        | some path =>
            obtain ⟨hfile, front, back, hsplit, hfirst⟩ := List.find?_eq_some_iff_append.mp hfound
            exact .wellKnown hnone hunset hsplit hfile (by simpa using hfirst)

theorem openConnection_checks {host : Bytes} {authmode : Authmode}
    (h : openConnection trust c host = .ok authmode) : trust.Checks authmode := by
  have hconfigured : configureTrust trust c = .ok authmode := by
    simp only [openConnection, bind_eq_ok] at h
    obtain ⟨_, -, _, -, _, -, _, -, found, hfound, _, -, _, -, _, -, hsame⟩ := h
    cases hsame
    exact hfound
  unfold configureTrust at hconfigured
  split at hconfigured
  next hinsecure =>
    cases hconfigured
    exact hinsecure
  next hsecure =>
    dsimp only at hconfigured
    split at hconfigured
    · cases hconfigured
    · next hbundle =>
      split at hconfigured
      · cases hconfigured
      · cases hconfigured
        exact ⟨Bool.eq_false_iff.mpr hsecure, bundle_findCaBundle hbundle⟩

/-- What is carried goes to the host of the request, over a checked connection, and is the
request or the front of it. -/
theorem mem_carries {r : Carried} (h : r ∈ c.carries trust request) :
    r.host = request.host ∧ r.octets <+: request.text ∧ trust.Checks r.authmode := by
  unfold Connection.carries at h
  split at h
  next authmode hopen =>
    obtain rfl := List.mem_singleton.mp h
    exact ⟨rfl, ⟨_, writeAll_split c request.text⟩, openConnection_checks hopen⟩
  next => cases h

theorem carries_length : (c.carries trust request).length ≤ 1 := by
  unfold Connection.carries
  split <;> simp

/-- A connection that delivers has carried the whole request. -/
theorem Connection.Delivers.carries (h : c.Delivers trust request resp) :
    ∃ authmode, c.carries trust request = [⟨request.host, authmode, request.text⟩] := by
  obtain ⟨⟨authmode, hopen⟩, haccepts, -⟩ := h
  have hsent := writeAll_sent (writeAll_iff.mpr haccepts)
  refine ⟨authmode, ?_⟩
  simp only [Connection.carries, hopen, hsent]

end Exchange

/-! ## Calls -/

/-- A call of one of the four functions. -/
inductive HttpsCall where
  | post (host path bearerToken jsonBody : Bytes)
  | get (host path bearerToken : Bytes)
  | getUrl (url bearerToken : Bytes)
  | postUrl (url contentType body : Bytes)

namespace HttpsCall

/-- The request that is to be delivered. -/
def request : HttpsCall → Except Exn HttpsRequest
  | post host path bearerToken jsonBody =>
      .ok ⟨host, requestText host (ascii "POST") path bearerToken (some jsonBody)⟩
  | get host path bearerToken => .ok ⟨host, requestText host (ascii "GET") path bearerToken none⟩
  | getUrl url bearerToken => httpsGetUrl url bearerToken
  | postUrl url contentType body => httpsPostUrlRequest url contentType body

def run (env : NetEnv) : HttpsCall → NetProgram HttpResponse
  | post host path bearerToken jsonBody => httpsPostOver env host path bearerToken jsonBody
  | get host path bearerToken => httpsGetOver env host path bearerToken
  | getUrl url bearerToken => httpsGetUrlOver env url bearerToken
  | postUrl url contentType body => httpsPostUrlOver env url contentType body

variable {env : NetEnv} {call : HttpsCall} {request : HttpsRequest} {s : NetState}

theorem lift_mapError_bind {x : Except Exn HttpsRequest} (hx : x = .ok request) :
    ((lift (x.mapError NetError.thrown) : NetProgram HttpsRequest) >>= exchange env) =
      exchange env request := by
  subst hx
  rfl

/-- A URL that cannot be cut is not tried again. -/
theorem retry_lift_error {x : Except Exn HttpsRequest} {e : Exn} (hx : x = .error e) :
    retryTransient ((lift (x.mapError NetError.thrown) : NetProgram HttpsRequest) >>= exchange env) s =
      (.error (.thrown e), s) := by
  subst hx
  apply retrying_of_settled
  intro e' he'
  cases he'
  exact id

theorem run_of_request (h : call.request = .ok request) :
    call.run env = retryTransient (exchange env request) := by
  cases call with
  | post host path bearerToken jsonBody =>
      cases h
      rfl
  | get host path bearerToken =>
      cases h
      rfl
  | getUrl url bearerToken => exact congrArg retryTransient (lift_mapError_bind h)
  | postUrl url contentType body => exact congrArg retryTransient (lift_mapError_bind h)

theorem run_of_error {e : Exn} (h : call.request = .error e) :
    call.run env s = (.error (.thrown e), s) := by
  cases call with
  | post host path bearerToken jsonBody => cases h
  | get host path bearerToken => cases h
  | getUrl url bearerToken => exact retry_lift_error h
  | postUrl url contentType body => exact retry_lift_error h

end HttpsCall

section Attempts

variable {env : NetEnv} {request : HttpsRequest} {s t : NetState} {attempt k : Nat}
  {resp : HttpResponse}

/-- `k` connections, from the one with this number on. -/
def NetEnv.from (env : NetEnv) (number k : Nat) : List Connection :=
  (List.range' number k).map env.connection

theorem passing_iff {e : NetError} : e.Passing ↔ ∃ what, e = .transient what := by
  cases e with
  | transient what => exact iff_of_true trivial ⟨what, rfl⟩
  | thrown e => exact iff_of_false id nofun
  | waiting => exact iff_of_false id nofun

/-- The attempts that have failed left the records of their connections, one after the other,
and slept two seconds longer each time. -/
theorem tried_exchange (h : Tried (exchange env request) NetError.Passing retryBackoff attempt k s t) :
    t.opened = s.opened + k ∧
      (∀ c ∈ env.from s.opened k, c.Passes env.trust request) ∧
      t.wire = s.wire ++ (env.from s.opened k).flatMap (·.carries env.trust request) ∧
      t.slept = s.slept ++ (List.range' attempt k).map (· * 2) := by
  induction h with
  | none attempt s => simp [NetEnv.from]
  | @more attempt k s s' t e hfail hpassing _ ih =>
      rw [exchange_eq] at hfail
      obtain ⟨hanswer, rfl⟩ := Prod.mk.inj hfail
      obtain ⟨what, rfl⟩ := passing_iff.mp hpassing
      obtain ⟨hopened, hpasses, hwire, hslept⟩ := ih
      refine ⟨?_, ?_, ?_, ?_⟩
      · rw [hopened, retryBackoff]
        exact Nat.add_right_comm s.opened 1 k
      · exact List.forall_mem_cons.mpr ⟨⟨what, hanswer⟩, hpasses⟩
      · rw [hwire]
        exact List.append_assoc _ _ _
      · rw [hslept]
        exact List.append_assoc _ _ _

/-- Connections that fail in a way that may pass are so many failed attempts. -/
theorem exists_tried_exchange (attempt : Nat)
    (h : ∀ c ∈ env.from s.opened k, c.Passes env.trust request) :
    ∃ t, Tried (exchange env request) NetError.Passing retryBackoff attempt k s t := by
  induction k generalizing attempt s with
  | zero => exact ⟨s, .none attempt s⟩
  | succ k ih =>
      obtain ⟨⟨what, hanswer⟩, hrest⟩ := List.forall_mem_cons.mp h
      obtain ⟨t, htried⟩ := ih (attempt + 1)
        (s := retryBackoff attempt (.transient what) (exchange env request s).2)
        (by rwa [exchange_eq])
      have hfail : (exchange env request s).1 = .error (.transient what) := by
        rw [exchange_eq, hanswer]
      exact ⟨t, .more (Prod.ext hfail rfl) trivial htried⟩

theorem retryTransient_eq_ok : (retryTransient (exchange env request) s).1 = .ok resp ↔
    ∃ k < 3, (∀ c ∈ env.from s.opened k, c.Passes env.trust request) ∧
      (env.connection (s.opened + k)).Delivers env.trust request resp := by
  constructor
  · intro hok
    obtain ⟨k, t, hk, htried, heq, -⟩ := exists_tried (exchange env request)
      NetError.Passing retryBackoff 2 1 s
    obtain ⟨hopened, hpasses, -, -⟩ := tried_exchange htried
    refine ⟨k, Nat.lt_succ_of_le hk, hpasses, answer_eq_ok.mp ?_⟩
    rwa [retryTransient, heq, exchange_eq, hopened] at hok
  · rintro ⟨k, hk, hpasses, hdelivers⟩
    obtain ⟨t, htried⟩ := exists_tried_exchange 1 hpasses
    obtain ⟨hopened, -, -, -⟩ := tried_exchange htried
    have hanswer := answer_eq_ok.mpr hdelivers
    rw [← hopened] at hanswer
    have hsettled : RetrySettled (exchange env request) NetError.Passing t := by
      intro e he
      rw [exchange_eq, hanswer] at he
      cases he
    rw [retryTransient, htried.decides (Nat.le_of_lt_succ hk) hsettled, exchange_eq, hanswer]

/-- However the attempts end, one connection after another has carried what it carries. -/
theorem retryTransient_run (env : NetEnv) (request : HttpsRequest) (s : NetState) :
    ∃ k < 3, (retryTransient (exchange env request) s).1 =
        (env.connection (s.opened + k)).answer env.trust request ∧
      (retryTransient (exchange env request) s).2.opened = s.opened + (k + 1) ∧
      (retryTransient (exchange env request) s).2.wire =
        s.wire ++ (env.from s.opened (k + 1)).flatMap (·.carries env.trust request) ∧
      (retryTransient (exchange env request) s).2.slept =
        s.slept ++ (List.range' 1 k).map (· * 2) := by
  obtain ⟨k, t, hk, htried, heq, -⟩ := exists_tried (exchange env request)
    NetError.Passing retryBackoff 2 1 s
  obtain ⟨hopened, -, hwire, hslept⟩ := tried_exchange htried
  refine ⟨k, Nat.lt_succ_of_le hk, ?_, ?_, ?_, ?_⟩
  · rw [retryTransient, heq, exchange_eq, hopened]
  · rw [retryTransient, heq, exchange_eq, hopened, Nat.add_assoc]
  · rw [retryTransient, heq, exchange_eq, hopened, hwire, List.append_assoc]
    simp [NetEnv.from, List.range'_concat]
  · rw [retryTransient, heq, exchange_eq, hslept]

theorem mem_from_carries {number : Nat} {r : Carried}
    (h : r ∈ (env.from number k).flatMap (·.carries env.trust request)) :
    r.host = request.host ∧ r.octets <+: request.text ∧ env.trust.Checks r.authmode := by
  obtain ⟨c, -, hr⟩ := List.mem_flatMap.mp h
  exact mem_carries hr

theorem from_carries_length {number : Nat} :
    ((env.from number k).flatMap (·.carries env.trust request)).length ≤ k := by
  induction k generalizing number with
  | zero => exact le_rfl
  | succ k ih =>
      have hrest : ((env.from (number + 1) k).flatMap (·.carries env.trust request)).length ≤ k := ih
      have hfirst : ((env.connection number).carries env.trust request).length ≤ 1 := carries_length
      rw [NetEnv.from, List.range'_succ, List.map_cons, List.flatMap_cons, List.length_append]
      exact (Nat.add_le_add hfirst hrest).trans_eq (Nat.add_comm 1 k)

end Attempts

/-- A call returns a response exactly if one of the first three connections, those before it
having failed in a way that may pass, takes the whole request and gives the response up to its
end. -/
theorem https_returns_iff (env : NetEnv) (call : HttpsCall) (s : NetState) (resp : HttpResponse) :
    (call.run env s).1 = .ok resp ↔ ∃ request, call.request = .ok request ∧
      ∃ k < 3, (∀ c ∈ env.from s.opened k, c.Passes env.trust request) ∧
        (env.connection (s.opened + k)).Delivers env.trust request resp := by
  cases hrequest : call.request with
  | error e => simp [HttpsCall.run_of_error hrequest]
  | ok request =>
      rw [HttpsCall.run_of_request hrequest, retryTransient_eq_ok]
      simp

/-- However a call ends, it has opened no more than three connections, slept no more than two
and four seconds, and sent nothing but fronts of the request to its host. -/
theorem HttpsCall.run_wire (env : NetEnv) (call : HttpsCall) (s : NetState) :
    ∃ opened ≤ 3, ∃ carried slept, (call.run env s).2.opened = s.opened + opened ∧
      (call.run env s).2.wire = s.wire ++ carried ∧
      (call.run env s).2.slept = s.slept ++ slept ∧ carried.length ≤ opened ∧ slept <+: [2, 4] ∧
      (∀ r ∈ carried, env.trust.Checks r.authmode ∧ ∃ request, call.request = .ok request ∧
        r.host = request.host ∧ r.octets <+: request.text) ∧
      ∀ resp, (call.run env s).1 = .ok resp → ∃ request authmode, call.request = .ok request ∧
        carried.getLast? = some ⟨request.host, authmode, request.text⟩ := by
  cases hrequest : call.request with
  | error e =>
      rw [HttpsCall.run_of_error hrequest]
      exact ⟨0, Nat.zero_le 3, [], [], rfl, by simp, by simp, by simp, by simp, by simp,
        fun resp h => by cases h⟩
  | ok request =>
      rw [HttpsCall.run_of_request hrequest]
      obtain ⟨k, hk, hanswer, hopened, hwire, hslept⟩ := retryTransient_run env request s
      refine ⟨k + 1, hk, _, _, hopened, hwire, hslept, from_carries_length, ?_, ?_, ?_⟩
      · match k, hk with
        | 0, _ => decide
        | 1, _ => decide
        | 2, _ => decide
      · intro r hr
        obtain ⟨hhost, hfront, hchecks⟩ := mem_from_carries hr
        exact ⟨hchecks, request, rfl, hhost, hfront⟩
      · intro resp hok
        rw [hanswer, answer_eq_ok] at hok
        obtain ⟨authmode, hcarries⟩ := hok.carries
        refine ⟨request, authmode, rfl, ?_⟩
        simp [NetEnv.from, List.range'_concat, hcarries]

end AasSign
