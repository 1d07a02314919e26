import AasSign.Signing.AzureSign

/-! # What `azure_sign` delivers

The replies of the service are numbered: the answer to the request is reply 0, and
the answer to the `k`-th poll is reply `k`. A call returns exactly the fields of the first
reply that is no longer in progress, if that one succeeded in time, and it makes
no more than 106 polls whatever the service answers.
-/

namespace AasSign

open Foundation Program

/-- The signature and the certificates are the decoded fields of the value. -/
def Json.Carries (body : Json) (result : AzureSignResult) : Prop :=
  ∃ signature pem, body.field (ascii "signature") = some (.string signature) ∧
    body.field (ascii "signingCertificate") = some (.string pem) ∧
    result = ⟨base64Decode signature, base64MimeDecode (base64Decode pem)⟩

namespace AzureEnv

variable (env : AzureEnv)

/-- The answer in hand after `k` polls. -/
def reply : Nat → Except Bytes HttpResponse
  | 0 => env.post
  | k + 1 => env.poll k

/-- The HTTP statuses that reply `k` may have. -/
def Accepted : Nat → Int → Prop
  | 0, status => status = 200 ∨ status = 202
  | _ + 1, status => status = 200

/-- The time on the clock when it is decided whether there is a poll after `k` of them. -/
def elapsed : Nat → Nat
  | 0 => env.idle 1
  | k + 1 => elapsed k + backoff k * 10 ^ 6 + env.idle (k + 2)

/-- Reply `k` has an accepted status, and its text is the JSON value. -/
def Brings (k : Nat) (body : Json) : Prop :=
  ∃ resp, env.reply k = .ok resp ∧ Accepted k resp.status ∧ env.json.parse resp.body = .ok body

def HasStatus (k : Nat) (body : Json) (status : Bytes) : Prop :=
  env.Brings k body ∧ body.value (ascii "status") = .ok status

/-- Reply `k` leaves the operation in progress, and there is time for another poll. -/
def Pending (k : Nat) : Prop :=
  (∃ body, env.HasStatus k body (ascii "InProgress")) ∧ env.elapsed k ≤ pollTimeout

/-- After `k` polls, all of them in time, the operation is reported to have succeeded. -/
def Completes (k : Nat) (body : Json) : Prop :=
  (∀ j < k, env.Pending j) ∧ env.HasStatus k body (ascii "Succeeded")

/-- The first reply says which operation to poll for. -/
def Identified : Prop := ∃ body id, env.Brings 0 body ∧ body.value (ascii "operationId") = .ok id

def Delivers (k : Nat) (result : AzureSignResult) : Prop :=
  env.Identified ∧ ∃ body, env.Completes k body ∧ body.Carries result

end AzureEnv

/-- The JSON writer fails on no object whose keys and strings are ASCII. -/
def DumpsAscii (dump : Json → Except Bytes Bytes) : Prop :=
  ∀ fields : List (Bytes × Json),
    (∀ field ∈ fields, (∀ c ∈ field.1, c < 128) ∧
      ∃ text : Bytes, field.2 = .string text ∧ ∀ c ∈ text, c < 128) →
    ∃ text, dump (.object fields) = .ok text

/-! ## The replies -/

section Replies

variable {env : AzureEnv} {k m : Nat} {body body' : Json} {status status' : Bytes}
  {result result' : AzureSignResult}

theorem AzureEnv.Brings.unique (h : env.Brings k body) (h' : env.Brings k body') : body = body' := by
  obtain ⟨resp, hreply, -, hparse⟩ := h
  obtain ⟨resp', hreply', -, hparse'⟩ := h'
  obtain rfl : resp = resp' := Except.ok.inj (hreply.symm.trans hreply')
  exact Except.ok.inj (hparse.symm.trans hparse')

theorem AzureEnv.HasStatus.of_reply {resp : HttpResponse} (h : env.HasStatus k body status)
    (hreply : env.reply k = .ok resp) : AzureEnv.Accepted k resp.status ∧
      env.json.parse resp.body = .ok body ∧ body.value (ascii "status") = .ok status := by
  obtain ⟨⟨resp', hreply', haccepted, hparse⟩, hvalue⟩ := h
  obtain rfl : resp = resp' := Except.ok.inj (hreply.symm.trans hreply')
  exact ⟨haccepted, hparse, hvalue⟩

theorem AzureEnv.HasStatus.unique (h : env.HasStatus k body status)
    (h' : env.HasStatus k body' status') : status = status' := by
  obtain rfl := h.1.unique h'.1
  exact Except.ok.inj (h.2.symm.trans h'.2)

/-- Reply `k` says nothing about the operation. -/
def AzureEnv.Unread (env : AzureEnv) (k : Nat) : Prop := ∀ body status, ¬ env.HasStatus k body status

theorem unread_of_failed {what : Bytes} (hreply : env.reply k = .error what) : env.Unread k := by
  rintro body status ⟨⟨resp, hresp, -⟩, -⟩
  rw [hreply] at hresp
  cases hresp

section Reply

variable {resp : HttpResponse} {what : Bytes} (hreply : env.reply k = .ok resp)
include hreply

theorem unread_of_rejected (h : ¬ AzureEnv.Accepted k resp.status) : env.Unread k :=
  fun _ _ hread => h (hread.of_reply hreply).1

theorem unread_of_parse (hparse : env.json.parse resp.body = .error what) : env.Unread k := by
  intro body status hread
  rw [(hread.of_reply hreply).2.1] at hparse
  cases hparse

theorem unread_of_value (hparse : env.json.parse resp.body = .ok body)
    (hvalue : body.value (ascii "status") = .error what) : env.Unread k := by
  intro body' status hread
  obtain ⟨-, hparse', hvalue'⟩ := hread.of_reply hreply
  obtain rfl : body = body' := Except.ok.inj (hparse.symm.trans hparse')
  rw [hvalue] at hvalue'
  cases hvalue'

end Reply

theorem ascii_inProgress_ne : ascii "InProgress" ≠ ascii "Succeeded" := by decide +kernel

/-- A reply that reports success is not followed by another poll. -/
theorem AzureEnv.Pending.not_succeeded (h : env.Pending k) :
    ¬ env.HasStatus k body (ascii "Succeeded") := by
  obtain ⟨⟨body', hprogress⟩, -⟩ := h
  exact fun hsucceeded => ascii_inProgress_ne (hprogress.unique hsucceeded)

/-- What is delivered after `k` polls is not delivered before the `m`-th, if the operation was
pending until then, and reply `m` is part of it. -/
theorem AzureEnv.Delivers.at (h : env.Delivers k result) (hpending : ∀ j < m, env.Pending j) :
    env.Pending m ∨ ∃ body, env.HasStatus m body (ascii "Succeeded") ∧ body.Carries result := by
  obtain ⟨-, body, ⟨hbefore, hsucceeded⟩, hcarries⟩ := h
  rcases Nat.lt_trichotomy k m with hless | rfl | hgreater
  · exact absurd hsucceeded (hpending k hless).not_succeeded
  · exact .inr ⟨body, hsucceeded, hcarries⟩
  · exact .inl (hbefore m hgreater)

theorem Json.Carries.unique (h : body.Carries result) (h' : body.Carries result') :
    result = result' := by
  obtain ⟨signature, pem, hsignature, hpem, rfl⟩ := h
  obtain ⟨signature', pem', hsignature', hpem', rfl⟩ := h'
  obtain rfl := Json.string.inj (Option.some.inj (hsignature.symm.trans hsignature'))
  obtain rfl := Json.string.inj (Option.some.inj (hpem.symm.trans hpem'))
  rfl

/-- One number of polls, and one result, are delivered at most. -/
theorem AzureEnv.Delivers.unique (h : env.Delivers k result) (h' : env.Delivers m result') :
    k = m ∧ result = result' := by
  obtain ⟨-, body, ⟨hbefore, hsucceeded⟩, hcarries⟩ := h
  obtain ⟨-, body', ⟨hbefore', hsucceeded'⟩, hcarries'⟩ := h'
  rcases Nat.lt_trichotomy k m with hless | rfl | hgreater
  · exact absurd hsucceeded (hbefore' k hless).not_succeeded
  · obtain rfl := hsucceeded.1.unique hsucceeded'.1
    exact ⟨rfl, hcarries.unique hcarries'⟩
  · exact absurd hsucceeded' (hbefore m hgreater).not_succeeded

end Replies

/-! ## The time -/

section Time

variable {env : AzureEnv}

/-- The milliseconds slept before the check that follows `k` polls. -/
def totalBackoff : Nat → Nat
  | 0 => 0
  | k + 1 => totalBackoff k + backoff k

theorem totalBackoff_le_elapsed (env : AzureEnv) (k : Nat) :
    totalBackoff k * 10 ^ 6 ≤ env.elapsed k := by
  induction k with
  | zero =>
      rw [totalBackoff, Nat.zero_mul]
      exact Nat.zero_le _
  | succ k ih =>
      rw [totalBackoff, AzureEnv.elapsed, Nat.add_mul]
      exact (Nat.add_le_add_right ih _).trans (Nat.le_add_right _ _)

theorem monotone_totalBackoff : Monotone totalBackoff :=
  monotone_nat_of_le_succ fun _ => Nat.le_add_right _ _

/-- The delays before 106 polls are longer than the operation may take. -/
theorem pollTimeout_lt_totalBackoff : pollTimeout < totalBackoff 106 * 10 ^ 6 := by
  decide +kernel

/-- There is no time for a poll after 106 polls. -/
theorem AzureEnv.Pending.lt {k : Nat} (h : env.Pending k) : k < 106 := by
  by_contra hmany
  have hsum : totalBackoff 106 * 10 ^ 6 ≤ totalBackoff k * 10 ^ 6 :=
    Nat.mul_le_mul_right _ (monotone_totalBackoff (Nat.le_of_not_lt hmany))
  have hslept := totalBackoff_le_elapsed env k
  have htimeout := pollTimeout_lt_totalBackoff
  have hintime := h.2
  omega

theorem le_of_pending {k : Nat} (h : ∀ j < k, env.Pending j) : k ≤ 106 := by
  cases k with
  | zero => exact Nat.zero_le _
  | succ k => exact (h k (Nat.lt_succ_self k)).lt

end Time

/-! ## The run -/

/-- The sleeps and polls up to the `k`-th poll. -/
def pollRounds (call : AzureCall) (operationId : Bytes) (k : Nat) : List AzureEvent :=
  (List.range k).flatMap fun j =>
    [.slept (backoff j), .polled call.host (call.pollPath operationId) call.token]

/-- The digest was posted, and then one operation was polled for with growing delays. -/
def Requested (call : AzureCall) (s : AzureState) : Prop :=
  ∃ request operationId, s.log =
    .posted call.host call.path call.token request :: pollRounds call operationId s.polls

/-- The loop has made `p.i` polls, and each of them was due. -/
structure Polling.At (env : AzureEnv) (call : AzureCall) (request operationId : Bytes)
    (start : Nat) (p : Polling) (s : AzureState) : Prop where
  polls : s.polls = p.i
  readings : s.readings = p.i + 1
  time : s.time + env.idle (p.i + 1) = start + env.elapsed p.i
  pending : ∀ j < p.i, env.Pending j
  reply : env.HasStatus p.i p.body p.status
  log : s.log =
    .posted call.host call.path call.token request :: pollRounds call operationId p.i

/-- The loop has ended with the first reply that is not in progress. -/
structure Arrived (env : AzureEnv) (call : AzureCall) (body : Json) (status : Bytes)
    (s : AzureState) : Prop where
  pending : ∀ j < s.polls, env.Pending j
  reply : env.HasStatus s.polls body status
  settled : status ≠ ascii "InProgress"
  requested : Requested call s

/-- The call has thrown, and there is nothing that it could have returned. -/
structure Refused (env : AzureEnv) (call : AzureCall) (e : AzureFailure) (s : AzureState) :
    Prop where
  thrown : ∃ what, e = .thrown what
  nothing : ∀ k result, ¬ env.Delivers k result
  polls : s.polls ≤ 106
  requested : s.log = [] ∧ s.polls = 0 ∨ Requested call s

section Run

variable {env : AzureEnv} {call : AzureCall} {request operationId what : Bytes} {start : Nat}
  {p : Polling} {s : AzureState}

theorem pollRounds_succ (call : AzureCall) (operationId : Bytes) (k : Nat) :
    pollRounds call operationId (k + 1) = pollRounds call operationId k ++
      [.slept (backoff k), .polled call.host (call.pollPath operationId) call.token] := by
  rw [pollRounds, List.range_succ, List.flatMap_append, List.flatMap_singleton, pollRounds]

/-- An exception is right where the reply in hand is not one to poll on or to deliver. -/
theorem Refused.of_pending {k : Nat} (hpending : ∀ j < k, env.Pending j) (hpolls : s.polls = k)
    (hrequested : Requested call s) (hlast : ¬ env.Pending k)
    (hempty : ∀ body result, env.HasStatus k body (ascii "Succeeded") →
      ¬ body.Carries result) : Refused env call (.thrown what) s where
  thrown := ⟨what, rfl⟩
  nothing := by
    intro m result h
    rcases h.at hpending with hmore | ⟨body, hsucceeded, hcarries⟩
    · exact hlast hmore
    · exact hempty body result hsucceeded hcarries
  polls := hpolls ▸ le_of_pending hpending
  requested := .inr hrequested

/-- An exception is right where the reply in hand has no status. -/
theorem Refused.of_unread {k : Nat} (hpending : ∀ j < k, env.Pending j) (hpolls : s.polls = k)
    (hrequested : Requested call s) (hunread : ∀ body status, ¬ env.HasStatus k body status) :
    Refused env call (.thrown what) s :=
  .of_pending hpending hpolls hrequested (fun hmore => hmore.1.elim fun body => hunread body _)
    fun body _ hsucceeded _ => hunread body _ hsucceeded

theorem Polling.At.requested (h : p.At env call request operationId start s) :
    Requested call s := ⟨request, operationId, h.polls ▸ h.log⟩

/-- What a poll brought is read, or it says nothing about the operation. -/
theorem ends_readPoll {k : Nat} {poll : HttpResponse} (hpending : ∀ j < k + 1, env.Pending j)
    (hpolls : s.polls = k + 1) (hrequested : Requested call s)
    (hreply : env.reply (k + 1) = .ok poll) {Q : Pass Polling (Json × Bytes) → AzureState → Prop}
    (hQ : ∀ body status, env.HasStatus (k + 1) body status → Q (.again ⟨body, status, k + 1⟩) s) :
    Ends (do
      raiseIf (poll.status ≠ 200) (.thrown what)
      let body ← throwing (env.json.parse poll.body)
      let status ← throwing (body.value (ascii "status"))
      return .again ⟨body, status, k + 1⟩) s Q (Refused env call) := by
  rw [ends_bind, ends_raiseIf]
  constructor
  · intro hstatus
    exact .of_unread hpending hpolls hrequested (unread_of_rejected hreply hstatus)
  · intro hstatus
    rw [ends_bind, ends_throwing]
    refine sat_iff.mpr ⟨fun body hparse => ?_, fun what hwhat =>
      .of_unread hpending hpolls hrequested (unread_of_parse hreply hwhat)⟩
    rw [ends_bind, ends_throwing]
    refine sat_iff.mpr ⟨fun status hvalue => ?_, fun what hwhat =>
      .of_unread hpending hpolls hrequested (unread_of_value hreply hparse hwhat)⟩
    exact hQ body status ⟨⟨poll, hreply, not_not.mp hstatus, hparse⟩, hvalue⟩

/-- A pass makes the next poll, or leaves, or throws. -/
theorem ends_pollPass (h : p.At env call request operationId start s) :
    Ends (pollPass env call operationId start p) s
      (Continues (fun p' s' => p'.i = p.i + 1 ∧ p'.At env call request operationId start s')
        fun last s' => Arrived env call last.1 last.2 s')
      (Refused env call) := by
  unfold pollPass
  rw [ends_ite]
  constructor
  · intro hsettled
    exact ⟨h.polls ▸ h.pending, h.polls ▸ h.reply, hsettled, h.requested⟩
  -- The timeout is checked before the sleep, so a reply that comes too late is still looked at.
  · intro hprogress
    have hprogress : p.status = ascii "InProgress" := not_not.mp hprogress
    have helapsed : s.time + env.idle s.readings - start = env.elapsed p.i := by
      rw [h.readings, h.time, Nat.add_sub_cancel_left]
    rw [ends_bind, ends_steadyNow, ends_bind, ends_raiseIf, helapsed]
    constructor
    · intro hlate
      refine .of_pending h.pending h.polls ?_ ?_ ?_
      · exact h.requested
      · intro hmore
        exact absurd hmore.2 (Nat.not_le_of_lt hlate)
      · intro body result hsucceeded
        exact absurd ((hprogress ▸ h.reply).unique hsucceeded) ascii_inProgress_ne
    · intro hintime
      have hpending : env.Pending p.i :=
        ⟨⟨p.body, hprogress ▸ h.reply⟩, Nat.le_of_not_lt hintime⟩
      have hbefore : ∀ j < p.i + 1, env.Pending j := by
        intro j hj
        rcases Nat.lt_succ_iff_lt_or_eq.mp hj with hless | rfl
        · exact h.pending j hless
        · exact hpending
      -- The counter is bounded by the time, which the sleeps use up.
      have hsmall : p.i < 2 ^ 27 := hpending.lt.trans (by decide)
      rw [ends_bind, ends_lift, nextDelay_eq hsmall, sat_ok, ends_bind, ends_sleepFor, ends_bind,
        ends_httpsGet]
      dsimp only
      rw [h.polls, h.readings, h.log]
      generalize hnext : AzureState.mk _ _ _ _ = s'
      have hpolls : s'.polls = p.i + 1 := hnext ▸ rfl
      have hlog : s'.log = .posted call.host call.path call.token request ::
          pollRounds call operationId (p.i + 1) := by
        rw [← hnext, pollRounds_succ]
        simp
      have hrequested : Requested call s' := ⟨request, operationId, hpolls ▸ hlog⟩
      refine sat_iff.mpr ⟨fun resp hresp => ?_, fun what hwhat =>
        .of_unread hbefore hpolls hrequested (unread_of_failed hwhat)⟩
      refine ends_readPoll hbefore hpolls hrequested hresp fun body status hstatus => ?_
      refine ⟨rfl, hpolls, ?_, ?_, hbefore, hstatus, hlog⟩
      · rw [← hnext]
      · rw [← hnext]
        have htime := h.time
        have hidle : env.idle (p.i + 1 + 1) = env.idle (p.i + 2) := rfl
        simp only [AzureEnv.elapsed]
        omega

/-- The loop ends at the first reply that is no longer in progress, or throws. -/
theorem ends_pollLoop {fuel : Nat} (hfuel : 107 ≤ fuel) {body : Json} {status : Bytes}
    (h : Polling.At env call request operationId start ⟨body, status, 0⟩ s) :
    Ends (whileAgain (pollPass env call operationId start) .diverges fuel ⟨body, status, 0⟩) s
      (fun last s' => Arrived env call last.1 last.2 s') (Refused env call) := by
  have hbound : ∀ n (p : Polling) s', p.i = n ∧ p.At env call request operationId start s' →
      n < 107 := by
    intro n p s' hat
    exact hat.1 ▸ Nat.lt_succ_of_le (le_of_pending hat.2.pending)
  refine ends_whileAgain _ hbound ?_ ⟨rfl, h⟩ (Nat.le_add_left_of_le hfuel)
  intro n p s' hat
  exact hat.1 ▸ ends_pollPass hat.2

/-- The request holds base64 and constants, and these are written without an exception. -/
theorem dump_signRequest (hdump : DumpsAscii env.dump) (digest : Bytes) :
    ∃ text, env.dump (signRequest digest) = .ok text := by
  rw [signRequest_eq]
  refine hdump _ fun field hfield => ?_
  have hkeys : (∀ c ∈ ascii "digest", c < 128) ∧ (∀ c ∈ ascii "signatureAlgorithm", c < 128) ∧
      ∀ c ∈ ascii "RS256", c < 128 := by decide +kernel
  rcases Json.mem_assign hfield with rfl | hrest
  · exact ⟨hkeys.1, _, rfl, base64Encode_ascii digest⟩
  · obtain rfl := List.mem_singleton.mp hrest
    exact ⟨hkeys.2.1, _, rfl, hkeys.2.2⟩

/-- The last reply delivers its fields, or there was nothing to deliver. -/
theorem Arrived.ends {body : Json} {status : Bytes} (h : Arrived env call body status s)
    (hidentified : env.Identified) :
    Ends (do
      raiseIf (status ≠ ascii "Succeeded") (.thrown what)
      let signature ← throwing (body.getString (ascii "signature"))
      let pem ← throwing (body.getString (ascii "signingCertificate"))
      return ⟨base64Decode signature, base64MimeDecode (base64Decode pem)⟩) s
      (fun result s' => env.Delivers s'.polls result ∧ Requested call s') (Refused env call) := by
  have hrefused (hempty : ∀ body result, env.HasStatus s.polls body (ascii "Succeeded") →
      ¬ body.Carries result) {what : Bytes} : Refused env call (.thrown what) s := by
    refine .of_pending h.pending rfl h.requested ?_ hempty
    rintro ⟨⟨body', hprogress⟩, -⟩
    exact h.settled (h.reply.unique hprogress)
  rw [ends_bind, ends_raiseIf]
  constructor
  · intro hfailed
    exact hrefused fun body' result hsucceeded => absurd (h.reply.unique hsucceeded) hfailed
  · intro hstatus
    obtain rfl : status = ascii "Succeeded" := not_not.mp hstatus
    -- A field that is no string is one that nothing could be decoded from.
    have hmissing (hnone : ∀ result, ¬ body.Carries result) {what : Bytes} :
        Refused env call (.thrown what) s := by
      refine hrefused fun body' result hsucceeded => ?_
      obtain rfl := h.reply.1.unique hsucceeded.1
      exact hnone result
    rw [ends_bind, ends_throwing]
    refine sat_iff.mpr ⟨fun signature hsignature => ?_, fun what hwhat => hmissing ?_⟩
    · rw [ends_bind, ends_throwing]
      refine sat_iff.mpr ⟨fun pem hpem => ?_, fun what hwhat => hmissing ?_⟩
      · exact ⟨⟨hidentified, body, ⟨h.pending, h.reply⟩, signature, pem,
          getString_eq_ok.mp hsignature, getString_eq_ok.mp hpem, rfl⟩, h.requested⟩
      · rintro result ⟨signature', pem, -, hpem, -⟩
        rw [getString_eq_ok.mpr hpem] at hwhat
        cases hwhat
    · rintro result ⟨signature, pem, hsignature, -⟩
      rw [getString_eq_ok.mpr hsignature] at hwhat
      cases hwhat

/-- The call returns what the last reply delivers, or throws with nothing to return. -/
theorem ends_azureSign (hdump : DumpsAscii env.dump) {fuel : Nat} (hfuel : 107 ≤ fuel) :
    Ends (azureSign env fuel call) .start
      (fun result s' => env.Delivers s'.polls result ∧ Requested call s') (Refused env call) := by
  obtain ⟨text, htext⟩ := dump_signRequest hdump call.digest
  rw [azureSign, ends_bind, ends_throwing, htext, sat_ok, ends_bind, ends_httpsPost]
  -- Reply 0 is in hand, with no poll before it.
  generalize hposted : AzureState.mk _ _ _ _ = s
  have hnone : ∀ j < 0, env.Pending j := fun j hj => absurd hj (Nat.not_lt_zero j)
  have hpolls : s.polls = 0 := hposted ▸ rfl
  have hlog : s.log = [.posted call.host call.path call.token text] := hposted ▸ rfl
  have hrequested : Requested call s := ⟨text, [], by rw [hlog, hpolls]; rfl⟩
  refine sat_iff.mpr ⟨fun resp hreply => ?_, fun what hwhat =>
    .of_unread hnone hpolls hrequested (unread_of_failed hwhat)⟩
  have hreply : env.reply 0 = .ok resp := hreply
  rw [ends_bind, ends_raiseIf]
  constructor
  · intro hstatus
    exact .of_unread hnone hpolls hrequested
      (unread_of_rejected hreply fun haccepted => haccepted.elim hstatus.1 hstatus.2)
  · intro hstatus
    have haccepted : AzureEnv.Accepted 0 resp.status := by
      rcases Classical.em (resp.status = 200) with h200 | h200
      · exact .inl h200
      · exact .inr (by_contra fun h202 => hstatus ⟨h200, h202⟩)
    rw [ends_bind, ends_throwing]
    refine sat_iff.mpr ⟨fun body hparse => ?_, fun what hwhat =>
      .of_unread hnone hpolls hrequested (unread_of_parse hreply hwhat)⟩
    have hbrings : env.Brings 0 body := ⟨resp, hreply, haccepted, hparse⟩
    rw [ends_bind, ends_throwing]
    refine sat_iff.mpr ⟨fun operationId hid => ?_, fun what hwhat => ?_⟩
    · have hidentified : env.Identified := ⟨body, operationId, hbrings, hid⟩
      rw [ends_bind, ends_throwing]
      refine sat_iff.mpr ⟨fun status hvalue => ?_, fun what hwhat =>
        .of_unread hnone hpolls hrequested (unread_of_value hreply hparse hwhat)⟩
      rw [ends_bind, ends_steadyNow, ends_bind]
      have hstart : Polling.At env call text operationId (s.time + env.idle s.readings)
          ⟨body, status, 0⟩ { s with
            time := s.time + env.idle s.readings
            readings := s.readings + 1 } :=
        { polls := hpolls
          readings := hposted ▸ rfl
          time := rfl
          pending := hnone
          reply := ⟨hbrings, hvalue⟩
          log := hlog }
      refine (ends_pollLoop hfuel hstart).mono ?_ fun _ _ => id
      exact fun last s' harrived => harrived.ends hidentified
    · refine ⟨⟨what, rfl⟩, ?_, ?_, .inr hrequested⟩
      · rintro k result ⟨⟨body', id, hbrings', hid'⟩, -⟩
        obtain rfl := hbrings.unique hbrings'
        rw [hwhat] at hid'
        cases hid'
      · exact hpolls ▸ Nat.zero_le _

end Run

/-! ## The result -/

/-- Reply `k` is a JSON object that names the operation and its status. -/
def AzureEnv.Readable (env : AzureEnv) (k : Nat) : Prop :=
  ∀ body, env.Brings k body → body.IsObject ∧
    (∃ id, body.field (ascii "operationId") = some (.string id)) ∧
    ∃ status, body.field (ascii "status") = some (.string status)

/-- The value holds a signature and a certificate as strings. -/
def Json.HoldsSignature (body : Json) : Prop :=
  ∃ signature pem, body.field (ascii "signature") = some (.string signature) ∧
    body.field (ascii "signingCertificate") = some (.string pem)

theorem value_of_field {j : Json} {key s : Bytes} (h : j.field key = some (.string s)) :
    j.value key = .ok s := by
  cases j with
  | object fields =>
      rw [Json.field] at h
      rw [Json.value, h]
  | _ => cases h

/-- A completed operation whose replies are objects with the strings that are asked for has
something to deliver. -/
theorem AzureEnv.Completes.delivers {env : AzureEnv} {k : Nat} {body : Json}
    (h : env.Completes k body) (hreadable : ∀ j ≤ k, env.Readable j) (hholds : body.HoldsSignature) :
    ∃ result, env.Delivers k result := by
  have hfirst : ∃ body, env.Brings 0 body := by
    rcases Nat.eq_zero_or_pos k with rfl | hpos
    · exact ⟨body, h.2.1⟩
    · obtain ⟨⟨body', hprogress⟩, -⟩ := h.1 0 hpos
      exact ⟨body', hprogress.1⟩
  obtain ⟨first, hbrings⟩ := hfirst
  obtain ⟨-, ⟨id, hid⟩, -⟩ := hreadable 0 (Nat.zero_le k) first hbrings
  obtain ⟨signature, pem, hsignature, hpem⟩ := hholds
  exact ⟨_, ⟨first, id, hbrings, value_of_field hid⟩, body, h, signature, pem, hsignature, hpem, rfl⟩

/-- `azure_sign` returns after `k` polls exactly the fields of reply `k`, if that is the first
one not in progress and reports success in time; it does return in that case when the
replies hold the strings it asks for; in every other case it throws; and it makes no
more than 106 polls, so that neither the loop nor its counter runs over. -/
theorem azureSign_delivers (env : AzureEnv) (call : AzureCall) (fuel : Nat) (hfuel : 107 ≤ fuel)
    (hdump : DumpsAscii env.dump) :
    (∀ k result, (azureSign env fuel call .start).1 = .ok result ∧
        (azureSign env fuel call .start).2.polls = k ↔ env.Delivers k result) ∧
    (∀ k body, env.Completes k body → (∀ j ≤ k, env.Readable j) → body.HoldsSignature →
      ∃ result, (azureSign env fuel call .start).1 = .ok result) ∧
    ((¬ ∃ k result, env.Delivers k result) →
      ∃ what, (azureSign env fuel call .start).1 = .error (.thrown what)) ∧
    (azureSign env fuel call .start).2.polls ≤ 106 := by
  have hends : Ends (azureSign env fuel call) .start _ _ := ends_azureSign hdump hfuel
  unfold Ends at hends
  split at hends
  next result s' hrun =>
    have hexact : ∀ k result', env.Delivers k result' ↔ s'.polls = k ∧ result = result' := by
      intro k result'
      constructor
      · exact fun h => hends.1.unique h
      · rintro ⟨rfl, rfl⟩
        exact hends.1
    rw [hrun]
    refine ⟨fun k result' => ?_, fun _ _ _ _ _ => ⟨result, rfl⟩, fun hnone => ?_, ?_⟩
    · rw [hexact, Except.ok.injEq, and_comm]
    · exact absurd ⟨_, _, hends.1⟩ hnone
    · obtain ⟨-, body, hcompletes, -⟩ := hends.1
      exact le_of_pending hcompletes.1
  next e s' hrun =>
    rw [hrun]
    obtain ⟨what, rfl⟩ := hends.thrown
    refine ⟨fun k result => ?_, fun k body h hreadable hholds => ?_, fun _ => ⟨what, rfl⟩,
      hends.polls⟩
    · exact iff_of_false (by simp) (hends.nothing k result)
    · obtain ⟨result, h⟩ := h.delivers hreadable hholds
      exact absurd h (hends.nothing k result)

def pendingText : Bytes := ascii "\x7b\"operationId\":\"7\",\"status\":\"InProgress\"\x7d"

def succeededText : Bytes :=
  ascii "\x7b\"operationId\":\"7\",\"status\":\"Succeeded\",\"signature\":\"TWE=\"," ++
    ascii "\"signingCertificate\":\"VFdFPQ==\"\x7d"

def pendingBody : Json :=
  .object [(ascii "operationId", .string (ascii "7")), (ascii "status", .string (ascii "InProgress"))]

def succeededBody : Json :=
  .object [(ascii "operationId", .string (ascii "7")), (ascii "signature", .string (ascii "TWE=")),
    (ascii "signingCertificate", .string (ascii "VFdFPQ==")),
    (ascii "status", .string (ascii "Succeeded"))]

/-- `"key":"text"`, where nothing has to be escaped. -/
def printField (field : Bytes × Json) : Bytes :=
  match field with
  | (key, .string text) => ascii "\"" ++ key ++ ascii "\":\"" ++ text ++ ascii "\""
  | _ => []

/-- A service that has signed when it is polled for the second time. -/
def slowService : AzureEnv where
  json :=
    { parse := fun text =>
        if text = pendingText then .ok pendingBody
        else if text = succeededText then .ok succeededBody
        else .error (ascii "syntax error")
      extract := fun _ => .error (ascii "syntax error")
      dump := fun _ => .error (ascii "not supported") }
  dump
    | .object fields =>
        .ok (ascii "\x7b" ++ ((fields.map printField).intersperse [44]).flatten ++ ascii "\x7d")
    | _ => .error (ascii "not supported")
  post := .ok ⟨202, pendingText⟩
  poll k := if k = 0 then .ok ⟨200, pendingText⟩ else .ok ⟨200, succeededText⟩
  idle _ := 10 ^ 6

def sampleCall : AzureCall :=
  ⟨ascii "https://eus.codesigning.azure.net/", ascii "a", ascii "p", ascii "t", [1, 2, 3]⟩

theorem slowService_parse_pending : slowService.json.parse pendingText = .ok pendingBody := by
  simp only [slowService, if_true]

theorem slowService_parse_succeeded :
    slowService.json.parse succeededText = .ok succeededBody := by
  have hne : succeededText ≠ pendingText := by decide +kernel
  simp only [slowService, if_neg hne, if_true]

theorem slowService_pending {resp : HttpResponse} {k : Nat} (hreply : slowService.reply k = .ok resp)
    (haccepted : AzureEnv.Accepted k resp.status) (htext : resp.body = pendingText)
    (htime : slowService.elapsed k ≤ pollTimeout) : slowService.Pending k :=
  ⟨⟨pendingBody, ⟨resp, hreply, haccepted, htext ▸ slowService_parse_pending⟩, rfl⟩, htime⟩

theorem slowService_delivered : (azureSign slowService 107 sampleCall .start).1 =
      .ok ⟨[77, 97], [77, 97]⟩ ∧ (azureSign slowService 107 sampleCall .start).2.polls = 2 := by
  refine ((azureSign_delivers slowService sampleCall 107 (by decide) fun fields _ => ⟨_, rfl⟩).1 2
    _).mpr ?_
  have hpending : ∀ j < 2, slowService.Pending j := by
    intro j hj
    interval_cases j
    · exact slowService_pending rfl (.inr rfl) rfl (by decide +kernel)
    · exact slowService_pending rfl rfl rfl (by decide +kernel)
  have hresult : (⟨[77, 97], [77, 97]⟩ : AzureSignResult) = ⟨base64Decode (ascii "TWE="),
      base64MimeDecode (base64Decode (ascii "VFdFPQ=="))⟩ := by decide +kernel
  exact ⟨⟨pendingBody, ascii "7", ⟨_, rfl, .inr rfl, slowService_parse_pending⟩, rfl⟩, succeededBody,
    ⟨hpending, ⟨_, rfl, rfl, slowService_parse_succeeded⟩, rfl⟩, _, _, rfl, rfl, hresult⟩

/-- However the call ends, it has posted one digest to the host of the endpoint, and
polled there for one operation, each time after a sleep. -/
theorem azureSign_requests (env : AzureEnv) (call : AzureCall) (fuel : Nat) (hfuel : 107 ≤ fuel)
    (hdump : DumpsAscii env.dump) : Requested call (azureSign env fuel call .start).2 ∨
      (azureSign env fuel call .start).2.log = [] := by
  have hends : Ends (azureSign env fuel call) .start _ _ := ends_azureSign hdump hfuel
  unfold Ends at hends
  split at hends
  next result s' hrun => exact .inl (hrun ▸ hends.2)
  next e s' hrun =>
    rw [hrun]
    exact hends.requested.symm.imp_right And.left

end AasSign
