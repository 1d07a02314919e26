import AasSign.Auth.Interleaving
import AasSign.Auth.Session

/-! # What a silent refresh does to the cache

A refresh run alone: the ways in which it can end, and what each leaves in the
token cache.
-/

namespace AasSign

open Foundation Program

/-- The JSON library writes an object that it has read, with the refresh token of a value that it
has read put in, as a text that reads back the same. -/
def JsonLibrary.Updates (json : JsonLibrary) : Prop :=
  ∀ contents fields body reply new, json.extract contents = .ok (.object fields) →
    json.parse body = .ok reply → reply.field (ascii "refresh_token") = some (.string new) →
    ∃ text, json.dump ((Json.object fields).set (ascii "refresh_token") (.string new)) = .ok text ∧
      json.extract text = .ok ((Json.object fields).set (ascii "refresh_token") (.string new))

/-! ## Ends of a run -/

/-- The cache asks for this refresh. -/
structure Requests (env : AuthEnv) (cache : Option Bytes) (fields : List (Bytes × Json))
    (request : RefreshRequest) : Prop where
  parsed : parseCache env.json cache = .ok (.object fields)
  asks : refreshRequest (.object fields) = .ok (some request)

/-- The state after the request is sent. -/
def AuthState.sent (s : AuthState) (request : RefreshRequest) : AuthState :=
  s.record (.asked (tokenUrl request.tenant) request.form)

/-- How a refresh can end, when no write and no removal fails. -/
inductive Refreshed (env : AuthEnv) (s : AuthState) : Except Bytes Bytes → AuthState → Prop where
  | unasked {outcome : Except Bytes Bytes} (h : ∀ token, outcome = .ok token → token = []) :
      Refreshed env s outcome s
  | unanswered {fields : List (Bytes × Json)} {request : RefreshRequest} {what : Bytes}
      (h : Requests env s.cache fields request)
      (hpost : env.post (tokenUrl request.tenant) request.form = .error what) :
      Refreshed env s (.error what) (s.sent request)
  | threw {fields : List (Bytes × Json)} {request : RefreshRequest} {resp : HttpResponse}
      {what : Bytes} (h : Requests env s.cache fields request)
      (hpost : env.post (tokenUrl request.tenant) request.form = .ok resp)
      (hreply : refreshReply env.json (.object fields) request resp = .throws what) :
      Refreshed env s (.error what) (s.sent request)
  | rejected {fields : List (Bytes × Json)} {request : RefreshRequest} {resp : HttpResponse}
      (h : Requests env s.cache fields request)
      (hpost : env.post (tokenUrl request.tenant) request.form = .ok resp)
      (hreply : refreshReply env.json (.object fields) request resp = .rejected) :
      Refreshed env s (.error rejectedText)
        { (s.sent request).record .deletedCache with cache := none }
  | token {fields : List (Bytes × Json)} {request : RefreshRequest} {resp : HttpResponse}
      {accessToken : Bytes} (h : Requests env s.cache fields request)
      (hpost : env.post (tokenUrl request.tenant) request.form = .ok resp)
      (hreply : refreshReply env.json (.object fields) request resp = .token accessToken) :
      Refreshed env s (.ok accessToken) (s.sent request)
  | rotated {fields : List (Bytes × Json)} {request : RefreshRequest} {resp : HttpResponse}
      {cache : Json} {accessToken text : Bytes} (h : Requests env s.cache fields request)
      (hpost : env.post (tokenUrl request.tenant) request.form = .ok resp)
      (hreply : refreshReply env.json (.object fields) request resp = .rotated cache accessToken)
      (hdump : env.json.dump cache = .ok text) :
      Refreshed env s (.ok accessToken)
        { (s.sent request).record (.wroteCache text) with cache := some text }

section Runs

variable {env : AuthEnv} {s : AuthState}

theorem ends_readCacheFile {Q : Json → AuthState → Prop} {E : Bytes → AuthState → Prop}
    (hQ : ∀ path j, env.configDir = .ok path → parseCache env.json s.cache = .ok j → Q j s)
    (hE : ∀ what, E what s) : Ends (readCacheFile env) s Q E := by
  refine ends_lift_bind (fun path hdir => ?_) hE
  rw [ends_bind, ends_current]
  exact ends_lift_of (fun j => hQ path j hdir) hE

theorem ends_deleteCacheFile {path : Bytes} (hdir : env.configDir = .ok path)
    (hremove : env.dir.removeError = none) {Q : Unit → AuthState → Prop}
    {E : Bytes → AuthState → Prop} : Ends (deleteCacheFile env) s Q E ↔
      Q () { s.record .deletedCache with cache := none } := by
  rw [deleteCacheFile, hdir, ends_bind, ends_lift, sat_ok, hremove, ends_change]

theorem ends_writeCacheFile {path text : Bytes} {j : Json} (hdir : env.configDir = .ok path)
    (hwrite : env.dir.writeError = none) (hdump : env.json.dump j = .ok text)
    {Q : Unit → AuthState → Prop} {E : Bytes → AuthState → Prop} :
    Ends (writeCacheFile env j) s Q E ↔
      Q () { s.record (.wroteCache text) with cache := some text } := by
  rw [writeCacheFile, hdir, hdump, ends_bind, ends_lift, sat_ok, ends_bind, ends_lift, sat_ok,
    hwrite, ends_change]

/-- A cache that a reply rotates is one that the library writes, and reads back. -/
theorem exists_dump (hjson : env.json.Updates) {cache : Option Bytes}
    {fields : List (Bytes × Json)} {request : RefreshRequest} {resp : HttpResponse} {rotated : Json}
    {accessToken : Bytes} (h : Requests env cache fields request)
    (hreply : refreshReply env.json (.object fields) request resp = .rotated rotated accessToken) :
    ∃ text, env.json.dump rotated = .ok text ∧ env.json.extract text = .ok rotated := by
  obtain ⟨-, haccepted⟩ := refreshReply_accepted hreply (by simp) (by simp)
  obtain ⟨reply, accessToken', hparse, -, -, ⟨hout, -⟩ | ⟨new, -, -, hnew, hout⟩⟩ :=
    acceptedReply_eq_ok haccepted
  · cases hout
  · obtain ⟨rfl, -⟩ := RefreshReply.rotated.inj hout
    cases cache with
    | none => cases h.parsed
    | some contents =>
        exact hjson contents fields resp.body reply new (parseCache_some.mp h.parsed) hparse hnew

/-- The ways in which a refresh ends are those. -/
theorem refreshed_tryCachedRefreshAlone (hwrite : env.dir.writeError = none)
    (hremove : env.dir.removeError = none) (hjson : env.json.Updates) :
    Ends (tryCachedRefreshAlone env) s (fun token s' => Refreshed env s (.ok token) s')
      fun what s' => Refreshed env s (.error what) s' := by
  have hthrew : ∀ what, Refreshed env s (.error what) s := fun what =>
    .unasked fun token h => by cases h
  have hempty : Refreshed env s (.ok []) s := .unasked fun token h => (Except.ok.inj h).symm
  rw [tryCachedRefreshAlone, ends_bind]
  refine ends_readCacheFile (fun path j hdir hparsed => ?_) hthrew
  cases j with
  | object fields =>
      refine ends_lift_bind (fun asked hasked => ?_) hthrew
      cases asked with
      | none => exact hempty
      | some request =>
          have h : Requests env s.cache fields request := ⟨hparsed, hasked⟩
          rw [ends_bind]
          refine ends_ask (fun resp hpost => ?_) fun what hpost => .unanswered h hpost
          cases hreply : refreshReply env.json (.object fields) request resp with
          | throws what => exact .threw h hpost hreply
          | rejected =>
              rw [settleRefreshAlone, ends_bind, ends_deleteCacheFile hdir hremove]
              exact .rejected h hpost hreply
          | token accessToken => exact .token h hpost hreply
          | rotated cache accessToken =>
              obtain ⟨text, hdump, -⟩ := exists_dump hjson h hreply
              rw [settleRefreshAlone, ends_bind, ends_ignored,
                ends_writeCacheFile hdir hwrite hdump]
              exact .rotated h hpost hreply hdump
  | _ => exact hempty

theorem plays_settleRefresh {path : Bytes} (hdir : env.configDir = .ok path) (reply : RefreshReply)
    (s : AuthState) :
    Plays (settleRefreshAlone env reply) (settleRefresh env.json env.dir reply) s := by
  cases reply with
  | throws what => exact plays_done rfl rfl
  | token accessToken => exact plays_done rfl rfl
  | rejected =>
      rw [settleRefresh, deleteCache]
      cases hremove : env.dir.removeError with
      | some what =>
          refine plays_act () s ?_ rfl rfl
          simp only [settleRefreshAlone, deleteCacheFile, hdir, hremove, Bind.bind, lift, raise]
      | none =>
          refine plays_act () { s.record .deletedCache with cache := none } ?_ rfl rfl
          simp only [settleRefreshAlone, deleteCacheFile, hdir, hremove, Bind.bind, lift, raise,
            change]
  | rotated cache accessToken =>
      rw [settleRefresh, writeCache]
      cases hdump : env.json.dump cache with
      | error what =>
          refine plays_done ?_ rfl
          simp only [settleRefreshAlone, writeCacheFile, hdir, hdump, Bind.bind, lift, ignored, pure]
      | ok text =>
          cases hwrite : env.dir.writeError with
          | some what =>
              refine plays_act () s ?_ rfl rfl
              simp only [settleRefreshAlone, writeCacheFile, hdir, hdump, hwrite, Bind.bind, lift,
                raise, ignored, pure]
          | none =>
              refine plays_act () { s.record (.wroteCache text) with cache := some text } ?_ rfl rfl
              simp only [settleRefreshAlone, writeCacheFile, hdir, hdump, hwrite, Bind.bind, lift,
                change, ignored, pure]

/-- A refresh run alone is a run of the process without a step of anybody else. -/
theorem plays_tryCachedRefresh {path : Bytes} (hdir : env.configDir = .ok path) :
    Plays (tryCachedRefreshAlone env) (tryCachedRefresh env.json env.dir) s := by
  suffices h : Plays (tryCachedRefreshAlone env)
      (refreshFrom env.json env.dir (parseCache env.json s.cache)) s by
    obtain ⟨trace, hsteps⟩ := h
    exact ⟨_, .head () hsteps⟩
  cases hparsed : parseCache env.json s.cache with
  -- A corrupted cache throws before anybody is asked.
  | error what =>
      refine plays_done ?_ rfl
      simp only [tryCachedRefreshAlone, readCacheFile, hdir, hparsed, Bind.bind, lift, current]
  | ok j =>
      have hread : readCacheFile env s = (.ok j, s) := by
        simp only [readCacheFile, hdir, hparsed, Bind.bind, lift, current]
      cases j with
      | object fields =>
          simp only [refreshFrom]
          cases hasked : refreshRequest (.object fields) with
          | error what =>
              refine plays_done ?_ rfl
              rw [tryCachedRefreshAlone, run_bind hread]
              simp only [hasked, Bind.bind, lift]
          | ok asked =>
              cases asked with
              | none =>
                  refine plays_done ?_ rfl
                  rw [tryCachedRefreshAlone, run_bind hread]
                  simp only [hasked, Bind.bind, lift]
                  rfl
              | some request =>
                  have hrun : tryCachedRefreshAlone env s =
                      (ask env (tokenUrl request.tenant) request.form >>= fun resp =>
                        settleRefreshAlone env
                          (refreshReply env.json (.object fields) request resp)) s := by
                    rw [tryCachedRefreshAlone, run_bind hread]
                    simp only [hasked, Bind.bind, lift]
                  rw [Plays, hrun]
                  apply plays_ask
                  cases env.post (tokenUrl request.tenant) request.form with
                  | error what => exact plays_done rfl rfl
                  | ok resp => exact plays_settleRefresh hdir _ _
      | _ =>
          refine plays_done ?_ rfl
          rw [tryCachedRefreshAlone, run_bind hread]
          rfl

end Runs

/-! ## What a run leaves -/

/-- The token was asked for with what the cache holds, and the cache afterwards holds the refresh
token of the answer, and what it held. -/
structure RefreshSucceeds (env : AuthEnv) (cache : Option Bytes) (token : Bytes) (s' : AuthState)
    (held after reply : Json) (request : RefreshRequest) (resp : HttpResponse) : Prop where
  parsed : parseCache env.json cache = .ok held
  object : held.IsObject
  refreshToken : request.refreshToken ≠ [] ∧
    held.field (ascii "refresh_token") = some (.string request.refreshToken)
  clientId : request.clientId ≠ [] ∧
    held.field (ascii "client_id") = some (.string request.clientId)
  asked : .asked (tokenUrl request.tenant) request.form ∈ s'.log
  answered : env.post (tokenUrl request.tenant) request.form = .ok resp
  status : resp.status = 200
  body : env.json.parse resp.body = .ok reply
  accessToken : reply.field (ascii "access_token") = some (.string token)
  reparsed : parseCache env.json s'.cache = .ok after
  reobject : after.IsObject
  rotated : after.field (ascii "refresh_token") =
    some (.string (rotatedToken reply request.refreshToken))
  others : ∀ key, key ≠ ascii "refresh_token" → after.field key = held.field key

/-- A request was sent, and answered by an `invalid_grant`. -/
def RefreshRejected (env : AuthEnv) (s' : AuthState) : Prop :=
  ∃ url form resp reply, .asked url form ∈ s'.log ∧ env.post url form = .ok resp ∧
    resp.status ≠ 200 ∧ env.json.parse resp.body = .ok reply ∧
    reply.field (ascii "error") = some (.string (ascii "invalid_grant"))

section Effects

variable {env : AuthEnv} {cache config : Option Bytes} {outcome : Except Bytes Bytes}
  {s' : AuthState}

theorem Requests.isSome {fields : List (Bytes × Json)} {request : RefreshRequest}
    (h : Requests env cache fields request) : cache.isSome := by
  cases cache with
  | none => cases h.parsed
  | some contents => rfl

theorem Refreshed.succeeds (hjson : env.json.Updates)
    (h : Refreshed env ⟨cache, config, []⟩ outcome s') {token : Bytes} (htoken : outcome = .ok token)
    (hnonempty : token ≠ []) : ∃ held after reply request resp,
      RefreshSucceeds env cache token s' held after reply request resp := by
  cases h with
  | unasked hquiet => exact absurd (hquiet token htoken) hnonempty
  | unanswered => cases htoken
  | threw => cases htoken
  | rejected => cases htoken
  | @token fields request resp accessToken hrequests hpost hreply =>
      cases htoken
      obtain ⟨hrefresh, hclient⟩ := refreshRequest_eq_some hrequests.asks
      obtain ⟨hstatus, haccepted⟩ := refreshReply_accepted hreply (by simp) (by simp)
      obtain ⟨reply, _, hparse, -, haccess, ⟨hout, hrotated⟩ | ⟨new, -, -, -, hout⟩⟩ :=
        acceptedReply_eq_ok haccepted
      · cases hout
        exact ⟨_, _, reply, request, resp, hrequests.parsed, ⟨fields, rfl⟩, hrefresh, hclient,
          by simp [AuthState.sent, AuthState.record], hpost, hstatus, hparse, haccess,
          hrequests.parsed, ⟨fields, rfl⟩, by rw [hrotated]; exact hrefresh.2, fun _ _ => rfl⟩
      · cases hout
  | @rotated fields request resp rotated accessToken text hrequests hpost hreply hdump =>
      cases htoken
      obtain ⟨hrefresh, hclient⟩ := refreshRequest_eq_some hrequests.asks
      obtain ⟨hstatus, haccepted⟩ := refreshReply_accepted hreply (by simp) (by simp)
      obtain ⟨text', hdump', hextract⟩ := exists_dump hjson hrequests hreply
      obtain rfl : text' = text := Except.ok.inj (hdump'.symm.trans hdump)
      obtain ⟨reply, _, hparse, -, haccess, ⟨hout, -⟩ | ⟨new, hnew, -, hfield, hout⟩⟩ :=
        acceptedReply_eq_ok haccepted
      · cases hout
      · cases hout
        have hafter : rotatedToken reply request.refreshToken = new := by
          rw [rotatedToken, hfield]
          exact if_neg hnew
        exact ⟨_, _, reply, request, resp, hrequests.parsed, ⟨fields, rfl⟩, hrefresh, hclient,
          by simp [AuthState.sent, AuthState.record], hpost, hstatus, hparse, haccess,
          parseCache_some.mpr hextract, Json.isObject_set ⟨fields, rfl⟩ _ _,
          by rw [Json.field_set ⟨fields, rfl⟩, if_pos rfl, hafter],
          fun key hkey => by rw [Json.field_set ⟨fields, rfl⟩, if_neg hkey]⟩

theorem mem_log_sent {request : RefreshRequest} {url form : Bytes} :
    .asked url form ∈ (AuthState.sent ⟨cache, config, []⟩ request).log ↔
      url = tokenUrl request.tenant ∧ form = request.form := by
  simp [AuthState.sent, AuthState.record]

/-- A cache that is as it was is not removed. -/
theorem not_removed_self : ¬ (cache.isSome ∧ cache = none) := by
  rintro ⟨hsome, hnone⟩
  rw [hnone] at hsome
  cases hsome

/-- The request of a run is the only one. -/
theorem refreshRejected_sent {s : AuthState} {request : RefreshRequest} {resp : HttpResponse}
    {fields : List (Bytes × Json)} (hlog : ∀ url form, .asked url form ∈ s.log ↔
      url = tokenUrl request.tenant ∧ form = request.form)
    (hpost : env.post (tokenUrl request.tenant) request.form = .ok resp) :
    RefreshRejected env s ↔ refreshReply env.json (.object fields) request resp = .rejected := by
  rw [refreshReply_eq_rejected]
  constructor
  · rintro ⟨url, form, resp', reply, hasked, hpost', hstatus, hparse, hfield⟩
    obtain ⟨rfl, rfl⟩ := (hlog url form).mp hasked
    obtain rfl : resp = resp' := Except.ok.inj (hpost.symm.trans hpost')
    exact ⟨hstatus, reply, hparse, hfield⟩
  · rintro ⟨hstatus, reply, hparse, hfield⟩
    exact ⟨_, _, resp, reply, (hlog _ _).mpr ⟨rfl, rfl⟩, hpost, hstatus, hparse, hfield⟩

theorem Refreshed.removed_iff (h : Refreshed env ⟨cache, config, []⟩ outcome s') :
    cache.isSome ∧ s'.cache = none ↔ RefreshRejected env s' := by
  cases h with
  | unasked =>
      refine iff_of_false not_removed_self ?_
      rintro ⟨url, form, resp, reply, hasked, -⟩
      cases hasked
  | @unanswered fields request what hrequests hpost =>
      refine iff_of_false not_removed_self ?_
      rintro ⟨url, form, resp, reply, hasked, hpost', -⟩
      obtain ⟨rfl, rfl⟩ := mem_log_sent.mp hasked
      cases hpost.symm.trans hpost'
  | @threw fields request resp what hrequests hpost hreply =>
      rw [refreshRejected_sent (fun _ _ => mem_log_sent) hpost, hreply]
      exact iff_of_false not_removed_self nofun
  | @rejected fields request resp hrequests hpost hreply =>
      rw [refreshRejected_sent (by simp [AuthState.sent, AuthState.record]) hpost]
      exact iff_of_true ⟨hrequests.isSome, rfl⟩ hreply
  | @token fields request resp accessToken hrequests hpost hreply =>
      rw [refreshRejected_sent (fun _ _ => mem_log_sent) hpost, hreply]
      exact iff_of_false not_removed_self nofun
  | @rotated fields request resp cache' accessToken text hrequests hpost hreply hdump =>
      rw [refreshRejected_sent (by simp [AuthState.sent, AuthState.record]) hpost, hreply]
      refine iff_of_false ?_ (by simp)
      rintro ⟨-, hnone⟩
      cases hnone

theorem Refreshed.unchanged (h : Refreshed env ⟨cache, config, []⟩ outcome s')
    (hempty : ∀ token, outcome = .ok token → token = []) (hrejected : ¬ RefreshRejected env s') :
    s'.cache = cache := by
  cases h with
  | unasked => rfl
  | unanswered => rfl
  | threw => rfl
  | rejected hrequests hpost hreply =>
      refine absurd ?_ hrejected
      rw [refreshRejected_sent (by simp [AuthState.sent, AuthState.record]) hpost]
      exact hreply
  | token => rfl
  | rotated hrequests hpost hreply =>
      obtain ⟨-, haccepted⟩ := refreshReply_accepted hreply (by simp) (by simp)
      obtain ⟨reply, _, -, hne, -, ⟨hout, -⟩ | ⟨new, -, -, -, hout⟩⟩ := acceptedReply_eq_ok haccepted
      · cases hout
      · obtain ⟨-, rfl⟩ := RefreshReply.rotated.inj hout
        exact absurd (hempty _ rfl) hne

end Effects

theorem tryCachedRefresh_effects (env : AuthEnv) (cache config : Option Bytes)
    (hwrite : env.dir.writeError = none) (hremove : env.dir.removeError = none)
    (hjson : env.json.Updates) :
    let run := tryCachedRefreshAlone env ⟨cache, config, []⟩
    (∀ token, run.1 = .ok token → token ≠ [] → ∃ held after reply request resp,
      RefreshSucceeds env cache token run.2 held after reply request resp) ∧
    (cache.isSome ∧ run.2.cache = none ↔ RefreshRejected env run.2) ∧
    ((∀ token, run.1 = .ok token → token = []) → ¬ RefreshRejected env run.2 →
      run.2.cache = cache) := by
  have hends : Refreshed env ⟨cache, config, []⟩ (tryCachedRefreshAlone env ⟨cache, config, []⟩).1
      (tryCachedRefreshAlone env ⟨cache, config, []⟩).2 := by
    have h := refreshed_tryCachedRefreshAlone (s := ⟨cache, config, []⟩) hwrite hremove hjson
    unfold Ends at h
    split at h <;> simp_all
  refine ⟨fun token htoken hnonempty => hends.succeeds hjson htoken hnonempty, hends.removed_iff, ?_⟩
  exact hends.unchanged

/-- The library of the sample, with the rotated cache among the texts that it reads. -/
def updatingJson : JsonLibrary :=
  { sampleJson with
    extract := fun text =>
      if text = sampleRotatedText then
        .ok (sampleCache.set (ascii "refresh_token") (.string (ascii "new")))
      else sampleJson.extract text }

def updatingEnv : AuthEnv where
  json := updatingJson
  configDir := .ok (ascii "/home/u/.config/aas-sign")
  dir := ⟨none, none⟩
  configError := none
  post := fun _ _ => .ok ⟨200, sampleReplyText⟩

theorem updatingJson_updates : updatingJson.Updates := by
  intro contents fields body reply new hextract hparse hfield
  have hnew : new = ascii "new" := by
    simp only [updatingJson, sampleJson] at hparse
    split at hparse
    · cases hparse
      exact (Json.string.inj (Option.some.inj hfield)).symm
    · cases hparse
  have hset : (Json.object fields).set (ascii "refresh_token") (.string new) =
      sampleCache.set (ascii "refresh_token") (.string (ascii "new")) := by
    simp only [updatingJson, sampleJson] at hextract
    split at hextract
    · rw [← Except.ok.inj hextract, hnew]
      rfl
    · split at hextract
      · rw [← Except.ok.inj hextract, hnew]
      · cases hextract
  refine ⟨sampleRotatedText, ?_, ?_⟩
  · rw [hset]
    rfl
  · rw [hset]
    simp only [updatingJson, if_true]

theorem tryCachedRefresh_effects_sample :
    let run := tryCachedRefreshAlone updatingEnv ⟨some sampleCacheText, none, []⟩
    run.1 = .ok (ascii "a") ∧ run.2.cache = some sampleRotatedText ∧
    (∀ token, run.1 = .ok token → token ≠ [] → ∃ held after reply request resp,
      RefreshSucceeds updatingEnv (some sampleCacheText) token run.2 held after reply request resp) ∧
    ((some sampleCacheText).isSome ∧ run.2.cache = none ↔ RefreshRejected updatingEnv run.2) ∧
    ((∀ token, run.1 = .ok token → token = []) → ¬ RefreshRejected updatingEnv run.2 →
      run.2.cache = some sampleCacheText) :=
  ⟨by decide +kernel, by decide +kernel,
    tryCachedRefresh_effects updatingEnv (some sampleCacheText) none rfl rfl updatingJson_updates⟩

end AasSign
