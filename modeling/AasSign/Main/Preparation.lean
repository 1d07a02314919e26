import AasSign.Auth.Refresh
import AasSign.Main.Sign

/-! # What `sign` settles before it signs

From where the token comes, what is asked of the servers for it, and when a signing begins. No
request is made before a companion is found, a token that is given is asked of nobody, and one
source is asked at most.
-/

namespace AasSign

open Foundation Program

/-! ## The cached login -/

/-- A refresh of the cached login brings this token. -/
structure AuthEnv.Renews (env : AuthEnv) (cache : Option Bytes) (token : Bytes) : Prop where
  nonempty : token ≠ []
  directory : ∃ path, env.configDir = .ok path
  answered : ∃ fields request resp reply new, Requests env cache fields request ∧
    env.post (tokenUrl request.tenant) request.form = .ok resp ∧ resp.status = 200 ∧
    env.json.parse resp.body = .ok reply ∧
    reply.field (ascii "access_token") = some (.string token) ∧
    reply.value (ascii "refresh_token") = .ok new

/-- The configuration file is what it was. -/
def KeepsConfig (s s' : AuthState) : Prop := s'.config = s.config

instance : IsPreorder AuthState KeepsConfig where
  refl _ := rfl
  trans _ _ _ h h' := Eq.trans h' h

section Cached

variable {env : AuthEnv} {s : AuthState} {token : Bytes} {cache : Json} {request : RefreshRequest}
  {resp : HttpResponse}

theorem keepsConfig_writeCacheFile (j : Json) : Moves KeepsConfig (writeCacheFile env j) := by
  refine (moves_lift _).bind fun _ => (moves_lift _).bind fun text => ?_
  split
  · exact moves_raise _
  · exact fun _ => rfl

theorem keepsConfig_deleteCacheFile : Moves KeepsConfig (deleteCacheFile env) := by
  refine (moves_lift _).bind fun _ => ?_
  split
  · exact moves_raise _
  · exact fun _ => rfl

theorem keepsConfig_settle (reply : RefreshReply) : Moves KeepsConfig (settleRefreshAlone env reply) := by
  cases reply with
  | throws what => exact moves_raise what
  | rejected => exact keepsConfig_deleteCacheFile.bind fun _ => moves_raise _
  | token accessToken => exact moves_pure accessToken
  | rotated cache accessToken =>
      have hignored : Moves KeepsConfig (ignored (writeCacheFile env cache)) := fun s => by
        rw [ends_ignored]
        exact (keepsConfig_writeCacheFile cache).ends s
      exact hignored.bind fun _ => moves_pure accessToken

theorem keepsConfig_refresh : Moves KeepsConfig (tryCachedRefreshAlone env) := by
  refine Moves.bind ?_ fun j => ?_
  · exact (moves_lift _).bind fun _ => moves_current.bind fun _ => moves_lift _
  · split
    · refine (moves_lift _).bind fun request => ?_
      split
      · exact moves_pure _
      · refine Moves.bind ?_ fun resp => keepsConfig_settle _
        exact Moves.bind (fun _ => rfl) fun _ => moves_lift _
    · exact moves_pure _

/-- A reply settles with its token, whether it is kept or not. -/
theorem settle_token (out : RefreshReply) (s : AuthState) :
    (settleRefreshAlone env out s).1 = .ok token ↔
      out = .token token ∨ ∃ cache, out = .rotated cache token := by
  cases out with
  | throws what =>
      refine iff_of_false (fun h => ?_) (by simp)
      cases h
  | rejected =>
      refine iff_of_false (fun h => ?_) (by simp)
      obtain ⟨s', hrun⟩ := exists_run h
      have hraises : Ends (settleRefreshAlone env .rejected) s (fun _ _ => False) fun _ _ => True := by
        rw [settleRefreshAlone, ends_bind]
        exact ends_of_forall (fun _ _ => trivial) fun _ _ => trivial
      exact hraises.of_ok hrun
  | token accessToken =>
      exact ⟨fun h => .inl (congrArg RefreshReply.token (Except.ok.inj h)), by
        rintro (h | ⟨cache, h⟩) <;> cases h
        rfl⟩
  | rotated cache accessToken =>
      exact ⟨fun h => .inr ⟨cache, congrArg (RefreshReply.rotated cache) (Except.ok.inj h)⟩, by
        rintro (h | ⟨cache, h⟩) <;> cases h
        rfl⟩

/-- The bodies that are accepted, and the reply that is made of them. -/
theorem accepted_iff {body : Bytes} {out : RefreshReply} :
    acceptedReply env.json cache request body = .ok out ↔ ∃ reply token new,
      env.json.parse body = .ok reply ∧ reply.value (ascii "access_token") = .ok token ∧
      reply.value (ascii "refresh_token") = .ok new ∧ token ≠ [] ∧
      out = if new ≠ [] ∧ new ≠ request.refreshToken then
        .rotated (cache.set (ascii "refresh_token") (.string new)) token else .token token := by
  have hlast (token new : Bytes) : (if token = [] then
        throw (ascii "no access_token in refresh response")
      else if new ≠ [] ∧ new ≠ request.refreshToken then
        return .rotated (cache.set (ascii "refresh_token") (.string new)) token
      else return .token token : Except Bytes RefreshReply) = .ok out ↔
      token ≠ [] ∧ out = if new ≠ [] ∧ new ≠ request.refreshToken then
        .rotated (cache.set (ascii "refresh_token") (.string new)) token else .token token := by
    by_cases hempty : token = []
    · rw [if_pos hempty]
      exact iff_of_false (fun h => by cases h) fun h => h.1 hempty
    · rw [if_neg hempty]
      split <;> exact ⟨fun h => ⟨hempty, (Except.ok.inj h).symm⟩, fun h => congrArg Except.ok h.2.symm⟩
  rw [acceptedReply, bind_eq_ok]
  simp only [bind_eq_ok, hlast]
  constructor
  · rintro ⟨reply, hparse, token, htoken, new, hnew, hrest⟩
    exact ⟨reply, token, new, hparse, htoken, hnew, hrest⟩
  · rintro ⟨reply, token, new, hparse, htoken, hnew, hrest⟩
    exact ⟨reply, hparse, token, htoken, new, hnew, hrest⟩

/-- The responses of which a reply makes a token. -/
theorem reply_token (htoken : token ≠ []) :
    (refreshReply env.json cache request resp = .token token ∨
        ∃ rotated, refreshReply env.json cache request resp = .rotated rotated token) ↔
      resp.status = 200 ∧ ∃ reply new, env.json.parse resp.body = .ok reply ∧
        reply.field (ascii "access_token") = some (.string token) ∧
        reply.value (ascii "refresh_token") = .ok new := by
  constructor
  · intro h
    obtain ⟨out, hout, hof⟩ : ∃ out, refreshReply env.json cache request resp = out ∧
        (out = .token token ∨ ∃ rotated, out = .rotated rotated token) := ⟨_, rfl, h⟩
    obtain ⟨hstatus, haccepted⟩ := refreshReply_accepted hout
      (by rintro what rfl; simp at hof) (by rintro rfl; simp at hof)
    obtain ⟨reply, token', new, hparse, hvalue, hnew, -, heq⟩ := accepted_iff.mp haccepted
    have hsame : token' = token := by
      rcases hof with rfl | ⟨rotated, rfl⟩
      · split at heq
        · cases heq
        · exact (RefreshReply.token.inj heq).symm
      · split at heq
        · exact (RefreshReply.rotated.inj heq).2.symm
        · cases heq
    exact ⟨hstatus, reply, new, hparse, (Json.value_eq_ok htoken).mp (hsame ▸ hvalue), hnew⟩
  · rintro ⟨hstatus, reply, new, hparse, hfield, hnew⟩
    have haccepted : acceptedReply env.json cache request resp.body = .ok
        (if new ≠ [] ∧ new ≠ request.refreshToken then
          .rotated (cache.set (ascii "refresh_token") (.string new)) token else .token token) :=
      accepted_iff.mpr
        ⟨reply, token, new, hparse, (Json.value_eq_ok htoken).mpr hfield, hnew, htoken, rfl⟩
    rw [refreshReply, if_neg (not_not.mpr hstatus), haccepted]
    dsimp only
    split
    · exact .inr ⟨_, rfl⟩
    · exact .inl rfl

/-- A refresh brings a token exactly if the cache asks for one and the server grants it. -/
theorem refreshAlone_eq_ok (htoken : token ≠ []) :
    (tryCachedRefreshAlone env s).1 = .ok token ↔ env.Renews s.cache token := by
  constructor
  · intro hok
    obtain ⟨s', hrun⟩ := exists_run hok
    have hends : Ends (tryCachedRefreshAlone env) s
        (fun token' _ => token' = token → env.Renews s.cache token) fun _ _ => True := by
      rw [tryCachedRefreshAlone, ends_bind]
      refine ends_readCacheFile (fun path j hdir hparsed => ?_) fun _ => trivial
      cases j with
      | object fields =>
          refine ends_lift_bind (fun asked hasked => ?_) fun _ => trivial
          cases asked with
          | none => exact fun hnil => absurd hnil.symm htoken
          | some request =>
              rw [ends_bind]
              refine ends_ask (fun resp hpost => ?_) fun _ _ => trivial
              apply ends_run.mono
              · rintro token' s₂ hsettle rfl
                obtain ⟨hstatus, reply, new, hparse, hfield, hnew⟩ :=
                  (reply_token htoken).mp ((settle_token _ _).mp (congrArg Prod.fst hsettle))
                exact ⟨htoken, ⟨path, hdir⟩, fields, request, resp, reply, new, ⟨hparsed, hasked⟩,
                  hpost, hstatus, hparse, hfield, hnew⟩
              · exact fun _ _ _ => trivial
      | _ => exact fun hnil => absurd hnil.symm htoken
    exact hends.of_ok hrun rfl
  · rintro ⟨-, ⟨path, hdir⟩, fields, request, resp, reply, new, ⟨hparsed, hasks⟩, hpost, hstatus,
      hparse, hfield, hnew⟩
    have hread : readCacheFile env s = (.ok (.object fields), s) := by
      simp only [readCacheFile, hdir, hparsed, Bind.bind, lift, current]
    have hasked : ask env (tokenUrl request.tenant) request.form s = (.ok resp, s.sent request) := by
      simp only [ask, record, hpost, Bind.bind, lift, change]
      rfl
    rw [tryCachedRefreshAlone, run_bind hread]
    simp only [hasks]
    have hlift : (lift (.ok (some request)) : AuthProgram (Option RefreshRequest)) s =
      (.ok (some request), s) := rfl
    rw [run_bind hlift]
    dsimp only
    rw [run_bind hasked, settle_token]
    exact (reply_token htoken).mpr ⟨hstatus, reply, new, hparse, hfield, hnew⟩

end Cached

/-! ## The token -/

/-- A request to a server, or what is done with its answer. -/
def MainEvent.Outside : MainEvent → Prop
  | .web _ => True
  | .auth _ => True
  | _ => False

instance : DecidablePred MainEvent.Outside
  | .web _ => inferInstanceAs (Decidable True)
  | .auth _ => inferInstanceAs (Decidable True)
  | .told _ => inferInstanceAs (Decidable False)
  | .usageShort => inferInstanceAs (Decidable False)
  | .usageFull => inferInstanceAs (Decidable False)
  | .version => inferInstanceAs (Decidable False)
  | .resolved _ => inferInstanceAs (Decidable False)

namespace MainEnv

variable (env : MainEnv) (config : Config)

/-- The token that the arguments or the environment give. -/
def given : Bytes := orVariable env config.token "AZURE_ACCESS_TOKEN"

def clientId : Bytes := orVariable env config.oidcClientId "AZURE_CLIENT_ID"

def tenantId : Bytes := orVariable env config.oidcTenantId "AZURE_TENANT_ID"

/-- The federation is asked for a token. -/
def Federates : Prop := env.given config = [] ∧ env.clientId config ≠ [] ∧ env.tenantId config ≠ []

instance : Decidable (env.Federates config) := inferInstanceAs (Decidable (_ ∧ _))

/-- The token is this one: it is given, or else the federation exchanges it, or else the cached
login is refreshed to it. -/
inductive Grants (cache : Option Bytes) : Bytes → Prop where
  | given (h : env.given config ≠ []) : Grants cache (env.given config)
  | federated {jwt token : Bytes} (h : env.Federates config) (hoffered : (oidcRuntime env).Offered)
      (hmints : env.web.Mints (oidcRuntime env) jwt)
      (hexchanges : env.web.Exchanges (env.clientId config) (env.tenantId config) jwt token) :
      Grants cache token
  | refreshed {token : Bytes} (hgiven : env.given config = []) (h : ¬ env.Federates config)
      (hrenews : env.auth.Renews cache token) : Grants cache token

/-- What is asked of the servers for the token, and what is left in the cache. -/
inductive Traffic (s : MainState) : List MainEvent → Option Bytes → Prop where
  | given (h : env.given config ≠ []) : Traffic s [] s.cache
  | federated {events : List WebEvent} (h : env.Federates config)
      (hbegun : env.web.Begun (oidcRuntime env) (env.clientId config) (env.tenantId config) events) :
      Traffic s (events.map .web) s.cache
  | refreshed {outcome : Except Bytes Bytes} {a : AuthState} (hgiven : env.given config = [])
      (h : ¬ env.Federates config)
      (hrun : tryCachedRefreshAlone env.auth ⟨s.cache, s.config, []⟩ = (outcome, a)) :
      Traffic s (a.log.map .auth) a.cache

variable {env config} {cache : Option Bytes} {token token' : Bytes}

theorem Grants.ne_nil (h : env.Grants config cache token) : token ≠ [] := by
  cases h with
  | given h => exact h
  | federated h hoffered hmints hexchanges =>
      obtain ⟨az, -, hcarries⟩ := hexchanges
      exact hcarries.2.1
  | refreshed hgiven h hrenews => exact hrenews.nonempty

end MainEnv

/-- What a stage of the command leaves alone. -/
structure KeepsFiles (s s' : MainState) : Prop where
  world : s'.world = s.world
  config : s'.config = s.config

/-- How the token is settled. -/
structure TokenSettled (env : MainEnv) (config : Config) (s : MainState) (outcome : Except Leave Bytes)
    (s' : MainState) : Prop where
  files : KeepsFiles s s'
  traffic : ∃ after, s'.log = s.log ++ after ∧
    env.Traffic config s (after.filter MainEvent.Outside) s'.cache
  grants : ∀ token, env.Grants config s.cache token ↔ outcome = .ok token ∧ token ≠ []

section Token

variable {env : MainEnv} {config : Config} {s : MainState} {α : Type}

@[simp] theorem ends_tell {event : MainEvent} {Q : Unit → MainState → Prop}
    {E : Leave → MainState → Prop} : Ends (tell event) s Q E ↔ Q () (s.tell event) := Iff.rfl

@[simp] theorem ends_refuse {text : Bytes} {Q : α → MainState → Prop} {E : Leave → MainState → Prop} :
    Ends (refuse text : MainProgram α) s Q E ↔ E (.exit 1) (s.tell (.told text)) := Iff.rfl

@[simp] theorem ends_attempted {m : Program MainState Bytes α} {Q : α → MainState → Prop}
    {E : Leave → MainState → Prop} : Ends (attempted m) s Q E ↔ Ends m s Q fun what s' =>
      E (.exit 1) (s'.tell (.told (ascii "error: " ++ what ++ ascii "\n"))) := by
  simp only [Ends, attempted]
  rcases m s with ⟨outcome, s'⟩
  cases outcome <;> exact Iff.rfl

theorem filter_web (events : List WebEvent) :
    (events.map MainEvent.web).filter MainEvent.Outside = events.map .web := by
  refine List.filter_eq_self.mpr fun event hevent => ?_
  obtain ⟨web, -, rfl⟩ := List.mem_map.mp hevent
  rfl

theorem filter_auth (events : List AuthEvent) :
    (events.map MainEvent.auth).filter MainEvent.Outside = events.map .auth := by
  refine List.filter_eq_self.mpr fun event hevent => ?_
  obtain ⟨auth, -, rfl⟩ := List.mem_map.mp hevent
  rfl

theorem filter_told (text : Bytes) : [MainEvent.told text].filter MainEvent.Outside = [] := rfl

/-- A token that is given is asked of nobody. -/
theorem tokenSettled_given (h : env.given config ≠ []) :
    TokenSettled env config s (.ok (env.given config)) s := by
  refine ⟨⟨rfl, rfl⟩, ⟨[], (List.append_nil _).symm, .given h⟩, fun token => ?_⟩
  constructor
  · intro hgrants
    cases hgrants with
    | given h => exact ⟨rfl, h⟩
    | federated hfederates => exact absurd hfederates.1 h
    | refreshed hgiven => exact absurd hgiven h
  · rintro ⟨htoken, -⟩
    cases htoken
    exact .given h

/-- The federation is the only source that is asked. -/
theorem ends_federate (h : env.Federates config) :
    Ends (federate env [] (env.clientId config) (env.tenantId config)) s
      (fun token s' => token ≠ [] ∧ TokenSettled env config s (.ok token) s')
      fun stop s' => TokenSettled env config s (.error stop) s' := by
  have hgrants : ∀ token, env.Grants config s.cache token → (oidcRuntime env).Offered ∧ ∃ jwt,
      env.web.Mints (oidcRuntime env) jwt ∧
        env.web.Exchanges (env.clientId config) (env.tenantId config) jwt token := by
    intro token hgrants
    cases hgrants with
    | given hgiven => exact absurd h.1 hgiven
    | federated _ hoffered hmints hexchanges => exact ⟨hoffered, _, hmints, hexchanges⟩
    | refreshed _ hother => exact absurd h hother
  rw [federate, if_pos ⟨rfl, h.2⟩, ends_bind, ends_tell, ends_attempted, onWeb, ends_within]
  apply (oidc_ends env.web (oidcRuntime env) (env.clientId config) (env.tenantId config) []).mono
  · rintro token log ⟨hoffered, jwt, hmints, hexchanges, rfl⟩
    have hgranted : env.Grants config s.cache token := .federated h hoffered hmints hexchanges
    refine ⟨hgranted.ne_nil, ⟨rfl, rfl⟩, ?_, fun other => ?_⟩
    · refine ⟨_, List.append_assoc _ _ _, ?_⟩
      rw [List.nil_append, List.filter_append, filter_told, filter_web]
      exact .federated h (.inr (.inr ⟨jwt, hmints, rfl⟩))
    · constructor
      · intro hother
        obtain ⟨-, jwt', hmints', hexchanges'⟩ := hgrants other hother
        obtain rfl := hmints.unique hmints'
        exact ⟨congrArg Except.ok (hexchanges.unique hexchanges'), hother.ne_nil⟩
      · rintro ⟨hother, -⟩
        cases hother
        exact hgranted
  · rintro what log ⟨hnone, events, rfl, hbegun⟩
    refine ⟨⟨rfl, rfl⟩, ?_, fun other => ?_⟩
    · refine ⟨_, (List.append_assoc _ _ _).trans (List.append_assoc _ _ _), ?_⟩
      rw [List.filter_append, List.filter_append, filter_told, filter_web, filter_told, List.nil_append,
        List.append_nil]
      exact .federated h hbegun
    · refine iff_of_false (fun hother => ?_) fun hother => by cases hother.1
      obtain ⟨hoffered, jwt, hmints, hexchanges⟩ := hgrants other hother
      exact hnone jwt other hoffered hmints hexchanges

/-- The cached login is asked last. -/
theorem ends_refreshed (hgiven : env.given config = []) (h : ¬ env.Federates config) :
    Ends (refreshed env []) s (fun token s' => TokenSettled env config s (.ok token) s')
      fun stop s' => TokenSettled env config s (.error stop) s' := by
  have hgrants : ∀ token, env.Grants config s.cache token → env.auth.Renews s.cache token := by
    intro token hgrants
    cases hgrants with
    | given hne => exact absurd hgiven hne
    | federated hfederates => exact absurd hfederates h
    | refreshed _ _ hrenews => exact hrenews
  rw [refreshed, if_pos rfl, ends_bind, ends_attempted, onAuth, ends_within]
  have hkeeps : Moves KeepsConfig (tryCachedRefreshAlone env.auth) := keepsConfig_refresh
  apply (ends_run.and (hkeeps.ends ⟨s.cache, s.config, []⟩)).mono
  · rintro token a ⟨hrun, hconfig⟩
    have htraffic : env.Traffic config s (a.log.map .auth) a.cache := .refreshed hgiven h hrun
    have hiff : ∀ other, env.Grants config s.cache other ↔
        (Except.ok token : Except Leave Bytes) = .ok other ∧ other ≠ [] := by
      intro other
      constructor
      · intro hother
        have hok := (refreshAlone_eq_ok (s := ⟨s.cache, s.config, []⟩) hother.ne_nil).mpr
          (hgrants other hother)
        rw [hrun] at hok
        exact ⟨congrArg Except.ok (Except.ok.inj hok), hother.ne_nil⟩
      · rintro ⟨heq, hne⟩
        cases heq
        exact .refreshed hgiven h ((refreshAlone_eq_ok hne).mp (congrArg Prod.fst hrun))
    split
    · refine ⟨⟨rfl, hconfig⟩, ⟨_, rfl, ?_⟩, hiff⟩
      rwa [filter_auth]
    · rw [ends_bind, ends_tell, ends_pure]
      refine ⟨⟨rfl, hconfig⟩, ⟨_, List.append_assoc _ _ _, ?_⟩, hiff⟩
      rwa [List.filter_append, filter_auth, filter_told, List.append_nil]
  · rintro what a ⟨hrun, hconfig⟩
    refine ⟨⟨rfl, hconfig⟩, ⟨_, List.append_assoc _ _ _, ?_⟩, fun other => ?_⟩
    · rw [List.filter_append, filter_auth, filter_told, List.append_nil]
      exact .refreshed hgiven h hrun
    · refine iff_of_false (fun hother => ?_) fun hother => by cases hother.1
      have hok := (refreshAlone_eq_ok (s := ⟨s.cache, s.config, []⟩) hother.ne_nil).mpr
          (hgrants other hother)
      rw [hrun] at hok
      cases hok

theorem settleToken_settled (env : MainEnv) (config : Config) (s : MainState) :
    Ends (settleToken env config) s (fun token s' => TokenSettled env config s (.ok token) s')
      fun stop s' => TokenSettled env config s (.error stop) s' := by
  change Ends (federate env (env.given config) (env.clientId config) (env.tenantId config) >>=
    refreshed env) s _ _
  rw [ends_bind]
  have hpure {token : Bytes} {Q : Bytes → MainState → Prop} {E : Leave → MainState → Prop}
      {s' : MainState} (hne : token ≠ []) (hQ : Q token s') : Ends (refreshed env token) s' Q E := by
    rw [refreshed, if_neg hne]
    exact hQ
  by_cases hgiven : env.given config = []
  · by_cases hids : env.clientId config ≠ [] ∧ env.tenantId config ≠ []
    · rw [hgiven]
      apply (ends_federate ⟨hgiven, hids⟩).mono
      · exact fun token s' h => hpure h.1 h.2
      · exact fun _ _ => id
    · rw [hgiven, federate, if_neg fun h => hids h.2]
      exact ends_refreshed hgiven fun h => hids h.2
  · rw [federate, if_neg fun h => hgiven h.1]
    exact hpure hgiven (tokenSettled_given hgiven)

end Token

/-! ## The whole preparation -/

/-- Nothing but texts has been added to the log. -/
structure OnlyTells (s s' : MainState) : Prop extends KeepsFiles s s' where
  cache : s'.cache = s.cache
  log : ∃ texts, s'.log = s.log ++ texts ∧ ∀ event ∈ texts, ¬ event.Outside

instance : IsPreorder MainState OnlyTells where
  refl _ := ⟨⟨rfl, rfl⟩, rfl, [], (List.append_nil _).symm, by simp⟩
  trans := by
    rintro s s' s'' ⟨hfiles, hcache, texts, hlog, hquiet⟩ ⟨hfiles', hcache', texts', hlog', hquiet'⟩
    refine ⟨⟨hfiles'.world.trans hfiles.world, hfiles'.config.trans hfiles.config⟩,
      hcache'.trans hcache, texts ++ texts', ?_, ?_⟩
    · rw [hlog', hlog, List.append_assoc]
    · exact List.forall_mem_append.mpr ⟨hquiet, hquiet'⟩

namespace MainEnv

variable (env : MainEnv) (start : SignArguments) (args : List Bytes) (s : MainState)

/-- The signer, with what `config.json` adds. -/
def filled (contents : Option Bytes) (signer : SignerTuple) : SignerTuple :=
  (fillSigner env.auth contents signer).2

/-- What a signing begins with. -/
def Begins (session : SignSession) : Prop :=
  ∃ o signer companion, parseSignArgs start args = .ok o ∧ o.signer = .ok signer ∧
    resolveOsslsigncode env.companion o.config.osslsigncode = .ok companion ∧
    env.Grants o.config s.cache session.config.token ∧
    session.config = o.config.settled (env.filled s.config signer) companion session.config.token
      (env.clientId o.config) (env.tenantId o.config) ∧
    session.files = o.files ∧ session.maxParallel = o.maxParallel

/-- No request is made before the companion is found; then the token is asked for. -/
def Disciplined (s' : MainState) : Prop :=
  OnlyTells s s' ∨ KeepsFiles s s' ∧ ∃ o companion before after, parseSignArgs start args = .ok o ∧
    resolveOsslsigncode env.companion o.config.osslsigncode = .ok companion ∧
    s'.log = s.log ++ before ++ .resolved companion :: after ∧
    (∀ event ∈ before, ¬ event.Outside) ∧
    env.Traffic o.config s (after.filter MainEvent.Outside) s'.cache

end MainEnv

/-- How the preparation ends. -/
structure Prepared (env : MainEnv) (start : SignArguments) (args : List Bytes) (s : MainState)
    (outcome : Except Leave SignSession) (s' : MainState) : Prop where
  disciplined : env.Disciplined start args s s'
  begins : ∀ session, env.Begins start args s session ↔ outcome = .ok session

section Preparation

variable {env : MainEnv} {argv0 : Bytes} {start o : SignArguments} {args files : List Bytes}
  {config : Config} {maxParallel : Workers} {s s' : MainState} {signer : SignerTuple} {stop : Leave}

theorem onlyTells_tell {event : MainEvent} (h : ¬ event.Outside) : Moves OnlyTells (tell event) :=
  fun _ => ⟨⟨rfl, rfl⟩, rfl, [event], rfl, by simpa using h⟩

theorem onlyTells_refuse {α : Type} (text : Bytes) : Moves OnlyTells (refuse text : MainProgram α) :=
  (onlyTells_tell (by exact id)).bind fun _ => moves_raise _

theorem onlyTells_parseArguments : Moves OnlyTells (parseArguments start args) := by
  unfold parseArguments
  split
  · exact moves_pure _
  · exact (onlyTells_tell (by exact id)).bind fun _ => moves_raise _
  · exact (onlyTells_tell (by exact id)).bind fun _ => moves_raise _
  · exact (onlyTells_tell (by exact id)).bind fun _ => (onlyTells_tell (by exact id)).bind fun _ =>
      moves_raise _
  · exact moves_raise _

theorem ends_settleSigner : Ends (settleSigner env signer) s
    (fun filled s' => OnlyTells s s' ∧ filled = env.filled s.config signer) fun _ _ => False := by
  rw [settleSigner, ends_bind, ends_current, MainEnv.filled]
  rcases fillSigner env.auth s.config signer with ⟨outcome, filled⟩
  cases outcome with
  | ok _ => exact ⟨refl_of OnlyTells s, rfl⟩
  | error what =>
      rw [ends_bind]
      exact ⟨onlyTells_tell (by exact id) s, rfl⟩

theorem onlyTells_checkSession : Moves OnlyTells (checkSession argv0 config files maxParallel) := by
  unfold checkSession
  split
  · split
    · exact onlyTells_refuse _
    · exact moves_pure _
  · exact (moves_foldItems (fun _ _ => onlyTells_tell (by exact id)) _ _).bind fun _ =>
      (onlyTells_tell (by exact id)).bind fun _ => moves_raise _

/-- The checks pass exactly if a session can be made. -/
theorem ends_checkSession : Ends (checkSession argv0 config files maxParallel) s
    (fun session _ => ∀ other : SignSession, (other.config = config ∧ other.files = files ∧
      other.maxParallel = maxParallel) ↔ session = other)
    fun _ _ => ∀ other : SignSession, ¬ (other.config = config ∧ other.files = files) := by
  unfold checkSession
  split
  next h =>
    split
    next hdump =>
      rintro other ⟨rfl, rfl⟩
      exact hdump.1.ne' (other.dumpCms hdump.2)
    next =>
      intro other
      constructor
      · rintro ⟨rfl, rfl, rfl⟩
        rfl
      · rintro rfl
        exact ⟨rfl, rfl, rfl⟩
  next h =>
    have hnone : ∀ other : SignSession, ¬ (other.config = config ∧ other.files = files) := by
      rintro other ⟨rfl, rfl⟩
      exact h ⟨other.endpoint, other.account, other.profile, other.token, other.file⟩
    rw [ends_bind]
    apply ends_of_forall
    · intro _ _
      rw [ends_bind, ends_tell, ends_raise]
      exact hnone
    · exact fun _ _ => hnone

theorem MainEnv.Traffic.congr {s s' : MainState} {events : List MainEvent} {cache : Option Bytes}
    (h : env.Traffic config s events cache) (hcache : s.cache = s'.cache)
    (hconfig : s.config = s'.config) : env.Traffic config s' events cache := by
  cases h with
  | given h => exact hcache ▸ .given h
  | federated h hbegun => exact hcache ▸ .federated h hbegun
  | refreshed hgiven h hrun =>
      rw [hcache, hconfig] at hrun
      exact .refreshed hgiven h hrun

/-- Nothing has begun when one of the stages before the token has failed. -/
theorem prepared_of_onlyTells (h : OnlyTells s s')
    (hnone : ∀ session, ¬ env.Begins start args s session) :
    Prepared env start args s (.error stop) s' :=
  ⟨.inl h, fun session => iff_of_false (hnone session) fun h => by cases h⟩

/-- The token is the last thing to be settled. -/
theorem ends_afterCompanion {companion : Bytes} {s₁ : MainState} (h₁ : OnlyTells s s₁)
    (hparse : parseSignArgs start args = .ok o) (hsigner : o.signer = .ok signer)
    (hcompanion : resolveOsslsigncode env.companion o.config.osslsigncode = .ok companion) :
    Ends (do
      tell (.resolved companion)
      let token ← settleToken env o.config
      checkSession argv0
        (o.config.settled (env.filled s.config signer) companion token (env.clientId o.config)
          (env.tenantId o.config)) o.files o.maxParallel) s₁
      (fun session s' => Prepared env start args s (.ok session) s')
      fun stop s' => Prepared env start args s (.error stop) s' := by
  have hbegun {other : SignSession} (h : env.Begins start args s other) :
      env.Grants o.config s.cache other.config.token ∧
        other.config = o.config.settled (env.filled s.config signer) companion other.config.token
          (env.clientId o.config) (env.tenantId o.config) ∧
        other.files = o.files ∧ other.maxParallel = o.maxParallel := by
    obtain ⟨o', signer', companion', hparse', hsigner', hcompanion', hrest⟩ := h
    obtain rfl : o = o' := Except.ok.inj (hparse.symm.trans hparse')
    obtain rfl : signer = signer' := Except.ok.inj (hsigner.symm.trans hsigner')
    obtain rfl : companion = companion' := Except.ok.inj (hcompanion.symm.trans hcompanion')
    exact hrest
  rw [ends_bind, ends_tell, ends_bind]
  -- What the token has cost is in the log behind the companion.
  have hdisciplined {outcome : Except Leave Bytes} {s₂ s₃ : MainState}
      (h₂ : TokenSettled env o.config (s₁.tell (.resolved companion)) outcome s₂)
      (h₃ : OnlyTells s₂ s₃) : env.Disciplined start args s s₃ := by
    obtain ⟨before, hlog₁, hbefore⟩ := h₁.log
    obtain ⟨after, hlog₂, htraffic⟩ := h₂.traffic
    obtain ⟨texts, hlog₃, htexts⟩ := h₃.log
    refine .inr ⟨⟨?_, ?_⟩, o, companion, before, after ++ texts, hparse, hcompanion, ?_, hbefore, ?_⟩
    · exact (h₃.world.trans h₂.files.world).trans h₁.world
    · exact (h₃.config.trans h₂.files.config).trans h₁.config
    · rw [hlog₃, hlog₂, MainState.tell, hlog₁]
      simp
    · have hnone : texts.filter MainEvent.Outside = [] :=
        List.filter_eq_nil_iff.mpr fun event hevent => by simpa using htexts event hevent
      rw [List.filter_append, hnone, List.append_nil, h₃.cache]
      exact htraffic.congr h₁.cache h₁.config
  have hgrants {outcome : Except Leave Bytes} {s₂ : MainState}
      (h₂ : TokenSettled env o.config (s₁.tell (.resolved companion)) outcome s₂) (token : Bytes) :
      env.Grants o.config s.cache token ↔ outcome = .ok token ∧ token ≠ [] := by
    rw [← h₂.grants token, MainState.tell, h₁.cache]
  apply (settleToken_settled env o.config (s₁.tell (.resolved companion))).mono
  · intro token s₂ h₂
    apply (ends_checkSession.and (onlyTells_checkSession.ends s₂)).mono
    · rintro session s₃ ⟨hsession, h₃⟩
      refine ⟨hdisciplined h₂ h₃, fun other => ⟨fun hother => ?_, fun hother => ?_⟩⟩
      · obtain ⟨hgranted, hconfig, hfiles, hworkers⟩ := hbegun hother
        obtain rfl : token = other.config.token := Except.ok.inj ((hgrants h₂ _).mp hgranted).1
        exact congrArg Except.ok ((hsession other).mp ⟨hconfig, hfiles, hworkers⟩)
      · obtain rfl := Except.ok.inj hother
        obtain ⟨hconfig, hfiles, hworkers⟩ := (hsession session).mpr rfl
        have htoken : session.config.token = token := congrArg Config.token hconfig
        refine ⟨o, signer, companion, hparse, hsigner, hcompanion, ?_, ?_, hfiles, hworkers⟩
        · exact (hgrants h₂ _).mpr ⟨congrArg Except.ok htoken.symm, session.token⟩
        · rw [htoken]
          exact hconfig
    · rintro stop s₃ ⟨hnone, h₃⟩
      refine ⟨hdisciplined h₂ h₃, fun other => iff_of_false (fun hother => ?_) fun h => by cases h⟩
      obtain ⟨hgranted, hconfig, hfiles, -⟩ := hbegun hother
      obtain rfl : token = other.config.token := Except.ok.inj ((hgrants h₂ _).mp hgranted).1
      exact hnone other ⟨hconfig, hfiles⟩
  · intro stop s₂ h₂
    refine ⟨hdisciplined h₂ (refl_of OnlyTells s₂), fun other =>
      iff_of_false (fun hother => ?_) fun h => by cases h⟩
    cases ((hgrants h₂ _).mp (hbegun hother).1).1

theorem ends_parseArguments : Ends (parseArguments start args) s
    (fun o s' => s = s' ∧ parseSignArgs start args = .ok o)
    fun _ _ => ∀ o, parseSignArgs start args ≠ .ok o := by
  unfold parseArguments
  cases parseSignArgs start args with
  | ok o => exact ⟨rfl, rfl⟩
  | error why => cases why <;> exact fun o h => by cases h

theorem prepareSign_prepared (env : MainEnv) (argv0 : Bytes) (start : SignArguments)
    (args : List Bytes) (s : MainState) : Ends (prepareSign env argv0 start args) s
      (fun session s' => Prepared env start args s (.ok session) s')
      fun stop s' => Prepared env start args s (.error stop) s' := by
  rw [prepareSign, ends_bind]
  apply (ends_parseArguments.and (onlyTells_parseArguments.ends s)).mono
  swap
  · rintro stop s' ⟨hstopped, h⟩
    exact prepared_of_onlyTells h fun session ⟨o, _, _, hparse, _⟩ => hstopped o hparse
  rintro o _ ⟨⟨rfl, hparse⟩, -⟩
  have hnone {P : Prop} (h : ∀ o' signer companion, parseSignArgs start args = .ok o' →
      o'.signer = .ok signer →
      resolveOsslsigncode env.companion o'.config.osslsigncode = .ok companion → P)
      (session : SignSession) (hbegins : env.Begins start args s session) : P := by
    obtain ⟨o', signer, companion, hparse', hsigner, hcompanion, -⟩ := hbegins
    exact h o' signer companion hparse' hsigner hcompanion
  cases hsigner : o.signer with
  | error text =>
      refine prepared_of_onlyTells (onlyTells_refuse (α := SignSession) text s) ?_
      refine hnone fun o' signer companion hparse' hsigner' _ => ?_
      obtain rfl : o = o' := Except.ok.inj (hparse.symm.trans hparse')
      cases hsigner.symm.trans hsigner'
  | ok signer =>
      rw [ends_bind, ends_pure, ends_bind]
      apply ends_settleSigner.mono
      swap
      · exact fun _ _ => False.elim
      rintro _ s₁ ⟨h₁, rfl⟩
      cases hcompanion : resolveOsslsigncode env.companion o.config.osslsigncode with
      | error what =>
          refine prepared_of_onlyTells
            (trans_of OnlyTells h₁ (onlyTells_refuse (α := SignSession) _ s₁)) ?_
          refine hnone fun o' signer' companion hparse' _ hcompanion' => ?_
          obtain rfl : o = o' := Except.ok.inj (hparse.symm.trans hparse')
          cases hcompanion.symm.trans hcompanion'
      | ok companion => exact ends_afterCompanion h₁ hparse hsigner hcompanion

/-- No request is made before the arguments are read and a companion is found. Of the sources of a
token at most one is asked: none if the token is given, else the federation if both of its
identifiers are known, else the cached login. Nothing but the token cache is changed, and that by
the refresh only. -/
theorem prepareSign_disciplined (env : MainEnv) (argv0 : Bytes) (start : SignArguments)
    (args : List Bytes) (s : MainState) :
    env.Disciplined start args s (prepareSign env argv0 start args s).2 :=
  (ends_outcome.mp (prepareSign_prepared env argv0 start args s)).disciplined

/-- The signing begins exactly when the arguments can be read and name a signer, a companion is
found, a token is granted, and with these, what `config.json` adds and the files nothing is
missing. -/
theorem prepareSign_begins (env : MainEnv) (argv0 : Bytes) (start : SignArguments)
    (args : List Bytes) (s : MainState) (session : SignSession) :
    (prepareSign env argv0 start args s).1 = .ok session ↔ env.Begins start args s session :=
  ((ends_outcome.mp (prepareSign_prepared env argv0 start args s)).begins session).symm

end Preparation

end AasSign
