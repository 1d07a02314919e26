import AasSign.Auth.Login

/-! # What a login changes

Up to the exchange a login changes neither file; the exchange is for a redirect
that answers to its state. The token cache is written of a response that grants a
refresh token, and the configuration file after it.
-/

namespace AasSign

open Foundation Program

/-! ## Before the exchange -/

/-- The event is not a request and not a change of a file. -/
def AuthEvent.Quiet : AuthEvent → Prop
  | .launched _ => True
  | .responded _ => True
  | .told _ => True
  | .toldUsage _ => True
  | _ => False

/-- Both files are what they were, and only quiet events are new. -/
structure LeavesFiles (s s' : AuthState) : Prop where
  cache : s'.cache = s.cache
  config : s'.config = s.config
  log : ∃ events, s'.log = s.log ++ events ∧ ∀ event ∈ events, event.Quiet

instance : IsPreorder AuthState LeavesFiles where
  refl s := ⟨rfl, rfl, [], by simp, by simp⟩
  trans := by
    rintro s s' s'' ⟨hcache, hconfig, events, hlog, hquiet⟩ ⟨hcache', hconfig', events', hlog', hquiet'⟩
    refine ⟨hcache'.trans hcache, hconfig'.trans hconfig, events ++ events', ?_, ?_⟩
    · rw [hlog', hlog, List.append_assoc]
    · intro event hevent
      rcases List.mem_append.mp hevent with hevent | hevent
      · exact hquiet event hevent
      · exact hquiet' event hevent

/-- The redirect carries this code and the state of the login, and no error. -/
structure Authorized (env : LoginEnv) (target stateBytes code : Bytes) : Prop where
  accepted : env.acceptRequest = .ok target
  generated : env.stateBytes = .ok stateBytes
  error : (parseQuery target).lookup (ascii "error") = none
  code : (parseQuery target).lookup (ascii "code") = some code
  state : (parseQuery target).lookup (ascii "state") = some (hexEncode stateBytes)

section Authorize

variable {env : LoginEnv} {options : LoginOptions}

theorem leavesFiles_record {event : AuthEvent} (h : event.Quiet) : Moves LeavesFiles (record event) :=
  fun s => ⟨rfl, rfl, [event], rfl, by simpa using h⟩

theorem redirectCode_eq_ok {q : List (Bytes × Bytes)} {state code : Bytes}
    (h : redirectCode q state = .ok code) : q.lookup (ascii "error") = none ∧
      q.lookup (ascii "code") = some code ∧ q.lookup (ascii "state") = some state := by
  unfold redirectCode at h
  split at h
  · cases h
  next herror =>
    split at h
    next code' received hcode hstate =>
      split at h
      · cases h
      next hreceived =>
        cases h
        exact ⟨herror, hcode, hstate.trans (congrArg some (not_not.mp hreceived))⟩
    · cases h

theorem leavesFiles_answer (html : Bytes) : Moves LeavesFiles (answer env html) :=
  (leavesFiles_record (by trivial)).bind fun _ => moves_lift _

theorem leavesFiles_openBrowser (url : Bytes) : Moves LeavesFiles (openBrowser env url) := by
  unfold openBrowser
  split
  · exact leavesFiles_record trivial
  · exact leavesFiles_record trivial

/-- A session comes of a redirect that answers to the state, and nothing is changed for it. -/
theorem authorize_yields : Yields LeavesFiles (fun session => ∀ authorized, session = some authorized →
    authorized.clientId = options.clientId ∧
      ∃ target stateBytes, Authorized env target stateBytes authorized.code)
    (authorize env options) := by
  unfold authorize
  refine yields_lift_bind fun verifierBytes _ => ?_
  refine yields_lift_bind fun stateBytes hstate => ?_
  refine yields_lift_bind fun port _ => ?_
  refine (leavesFiles_record (by trivial)).yields.bind fun _ _ => ?_
  refine (leavesFiles_openBrowser _).yields.bind fun _ _ => ?_
  refine yields_lift_bind fun target htarget => ?_
  split
  next refusal _ =>
    refine (leavesFiles_answer _).yields.bind fun _ _ => ?_
    refine (leavesFiles_record (by trivial)).yields.bind fun _ _ => yields_pure ?_
    intro authorized h
    cases h
  next code hcode =>
    obtain ⟨herror, hcode, hreceived⟩ := redirectCode_eq_ok hcode
    refine (leavesFiles_answer _).yields.bind fun _ _ => yields_pure ?_
    intro authorized h
    cases h
    exact ⟨rfl, target, stateBytes, htarget, hstate, herror, hcode, hreceived⟩

end Authorize

/-! ## From the exchange on -/

section Values

variable {json : JsonLibrary} {session : LoginSession} {resp : HttpResponse}

/-- The token cache is made of a 200 response with a refresh token, which it holds together with
the client. -/
theorem loginCache_eq_ok {cache : Json} (h : loginCache json session resp = .ok cache) :
    resp.status = 200 ∧ ∃ reply refreshToken, json.parse resp.body = .ok reply ∧
      refreshToken ≠ [] ∧ reply.field (ascii "refresh_token") = some (.string refreshToken) ∧
      cache.field (ascii "refresh_token") = some (.string refreshToken) ∧
      cache.field (ascii "client_id") = some (.string session.clientId) := by
  unfold loginCache at h
  by_cases hstatus : resp.status ≠ 200
  · rw [if_pos hstatus] at h
    cases h
  · rw [if_neg hstatus] at h
    obtain ⟨reply, hparse, h⟩ := bind_eq_ok.mp h
    obtain ⟨refreshToken, hrefresh, h⟩ := bind_eq_ok.mp h
    obtain ⟨idToken, -, h⟩ := bind_eq_ok.mp h
    by_cases hempty : refreshToken = []
    · rw [if_pos hempty] at h
      cases h
    · rw [if_neg hempty] at h
      obtain ⟨who, -, h⟩ := bind_eq_ok.mp h
      cases h
      refine ⟨not_not.mp hstatus, reply, refreshToken, hparse, hempty,
        (Json.value_eq_ok hempty).mp hrefresh, ?_, ?_⟩
      · rfl
      · rfl

theorem isObject_setUnlessEmpty {j : Json} (hobject : j.IsObject) (key value : Bytes) :
    (j.setUnlessEmpty key value).IsObject := by
  unfold Json.setUnlessEmpty
  split
  · exact hobject
  · exact Json.isObject_set hobject _ _

theorem field_setUnlessEmpty {j : Json} (hobject : j.IsObject) (key k value : Bytes) :
    (j.setUnlessEmpty key value).field k =
      if k = key ∧ value ≠ [] then some (.string value) else j.field k := by
  unfold Json.setUnlessEmpty
  by_cases hempty : value = []
  · simp [hempty]
  · simp [hempty, Json.field_set hobject]

theorem readConfig_isObject (contents : Option Bytes) : (readConfig json contents).IsObject := by
  unfold readConfig
  split
  · exact ⟨_, rfl⟩
  · split
    · exact ⟨_, rfl⟩
    · exact ⟨_, rfl⟩

/-- What the defaults are merged into: the object in the file, or an empty one if there is no file,
or no object at its front. -/
inductive ConfigHeld (json : JsonLibrary) : Option Bytes → Json → Prop where
  | object {bytes : Bytes} {fields : List (Bytes × Json)}
      (h : json.extract bytes = .ok (.object fields)) : ConfigHeld json (some bytes) (.object fields)
  | other {bytes : Bytes} (h : ∀ fields, json.extract bytes ≠ .ok (.object fields)) :
      ConfigHeld json (some bytes) (.object [])
  | absent : ConfigHeld json none (.object [])

theorem configHeld_iff {contents : Option Bytes} {before : Json} :
    ConfigHeld json contents before ↔ readConfig json contents = before := by
  constructor
  · rintro (h | h | _)
    · simp only [readConfig, h]
    · simp only [readConfig]
    · rfl
  · rintro rfl
    cases contents with
    | none => exact .absent
    | some bytes =>
        simp only [readConfig]
        split
        next fields hobject => exact .object hobject
        next hother => exact .other hother

end Values

/-- Exactly the values that are not empty are merged in. -/
structure Merged (cfg : Json) (defaults : SignerTuple) (written : Json) : Prop where
  object : written.IsObject
  endpoint : defaults.endpoint ≠ [] →
    written.field (ascii "endpoint") = some (.string defaults.endpoint)
  account : defaults.account ≠ [] →
    written.field (ascii "account") = some (.string defaults.account)
  profile : defaults.profile ≠ [] →
    written.field (ascii "profile") = some (.string defaults.profile)
  others : ∀ key, (key = ascii "endpoint" → defaults.endpoint = []) →
    (key = ascii "account" → defaults.account = []) →
    (key = ascii "profile" → defaults.profile = []) → written.field key = cfg.field key

theorem merged_mergeDefaults {cfg : Json} (hobject : cfg.IsObject) (defaults : SignerTuple) :
    Merged cfg defaults (mergeDefaults cfg defaults) := by
  have hendpoint := isObject_setUnlessEmpty hobject (ascii "endpoint") defaults.endpoint
  have haccount := isObject_setUnlessEmpty hendpoint (ascii "account") defaults.account
  have hfield : ∀ key, (mergeDefaults cfg defaults).field key =
      if key = ascii "profile" ∧ defaults.profile ≠ [] then some (.string defaults.profile)
      else if key = ascii "account" ∧ defaults.account ≠ [] then some (.string defaults.account)
      else if key = ascii "endpoint" ∧ defaults.endpoint ≠ [] then some (.string defaults.endpoint)
      else cfg.field key := by
    intro key
    rw [mergeDefaults, field_setUnlessEmpty haccount, field_setUnlessEmpty hendpoint,
      field_setUnlessEmpty hobject]
  have hother : ascii "endpoint" ≠ ascii "profile" ∧ ascii "endpoint" ≠ ascii "account" ∧
      ascii "account" ≠ ascii "profile" := by decide +kernel
  refine ⟨isObject_setUnlessEmpty haccount _ _, ?_, ?_, ?_, ?_⟩
  · intro hvalue
    rw [hfield, if_neg (fun h => hother.1 h.1), if_neg (fun h => hother.2.1 h.1), if_pos ⟨rfl, hvalue⟩]
  · intro hvalue
    rw [hfield, if_neg (fun h => hother.2.2 h.1), if_pos ⟨rfl, hvalue⟩]
  · intro hvalue
    rw [hfield, if_pos ⟨rfl, hvalue⟩]
  · intro key h₁ h₂ h₃
    rw [hfield, if_neg (fun h => h.2 (h₃ h.1)), if_neg (fun h => h.2 (h₂ h.1)),
      if_neg (fun h => h.2 (h₁ h.1))]

/-- How the part from the exchange on can end. -/
inductive Finished (env : LoginEnv) (session : LoginSession) (defaults : SignerTuple)
    (s : AuthState) : Except Bytes Int → AuthState → Prop where
  | threw (what : Bytes) : Finished env session defaults s (.error what)
      (s.record (.asked (tokenUrl session.tenant) session.form))
  | cached {resp : HttpResponse} {cache : Json} {text : Bytes} {outcome : Except Bytes Int}
      (told : List Bytes) (hpost : env.post (tokenUrl session.tenant) session.form = .ok resp)
      (hcache : loginCache env.json session resp = .ok cache)
      (hdump : env.json.dump cache = .ok text) (houtcome : ∀ code, outcome = .ok code → code = 0) :
      Finished env session defaults s outcome
        { cache := some text, config := s.config, log := s.log ++
          [.asked (tokenUrl session.tenant) session.form, .wroteCache text] ++ told.map .told }
  | saved {resp : HttpResponse} {cache : Json} {text config : Bytes} (greeting note : Bytes)
      (hpost : env.post (tokenUrl session.tenant) session.form = .ok resp)
      (hcache : loginCache env.json session resp = .ok cache)
      (hdump : env.json.dump cache = .ok text)
      (hconfig : env.json.dump (mergeDefaults (readConfig env.json s.config) defaults) = .ok config) :
      Finished env session defaults s (.ok 0)
        { cache := some text, config := some config, log := s.log ++
          [.asked (tokenUrl session.tenant) session.form, .wroteCache text, .told greeting,
            .wroteConfig config, .told note] }

section Finish

variable {env : LoginEnv} {session : LoginSession} {defaults : SignerTuple} {s : AuthState}

theorem ends_redeemCode {Q : Json → AuthState → Prop} {E : Bytes → AuthState → Prop}
    (hQ : ∀ resp cache text, env.post (tokenUrl session.tenant) session.form = .ok resp →
      loginCache env.json session resp = .ok cache → env.json.dump cache = .ok text →
      Q cache { cache := some text, config := s.config, log := s.log ++
        [.asked (tokenUrl session.tenant) session.form, .wroteCache text] })
    (hE : ∀ what, E what (s.record (.asked (tokenUrl session.tenant) session.form))) :
    Ends (redeemCode env session) s Q E := by
  rw [redeemCode, ends_bind]
  refine ends_ask (fun resp hpost => ?_) fun what _ => hE what
  refine ends_lift_bind (fun cache hcache => ?_) hE
  rw [ends_bind]
  refine ends_writeCacheFile_of (fun text hdump => ?_) hE
  have h := hQ resp cache text hpost hcache hdump
  rw [ends_pure]
  simpa [AuthState.record] using h

/-- The exchange and the write are a run of the login process without a step of anybody else. -/
theorem plays_redeemCode {path : Bytes} (hdir : env.configDir = .ok path) :
    Plays (redeemCode env session >>= fun _ => pure ()) (loginMain env.json env.dir session) s := by
  have hrun : (redeemCode env session >>= fun _ => pure ()) s =
      (ask env.toAuthEnv (tokenUrl session.tenant) session.form >>= fun resp =>
        lift (loginCache env.json session resp) >>= writeCacheFile env.toAuthEnv) s := by
    simp only [redeemCode, ask, record, Bind.bind, lift, change, pure]
    cases env.post (tokenUrl session.tenant) session.form with
    | error what => rfl
    | ok resp =>
        dsimp only
        cases loginCache env.json session resp with
        | error what => rfl
        | ok cache =>
            dsimp only
            rcases writeCacheFile env.toAuthEnv cache
              (s.record (.asked (tokenUrl session.tenant) session.form)) with ⟨outcome, s'⟩
            cases outcome <;> rfl
  rw [Plays, hrun]
  apply plays_ask
  cases env.post (tokenUrl session.tenant) session.form with
  | error what => exact plays_done rfl rfl
  | ok resp =>
      simp only
      cases hcache : loginCache env.json session resp with
      | error what =>
          refine plays_done ?_ rfl
          simp only [hcache, Bind.bind, lift]
      | ok cache =>
          have hlift : (lift (.ok resp) >>= fun resp =>
              lift (loginCache env.json session resp) >>= writeCacheFile env.toAuthEnv) =
                writeCacheFile env.toAuthEnv cache := by
            funext s
            simp only [hcache, Bind.bind, lift]
          rw [hlift]
          exact plays_writeCache hdir

/-- Saving the defaults writes the merged configuration, or leaves the file alone. -/
theorem ends_saveSigningDefaults {Q : Unit → AuthState → Prop} {E : Bytes → AuthState → Prop}
    (hempty : Q () s) (hQ : ∀ text note,
      env.json.dump (mergeDefaults (readConfig env.json s.config) defaults) = .ok text →
      Q () { cache := s.cache, config := some text, log := s.log ++ [.wroteConfig text, .told note] })
    (hE : ∀ what, E what s) : Ends (saveSigningDefaults env defaults) s Q E := by
  unfold saveSigningDefaults
  split
  · exact hempty
  · refine ends_lift_bind (fun dir _ => ?_) hE
    rw [ends_bind, ends_current]
    refine ends_lift_bind (fun text hdump => ?_) hE
    split
    · exact hE _
    · rw [ends_bind, ends_change, record, ends_change]
      have h := hQ text (ascii "Saved signing defaults to " ++ dir ++ ascii "/config.json\n") hdump
      simpa [AuthState.record] using h

theorem finished_finishLogin : Ends (finishLogin env session defaults) s
    (fun code s' => Finished env session defaults s (.ok code) s')
    fun what s' => Finished env session defaults s (.error what) s' := by
  rw [finishLogin, ends_bind]
  refine ends_redeemCode (fun resp cache text hpost hcache hdump => ?_) fun what => .threw what
  have hthrew : ∀ what told, Finished env session defaults s (.error what)
      { cache := some text, config := s.config, log := s.log ++
        [.asked (tokenUrl session.tenant) session.form, .wroteCache text] ++
          List.map AuthEvent.told told } :=
    fun what told => .cached told hpost hcache hdump fun code h => by cases h
  refine ends_lift_bind (fun dir _ => ?_) fun what => by simpa using hthrew what []
  generalize hgreeting : ascii "Logged in as " ++ cache.username ++ ascii ".\nCache: " ++ dir ++
    ascii "/token-cache.json\n" = greeting
  rw [ends_bind, record, ends_change, ends_bind]
  refine ends_saveSigningDefaults ?_ (fun config note hconfig => ?_) fun what => ?_
  · exact Finished.cached [greeting] hpost hcache hdump fun code h => (Except.ok.inj h).symm
  · have h : Finished env session defaults s _ _ := .saved greeting note hpost hcache hdump hconfig
    simpa [AuthState.record] using h
  · exact hthrew what [greeting]

end Finish

/-! ## The whole login -/

/-- What a login from the files `cache` and `config` does to them, and when. -/
structure LoginEffects (env : LoginEnv) (args : List Bytes) (cache config : Option Bytes)
    (outcome : Except Bytes Int) (s' : AuthState) : Prop where
  /-- A code is exchanged only if the redirect answers to the state. -/
  asked : ∀ url form, .asked url form ∈ s'.log → ∃ (session : LoginSession) (target stateBytes : Bytes),
    url = tokenUrl session.tenant ∧ form = session.form ∧
      Authorized env target stateBytes session.code
  /-- The cache is written of a 200 response with a refresh token, and holds it. -/
  cached : ∀ text, .wroteCache text ∈ s'.log → s'.cache = some text ∧
    ∃ (options : LoginOptions) (session : LoginSession) (resp : HttpResponse)
      (reply written : Json) (refreshToken : Bytes),
      parseLoginArgs .default args = .ok options ∧ session.clientId = options.clientId ∧
      .asked (tokenUrl session.tenant) session.form ∈ s'.log ∧
      env.post (tokenUrl session.tenant) session.form = .ok resp ∧ resp.status = 200 ∧
      env.json.parse resp.body = .ok reply ∧ refreshToken ≠ [] ∧
      reply.field (ascii "refresh_token") = some (.string refreshToken) ∧
      env.json.dump written = .ok text ∧
      written.field (ascii "refresh_token") = some (.string refreshToken) ∧
      written.field (ascii "client_id") = some (.string options.clientId)
  /-- The configuration is written after the cache, and merges the values given. -/
  saved : ∀ text, .wroteConfig text ∈ s'.log → s'.config = some text ∧
    (∃ before after cacheText, s'.log = before ++ .wroteConfig text :: after ∧
      .wroteCache cacheText ∈ before) ∧
    ∃ (options : LoginOptions) (defaults : SignerTuple) (before written : Json),
      parseLoginArgs .default args = .ok options ∧
      options.defaults = .ok defaults ∧ env.json.dump written = .ok text ∧
      ConfigHeld env.json config before ∧ Merged before defaults written
  /-- Without a write of the cache nothing changes. -/
  untouched : (∀ text, .wroteCache text ∉ s'.log) → s'.cache = cache ∧ s'.config = config
  /-- Without a write of the configuration it does not change. -/
  kept : (∀ text, .wroteConfig text ∉ s'.log) → s'.config = config
  /-- A login that returns a failure has not written the cache. -/
  failed : ∀ code, outcome = .ok code → code ≠ 0 → ∀ text, .wroteCache text ∉ s'.log

section Whole

variable {env : LoginEnv} {args : List Bytes} {cache config : Option Bytes}
  {outcome : Except Bytes Int} {s s' : AuthState}

/-- A login that leaves the files alone and sends no request. -/
theorem loginEffects_of_leavesFiles (h : LeavesFiles ⟨cache, config, []⟩ s') :
    LoginEffects env args cache config outcome s' := by
  obtain ⟨hcache, hconfig, events, hlog, hquiet⟩ := h
  rw [List.nil_append] at hlog
  subst hlog
  exact ⟨fun _ _ hmem => (hquiet _ hmem).elim, fun _ hmem => (hquiet _ hmem).elim,
    fun _ hmem => (hquiet _ hmem).elim, fun _ => ⟨hcache, hconfig⟩, fun _ => hconfig,
    fun _ _ _ _ hmem => (hquiet _ hmem).elim⟩

theorem mem_of_not_quiet {events tail : List AuthEvent} {event : AuthEvent}
    (hquiet : ∀ event ∈ events, event.Quiet) (hevent : ¬ event.Quiet)
    (h : event ∈ events ++ tail) : event ∈ tail := by
  rcases List.mem_append.mp h with h | h
  · exact absurd (hquiet event h) hevent
  · exact h

/-- The cache that is written is that of the response. -/
theorem exists_cached {options : LoginOptions} {session : LoginSession} {resp : HttpResponse}
    {written : Json} {text : Bytes} {log : List AuthEvent}
    (hargs : parseLoginArgs .default args = .ok options)
    (hclient : session.clientId = options.clientId)
    (hpost : env.post (tokenUrl session.tenant) session.form = .ok resp)
    (hcache : loginCache env.json session resp = .ok written) (hdump : env.json.dump written = .ok text)
    (hasked : .asked (tokenUrl session.tenant) session.form ∈ log) :
    ∃ (options : LoginOptions) (session : LoginSession) (resp : HttpResponse)
      (reply written : Json) (refreshToken : Bytes),
      parseLoginArgs .default args = .ok options ∧ session.clientId = options.clientId ∧
      .asked (tokenUrl session.tenant) session.form ∈ log ∧
      env.post (tokenUrl session.tenant) session.form = .ok resp ∧ resp.status = 200 ∧
      env.json.parse resp.body = .ok reply ∧ refreshToken ≠ [] ∧
      reply.field (ascii "refresh_token") = some (.string refreshToken) ∧
      env.json.dump written = .ok text ∧
      written.field (ascii "refresh_token") = some (.string refreshToken) ∧
      written.field (ascii "client_id") = some (.string options.clientId) := by
  obtain ⟨hstatus, reply, refreshToken, hparse, hne, hreply, hrefresh, hclientId⟩ :=
    loginCache_eq_ok hcache
  exact ⟨options, session, resp, reply, written, refreshToken, hargs, hclient, hasked, hpost,
    hstatus, hparse, hne, hreply, hdump, hrefresh, hclient ▸ hclientId⟩

theorem loginEffects_of_finished {options : LoginOptions} {session : LoginSession}
    {defaults : SignerTuple} {target stateBytes : Bytes}
    (hargs : parseLoginArgs .default args = .ok options) (hdefaults : options.defaults = .ok defaults)
    (hclient : session.clientId = options.clientId)
    (hauthorized : Authorized env target stateBytes session.code)
    (hs : LeavesFiles ⟨cache, config, []⟩ s) (h : Finished env session defaults s outcome s') :
    LoginEffects env args cache config outcome s' := by
  obtain ⟨hcache, hconfig, events, hlog, hquiet⟩ := hs
  rw [List.nil_append] at hlog
  -- Whatever is not quiet comes from the end of the login, as what led here is quiet.
  have hnew : ∀ (event : AuthEvent) tail, ¬ event.Quiet → event ∈ s.log ++ tail → event ∈ tail :=
    fun event tail hevent hmem => mem_of_not_quiet hquiet hevent (hlog ▸ hmem)
  cases h with
  | threw what =>
      have honly : ∀ event : AuthEvent, ¬ event.Quiet →
          event ∈ (s.record (.asked (tokenUrl session.tenant) session.form)).log →
          event = .asked (tokenUrl session.tenant) session.form :=
        fun event hevent hmem => List.mem_singleton.mp (hnew event _ hevent hmem)
      constructor
      case asked =>
        intro url form hmem
        obtain ⟨rfl, rfl⟩ := AuthEvent.asked.inj (honly _ id hmem)
        exact ⟨session, target, stateBytes, rfl, rfl, hauthorized⟩
      case cached => exact fun text hmem => AuthEvent.noConfusion (honly _ id hmem)
      case saved => exact fun text hmem => AuthEvent.noConfusion (honly _ id hmem)
      case untouched => exact fun _ => ⟨hcache, hconfig⟩
      case kept => exact fun _ => hconfig
      case failed => exact fun code h => by cases h
  | cached told hpost hloginCache hdump houtcome =>
      rename_i resp written text
      have honly : ∀ event : AuthEvent, ¬ event.Quiet → event ∈ s.log ++
            [.asked (tokenUrl session.tenant) session.form, .wroteCache text] ++ told.map .told →
          event = .asked (tokenUrl session.tenant) session.form ∨ event = .wroteCache text := by
        intro event hevent hmem
        rw [List.append_assoc] at hmem
        rcases List.mem_append.mp (hnew event _ hevent hmem) with hmem | hmem
        · simpa using hmem
        · obtain ⟨note, -, rfl⟩ := List.mem_map.mp hmem
          exact absurd trivial hevent
      constructor
      case asked =>
        intro url form hmem
        rcases honly _ id hmem with heq | heq
        · obtain ⟨rfl, rfl⟩ := AuthEvent.asked.inj heq
          exact ⟨session, target, stateBytes, rfl, rfl, hauthorized⟩
        · cases heq
      case cached =>
        intro text' hmem
        rcases honly _ id hmem with heq | heq
        · cases heq
        · cases heq
          exact ⟨rfl, exists_cached hargs hclient hpost hloginCache hdump (by simp)⟩
      case saved =>
        intro text' hmem
        rcases honly _ id hmem with heq | heq <;> cases heq
      case untouched => exact fun habsent => absurd (by simp) (habsent text)
      case kept => exact fun _ => hconfig
      case failed => exact fun code hcode hne => absurd (houtcome code hcode) hne
  | saved greeting note hpost hloginCache hdump hmerged =>
      rename_i resp written text configText
      have honly : ∀ event : AuthEvent, ¬ event.Quiet → event ∈ s.log ++
            [.asked (tokenUrl session.tenant) session.form, .wroteCache text, .told greeting,
              .wroteConfig configText, .told note] →
          event = .asked (tokenUrl session.tenant) session.form ∨ event = .wroteCache text ∨
            event = .wroteConfig configText := by
        intro event hevent hmem
        have htail := hnew event _ hevent hmem
        simp only [List.mem_cons, List.not_mem_nil, or_false] at htail
        rcases htail with rfl | rfl | rfl | rfl | rfl
        · exact .inl rfl
        · exact .inr (.inl rfl)
        · exact absurd trivial hevent
        · exact .inr (.inr rfl)
        · exact absurd trivial hevent
      constructor
      case asked =>
        intro url form hmem
        rcases honly _ id hmem with heq | heq | heq
        · obtain ⟨rfl, rfl⟩ := AuthEvent.asked.inj heq
          exact ⟨session, target, stateBytes, rfl, rfl, hauthorized⟩
        · cases heq
        · cases heq
      case cached =>
        intro text' hmem
        rcases honly _ id hmem with heq | heq | heq
        · cases heq
        · cases heq
          exact ⟨rfl, exists_cached hargs hclient hpost hloginCache hdump (by simp)⟩
        · cases heq
      case saved =>
        intro text' hmem
        rcases honly _ id hmem with heq | heq | heq
        · cases heq
        · cases heq
        · cases heq
          refine ⟨rfl, ⟨s.log ++ [.asked (tokenUrl session.tenant) session.form, .wroteCache text,
            .told greeting], [.told note], text, by simp, by simp⟩, options, defaults, _, _, hargs,
            hdefaults, hmerged, configHeld_iff.mpr rfl, ?_⟩
          rw [hconfig]
          exact merged_mergeDefaults (readConfig_isObject config) defaults
      case untouched => exact fun habsent => absurd (by simp) (habsent text)
      case kept => exact fun habsent => absurd (by simp) (habsent configText)
      case failed => exact fun code hcode hne => absurd (Except.ok.inj hcode).symm hne

theorem loginMain_effects (env : LoginEnv) (args : List Bytes) (cache config : Option Bytes) :
    LoginEffects env args cache config (loginMainAlone env args ⟨cache, config, []⟩).1
      (loginMainAlone env args ⟨cache, config, []⟩).2 := by
  have hends : Ends (loginMainAlone env args) ⟨cache, config, []⟩
      (fun code s' => LoginEffects env args cache config (.ok code) s')
      fun what s' => LoginEffects env args cache config (.error what) s' := by
    have hquiet : ∀ m : AuthProgram Int, Moves LeavesFiles m → Ends m ⟨cache, config, []⟩
        (fun code s' => LoginEffects env args cache config (.ok code) s')
        fun what s' => LoginEffects env args cache config (.error what) s' :=
      fun m hm => (hm _).mono (fun _ _ => loginEffects_of_leavesFiles)
        fun _ _ => loginEffects_of_leavesFiles
    unfold loginMainAlone
    split
    next =>
      exact hquiet _ ((moves_lift _).bind fun _ => (leavesFiles_record (by trivial)).bind fun _ =>
        moves_pure _)
    next => exact hquiet _ ((leavesFiles_record (by trivial)).bind fun _ => moves_pure _)
    next options hargs =>
      split
      next => exact hquiet _ ((leavesFiles_record (by trivial)).bind fun _ => moves_pure _)
      next defaults hdefaults =>
        refine authorize_yields.bind_ends (fun session s hs hsession => ?_)
          fun what s hs => loginEffects_of_leavesFiles hs
        cases session with
        | none => exact loginEffects_of_leavesFiles hs
        | some session =>
            obtain ⟨hclient, target, stateBytes, hauthorized⟩ := hsession session rfl
            exact finished_finishLogin.mono
              (fun _ _ => loginEffects_of_finished hargs hdefaults hclient hauthorized hs)
              fun _ _ => loginEffects_of_finished hargs hdefaults hclient hauthorized hs
  unfold Ends at hends
  split at hends <;> simp_all

end Whole

end AasSign
