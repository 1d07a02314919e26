import AasSign.Auth.CodeExchange
import AasSign.Auth.Refresh
import AasSign.Foundation.Simulation
import AasSign.Main.Defaults

/-! # Custody of the refresh token

The commands that touch the token cache, one after the other on one machine. What the cache holds
is a credential that a server has granted, the latest one, and it is sent nowhere else: this is what
an abstract holder of credentials does, and every history of commands is one of its histories.
-/

namespace AasSign

open Foundation Program

/-! ## Commands -/

/-- A JSON library that reads back what the program has it write into the token cache. -/
structure StoringJson extends JsonLibrary where
  issued : ∀ {session resp cache text}, loginCache toJsonLibrary session resp = .ok cache →
    dump cache = .ok text → extract text = .ok cache
  rotated : ∀ {contents fields new text}, extract contents = .ok (.object fields) →
    dump ((Json.object fields).set (ascii "refresh_token") (.string new)) = .ok text →
    extract text = .ok ((Json.object fields).set (ascii "refresh_token") (.string new))

/-- `logout_main`; `args` are the arguments behind `logout`. -/
def logoutMainAlone (env : AuthEnv) (args : List Bytes) : AuthProgram Int :=
  match args with
  | arg :: _ =>
      if arg = ascii "--help" ∨ arg = ascii "-h" then do
        let dir ← lift env.configDir
        record (.toldUsage dir)
        return 0
      else do
        record (.told (ascii "aas-sign logout: unknown option: " ++ arg ++ ascii "\n"))
        return 1
  | [] => do
      let dir ← lift env.configDir
      let s ← current
      if s.cache.isSome then do
        deleteCacheFile env
        record (.told (ascii "Logged out (removed " ++ dir ++ ascii "/token-cache.json).\n"))
      else record (.told (ascii "Not logged in (no cache at " ++ dir ++ ascii "/token-cache.json).\n"))
      return 0

/-- A command, with what it meets. -/
inductive Command (json : StoringJson) where
  | login (env : LoginEnv) (hjson : env.json = json.toJsonLibrary) (args : List Bytes)
  /-- `sign`, where it has no other token. -/
  | refresh (env : AuthEnv) (hjson : env.json = json.toJsonLibrary)
  | logout (env : AuthEnv) (args : List Bytes)
  | config (env : LoginEnv) (args : List Bytes)

def Command.run {json : StoringJson} : Command json → AuthState → AuthState
  | .login env _ args, s => (loginMainAlone env args s).2
  | .refresh env _, s => (tryCachedRefreshAlone env s).2
  | .logout env args, s => (logoutMainAlone env args s).2
  | .config env args, s => (configMain env args s).2

/-! ## The holder of a credential -/

/-- What happens to the credential; a refresh request says what is presented, by whom, and where. -/
inductive Handling where
  | issued (r : RefreshRequest)
  | presented (r : RefreshRequest) (after : Option RefreshRequest)
  | discarded
  | left

/-- A holder is issued a credential, presents the one that it has, and keeps, loses or renews it
with that, and discards it. -/
inductive Handles : Option RefreshRequest → Handling → Option RefreshRequest → Prop where
  | issued (held : Option RefreshRequest) (r : RefreshRequest) : Handles held (.issued r) (some r)
  | kept (r : RefreshRequest) : Handles (some r) (.presented r (some r)) (some r)
  | withdrawn (r : RefreshRequest) : Handles (some r) (.presented r none) none
  | renewed (r : RefreshRequest) (new : Bytes) : Handles (some r)
      (.presented r (some { r with refreshToken := new })) (some { r with refreshToken := new })
  | discarded (held : Option RefreshRequest) : Handles held .discarded none
  | left (held : Option RefreshRequest) : Handles held .left held

/-- The credential is held on. -/
def Handling.Continues : Handling → Prop
  | .presented _ (some _) => True
  | .left => True
  | _ => False

/-- The credential goes back to the latest one that was issued, with nothing but renewals since. -/
def Descends (handlings : List Handling) (r : RefreshRequest) : Prop :=
  ∃ origin before since, handlings = before ++ .issued origin :: since ∧
    origin.clientId = r.clientId ∧ origin.tenant = r.tenant ∧ ∀ handling ∈ since, handling.Continues

section Holders

variable {handlings : List Handling} {handling : Handling} {held held' : Option RefreshRequest}
  {r r' : RefreshRequest}

theorem Descends.snoc (h : Descends handlings r) (hcontinues : handling.Continues)
    (hclient : r.clientId = r'.clientId) (htenant : r.tenant = r'.tenant) :
    Descends (handlings ++ [handling]) r' := by
  obtain ⟨origin, before, since, rfl, horigin, htenant', hsince⟩ := h
  refine ⟨origin, before, since ++ [handling], by simp, horigin.trans hclient, htenant'.trans htenant, ?_⟩
  rw [List.forall_mem_append, List.forall_mem_singleton]
  exact ⟨hsince, hcontinues⟩

/-- What is held descends from what was issued. -/
theorem takes_descends (h : TakesLabels Handles none handlings held) : ∀ r, held = some r → Descends handlings r := by
  refine h.invariant (fun handlings held => ∀ r, held = some r → Descends handlings r) ?_ nofun
  intro before held handling held' hbefore hstep r hr
  cases hstep with
  | issued held origin =>
      cases hr
      exact ⟨r, before, [], rfl, rfl, rfl, nofun⟩
  | kept r' =>
      cases hr
      exact (hbefore r rfl).snoc trivial rfl rfl
  | withdrawn r' => cases hr
  | renewed r' new =>
      cases hr
      exact (hbefore r' rfl).snoc trivial rfl rfl
  | discarded held => cases hr
  | left held => exact (hbefore r hr).snoc trivial rfl rfl

/-- What is presented is held, and descends from what was issued before. -/
theorem presented_descends {before after : List Handling} {answer : Option RefreshRequest}
    (h : TakesLabels Handles none (before ++ .presented r answer :: after) held) : Descends before r := by
  obtain ⟨held', hbefore, hafter⟩ := takes_append.mp h
  cases hafter with
  | cons hstep _ => cases hstep <;> exact takes_descends hbefore r rfl

end Holders

/-! ## What the commands do with it -/

/-- The request of an event. -/
def AuthEvent.request : AuthEvent → Option (Bytes × Bytes)
  | .asked url form => some (url, form)
  | _ => none

/-- Between these states exactly these requests were made. -/
def Asked (s s' : AuthState) (requests : List (Bytes × Bytes)) : Prop :=
  ∃ events, s'.log = s.log ++ events ∧ events.filterMap AuthEvent.request = requests

/-- The cache is what it was, and nothing was asked. -/
def LeavesCache (s s' : AuthState) : Prop := s'.cache = s.cache ∧ Asked s s' []

/-- The response to a login issues the credential, to the client of the login. -/
structure Issues (json : JsonLibrary) (session : LoginSession) (resp : HttpResponse)
    (r : RefreshRequest) : Prop where
  status : resp.status = 200
  token : r.refreshToken ≠ []
  client : r.clientId = session.clientId
  granted : ∃ reply, json.parse resp.body = .ok reply ∧
    reply.field (ascii "refresh_token") = some (.string r.refreshToken)

/-- The response to a refresh replaces the token. -/
structure Renews (json : JsonLibrary) (resp : HttpResponse) (new : Bytes) : Prop where
  status : resp.status = 200
  token : new ≠ []
  granted : ∃ reply, json.parse resp.body = .ok reply ∧
    reply.field (ascii "refresh_token") = some (.string new)

/-- The response to a refresh withdraws the credential. -/
structure Withdraws (json : JsonLibrary) (resp : HttpResponse) : Prop where
  status : resp.status ≠ 200
  refused : ∃ reply, json.parse resp.body = .ok reply ∧
    reply.field (ascii "error") = some (.string (ascii "invalid_grant"))

/-- What a command does to the credential between two states, and what it asks for it. -/
inductive Shows {json : StoringJson} : Command json → AuthState → AuthState → Handling → Prop where
  | issued {s s' env hjson args resp r} {session : LoginSession}
      (hasked : Asked s s' [(tokenUrl session.tenant, session.form)])
      (hpost : env.post (tokenUrl session.tenant) session.form = .ok resp)
      (hissues : Issues json.toJsonLibrary session resp r) :
      Shows (.login env hjson args) s s' (.issued r)
  | refused {s s' : AuthState} {env hjson args} {session : LoginSession} (hcache : s'.cache = s.cache)
      (hasked : Asked s s' [(tokenUrl session.tenant, session.form)]) :
      Shows (.login env hjson args) s s' .left
  | kept {s s' : AuthState} {env hjson} {r : RefreshRequest} (hcache : s'.cache = s.cache)
      (hasked : Asked s s' [(tokenUrl r.tenant, r.form)]) :
      Shows (.refresh env hjson) s s' (.presented r (some r))
  | withdrawn {s s' : AuthState} {env hjson resp} {r : RefreshRequest} (hcache : s'.cache = none)
      (hasked : Asked s s' [(tokenUrl r.tenant, r.form)])
      (hpost : env.post (tokenUrl r.tenant) r.form = .ok resp)
      (hanswer : Withdraws json.toJsonLibrary resp) :
      Shows (.refresh env hjson) s s' (.presented r none)
  | renewed {s s' env hjson resp new} {r : RefreshRequest}
      (hasked : Asked s s' [(tokenUrl r.tenant, r.form)])
      (hpost : env.post (tokenUrl r.tenant) r.form = .ok resp)
      (hanswer : Renews json.toJsonLibrary resp new) :
      Shows (.refresh env hjson) s s' (.presented r (some { r with refreshToken := new }))
  | discarded {s s' : AuthState} {env} (hcache : s'.cache = none) (hasked : Asked s s' []) :
      Shows (.logout env []) s s' .discarded
  | idle {s s' : AuthState} {command} (hcache : s'.cache = s.cache) (hasked : Asked s s' []) :
      Shows command s s' .left

/-- The cache holds the credential, in a value of which a refresh is made, unless no client is
named. -/
inductive Holds (json : StoringJson) : Option Bytes → Option RefreshRequest → Prop where
  | nothing : Holds json none none
  | credential {text : Bytes} {fields : List (Bytes × Json)} {r : RefreshRequest}
      (hread : json.extract text = .ok (.object fields)) (htoken : r.refreshToken ≠ [])
      (hrequest : refreshRequest (.object fields) = .ok (if r.clientId = [] then none else some r)) :
      Holds json (some text) (some r)

/-! ## Values -/

section Values

variable {json : StoringJson} {session : LoginSession} {resp : HttpResponse} {cache : Json}
  {fields : List (Bytes × Json)} {r : RefreshRequest} {s s' s'' : AuthState}
  {requests others : List (Bytes × Bytes)}

theorem refreshRequest_of_values {j : Json} {refreshToken clientId tenantId : Bytes}
    (hrefresh : j.value (ascii "refresh_token") = .ok refreshToken)
    (hclient : j.value (ascii "client_id") = .ok clientId)
    (htenant : j.value (ascii "tenant_id") = .ok tenantId) (htoken : refreshToken ≠ []) :
    refreshRequest j = .ok (if clientId = [] then none else
      some ⟨refreshToken, clientId, if tenantId = [] then defaultTenant else tenantId⟩) := by
  simp only [refreshRequest, hrefresh, hclient, htenant, ok_bind, htoken, false_or]
  split <;> rfl

/-- What a login stores makes a refresh of what the response has granted. -/
theorem loginCache_issues (h : loginCache json.toJsonLibrary session resp = .ok cache) :
    ∃ fields r, cache = .object fields ∧ Issues json.toJsonLibrary session resp r ∧
      refreshRequest (.object fields) = .ok (if r.clientId = [] then none else some r) := by
  unfold loginCache at h
  by_cases hstatus : resp.status ≠ 200
  · rw [if_pos hstatus] at h
    cases h
  · rw [if_neg hstatus] at h
    obtain ⟨reply, hparse, h⟩ := bind_eq_ok.mp h
    obtain ⟨refreshToken, hrefresh, h⟩ := bind_eq_ok.mp h
    obtain ⟨idToken, -, h⟩ := bind_eq_ok.mp h
    by_cases hempty : refreshToken = []
    · rw [if_pos hempty] at h
      cases h
    · rw [if_neg hempty] at h
      obtain ⟨who, -, h⟩ := bind_eq_ok.mp h
      cases h
      refine ⟨_, ⟨refreshToken, session.clientId,
          if who.tenantId = [] then defaultTenant else who.tenantId⟩, rfl,
        ⟨not_not.mp hstatus, hempty, rfl, reply, hparse, (Json.value_eq_ok hempty).mp hrefresh⟩, ?_⟩
      exact refreshRequest_of_values rfl rfl rfl hempty

/-- Putting in another token changes the request in this only. -/
theorem refreshRequest_renewed {new : Bytes} (hnew : new ≠ [])
    (h : refreshRequest (.object fields) = .ok (some r)) :
    refreshRequest ((Json.object fields).set (ascii "refresh_token") (.string new)) =
      .ok (some { r with refreshToken := new }) := by
  have hkeys : ascii "client_id" ≠ ascii "refresh_token" ∧ ascii "tenant_id" ≠ ascii "refresh_token" := by
    decide
  unfold refreshRequest at h
  obtain ⟨refreshToken, hrefresh, h⟩ := bind_eq_ok.mp h
  obtain ⟨clientId, hclient, h⟩ := bind_eq_ok.mp h
  obtain ⟨tenantId, htenant, h⟩ := bind_eq_ok.mp h
  split at h
  · cases h
  next hheld =>
    obtain ⟨-, hclientId⟩ := not_or.mp hheld
    cases h
    rw [refreshRequest_of_values (by rw [Json.value_set, if_pos rfl])
      (by rw [Json.value_set, if_neg hkeys.1, hclient])
      (by rw [Json.value_set, if_neg hkeys.2, htenant]) hnew, if_neg hclientId]

theorem asked_nil_of_quiet {events : List AuthEvent} (hquiet : ∀ event ∈ events, event.Quiet) :
    events.filterMap AuthEvent.request = [] := by
  rw [List.filterMap_eq_nil_iff]
  intro event hevent
  cases event with
  | asked url form => exact (hquiet _ hevent).elim
  | _ => rfl

theorem LeavesFiles.leavesCache (h : LeavesFiles s s') : LeavesCache s s' := by
  obtain ⟨hcache, -, events, hlog, hquiet⟩ := h
  exact ⟨hcache, events, hlog, asked_nil_of_quiet hquiet⟩

theorem Asked.trans (h : Asked s s' requests) (h' : Asked s' s'' others) :
    Asked s s'' (requests ++ others) := by
  obtain ⟨events, hlog, rfl⟩ := h
  obtain ⟨events', hlog', rfl⟩ := h'
  exact ⟨events ++ events', by rw [hlog', hlog, List.append_assoc], List.filterMap_append⟩

instance : IsPreorder AuthState LeavesCache where
  refl _ := ⟨rfl, [], (List.append_nil _).symm, rfl⟩
  trans _ _ _ h h' := ⟨h'.1.trans h.1, h.2.trans h'.2⟩

end Values

/-! ## The commands, one by one -/

/-- The state behind a command is that of a holder that has handled its credential. -/
def Handled {json : StoringJson} (command : Command json) (held : Option RefreshRequest)
    (s s' : AuthState) : Prop :=
  ∃ handling held', Shows command s s' handling ∧ Handles held handling held' ∧ Holds json s'.cache held'

/-- The ways in which a refresh ends, whatever fails. -/
inductive RefreshRun (env : AuthEnv) (s : AuthState) : AuthState → Prop where
  | idle : RefreshRun env s s
  | presented {fields request} (h : Requests env s.cache fields request) :
      RefreshRun env s (s.sent request)
  | withdrawn {fields request resp} (h : Requests env s.cache fields request)
      (hpost : env.post (tokenUrl request.tenant) request.form = .ok resp)
      (hreply : refreshReply env.json (.object fields) request resp = .rejected) :
      RefreshRun env s { (s.sent request).record .deletedCache with cache := none }
  | renewed {fields request resp cache accessToken text} (h : Requests env s.cache fields request)
      (hpost : env.post (tokenUrl request.tenant) request.form = .ok resp)
      (hreply : refreshReply env.json (.object fields) request resp = .rotated cache accessToken)
      (hdump : env.json.dump cache = .ok text) :
      RefreshRun env s { (s.sent request).record (.wroteCache text) with cache := some text }

section Commands

variable {json : StoringJson} {held : Option RefreshRequest} {s s' : AuthState}

theorem handled_of_idle {command : Command json} (h : Holds json s.cache held) (hidle : LeavesCache s s') :
    Handled command held s s' :=
  ⟨.left, held, .idle hidle.1 hidle.2, .left held, hidle.1 ▸ h⟩

/-- A removal of the cache removes it, or throws. -/
theorem ends_deleteCacheFile_of {env : AuthEnv} {Q : Unit → AuthState → Prop}
    {E : Bytes → AuthState → Prop} (hQ : Q () { s.record .deletedCache with cache := none })
    (hE : ∀ what, E what s) : Ends (deleteCacheFile env) s Q E := by
  refine ends_lift_bind (fun _ _ => ?_) hE
  split
  · exact hE _
  · exact hQ

theorem handled_login {env : LoginEnv} {hjson : env.json = json.toJsonLibrary} {args : List Bytes}
    (h : Holds json s.cache held) (hrun : LoginRun env args s s') :
    Handled (.login env hjson args) held s s' := by
  cases hrun with
  | idle hleaves => exact handled_of_idle h hleaves.leavesCache
  | exchanged hargs hgiven hleaves hlaunch hlog hfinished =>
      rename_i options d launch defaults opened outcome
      generalize d.session options = session at hfinished
      -- What is written comes of the response, and its text is read back.
      have hissued : ∀ resp cache text s', env.post (tokenUrl session.tenant) session.form = .ok resp →
          loginCache env.json session resp = .ok cache → env.json.dump cache = .ok text →
          Asked opened s' [(tokenUrl session.tenant, session.form)] → s'.cache = some text →
          Handled (.login env hjson args) held s s' := by
        intro resp cache text s' hpost hcache hdump hasked hwritten
        rw [hjson] at hcache hdump
        have hread := json.issued hcache hdump
        obtain ⟨fields, r, rfl, hissues, hrequest⟩ := loginCache_issues hcache
        refine ⟨.issued r, some r, .issued (hleaves.leavesCache.2.trans hasked) hpost hissues, .issued held r, ?_⟩
        rw [hwritten]
        exact .credential hread hissues.token hrequest
      cases hfinished with
      | threw what =>
          have hasked : Asked opened (opened.record (.asked (tokenUrl session.tenant) session.form))
              [(tokenUrl session.tenant, session.form)] := ⟨_, rfl, rfl⟩
          refine ⟨.left, held, .refused hleaves.cache (hleaves.leavesCache.2.trans hasked), .left held, ?_⟩
          rw [← hleaves.cache] at h
          exact h
      | cached told hpost hcache hdump houtcome =>
          refine hissued _ _ _ _ hpost hcache hdump ⟨_, List.append_assoc _ _ _, ?_⟩ rfl
          have htold : (told.map AuthEvent.told).filterMap AuthEvent.request = [] :=
            asked_nil_of_quiet fun event hevent => by
              obtain ⟨note, -, rfl⟩ := List.mem_map.mp hevent
              trivial
          rw [List.filterMap_append, htold]
          rfl
      | saved greeting note hpost hcache hdump hconfig =>
          exact hissued _ _ _ _ hpost hcache hdump ⟨_, rfl, rfl⟩ rfl

theorem refreshRun_tryCachedRefreshAlone (env : AuthEnv) :
    Moves (RefreshRun env) (tryCachedRefreshAlone env) := by
  intro s
  rw [tryCachedRefreshAlone, ends_bind]
  refine ends_readCacheFile (fun path j _ hparsed => ?_) fun _ => .idle
  cases j with
  | object fields =>
      refine ends_lift_bind (fun asked hasked => ?_) fun _ => .idle
      cases asked with
      | none => exact .idle
      | some request =>
          have h : Requests env s.cache fields request := ⟨hparsed, hasked⟩
          rw [ends_bind]
          refine ends_ask (fun resp hpost => ?_) fun _ _ => .presented h
          cases hreply : refreshReply env.json (.object fields) request resp with
          | throws what => exact .presented h
          | token accessToken => exact .presented h
          | rejected =>
              rw [settleRefreshAlone, ends_bind]
              exact ends_deleteCacheFile_of (.withdrawn h hpost hreply) fun _ => .presented h
          | rotated cache accessToken =>
              rw [settleRefreshAlone, ends_bind, ends_ignored]
              exact ends_writeCacheFile_of (fun text hdump => .renewed h hpost hreply hdump)
                fun _ => .presented h
  | _ => exact .idle

/-- A request is made of the credential that the cache holds. -/
theorem Holds.requests {env : AuthEnv} {fields : List (Bytes × Json)} {request : RefreshRequest}
    (h : Holds json s.cache held) (hjson : env.json = json.toJsonLibrary)
    (hrequests : Requests env s.cache fields request) : held = some request := by
  obtain ⟨hparsed, hasks⟩ := hrequests
  rw [hjson] at hparsed
  generalize s.cache = cache at h hparsed
  cases h with
  | nothing => cases hparsed
  | credential hread htoken hrequest =>
      obtain ⟨rfl⟩ : _ = fields := Json.object.inj
        (Except.ok.inj (hread.symm.trans (parseCache_some.mp hparsed)))
      rw [hasks] at hrequest
      split at hrequest
      · cases hrequest
      · exact (Except.ok.inj hrequest).symm

theorem handled_refresh {env : AuthEnv} {hjson : env.json = json.toJsonLibrary}
    (h : Holds json s.cache held) (hrun : RefreshRun env s s') :
    Handled (.refresh env hjson) held s s' := by
  cases hrun with
  | idle => exact handled_of_idle h (refl_of LeavesCache s)
  | presented hrequests =>
      obtain rfl := h.requests hjson hrequests
      exact ⟨_, _, .kept rfl ⟨_, rfl, rfl⟩, .kept _, h⟩
  | withdrawn hrequests hpost hreply =>
      obtain rfl := h.requests hjson hrequests
      obtain ⟨hstatus, hrefused⟩ := refreshReply_eq_rejected.mp hreply
      rw [hjson] at hrefused
      exact ⟨_, _, .withdrawn rfl ⟨_, List.append_assoc _ _ _, rfl⟩ hpost ⟨hstatus, hrefused⟩,
        .withdrawn _, .nothing⟩
  | renewed hrequests hpost hreply hdump =>
      rename_i fields request resp cache accessToken text
      obtain rfl := h.requests hjson hrequests
      obtain ⟨hstatus, haccepted⟩ := refreshReply_accepted hreply nofun nofun
      obtain ⟨reply, token, hparse, -, -, ⟨hout, -⟩ | ⟨new, hnew, -, hgranted, hout⟩⟩ :=
        acceptedReply_eq_ok haccepted
      · cases hout
      · cases hout
        rw [hjson] at hparse hdump
        refine ⟨_, _, .renewed ⟨_, List.append_assoc _ _ _, rfl⟩ hpost ⟨hstatus, hnew, reply, hparse, hgranted⟩,
          .renewed request new, ?_⟩
        have hparsed := hrequests.parsed
        rw [hjson] at hparsed
        generalize s.cache = held at h hparsed
        cases h with
        | credential _ _ _ =>
            refine .credential (json.rotated (parseCache_some.mp hparsed) hdump) hnew ?_
            rw [if_neg (refreshRequest_eq_some hrequests.asks).2.1]
            exact refreshRequest_renewed hnew hrequests.asks

theorem leavesCache_of_quiet {α : Type} {m : AuthProgram α} (h : Moves LeavesFiles m) :
    Moves LeavesCache m :=
  h.mono fun _ _ => LeavesFiles.leavesCache

theorem handled_logout (env : AuthEnv) (args : List Bytes) (h : Holds json s.cache held) :
    Handled (.logout env args : Command json) held s (logoutMainAlone env args s).2 := by
  cases args with
  | cons arg rest =>
      refine handled_of_idle h (moves_iff.mp (leavesCache_of_quiet ?_) s)
      rw [logoutMainAlone]
      split
      · exact (moves_lift _).bind fun _ => (leavesFiles_record (by trivial)).bind fun _ => moves_pure _
      · exact (leavesFiles_record (by trivial)).bind fun _ => moves_pure _
  | nil =>
      refine (ends_outcome (P := fun _ s' => Handled (.logout env [] : Command json) held s s')).mp ?_
      have hsame : Handled (.logout env [] : Command json) held s s := handled_of_idle h (refl_of LeavesCache s)
      rw [logoutMainAlone]
      refine ends_lift_bind (fun dir _ => ?_) fun _ => hsame
      rw [ends_bind, ends_current]
      split
      · rw [ends_bind]
        refine ends_deleteCacheFile_of ?_ fun _ => hsame
        rw [ends_bind, record, ends_change]
        exact ⟨.discarded, none, .discarded rfl ⟨_, List.append_assoc _ _ _, rfl⟩, .discarded held, .nothing⟩
      · rw [ends_bind, record, ends_change]
        exact handled_of_idle h ⟨rfl, _, rfl, rfl⟩

theorem leavesCache_save (env : LoginEnv) (defaults : SignerTuple) :
    Moves LeavesCache (saveSigningDefaults env defaults) := by
  unfold saveSigningDefaults
  split
  · exact moves_pure _
  · refine (moves_lift _).bind fun dir => moves_current.bind fun s => (moves_lift _).bind fun text => ?_
    split
    · exact moves_raise _
    · refine Moves.bind (fun s => ⟨rfl, _, rfl, rfl⟩) fun _ => ?_
      exact leavesCache_of_quiet (leavesFiles_record (by trivial))

theorem leavesCache_config (env : LoginEnv) (args : List Bytes) :
    Moves LeavesCache (configMain env args) := by
  unfold configMain
  split
  next =>
    exact leavesCache_of_quiet ((moves_lift _).bind fun _ =>
      (leavesFiles_record (by trivial)).bind fun _ => moves_pure _)
  next => exact leavesCache_of_quiet ((leavesFiles_record (by trivial)).bind fun _ => moves_pure _)
  next =>
    split
    next => exact leavesCache_of_quiet ((leavesFiles_record (by trivial)).bind fun _ => moves_pure _)
    next =>
      split
      next => exact leavesCache_of_quiet ((leavesFiles_record (by trivial)).bind fun _ => moves_pure _)
      next => exact (leavesCache_save env _).bind fun _ => moves_pure _

/-- Every command keeps the cache that of a holder of credentials. -/
theorem handled_run (command : Command json) (h : Holds json s.cache held) :
    Handled command held s (command.run s) := by
  cases command with
  | login env hjson args => exact handled_login h (moves_iff.mp (loginRun_loginMainAlone env args) s)
  | refresh env hjson => exact handled_refresh h (moves_iff.mp (refreshRun_tryCachedRefreshAlone env) s)
  | logout env args => exact handled_logout env args h
  | config env args => exact handled_of_idle h (moves_iff.mp (leavesCache_config env args) s)

end Commands

theorem readForm_request (r : RefreshRequest) : readForm r.form =
    [(ascii "client_id", r.clientId), (ascii "grant_type", ascii "refresh_token"),
      (ascii "refresh_token", r.refreshToken), (ascii "scope", scopeSign)] := by
  refine readForm_formEncode ?_
  simp only [List.map_cons, List.map_nil]
  decide

end AasSign
