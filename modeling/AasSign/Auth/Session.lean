import AasSign.Auth.Cache
import AasSign.Foundation.Program

/-! # The two files of the configuration directory

`try_cached_refresh` and `login_main` run alone: programs over the token cache and
the configuration file, with what they ask of the server and tell the user in a
log. The server's answers are a function of what is asked.
-/

namespace AasSign

open Foundation Program

/-- What a run of the authentication code does outside of memory. -/
inductive AuthEvent where
  | asked (url form : Bytes)
  | wroteCache (text : Bytes)
  | deletedCache
  | wroteConfig (text : Bytes)
  | launched (url : Bytes)
  | responded (html : Bytes)
  | told (text : Bytes)
  | toldUsage (dir : Bytes)
  deriving DecidableEq

/-- The contents of `token-cache.json` and `config.json`, and what was done. -/
structure AuthState where
  cache : Option Bytes
  config : Option Bytes
  log : List AuthEvent
  deriving DecidableEq

/-- What the platform, the server and the JSON library answer. -/
structure AuthEnv where
  json : JsonLibrary
  /-- `config_dir()`. -/
  configDir : Except Bytes Bytes
  /-- Whether writing and removing the token cache fail. -/
  dir : ConfigDir
  /-- Whether writing the configuration file fails. -/
  configError : Option Bytes
  /-- `https_post_url`. -/
  post : Bytes → Bytes → Except Bytes HttpResponse

abbrev AuthProgram (α : Type) := Program AuthState Bytes α

def AuthState.record (s : AuthState) (event : AuthEvent) : AuthState :=
  { s with log := s.log ++ [event] }

def record (event : AuthEvent) : AuthProgram Unit := change fun s => s.record event

section Programs

variable (env : AuthEnv)

def readCacheFile : AuthProgram Json := do
  let _ ← lift env.configDir
  let s ← current
  lift (parseCache env.json s.cache)

def writeCacheFile (j : Json) : AuthProgram Unit := do
  let _ ← lift env.configDir
  let text ← lift (env.json.dump j)
  match env.dir.writeError with
  | some what => raise what
  | none => change fun s => { s.record (.wroteCache text) with cache := some text }

def deleteCacheFile : AuthProgram Unit := do
  let _ ← lift env.configDir
  match env.dir.removeError with
  | some what => raise what
  | none => change fun s => { s.record .deletedCache with cache := none }

def ask (url form : Bytes) : AuthProgram HttpResponse := do
  record (.asked url form)
  lift (env.post url form)

variable {env} {s : AuthState}

theorem ends_ask {url form : Bytes} {Q : HttpResponse → AuthState → Prop}
    {E : Bytes → AuthState → Prop}
    (hQ : ∀ resp, env.post url form = .ok resp → Q resp (s.record (.asked url form)))
    (hE : ∀ what, env.post url form = .error what → E what (s.record (.asked url form))) :
    Ends (ask env url form) s Q E := by
  rw [ask, ends_bind, record, ends_change, ends_lift, sat_iff]
  exact ⟨hQ, hE⟩

/-- A write leaves the text of the value in the cache, or throws. -/
theorem ends_writeCacheFile_of {j : Json} {Q : Unit → AuthState → Prop}
    {E : Bytes → AuthState → Prop} (hQ : ∀ text, env.json.dump j = .ok text →
      Q () { s.record (.wroteCache text) with cache := some text })
    (hE : ∀ what, E what s) : Ends (writeCacheFile env j) s Q E := by
  refine ends_lift_bind (fun _ _ => ?_) hE
  refine ends_lift_bind (fun text hdump => ?_) hE
  split
  · exact hE _
  · exact hQ text hdump

end Programs

/-! ## Programs and processes -/

section Plays

variable {α : Type} {s : AuthState}

/-- The program ends as the process does when it has the cache to itself. -/
def Plays (m : AuthProgram α) (p : CacheProcess α) (s : AuthState) : Prop :=
  ∃ trace, Steps s.cache p trace (m s).2.cache (.done (m s).1)

theorem plays_done {m : AuthProgram α} {outcome : Except Bytes α} {s' : AuthState}
    (hrun : m s = (outcome, s')) (hcache : s'.cache = s.cache) : Plays m (.done outcome) s := by
  refine ⟨[], ?_⟩
  rw [hrun, ← hcache]
  exact .refl _ _

theorem plays_act {Choice : Type} {m : AuthProgram α} {event : Choice → Option Bytes → CacheEvent}
    {next : Choice → Option Bytes → Option Bytes} {rest : Choice → Option Bytes → CacheProcess α}
    {outcome : Except Bytes α} (choice : Choice) (s' : AuthState) (hrun : m s = (outcome, s'))
    (hcache : s'.cache = next choice s.cache) (hrest : rest choice s.cache = .done outcome) :
    Plays m (.act event next rest) s := by
  refine ⟨[event choice s.cache], .head choice ?_⟩
  rw [hrun, hrest, hcache]
  exact .refl _ _

/-- A request is a step of the process, answered by the server. -/
theorem plays_ask {env : AuthEnv} {url form : Bytes} {f : HttpResponse → AuthProgram α}
    {rest : Except Bytes HttpResponse → CacheProcess α}
    (h : Plays (lift (env.post url form) >>= f) (rest (env.post url form))
      (s.record (.asked url form))) :
    Plays (ask env url form >>= f) (httpsPostUrl url form rest) s := by
  obtain ⟨trace, hsteps⟩ := h
  have hrun : (ask env url form >>= f) s =
      (lift (env.post url form) >>= f) (s.record (.asked url form)) := rfl
  rw [Plays, hrun]
  refine ⟨_ :: trace, .head (env.post url form) ?_⟩
  exact hsteps

theorem plays_writeCache {env : AuthEnv} {path : Bytes} {j : Json}
    (hdir : env.configDir = .ok path) :
    Plays (writeCacheFile env j) (writeCache env.json env.dir j fun outcome => .done outcome) s := by
  rw [writeCache]
  cases hdump : env.json.dump j with
  | error what =>
      refine plays_done ?_ rfl
      simp only [writeCacheFile, hdir, hdump, Bind.bind, lift]
  | ok text =>
      cases hwrite : env.dir.writeError with
      | some what =>
          refine plays_act () s ?_ rfl rfl
          simp only [writeCacheFile, hdir, hdump, hwrite, Bind.bind, lift, raise]
      | none =>
          refine plays_act () { s.record (.wroteCache text) with cache := some text } ?_ rfl rfl
          simp only [writeCacheFile, hdir, hdump, hwrite, Bind.bind, lift, change]

end Plays

/-! ## Silent refresh -/

section Refresh

variable (env : AuthEnv)

/-- The part of `try_cached_refresh` after the exchange. -/
def settleRefreshAlone : RefreshReply → AuthProgram Bytes
  | .throws what => raise what
  | .rejected => do
      deleteCacheFile env
      raise rejectedText
  | .token accessToken => pure accessToken
  | .rotated cache accessToken => do
      ignored (writeCacheFile env cache)
      return accessToken

/-- `try_cached_refresh`, with nobody else at the files. -/
def tryCachedRefreshAlone : AuthProgram Bytes := do
  let cache ← readCacheFile env
  match cache with
  | .object fields =>
      let request ← lift (refreshRequest (.object fields))
      match request with
      | none => return []
      | some request =>
          let resp ← ask env (tokenUrl request.tenant) request.form
          settleRefreshAlone env (refreshReply env.json (.object fields) request resp)
  | _ => return []

end Refresh

end AasSign
