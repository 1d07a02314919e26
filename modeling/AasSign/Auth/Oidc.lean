import AasSign.Auth.Query
import AasSign.Http.Url

/-! # Federated tokens

`oidc_fetch_azure_token`: a token of the workflow run is minted and exchanged for one of the
signing service. What the two servers answer is given from outside; the requests are kept in
a log.
-/

namespace AasSign

open Foundation Program

/-- A request of the flow. -/
inductive WebEvent where
  | fetched (url bearerToken : Bytes)
  | posted (url contentType body : Bytes)
  deriving DecidableEq

/-- What the servers and the JSON library answer. -/
structure WebEnv where
  json : JsonLibrary
  /-- `https_get_url`. -/
  get : Bytes → Bytes → Except Bytes HttpResponse
  /-- `https_post_url`. -/
  post : Bytes → Bytes → Bytes → Except Bytes HttpResponse

abbrev WebProgram (α : Type) := Program (List WebEvent) Bytes α

/-- What `add` makes of the form. -/
def addPair (form : Bytes) (pair : Bytes × Bytes) : Bytes :=
  (if form = [] then form else form ++ [38]) ++ pair.1 ++ [61] ++ urlEncode pair.2

/-- What the exchange says. -/
def oidcPairs (clientId jwt : Bytes) : List (Bytes × Bytes) :=
  [(ascii "client_id", clientId), (ascii "scope", scopeSign),
    (ascii "client_assertion_type", ascii "urn:ietf:params:oauth:client-assertion-type:jwt-bearer"),
    (ascii "client_assertion", jwt), (ascii "grant_type", ascii "client_credentials")]

def oidcForm (clientId jwt : Bytes) : Bytes := (oidcPairs clientId jwt).foldl addPair []

def formContentType : Bytes := ascii "application/x-www-form-urlencoded"

section Programs

variable (env : WebEnv)

def fetchUrl (url bearerToken : Bytes) : WebProgram HttpResponse := do
  change fun log => log ++ [.fetched url bearerToken]
  lift (env.get url bearerToken)

def postUrl (url contentType body : Bytes) : WebProgram HttpResponse := do
  change fun log => log ++ [.posted url contentType body]
  lift (env.post url contentType body)

/-- A string of a reply; what the JSON library says of another reply goes into the error. -/
def replyString (reply : HttpResponse) (key : Bytes) (error : String) : Except Bytes Bytes :=
  match env.json.parse reply.body >>= fun j => j.value key with
  | .ok s => .ok s
  | .error what => .error (ascii error ++ what)

/-- A status that is not 200. -/
def httpFailure (what : String) (reply : HttpResponse) : Bytes :=
  ascii what ++ ascii " (HTTP " ++ ascii (toString reply.status) ++ ascii "): " ++ reply.body

/-- `oidc_fetch_azure_token`. -/
def oidcFetchAzureToken (r : OidcRuntime) (clientId tenantId : Bytes) : WebProgram Bytes := do
  raiseIf (r.requestUrl = [] ∨ r.requestToken = [])
    (ascii ("OIDC requested but ACTIONS_ID_TOKEN_REQUEST_URL/" ++
      "ACTIONS_ID_TOKEN_REQUEST_TOKEN are not set.  This flow only " ++
      "works inside a GitHub Actions runner with id-token: write " ++
      "permission.  On a laptop, use --token or $AZURE_ACCESS_TOKEN."))
  let github ← fetchUrl env (mintUrl r.requestUrl) r.requestToken
  raiseIf (github.status ≠ 200) (httpFailure "GitHub OIDC mint failed" github)
  let jwt ← lift (replyString env github (ascii "value") "GitHub OIDC response not JSON: ")
  raiseIf (jwt = []) (ascii "GitHub OIDC response missing `value' field")
  let az ← postUrl env (tokenUrl tenantId) formContentType (oidcForm clientId jwt)
  raiseIf (az.status ≠ 200) (httpFailure "Azure token exchange failed" az)
  let token ← lift (replyString env az (ascii "access_token") "Azure token response not JSON: ")
  raiseIf (token = []) (ascii "Azure token response missing `access_token' field")
  return token

end Programs

/-! ## What is exchanged -/

/-- The pairs of a form, as the server that receives it reads them. -/
def readForm (form : Bytes) : List (Bytes × Bytes) := (parseQuery (63 :: form)).reverse

section Forms

variable {clientId jwt tenantId : Bytes} {pairs : List (Bytes × Bytes)}

theorem foldl_addPair {form : Bytes} (hform : form ≠ []) :
    pairs.foldl addPair form = form ++ pairs.flatMap fun pair => 38 :: formItem pair := by
  induction pairs generalizing form with
  | nil => simp
  | cons pair pairs ih =>
      have hstep : addPair form pair = form ++ 38 :: formItem pair := by
        simp [addPair, hform, formItem]
      rw [List.foldl_cons, hstep, ih (by simp), List.flatMap_cons, List.append_assoc]

theorem formEncode_cons (pair : Bytes × Bytes) (rest : List (Bytes × Bytes)) :
    formEncode (pair :: rest) = formItem pair ++ rest.flatMap fun pair => 38 :: formItem pair := by
  induction rest generalizing pair with
  | nil => simp [formEncode_eq]
  | cons next rest ih =>
      have hcons : formEncode (pair :: next :: rest) =
          formItem pair ++ 38 :: formEncode (next :: rest) := rfl
      rw [hcons, ih, List.flatMap_cons]
      rfl

/-- Pairs that are added one by one make the form of all of them. -/
theorem foldl_addPair_nil : pairs.foldl addPair [] = formEncode pairs := by
  cases pairs with
  | nil => rfl
  | cons pair pairs =>
      have hfirst : addPair [] pair = formItem pair := by simp [addPair, formItem]
      rw [List.foldl_cons, hfirst, foldl_addPair (formItem_ne_nil pair), formEncode_cons]

/-- A form is read as its pairs. -/
theorem readForm_formEncode (hkeys : ∀ key ∈ pairs.map Prod.fst, 38 ∉ key ∧ 61 ∉ key) :
    readForm (formEncode pairs) = pairs := by
  rw [readForm, ← List.nil_append (63 :: _), parseQuery_formEncode _ _ (by simp), List.reverse_reverse]
  · exact fun pair hpair => (hkeys pair.1 (List.mem_map_of_mem hpair)).1
  · exact fun pair hpair => (hkeys pair.1 (List.mem_map_of_mem hpair)).2

theorem readForm_oidcForm : readForm (oidcForm clientId jwt) = oidcPairs clientId jwt := by
  rw [oidcForm, foldl_addPair_nil]
  refine readForm_formEncode ?_
  simp only [oidcPairs, List.map_cons, List.map_nil]
  decide +kernel

/-- The exchange goes to the login server, whatever the tenant is called. -/
theorem tokenUrl_host (tenantId : Bytes) : parseHttpsUrl (tokenUrl tenantId) =
    .ok (ascii "login.microsoftonline.com", 47 :: tenantId ++ ascii "/oauth2/v2.0/token") := by
  have hurl : tokenUrl tenantId = httpsScheme ++
      (ascii "login.microsoftonline.com" ++ 47 :: (tenantId ++ ascii "/oauth2/v2.0/token")) := by
    have hfront : ascii "https://login.microsoftonline.com/" =
        httpsScheme ++ (ascii "login.microsoftonline.com" ++ [47]) := by decide +kernel
    rw [tokenUrl, hfront]
    simp
  have hslash : 47 ∉ ascii "login.microsoftonline.com" := by decide +kernel
  have hhost : dropPort (ascii "login.microsoftonline.com") = ascii "login.microsoftonline.com" := by
    decide +kernel
  obtain ⟨htake, hdrop⟩ := takeWhile_symbol hslash (tenantId ++ ascii "/oauth2/v2.0/token")
  rw [hurl, parseHttpsUrl_eq, htake, hdrop, hhost, if_pos (by simp)]
  rfl

end Forms

section Exchange

variable (env : WebEnv) (r : OidcRuntime) (clientId tenantId : Bytes)

/-- A reply carries a string. -/
def WebEnv.Carries (reply : HttpResponse) (key s : Bytes) : Prop :=
  reply.status = 200 ∧ s ≠ [] ∧ ∃ j, env.json.parse reply.body = .ok j ∧ j.field key = some (.string s)

/-- The token of the run that is minted. -/
def WebEnv.Mints (jwt : Bytes) : Prop :=
  ∃ github, env.get (mintUrl r.requestUrl) r.requestToken = .ok github ∧
    env.Carries github (ascii "value") jwt

/-- The token that it is exchanged for. -/
def WebEnv.Exchanges (jwt token : Bytes) : Prop :=
  ∃ az, env.post (tokenUrl tenantId) formContentType (oidcForm clientId jwt) = .ok az ∧
    env.Carries az (ascii "access_token") token

variable {env r clientId tenantId} {log : List WebEvent} {jwt token : Bytes}

theorem replyString_eq_ok {reply : HttpResponse} {key s : Bytes} {error : String} (hs : s ≠ []) :
    replyString env reply key error = .ok s ↔
      ∃ j, env.json.parse reply.body = .ok j ∧ j.field key = some (.string s) := by
  have hvalue : (env.json.parse reply.body >>= fun j => j.value key) = .ok s ↔
      ∃ j, env.json.parse reply.body = .ok j ∧ j.field key = some (.string s) := by
    rw [bind_eq_ok]
    exact exists_congr fun j => and_congr_right fun _ => Json.value_eq_ok hs
  rw [← hvalue, replyString]
  cases env.json.parse reply.body >>= fun j => j.value key <;> simp

theorem WebEnv.Carries.read {reply : HttpResponse} {key s : Bytes} (h : env.Carries reply key s)
    (error : String) : replyString env reply key error = .ok s :=
  (replyString_eq_ok h.2.1).mpr h.2.2

theorem WebEnv.Carries.unique {reply : HttpResponse} {key s t : Bytes}
    (h : env.Carries reply key s) (h' : env.Carries reply key t) : s = t := by
  obtain ⟨-, -, j, hparse, hfield⟩ := h
  obtain ⟨-, -, j', hparse', hfield'⟩ := h'
  obtain rfl : j = j' := Except.ok.inj (hparse.symm.trans hparse')
  exact Json.string.inj (Option.some.inj (hfield.symm.trans hfield'))

theorem WebEnv.Mints.unique {jwt' : Bytes} (h : env.Mints r jwt) (h' : env.Mints r jwt') :
    jwt = jwt' := by
  obtain ⟨github, hget, hcarries⟩ := h
  obtain ⟨github', hget', hcarries'⟩ := h'
  obtain rfl : github = github' := Except.ok.inj (hget.symm.trans hget')
  exact hcarries.unique hcarries'

theorem WebEnv.Exchanges.unique {token' : Bytes} (h : env.Exchanges clientId tenantId jwt token)
    (h' : env.Exchanges clientId tenantId jwt token') : token = token' := by
  obtain ⟨az, hpost, hcarries⟩ := h
  obtain ⟨az', hpost', hcarries'⟩ := h'
  obtain rfl : az = az' := Except.ok.inj (hpost.symm.trans hpost')
  exact hcarries.unique hcarries'

/-- A reply is gone on with exactly if it carries the string. -/
theorem ends_reply {reply : HttpResponse} {key failure missing : Bytes} {error : String}
    {f : Bytes → WebProgram Bytes} {Q : Bytes → List WebEvent → Prop}
    {E : Bytes → List WebEvent → Prop} (hgo : ∀ s, env.Carries reply key s → Ends (f s) log Q E)
    (hstop : (∀ s, ¬ env.Carries reply key s) → ∀ what, E what log) :
    Ends (raiseIf (reply.status ≠ 200) failure >>= fun _ =>
      lift (replyString env reply key error) >>= fun s =>
        raiseIf (s = []) missing >>= fun _ => f s) log Q E := by
  rw [ends_bind, ends_raiseIf]
  constructor
  · exact fun hstatus => hstop (fun s h => hstatus h.1) _
  · intro hstatus
    rw [ends_bind, ends_lift, sat_iff]
    constructor
    · intro s hs
      rw [ends_bind, ends_raiseIf]
      constructor
      · intro hempty
        refine hstop (fun t ht => ?_) _
        obtain rfl : s = t := Except.ok.inj (hs.symm.trans (ht.read error))
        exact ht.2.1 hempty
      · exact fun hne => hgo s ⟨not_not.mp hstatus, hne, (replyString_eq_ok hne).mp hs⟩
    · intro what hwhat
      refine hstop (fun t ht => ?_) what
      rw [ht.read error] at hwhat
      cases hwhat

/-- The runtime of the workflow offers a token. -/
def OidcRuntime.Offered (r : OidcRuntime) : Prop := r.requestUrl ≠ [] ∧ r.requestToken ≠ []

/-- The two requests of the flow. -/
def oidcRequests (r : OidcRuntime) (clientId tenantId jwt : Bytes) : List WebEvent :=
  [.fetched (mintUrl r.requestUrl) r.requestToken,
    .posted (tokenUrl tenantId) formContentType (oidcForm clientId jwt)]

/-- The requests that may have been made when there is no token: none, the first one, or both
if the first one was answered with a token of the run. -/
def WebEnv.Begun (env : WebEnv) (r : OidcRuntime) (clientId tenantId : Bytes) (events : List WebEvent) :
    Prop :=
  events = [] ∨ events = [.fetched (mintUrl r.requestUrl) r.requestToken] ∨
    ∃ jwt, env.Mints r jwt ∧ events = oidcRequests r clientId tenantId jwt

theorem oidc_ends (env : WebEnv) (r : OidcRuntime) (clientId tenantId : Bytes)
    (log : List WebEvent) : Ends (oidcFetchAzureToken env r clientId tenantId) log
    (fun token log' => r.Offered ∧ ∃ jwt, env.Mints r jwt ∧
      env.Exchanges clientId tenantId jwt token ∧ log' = log ++ oidcRequests r clientId tenantId jwt)
    fun _ log' => (∀ jwt token, r.Offered → env.Mints r jwt →
        ¬ env.Exchanges clientId tenantId jwt token) ∧
      ∃ events, log' = log ++ events ∧ env.Begun r clientId tenantId events := by
  rw [oidcFetchAzureToken, ends_bind, ends_raiseIf]
  constructor
  · intro hunset
    refine ⟨fun jwt token hoffered => absurd hunset (not_or.mpr hoffered), [], ?_, .inl rfl⟩
    exact (List.append_nil log).symm
  · intro hset
    have hoffered : r.Offered := not_or.mp hset
    rw [ends_bind, fetchUrl, ends_bind, ends_change, ends_lift, sat_iff]
    constructor
    · intro github hget
      apply ends_reply
      · intro jwt hjwt
        have hmints : env.Mints r jwt := ⟨github, hget, hjwt⟩
        have hboth : env.Begun r clientId tenantId (oidcRequests r clientId tenantId jwt) :=
          .inr (.inr ⟨jwt, hmints, rfl⟩)
        rw [ends_bind, postUrl, ends_bind, ends_change, ends_lift, sat_iff, List.append_assoc]
        constructor
        · intro az hpost
          apply ends_reply
          · intro token htoken
            exact ⟨hoffered, jwt, hmints, ⟨az, hpost, htoken⟩, rfl⟩
          · intro hnone what
            refine ⟨fun jwt' token _ hmints' hexchanges => ?_, _, rfl, hboth⟩
            obtain rfl := hmints.unique hmints'
            obtain ⟨az', hpost', hcarries⟩ := hexchanges
            obtain rfl : az = az' := Except.ok.inj (hpost.symm.trans hpost')
            exact hnone token hcarries
        · intro what hpost
          refine ⟨fun jwt' token _ hmints' hexchanges => ?_, _, rfl, hboth⟩
          obtain rfl := hmints.unique hmints'
          obtain ⟨az', hpost', -⟩ := hexchanges
          rw [hpost] at hpost'
          cases hpost'
      · intro hnone what
        refine ⟨fun jwt token _ hmints => ?_, _, rfl, .inr (.inl rfl)⟩
        obtain ⟨github', hget', hcarries⟩ := hmints
        obtain rfl : github = github' := Except.ok.inj (hget.symm.trans hget')
        exact absurd hcarries (hnone jwt)
    · intro what hget
      refine ⟨fun jwt token _ hmints => ?_, _, rfl, .inr (.inl rfl)⟩
      obtain ⟨github', hget', -⟩ := hmints
      rw [hget] at hget'
      cases hget'

/-- There is a token exactly if the runtime offers one, its server mints it, and the login
server exchanges it. -/
theorem oidc_eq_ok : (oidcFetchAzureToken env r clientId tenantId log).1 = .ok token ↔
    r.Offered ∧ ∃ jwt, env.Mints r jwt ∧ env.Exchanges clientId tenantId jwt token := by
  have hends := oidc_ends env r clientId tenantId log
  constructor
  · intro hok
    obtain ⟨log', hrun⟩ := exists_run hok
    obtain ⟨hoffered, jwt, hmints, hexchanges, -⟩ := hends.of_ok hrun
    exact ⟨hoffered, jwt, hmints, hexchanges⟩
  · rintro ⟨hoffered, jwt, hmints, hexchanges⟩
    rcases hrun : oidcFetchAzureToken env r clientId tenantId log with ⟨outcome, log'⟩
    cases outcome with
    | error what => exact absurd hexchanges ((hends.of_error hrun).1 jwt token hoffered hmints)
    | ok token' =>
        obtain ⟨-, jwt', hmints', hexchanges', -⟩ := hends.of_ok hrun
        obtain rfl := hmints.unique hmints'
        rw [hexchanges.unique hexchanges']

end Exchange

/-- The flow returns a token exactly if the runtime offers one, its server mints it and the login
server exchanges it. However it ends, it has made no request, the first one, or both, the second
one only with a minted token, which goes to the login server whatever the tenant is called, in a
form that is read as the five pairs. -/
theorem oidcFetchAzureToken_run (env : WebEnv) (r : OidcRuntime) (clientId tenantId : Bytes)
    (log : List WebEvent) :
    (∀ token, (oidcFetchAzureToken env r clientId tenantId log).1 = .ok token ↔
      r.Offered ∧ ∃ jwt, env.Mints r jwt ∧ env.Exchanges clientId tenantId jwt token) ∧
    (∃ events, (oidcFetchAzureToken env r clientId tenantId log).2 = log ++ events ∧
      env.Begun r clientId tenantId events) ∧
    (∀ jwt, readForm (oidcForm clientId jwt) = oidcPairs clientId jwt) ∧
    ∃ target, parseHttpsUrl (tokenUrl tenantId) = .ok (ascii "login.microsoftonline.com", target) := by
  refine ⟨fun token => oidc_eq_ok, ?_, fun jwt => readForm_oidcForm, _, tokenUrl_host tenantId⟩
  have hmoves : Moves (fun log log' => ∃ events, log' = log ++ events ∧
      env.Begun r clientId tenantId events) (oidcFetchAzureToken env r clientId tenantId) := by
    intro log
    apply (oidc_ends env r clientId tenantId log).mono
    · rintro token log' ⟨-, jwt, hmints, -, hlog⟩
      exact ⟨_, hlog, .inr (.inr ⟨jwt, hmints, rfl⟩)⟩
    · exact fun _ _ => And.right
  exact moves_iff.mp hmoves log

end AasSign
