import AasSign.Foundation.Outcome
import AasSign.Foundation.Process
import AasSign.Auth.Json
import AasSign.Http.Response

/-! # The token cache

`try_cached_refresh`, `login_main` from the token exchange on, and `logout_main`,
as processes over the cache file. Reading the cache, one HTTP exchange, writing
the cache and deleting it are the atomic steps.
-/

namespace AasSign

open Foundation

/-- What a step does to the cache file or to the network. -/
inductive CacheEvent where
  | read (contents : Option Bytes)
  | exchanged (url form : Bytes) (outcome : Except Bytes HttpResponse)
  | wrote (body : Bytes)
  | deleted
  | failed
  deriving DecidableEq

/-- The step changed the cache file. -/
def CacheEvent.Modifies : CacheEvent → Prop
  | .wrote _ => True
  | .deleted => True
  | _ => False

/-- Whether writing and removing files fail in the configuration directory, and
with which text. -/
structure ConfigDir where
  writeError : Option Bytes
  removeError : Option Bytes

/-- A process over the cache file that returns, or throws with a text. -/
abbrev CacheProcess (α : Type) := Process CacheEvent (Option Bytes) (Except Bytes α)

def defaultTenant : Bytes := ascii "fd996ec3-65fc-49a8-a18b-2f8fd65d7b2d"

def scopeSign : Bytes := ascii "https://codesigning.azure.net/.default"

def tokenUrl (tenant : Bytes) : Bytes :=
  ascii "https://login.microsoftonline.com/" ++ tenant ++ ascii "/oauth2/v2.0/token"

section Steps

variable {α : Type} (json : JsonLibrary) (dir : ConfigDir)

/-- The value in the cache file, null if there is no file. -/
def parseCache (contents : Option Bytes) : Except Bytes Json :=
  match contents with
  | none => .ok .null
  | some bytes =>
      match json.extract bytes with
      | .ok j => .ok j
      | .error what => .error (ascii "cache file is corrupted (" ++ what ++
          ascii "); run `aas-sign login` again")

def readCache (rest : Except Bytes Json → CacheProcess α) : CacheProcess α :=
  .act (fun (_ : Unit) contents => .read contents) (fun _ contents => contents)
    (fun _ contents => rest (parseCache json contents))

/-- `https_post_url`; the server, or the network, chooses the outcome. -/
def httpsPostUrl (url form : Bytes) (rest : Except Bytes HttpResponse → CacheProcess α) :
    CacheProcess α :=
  .act (fun (outcome : Except Bytes HttpResponse) _ => .exchanged url form outcome)
    (fun _ contents => contents) (fun outcome _ => rest outcome)

def writeCache (j : Json) (rest : Except Bytes Unit → CacheProcess α) : CacheProcess α :=
  match json.dump j with
  | .error what => rest (.error what)
  | .ok body =>
      match dir.writeError with
      | some what => .act (fun (_ : Unit) _ => .failed) (fun _ contents => contents)
          (fun _ _ => rest (.error what))
      | none => .act (fun (_ : Unit) _ => .wrote body) (fun _ _ => some body)
          (fun _ _ => rest (.ok ()))

def deleteCache (rest : Except Bytes Unit → CacheProcess α) : CacheProcess α :=
  match dir.removeError with
  | some what => .act (fun (_ : Unit) _ => .failed) (fun _ contents => contents)
      (fun _ _ => rest (.error what))
  | none => .act (fun (_ : Unit) _ => .deleted) (fun _ _ => none) (fun _ _ => rest (.ok ()))

end Steps

theorem parseCache_some {json : JsonLibrary} {contents : Bytes} {j : Json} :
    parseCache json (some contents) = .ok j ↔ json.extract contents = .ok j := by
  rw [parseCache]
  cases json.extract contents <;> simp

/-! ## Silent refresh -/

structure RefreshRequest where
  refreshToken : Bytes
  clientId : Bytes
  tenant : Bytes
  deriving DecidableEq

/-- What the cache asks for, if it holds a token. -/
def refreshRequest (cache : Json) : Except Bytes (Option RefreshRequest) := do
  let refreshToken ← cache.value (ascii "refresh_token")
  let clientId ← cache.value (ascii "client_id")
  let tenantId ← cache.value (ascii "tenant_id")
  if refreshToken = [] ∨ clientId = [] then
    return none
  else
    -- If tenant wasn't captured (older cache), fall back to the default.
    let tenant := if tenantId = [] then defaultTenant else tenantId
    return some { refreshToken, clientId, tenant }

def RefreshRequest.form (request : RefreshRequest) : Bytes :=
  formEncode [(ascii "client_id", request.clientId), (ascii "grant_type", ascii "refresh_token"),
    (ascii "refresh_token", request.refreshToken), (ascii "scope", scopeSign)]

/-- What a response makes of the refresh. -/
inductive RefreshReply where
  | throws (what : Bytes)
  | rejected
  | token (accessToken : Bytes)
  | rotated (cache : Json) (accessToken : Bytes)

section Refresh

variable (json : JsonLibrary) (dir : ConfigDir)

/-- The error code of a failed request, empty if the body has none. -/
def errorCode (body : Bytes) : Bytes :=
  match json.parse body with
  | .error _ => []
  | .ok j =>
      match j.value (ascii "error") with
      | .error _ => []
      | .ok code => code

/-- The branches after a 200 response. -/
def acceptedReply (cache : Json) (request : RefreshRequest) (body : Bytes) :
    Except Bytes RefreshReply := do
  let body ← json.parse body
  let accessToken ← body.value (ascii "access_token")
  let newRefresh ← body.value (ascii "refresh_token")
  if accessToken = [] then
    throw (ascii "no access_token in refresh response")
  else if newRefresh ≠ [] ∧ newRefresh ≠ request.refreshToken then
    return .rotated (cache.set (ascii "refresh_token") (.string newRefresh)) accessToken
  else
    return .token accessToken

def refreshReply (cache : Json) (request : RefreshRequest) (resp : HttpResponse) : RefreshReply :=
  if resp.status ≠ 200 then
    if errorCode json resp.body = ascii "invalid_grant" then .rejected
    else .throws (ascii "token refresh failed (HTTP " ++ ascii (toString resp.status) ++
      ascii "): " ++ resp.body)
  else
    match acceptedReply json cache request resp.body with
    | .error what => .throws what
    | .ok reply => reply

def rejectedText : Bytes :=
  ascii "cached refresh token was rejected (revoked or expired); run `aas-sign login` to sign in again"

/-- The part after the exchange. -/
def settleRefresh : RefreshReply → CacheProcess Bytes
  | .throws what => .done (.error what)
  | .rejected => deleteCache dir fun
      | .error what => .done (.error what)
      | .ok _ => .done (.error rejectedText)
  | .token accessToken => .done (.ok accessToken)
  -- A failed write is not fatal.
  | .rotated cache accessToken => writeCache json dir cache fun _ => .done (.ok accessToken)

/-- The part after the cache is read. -/
def refreshFrom : Except Bytes Json → CacheProcess Bytes
  | .error what => .done (.error what)
  | .ok (.object fields) =>
      match refreshRequest (.object fields) with
      | .error what => .done (.error what)
      | .ok none => .done (.ok [])
      | .ok (some request) => httpsPostUrl (tokenUrl request.tenant) request.form fun
          | .error what => .done (.error what)
          | .ok resp => settleRefresh json dir (refreshReply json (.object fields) request resp)
  | .ok _ => .done (.ok [])

def tryCachedRefresh : CacheProcess Bytes := readCache json (refreshFrom json dir)

end Refresh

/-! ### Requests and replies -/

section Replies

variable {json : JsonLibrary} {cache : Json} {request : RefreshRequest} {resp : HttpResponse}

/-- A cache that asks for a refresh holds a token and the client that it is for. -/
theorem refreshRequest_eq_some (h : refreshRequest cache = .ok (some request)) :
    (request.refreshToken ≠ [] ∧
      cache.field (ascii "refresh_token") = some (.string request.refreshToken)) ∧
    (request.clientId ≠ [] ∧ cache.field (ascii "client_id") = some (.string request.clientId)) := by
  unfold refreshRequest at h
  obtain ⟨refreshToken, hrefresh, h⟩ := bind_eq_ok.mp h
  obtain ⟨clientId, hclient, h⟩ := bind_eq_ok.mp h
  obtain ⟨tenantId, -, h⟩ := bind_eq_ok.mp h
  split at h
  · cases h
  next hheld =>
    obtain ⟨hrefresh', hclient'⟩ := not_or.mp hheld
    cases h
    exact ⟨⟨hrefresh', (Json.value_eq_ok hrefresh').mp hrefresh⟩,
      ⟨hclient', (Json.value_eq_ok hclient').mp hclient⟩⟩

/-- The error code is a string in the body, or empty. -/
theorem errorCode_eq {body code : Bytes} (hcode : code ≠ []) : errorCode json body = code ↔
    ∃ reply, json.parse body = .ok reply ∧ reply.field (ascii "error") = some (.string code) := by
  unfold errorCode
  cases json.parse body with
  | error what => simpa using fun h : [] = code => hcode h.symm
  | ok reply =>
      simp only [Except.ok.injEq, exists_eq_left', ← Json.value_eq_ok hcode]
      cases reply.value (ascii "error") with
      | error what => simpa using fun h : [] = code => hcode h.symm
      | ok s => simp

/-- The token that a response leaves in the cache: its own, when it is a string that is not
empty. -/
def rotatedToken (reply : Json) (held : Bytes) : Bytes :=
  match reply.field (ascii "refresh_token") with
  | some (.string new) => if new = [] then held else new
  | _ => held

/-- What a 200 response makes of a refresh that does not throw. -/
theorem acceptedReply_eq_ok {body : Bytes} {out : RefreshReply}
    (h : acceptedReply json cache request body = .ok out) :
    ∃ reply accessToken, json.parse body = .ok reply ∧ accessToken ≠ [] ∧
      reply.field (ascii "access_token") = some (.string accessToken) ∧
      (out = .token accessToken ∧ rotatedToken reply request.refreshToken = request.refreshToken ∨
        ∃ new, new ≠ [] ∧ new ≠ request.refreshToken ∧
          reply.field (ascii "refresh_token") = some (.string new) ∧
          out = .rotated (cache.set (ascii "refresh_token") (.string new)) accessToken) := by
  unfold acceptedReply at h
  obtain ⟨reply, hparse, h⟩ := bind_eq_ok.mp h
  obtain ⟨accessToken, haccess, h⟩ := bind_eq_ok.mp h
  obtain ⟨new, hnew, h⟩ := bind_eq_ok.mp h
  by_cases hempty : accessToken = []
  · rw [if_pos hempty] at h
    cases h
  · rw [if_neg hempty] at h
    refine ⟨reply, accessToken, hparse, hempty, (Json.value_eq_ok hempty).mp haccess, ?_⟩
    by_cases hrotated : new ≠ [] ∧ new ≠ request.refreshToken
    · rw [if_pos hrotated] at h
      exact .inr ⟨new, hrotated.1, hrotated.2, (Json.value_eq_ok hrotated.1).mp hnew,
        (Except.ok.inj h).symm⟩
    · rw [if_neg hrotated] at h
      refine .inl ⟨(Except.ok.inj h).symm, ?_⟩
      obtain ⟨-, hfield | ⟨hfield, -⟩⟩ := Json.field_of_value hnew
      · rw [rotatedToken, hfield]
        by_cases hnil : new = []
        · exact if_pos hnil
        · exact (if_neg hnil).trans (not_not.mp fun hother => hrotated ⟨hnil, hother⟩)
      · rw [rotatedToken, hfield]

theorem refreshReply_eq_rejected : refreshReply json cache request resp = .rejected ↔
    resp.status ≠ 200 ∧ ∃ reply, json.parse resp.body = .ok reply ∧
      reply.field (ascii "error") = some (.string (ascii "invalid_grant")) := by
  rw [← errorCode_eq (by decide +kernel)]
  unfold refreshReply
  split
  next hstatus =>
    split
    next hcode => exact iff_of_true rfl ⟨hstatus, hcode⟩
    next hcode => exact iff_of_false (by simp) fun h => hcode h.2
  next hstatus =>
    refine iff_of_false ?_ fun h => hstatus h.1
    split
    · simp
    next out hout =>
      rintro rfl
      obtain ⟨reply, accessToken, -, -, -, ⟨hout, -⟩ | ⟨new, -, -, -, hout⟩⟩ :=
        acceptedReply_eq_ok hout <;> cases hout

/-- A reply that is neither an exception nor a rejection is made of a 200 response. -/
theorem refreshReply_accepted {out : RefreshReply} (h : refreshReply json cache request resp = out)
    (hthrows : ∀ what, out ≠ .throws what) (hrejected : out ≠ .rejected) :
    resp.status = 200 ∧ acceptedReply json cache request resp.body = .ok out := by
  subst h
  unfold refreshReply at hthrows hrejected ⊢
  split at hthrows
  next hstatus =>
    split at hthrows
    next hcode => simp [hstatus, hcode] at hrejected
    next => exact absurd rfl (hthrows _)
  next hstatus =>
    rw [if_neg hstatus]
    refine ⟨not_not.mp hstatus, ?_⟩
    split at hthrows
    · exact absurd rfl (hthrows _)
    · assumption

end Replies

/-! ## Login, from the token exchange on -/

/-- What the browser part of a login hands to the token exchange. -/
structure LoginSession where
  tenant : Bytes
  clientId : Bytes
  code : Bytes
  redirectUri : Bytes
  verifier : Bytes

def LoginSession.form (session : LoginSession) : Bytes :=
  formEncode [(ascii "client_id", session.clientId),
    (ascii "grant_type", ascii "authorization_code"), (ascii "code", session.code),
    (ascii "redirect_uri", session.redirectUri), (ascii "code_verifier", session.verifier),
    (ascii "scope", scopeSign ++ ascii " offline_access")]

structure Identity where
  tenantId : Bytes
  oid : Bytes
  username : Bytes

section Login

variable (json : JsonLibrary) (dir : ConfigDir)

/-- The claims of an id token, null when it cannot be read. -/
def decodeJwtPayload (jwt : Bytes) : Json :=
  match jwt.dropWhile (· ≠ 46) with
  | [] => .null
  | _ :: rest =>
      if (46 : UInt8) ∈ rest then
        match json.parse (base64urlDecode (rest.takeWhile (· ≠ 46))) with
        | .ok claims => claims
        | .error _ => .null
      else .null

def identity (claims : Json) : Except Bytes Identity :=
  match claims with
  | .object fields => do
      let claims := Json.object fields
      let tenantId ← claims.value (ascii "tid")
      let oid ← claims.value (ascii "oid")
      let username ← claims.value (ascii "preferred_username")
      let username ← if username = [] then claims.value (ascii "upn") else pure username
      let username ← if username = [] then claims.value (ascii "email") else pure username
      return { tenantId, oid, username := if username = [] then ascii "unknown" else username }
  | _ => return { tenantId := [], oid := [], username := ascii "unknown" }

/-- The cache that a token response makes. -/
def loginCache (session : LoginSession) (resp : HttpResponse) : Except Bytes Json := do
  if resp.status ≠ 200 then
    throw (ascii "token exchange failed (HTTP " ++ ascii (toString resp.status) ++ ascii "): " ++
      resp.body)
  let body ← json.parse resp.body
  let refreshToken ← body.value (ascii "refresh_token")
  let idToken ← body.value (ascii "id_token")
  if refreshToken = [] then
    throw (ascii "no refresh_token in token response")
  let who ← identity (if idToken = [] then .null else decodeJwtPayload json idToken)
  let cache := Json.null
    |>.set (ascii "version") (.number (ascii "1"))
    |>.set (ascii "tenant_id") (.string who.tenantId)
    |>.set (ascii "client_id") (.string session.clientId)
    |>.set (ascii "home_account_id")
      (.string (if who.oid = [] then [] else who.oid ++ ascii "." ++ who.tenantId))
    |>.set (ascii "username") (.string who.username)
    |>.set (ascii "refresh_token") (.string refreshToken)
  return cache

def loginMain (session : LoginSession) : CacheProcess Unit :=
  httpsPostUrl (tokenUrl session.tenant) session.form fun
    | .error what => .done (.error what)
    | .ok resp =>
        match loginCache json session resp with
        | .error what => .done (.error what)
        | .ok cache => writeCache json dir cache fun outcome => .done outcome

end Login

/-! ## Logout -/

/-- `ifstream test(p)`, then the removal if the file was there. Any argument
prints a text and stops. -/
def logoutMain (dir : ConfigDir) (args : List Bytes) : CacheProcess Int :=
  match args with
  | arg :: _ =>
      if arg = ascii "--help" ∨ arg = ascii "-h" then .done (.ok 0) else .done (.ok 1)
  | [] =>
      .act (fun (_ : Unit) contents => .read contents) (fun _ contents => contents)
        fun _ contents =>
          if contents.isSome then
            deleteCache dir fun removed => .done (removed.map fun _ => 0)
          else .done (.ok 0)

end AasSign
