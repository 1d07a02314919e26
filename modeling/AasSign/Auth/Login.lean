import AasSign.Auth.Session

/-! # Login

`login_main` from its arguments on: the options, the redirect of the browser, the
token exchange, and the two files, written one after the other. What the user,
the browser and the platform do is a parameter.
-/

namespace AasSign

open Foundation Program

/-! ## Arguments -/

/-- A signer tuple, the region expanded to a host. -/
structure SignerTuple where
  endpoint : Bytes
  account : Bytes
  profile : Bytes
  deriving DecidableEq

def trustedSigningDomain : Bytes := ascii ".codesigning.azure.net"

def parseSignerTuple (s : Bytes) : Except Bytes SignerTuple :=
  let fail (why : String) : Except Bytes SignerTuple :=
    .error (ascii "invalid signer tuple \"" ++ s ++ ascii "\": " ++ ascii why ++
      ascii " (expected REGION:ACCOUNT:PROFILE)")
  match findFrom [58] s 0 with
  | none => fail "missing ':' separator"
  | some a =>
      match findFrom [58] s (a + 1) with
      | none => fail "missing second ':' separator"
      | some b =>
          let region := s.take a
          let account := (s.drop (a + 1)).take (b - a - 1)
          let profile := s.drop (b + 1)
          if (findFrom [58] s (b + 1)).isSome then fail "too many ':' separators"
          else if region = [] then fail "empty region"
          else if account = [] then fail "empty account"
          else if profile = [] then fail "empty profile"
          -- A region without a dot is a label of the signing domain.
          else if 46 ∈ region then .ok { endpoint := region, account, profile }
          else .ok { endpoint := region ++ trustedSigningDomain, account, profile }

def defaultClientId : Bytes := ascii "04b07795-8ddb-461a-bbee-02f9e1bf7b46"

structure LoginOptions where
  tenant : Bytes
  clientId : Bytes
  endpoint : Bytes
  account : Bytes
  profile : Bytes
  /-- The positional tuple, empty without one. -/
  tuple : Bytes
  individualFlagsUsed : Bool
  deriving DecidableEq

def LoginOptions.default : LoginOptions where
  tenant := defaultTenant
  clientId := defaultClientId
  endpoint := []
  account := []
  profile := []
  tuple := []
  individualFlagsUsed := false

/-- Why the arguments are not those of a login. -/
inductive ArgsStop where
  | help
  | unknown (arg : Bytes)
  deriving DecidableEq

/-- An option that takes a value. -/
def LoginOptions.withFlag (o : LoginOptions) (arg value : Bytes) : Option LoginOptions :=
  if arg = ascii "--tenant" then some { o with tenant := value }
  else if arg = ascii "--client-id" then some { o with clientId := value }
  else if arg = ascii "--endpoint" then
    some { o with endpoint := value, individualFlagsUsed := true }
  else if arg = ascii "--account" then
    some { o with account := value, individualFlagsUsed := true }
  else if arg = ascii "--profile" then
    some { o with profile := value, individualFlagsUsed := true }
  else none

/-- An argument on its own. -/
def LoginOptions.withArg (o : LoginOptions) (arg : Bytes) : Except ArgsStop LoginOptions :=
  if arg = ascii "--help" ∨ arg = ascii "-h" then .error .help
  else if arg.head? ≠ some 45 ∧ o.tuple = [] then .ok { o with tuple := arg }
  else .error (.unknown arg)

/-- The arguments behind `login`. The last one is never an option that takes a value. -/
def parseLoginArgs (o : LoginOptions) : List Bytes → Except ArgsStop LoginOptions
  | [] => .ok o
  | [arg] => o.withArg arg
  | arg :: value :: rest =>
      match o.withFlag arg value with
      | some o' => parseLoginArgs o' rest
      | none =>
          match o.withArg arg with
          | .error stop => .error stop
          | .ok o' => parseLoginArgs o' (value :: rest)

/-- The defaults to save: those of the tuple, or those of the options. -/
def LoginOptions.defaults (o : LoginOptions) : Except Bytes SignerTuple :=
  if o.tuple = [] then .ok { endpoint := o.endpoint, account := o.account, profile := o.profile }
  else if o.individualFlagsUsed then
    .error (ascii ("positional REGION:ACCOUNT:PROFILE is mutually exclusive with " ++
      "--endpoint/--account/--profile"))
  else parseSignerTuple o.tuple

/-! ## The redirect -/

/-- The value of a digit after a percent sign; what is not a digit counts as zero. -/
def queryDigit (c : UInt8) : UInt8 :=
  if isDigit c then c - 48
  else if 97 ≤ c ∧ c ≤ 102 then c - 97 + 10
  else if 65 ≤ c ∧ c ≤ 70 then c - 65 + 10
  else 0

def decodeQueryValue : Bytes → Bytes
  | 43 :: rest => 32 :: decodeQueryValue rest
  | 37 :: high :: low :: rest =>
      (queryDigit high <<< 4 ||| queryDigit low) :: decodeQueryValue rest
  | c :: rest => c :: decodeQueryValue rest
  | [] => []

/-- The pairs of a query string; nothing follows a separator at its end. -/
def queryPairs (qs : Bytes) : List Bytes :=
  match (qs.splitOn 38).reverse with
  | [] :: before => before.reverse
  | _ => qs.splitOn 38

/-- `parse_query`: the value of a key is the one that comes last. -/
def parseQuery (target : Bytes) : List (Bytes × Bytes) :=
  match target.dropWhile (· ≠ 63) with
  | [] => []
  | _ :: qs =>
      (queryPairs qs).foldl (fun q pair =>
        (pair.takeWhile (· ≠ 61), decodeQueryValue ((pair.dropWhile (· ≠ 61)).drop 1)) :: q) []

/-- A page for the browser and a line for the user. -/
structure Refusal where
  html : Bytes
  message : Bytes

/-- The code of a redirect that answers to this state. -/
def redirectCode (q : List (Bytes × Bytes)) (state : Bytes) : Except Refusal Bytes :=
  match q.lookup (ascii "error") with
  | some error =>
      let description :=
        match q.lookup (ascii "error_description") with
        | some description => ascii " -- " ++ description
        | none => []
      .error
        { html := ascii ("<!doctype html><meta charset=utf-8>" ++
            "<p>aas-sign login failed. You can close this window.")
          message := ascii "authorization failed: " ++ error ++ description }
  | none =>
      match q.lookup (ascii "code"), q.lookup (ascii "state") with
      | some code, some received =>
          if received ≠ state then
            .error
              { html := ascii ("<!doctype html><meta charset=utf-8>" ++
                  "<p>State mismatch. You can close this window.")
                message := ascii "state mismatch: possible CSRF, aborting" }
          else .ok code
      | _, _ =>
          .error
            { html := ascii ("<!doctype html><meta charset=utf-8>" ++
                "<p>Missing code or state. You can close this window.")
              message := ascii "authorization response missing code/state" }

def signedInHtml : Bytes :=
  ascii ("<!doctype html><meta charset=utf-8><title>aas-sign</title><h1>Signed in.</h1>" ++
    "<p>You can close this window.")

/-! ## Login -/

/-- What a login meets besides the server. -/
structure LoginEnv extends AuthEnv where
  /-- The 32 random octets of the verifier. -/
  verifierBytes : Except Bytes Bytes
  /-- The 16 random octets of the state. -/
  stateBytes : Except Bytes Bytes
  sha256 : Bytes → Bytes
  /-- The port of the loopback server. -/
  port : Except Bytes Nat
  launchBrowser : Bytes → Except Bytes Unit
  /-- The target of the request that the loopback server accepts. -/
  acceptRequest : Except Bytes Bytes
  respond : Bytes → Except Bytes Unit

/-- The page to open in the browser. -/
def authorizeUrl (options : LoginOptions) (redirectUri state challenge : Bytes) : Bytes :=
  ascii "https://login.microsoftonline.com/" ++ options.tenant ++
    ascii "/oauth2/v2.0/authorize?client_id=" ++ urlEncode options.clientId ++
    ascii "&response_type=code&redirect_uri=" ++ urlEncode redirectUri ++
    ascii "&response_mode=query&scope=" ++ urlEncode (scopeSign ++ ascii " offline_access") ++
    ascii "&state=" ++ state ++ ascii "&code_challenge=" ++ challenge ++
    ascii "&code_challenge_method=S256"

section Login

variable (env : LoginEnv)

def answer (html : Bytes) : AuthProgram Unit := do
  record (.responded html)
  lift (env.respond html)

/-- A browser that cannot be opened is no reason to stop. -/
def openBrowser (url : Bytes) : AuthProgram Unit :=
  match env.launchBrowser url with
  | .ok _ => record (.launched url)
  | .error what => record (.told (ascii "(warning: " ++ what ++ ascii ")\n"))

/-- The part before the exchange; no session when the redirect is refused. -/
def authorize (options : LoginOptions) : AuthProgram (Option LoginSession) := do
  let verifierBytes ← lift env.verifierBytes
  let verifier := base64urlEncode verifierBytes
  let challenge := base64urlEncode (env.sha256 verifier)
  let stateBytes ← lift env.stateBytes
  let state := hexEncode stateBytes
  let port ← lift env.port
  let redirectUri := ascii "http://localhost:" ++ ascii (toString port)
  let url := authorizeUrl options redirectUri state challenge
  record (.told (ascii "Opening browser to sign in...\n" ++
    ascii "If it doesn't open automatically, visit:\n  " ++ url ++ ascii "\n"))
  openBrowser env url
  let target ← lift env.acceptRequest
  match redirectCode (parseQuery target) state with
  | .error refusal =>
      answer env refusal.html
      record (.told (refusal.message ++ ascii "\n"))
      return none
  | .ok code =>
      answer env signedInHtml
      return some
        { tenant := options.tenant, clientId := options.clientId, code, redirectUri, verifier }

/-- The exchange and the write of the token cache, whose value is returned. -/
def redeemCode (session : LoginSession) : AuthProgram Json := do
  let resp ← ask env.toAuthEnv (tokenUrl session.tenant) session.form
  let cache ← lift (loginCache env.json session resp)
  writeCacheFile env.toAuthEnv cache
  return cache

/-- The configuration before the merge: an empty object, if the file holds none. -/
def readConfig (json : JsonLibrary) (contents : Option Bytes) : Json :=
  match contents with
  | none => .object []
  | some bytes =>
      match json.extract bytes with
      | .ok (.object fields) => .object fields
      | _ => .object []

/-- Set a field, unless the value is empty. -/
def Json.setUnlessEmpty (j : Json) (key value : Bytes) : Json :=
  if value = [] then j else j.set key (.string value)

def mergeDefaults (cfg : Json) (defaults : SignerTuple) : Json :=
  cfg.setUnlessEmpty (ascii "endpoint") defaults.endpoint
    |>.setUnlessEmpty (ascii "account") defaults.account
    |>.setUnlessEmpty (ascii "profile") defaults.profile

def saveSigningDefaults (defaults : SignerTuple) : AuthProgram Unit :=
  if defaults.endpoint = [] ∧ defaults.account = [] ∧ defaults.profile = [] then pure ()
  else do
    let dir ← lift env.configDir
    let s ← current
    let text ← lift (env.json.dump (mergeDefaults (readConfig env.json s.config) defaults))
    match env.configError with
    | some what => raise what
    | none => change fun s => { s.record (.wroteConfig text) with config := some text }
    record (.told (ascii "Saved signing defaults to " ++ dir ++ ascii "/config.json\n"))

/-- The name that a login greets. -/
def Json.username (cache : Json) : Bytes :=
  match cache.field (ascii "username") with
  | some (.string name) => name
  | _ => []

/-- The part of `login_main` from the exchange on. -/
def finishLogin (session : LoginSession) (defaults : SignerTuple) : AuthProgram Int := do
  let cache ← redeemCode env session
  let dir ← lift env.configDir
  record (.told (ascii "Logged in as " ++ cache.username ++ ascii ".\nCache: " ++ dir ++
    ascii "/token-cache.json\n"))
  saveSigningDefaults env defaults
  return 0

/-- `login_main`, with nobody else at the files; `args` are the arguments behind `login`. -/
def loginMainAlone (args : List Bytes) : AuthProgram Int :=
  match parseLoginArgs .default args with
  | .error .help => do
      let dir ← lift env.configDir
      record (.toldUsage dir)
      return 0
  | .error (.unknown arg) => do
      record (.told (ascii "aas-sign login: unknown option: " ++ arg ++ ascii "\n"))
      return 1
  | .ok options =>
      match options.defaults with
      | .error what => do
          record (.told (ascii "aas-sign login: " ++ what ++ ascii "\n"))
          return 1
      | .ok defaults => do
          let session ← authorize env options
          match session with
          | none => return 1
          | some session => finishLogin env session defaults

end Login

end AasSign
