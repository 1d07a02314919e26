import AasSign.Auth.Oidc
import AasSign.Auth.Session
import AasSign.Main.Arguments
import AasSign.Platform.Companion
import AasSign.Signing.AzureSign
import AasSign.Signing.SignFile

/-! # `sign`

`sign_main` from its arguments to its exit code: the signer, the companion and the token are
settled, in this order, and only then is a file touched.
-/

namespace AasSign

open Foundation Program

/-! ## What the command meets -/

/-- What a run does outside of memory, up to the signing. -/
inductive MainEvent where
  | told (text : Bytes)
  | usageShort
  | usageFull
  | version
  /-- The companion has been asked for its help text and accepted. -/
  | resolved (companion : Bytes)
  | web (event : WebEvent)
  | auth (event : AuthEvent)
  deriving DecidableEq

/-- The two files of the configuration directory, the other files, and what was done. -/
structure MainState where
  cache : Option Bytes
  config : Option Bytes
  world : World
  log : List MainEvent

/-- What the platform, the servers and the JSON library answer. -/
structure MainEnv where
  auth : AuthEnv
  web : WebEnv
  companion : CompanionEnv
  getenv : Bytes → Option Bytes
  platform : Env
  /-- `azure_sign`, at a time of the platform's clock. -/
  azure : Nat → AzureCall → Except String AzureSignResult
  msi : MsiLibrary
  sha256 : Bytes → Digest

/-- How a run ends before it signs. -/
inductive Leave where
  | exit (code : Int)
  /-- An option has a value for which the program is undefined. -/
  | undefined
  deriving DecidableEq

abbrev MainProgram (α : Type) := Program MainState Leave α

def MainState.tell (s : MainState) (event : MainEvent) : MainState := { s with log := s.log ++ [event] }

def tell (event : MainEvent) : MainProgram Unit := change fun s => s.tell event

/-- A text for the user, and the exit code 1. -/
def refuse {α : Type} (text : Bytes) : MainProgram α := do
  tell (.told text)
  raise (.exit 1)

/-- Go on with a value, or give up with what an exception says. -/
def orRefuse {α : Type} (x : Except Bytes α) : MainProgram α :=
  match x with
  | .ok a => pure a
  | .error what => refuse (ascii "error: " ++ what ++ ascii "\n")

/-- Run a program, and give up with what its exception says. -/
def attempted {α : Type} (m : Program MainState Bytes α) : MainProgram α := fun s =>
  match m s with
  | (.ok a, s') => (.ok a, s')
  | (.error what, s') => refuse (ascii "error: " ++ what ++ ascii "\n") s'

/-- The authentication code, on its part of the state. -/
def onAuth {α : Type} (m : AuthProgram α) : Program MainState Bytes α :=
  m.within (fun s => ⟨s.cache, s.config, []⟩) fun a s =>
    { s with cache := a.cache, config := a.config, log := s.log ++ a.log.map .auth }

/-- The federation code, on its part of the state. -/
def onWeb {α : Type} (m : WebProgram α) : Program MainState Bytes α :=
  m.within (fun _ => []) fun events s => { s with log := s.log ++ events.map .web }

/-! ## The signer -/

/-- `--as` in place of the three options. -/
def SignArguments.signer (o : SignArguments) : Except Bytes SignerTuple :=
  if o.asArg = [] then .ok ⟨o.config.endpoint, o.config.account, o.config.profile⟩
  else if o.config.endpoint ≠ [] ∨ o.config.account ≠ [] ∨ o.config.profile ≠ [] then
    .error (ascii "--as is mutually exclusive with --endpoint/--account/--profile\n")
  else
    match parseSignerTuple o.asArg with
    | .ok tuple => .ok tuple
    | .error what => .error (ascii "error: " ++ what ++ ascii "\n")

/-- `if (field.empty()) field = j.value(key, "");` -/
def fillField (j : Json) (key : String) (get : SignerTuple → Bytes)
    (put : Bytes → SignerTuple → SignerTuple) : Program SignerTuple Bytes Unit := do
  let signer ← current
  if get signer = [] then
    let value ← lift (j.value (ascii key))
    change (put value)

/-- What `config.json` adds to the signer; what it has added stays when it throws. -/
def fillSigner (env : AuthEnv) (contents : Option Bytes) : Program SignerTuple Bytes Unit := do
  let _ ← lift env.configDir
  match contents with
  | none => pure ()
  | some bytes => do
      let j ← lift (env.json.extract bytes)
      fillField j "endpoint" (·.endpoint) fun value signer => { signer with endpoint := value }
      fillField j "account" (·.account) fun value signer => { signer with account := value }
      fillField j "profile" (·.profile) fun value signer => { signer with profile := value }

def unreadableConfig (what : Bytes) : Bytes :=
  ascii "warning: ignoring unreadable config.json: " ++ what ++ ascii "\n"

section Programs

variable (env : MainEnv)

/-- The signer, with what `config.json` adds. -/
def settleSigner (signer : SignerTuple) : MainProgram SignerTuple := do
  let s ← current
  match fillSigner env.auth s.config signer with
  | (.ok _, filled) => return filled
  | (.error what, filled) => do
      tell (.told (unreadableConfig what))
      return filled

/-! ## The token -/

/-- `if (value.empty()) if (const char *env = getenv(name)) value = env;` -/
def orVariable (value : Bytes) (name : String) : Bytes :=
  if value = [] then (env.getenv (ascii name)).getD [] else value

/-- `oidc_runtime`. -/
def oidcRuntime : OidcRuntime where
  requestUrl := (env.getenv (ascii "ACTIONS_ID_TOKEN_REQUEST_URL")).getD []
  requestToken := (env.getenv (ascii "ACTIONS_ID_TOKEN_REQUEST_TOKEN")).getD []

/-- The token of the federation, if there is none yet and both identifiers are known. -/
def federate (token clientId tenantId : Bytes) : MainProgram Bytes :=
  if token = [] ∧ clientId ≠ [] ∧ tenantId ≠ [] then do
    tell (.told (ascii "Fetching Azure token via GitHub OIDC federation...\n"))
    attempted (onWeb (oidcFetchAzureToken env.web (oidcRuntime env) clientId tenantId))
  else pure token

/-- The token of an earlier login, if there is none yet. -/
def refreshed (token : Bytes) : MainProgram Bytes :=
  if token = [] then do
    let token ← attempted (onAuth (tryCachedRefreshAlone env.auth))
    if token = [] then
      return token
    else do
      tell (.told (ascii "Using cached login.\n"))
      return token
  else pure token

/-- The token, or an empty one. -/
def settleToken (config : Config) : MainProgram Bytes := do
  let token := orVariable env config.token "AZURE_ACCESS_TOKEN"
  let clientId := orVariable env config.oidcClientId "AZURE_CLIENT_ID"
  let tenantId := orVariable env config.oidcTenantId "AZURE_TENANT_ID"
  let token ← federate env token clientId tenantId
  refreshed env token

end Programs

/-! ## What is to be signed -/

/-- A signing that can begin: everything it needs is there. -/
structure SignSession where
  config : Config
  files : List Bytes
  maxParallel : Workers
  endpoint : config.endpoint ≠ []
  account : config.account ≠ []
  profile : config.profile ≠ []
  token : config.token ≠ []
  file : files ≠ []
  /-- A signature is kept of a single file only. -/
  dumpCms : config.dumpCms ≠ [] → files.length = 1

def missingToken : Bytes :=
  ascii ("authentication -- pass --token, set $AZURE_ACCESS_TOKEN, " ++
    "use --oidc-* (in CI), or run `aas-sign login` first")

/-- What is missing, in the order in which it is reported. -/
def missing (config : Config) (files : List Bytes) : List Bytes :=
  (if config.endpoint = [] then [ascii "--endpoint"] else []) ++
  (if config.account = [] then [ascii "--account"] else []) ++
  (if config.profile = [] then [ascii "--profile"] else []) ++
  (if config.token = [] then [missingToken] else []) ++
  (if files = [] then [ascii "input file"] else [])

/-- The checks before the signing. -/
def checkSession (argv0 : Bytes) (config : Config)
    (files : List Bytes) (maxParallel : Workers) : MainProgram SignSession :=
  if h : config.endpoint ≠ [] ∧ config.account ≠ [] ∧ config.profile ≠ [] ∧ config.token ≠ [] ∧
      files ≠ [] then
    if hdump : 1 < files.length ∧ config.dumpCms ≠ [] then
      refuse (ascii "error: --dump-cms only supported when signing a single file\n")
    else
      pure
        { config, files, maxParallel
          endpoint := h.1
          account := h.2.1
          profile := h.2.2.1
          token := h.2.2.2.1
          file := h.2.2.2.2
          dumpCms := fun hkeep => by
            have hpos := List.length_pos_iff.mpr h.2.2.2.2
            have hone : ¬ 1 < files.length := fun hmany => hdump ⟨hmany, hkeep⟩
            omega }
  else do
    foldItems (fun _ what => tell (.told (argv0 ++ ascii ": missing " ++ what ++ ascii "\n"))) ()
      (missing config files)
    tell .usageShort
    raise (.exit 1)

/-! ## The command -/

/-- The arguments, or what they ask for instead. -/
def parseArguments (start : SignArguments) (args : List Bytes) :
    MainProgram SignArguments :=
  match parseSignArgs start args with
  | .ok o => pure o
  | .error .help => do
      tell .usageFull
      raise (.exit 0)
  | .error .version => do
      tell .version
      raise (.exit 0)
  | .error (.unknown arg) => do
      tell (.told (ascii "unknown option: " ++ arg ++ ascii "\n"))
      tell .usageShort
      raise (.exit 1)
  | .error .overflow => raise .undefined

/-- What the run has settled for the signing. -/
def Config.settled (config : Config) (signer : SignerTuple) (companion token clientId tenantId : Bytes) :
    Config :=
  { config with
    endpoint := signer.endpoint
    account := signer.account
    profile := signer.profile
    osslsigncode := companion
    token
    oidcClientId := clientId
    oidcTenantId := tenantId }

/-- What `sign_one_file` asks of `sign_file`. -/
def Config.options (config : Config) : SigningOptions where
  osslsigncode := config.osslsigncode
  timestampUrl := config.timestampUrl
  dumpCms := config.dumpCms
  caBundle := config.caBundle
  noTimestamp := config.noTimestamp
  msiDse := config.msiDse
  recursive := config.recursive
  insecure := config.insecure

/-- The call that signs a digest. -/
def Config.call (config : Config) (digest : Bytes) : AzureCall where
  endpoint := config.endpoint
  account := config.account
  profile := config.profile
  token := config.token
  digest := digest

/-- What the command comes to: an exit code, or the workers that sign several files. -/
inductive SignEnd where
  | exited (code : Int)
  | pooled (session : SignSession)

section Command

variable (env : MainEnv)

/-- `sign_main` up to the signing; `args` are the arguments behind `sign`. -/
def prepareSign (argv0 : Bytes) (start : SignArguments) (args : List Bytes) :
    MainProgram SignSession := do
  let o ← parseArguments start args
  let signer ←
    match o.signer with
    | .ok signer => pure signer
    | .error text => refuse text
  let signer ← settleSigner env signer
  let companion ← orRefuse (resolveOsslsigncode env.companion o.config.osslsigncode)
  tell (.resolved companion)
  let token ← settleToken env o.config
  checkSession argv0
    (o.config.settled signer companion token (orVariable env o.config.oidcClientId "AZURE_CLIENT_ID")
      (orVariable env o.config.oidcTenantId "AZURE_TENANT_ID"))
    o.files o.maxParallel

/-- The platform of a signing: a digest is signed by the service. -/
def MainEnv.signing (config : Config) : Env :=
  { env.platform with signDigest := fun clock digest => env.azure clock (config.call digest) }

/-- `sign_file` as `sign_one_file` calls it. -/
def signWith (config : Config) (file : Bytes) : Prog Unit :=
  signFile (env.signing config) env.sha256 env.msi (.user file) config.options

/-- `sign_one_file` for a single file, and the exit code. -/
def signSingle (config : Config) (file : Bytes) : MainProgram Int := fun s =>
  match signWith env config file s.world with
  | (.ok _, world) => (.ok 0, { s with world })
  | (.error (.error what), world) =>
      (.ok 1, { s with world }.tell (.told (ascii "error: " ++ ascii what ++ ascii "\n")))
  | (.error (.fault _), world) => (.error .undefined, { s with world })

/-- `sign_main`; `args` are the arguments behind `sign`. -/
def signMain (argv0 : Bytes) (start : SignArguments) (args : List Bytes) : MainProgram SignEnd := do
  let session ← prepareSign env argv0 start args
  match session.files with
  | [file] => do
      let code ← signSingle env session.config file
      return .exited code
  | _ => return .pooled session

end Command

end AasSign
