import AasSign.Foundation.Conversation
import AasSign.Foundation.Retry
import AasSign.Http.Response
import AasSign.Http.Url
import AasSign.Pool.Workers

/-! # The transport

`TlsConnection`, the requests that are made over it, and `retry_transient` around them. A
connection is what the TLS library answers on it, in turn; the octets that the library has
taken are on the wire, whatever happens afterwards.
-/

namespace AasSign

open Foundation Program

/-! ## Connections -/

/-- How a request fails: in a way that may pass, with another exception, or not yet. -/
inductive NetError where
  | transient (what : Bytes)
  | thrown (e : Exn)
  | waiting
  deriving DecidableEq

/-- The failure is one that `retry_transient` catches. -/
def NetError.Passing : NetError → Prop
  | .transient _ => True
  | _ => False

instance : DecidablePred NetError.Passing
  | .transient _ => inferInstanceAs (Decidable True)
  | .thrown _ => inferInstanceAs (Decidable False)
  | .waiting => inferInstanceAs (Decidable False)

def netError (what : Bytes) : NetError := .thrown (.error (latin1 what))

/-- What a call into the TLS library returns. -/
inductive TlsReturn (α : Type) where
  | gave (value : α)
  /-- `MBEDTLS_ERR_SSL_WANT_READ` or `MBEDTLS_ERR_SSL_WANT_WRITE`. -/
  | wantsIo
  | sessionTicket
  /-- `MBEDTLS_ERR_SSL_PEER_CLOSE_NOTIFY`, and what `mbed_error` says of it. -/
  | closeNotify (what : Bytes)
  | failed (what : Bytes)
  deriving DecidableEq

/-- The options and the files that decide whom a connection trusts. -/
structure TlsTrust where
  /-- `g_tls_insecure`. -/
  insecure : Bool
  /-- `g_ca_bundle_override`. -/
  caBundleOverride : Bytes
  /-- `getenv("SSL_CERT_FILE")`. -/
  sslCertFile : Option Bytes
  /-- `stat` finds the file. -/
  isFile : Bytes → Bool

/-- What the TLS library answers on one connection. The texts are those of failures. -/
structure Connection where
  psaInit : Option Bytes
  seed : Option Bytes
  connect : Option Bytes
  configDefaults : Option Bytes
  parseBundle : Bytes → Option Bytes
  setup : Option Bytes
  setHostname : Option Bytes
  handshake : List (TlsReturn Unit)
  writes : List (TlsReturn Nat)
  reads : List (TlsReturn Bytes)

def wellKnownBundles : List Bytes :=
  [ascii "/etc/ssl/certs/ca-certificates.crt", ascii "/etc/pki/tls/certs/ca-bundle.crt",
    ascii "/etc/ssl/ca-bundle.pem", ascii "/etc/ssl/cert.pem", ascii "/etc/pki/tls/cacert.pem",
    ascii "/usr/local/share/certs/ca-root-nss.crt", ascii "/usr/local/etc/openssl@3/cert.pem",
    ascii "/opt/homebrew/etc/openssl@3/cert.pem"]

/-- `find_ca_bundle`: empty if there is none. -/
def findCaBundle (trust : TlsTrust) : Bytes :=
  if trust.caBundleOverride ≠ [] then trust.caBundleOverride
  else
    let named := trust.sslCertFile.filter fun p => p ≠ [] ∧ trust.isFile p
    (named <|> wellKnownBundles.find? trust.isFile).getD []

/-- How the certificate of the server is checked: `VERIFY_NONE`, or `VERIFY_REQUIRED`
against the certificates of a file and the name of the host. -/
inductive Authmode where
  | none
  | required (bundle : Bytes)
  deriving DecidableEq

/-- `if (ret != 0) throw`. -/
def failWith (outcome : Option Bytes) (error : Bytes → NetError) : Except NetError Unit :=
  match outcome with
  | some what => .error (error what)
  | none => .ok ()

/-- The authmode that is configured. -/
def configureTrust (trust : TlsTrust) (c : Connection) : Except NetError Authmode :=
  if trust.insecure then .ok .none
  else
    let bundle := findCaBundle trust
    if bundle = [] then
      .error (netError (ascii ("no CA certificate bundle found at any standard location; install " ++
        "ca-certificates, set SSL_CERT_FILE, or pass --insecure to skip TLS verification")))
    else
      match c.parseBundle bundle with
      | some what =>
          .error (netError (ascii "failed to parse CA bundle " ++ bundle ++ ascii ": " ++ what))
      | none => .ok (.required bundle)

/-- `while ((ret = mbedtls_ssl_handshake(&ssl)) != 0)`; the state tells whether it is done. -/
def handshakeTurn (host : Bytes) : Bool → LoopTurn Bool (TlsReturn Unit) NetError Unit
  | true => .leave (.ok ())
  | false => .ask fun
      | .gave () => .ok true
      | .wantsIo => .ok false
      | .sessionTicket => .ok false
      | .closeNotify what => .error (.transient (ascii "TLS handshake with " ++ host ++ ascii ": " ++ what))
      | .failed what => .error (.transient (ascii "TLS handshake with " ++ host ++ ascii ": " ++ what))

/-- A loop that has not ended waits for the outside. -/
def settle {α : Type} : Option (Except NetError α) → Except NetError α
  | some outcome => outcome
  | none => .error .waiting

/-- `TlsConnection(host)`. -/
def openConnection (trust : TlsTrust) (c : Connection) (host : Bytes) :
    Except NetError Authmode := do
  failWith c.psaInit fun status =>
    netError (ascii "psa_crypto_init failed (PSA status " ++ status ++ ascii ")")
  failWith c.seed fun what => netError (ascii "mbedtls_ctr_drbg_seed: " ++ what)
  failWith c.connect fun what =>
    .transient (ascii "connect to " ++ host ++ ascii ":443: " ++ what)
  failWith c.configDefaults fun what => netError (ascii "ssl_config_defaults: " ++ what)
  let authmode ← configureTrust trust c
  failWith c.setup fun what => netError (ascii "ssl_setup: " ++ what)
  failWith c.setHostname fun what => netError (ascii "ssl_set_hostname: " ++ what)
  settle (converse (handshakeTurn host) c.handshake false).outcome
  return authmode

/-! ## Writing and reading -/

/-- The octets that are written and those that `p` and `remaining` still span. -/
structure Sending where
  sent : Bytes
  rest : Bytes

/-- One pass of `write_all`. -/
def writeTurn (s : Sending) : LoopTurn Sending (TlsReturn Nat) NetError Unit :=
  if s.rest = [] then .leave (.ok ())
  else .ask fun
    | .gave 0 => .error (.transient (ascii "ssl_write: connection closed without progress"))
    | .gave n => .ok ⟨s.sent ++ s.rest.take n, s.rest.drop n⟩
    | .wantsIo => .ok s
    | .sessionTicket => .error (.transient (ascii "ssl_write interrupted by TLS session ticket"))
    | .closeNotify what => .error (.transient (ascii "ssl_write: " ++ what))
    | .failed what => .error (.transient (ascii "ssl_write: " ++ what))

/-- `result`, and whether the peer has closed the connection. -/
structure Receiving where
  result : Bytes
  closed : Bool

/-- One pass of `read_all`. -/
def readTurn (s : Receiving) : LoopTurn Receiving (TlsReturn Bytes) NetError Bytes :=
  if s.closed then .leave (.ok s.result)
  else .ask fun
    | .gave [] => .ok { s with closed := true }
    | .gave octets => .ok { s with result := s.result ++ octets }
    | .wantsIo => .ok s
    | .sessionTicket => .ok s
    | .closeNotify _ => .ok { s with closed := true }
    | .failed what => .error (.transient (ascii "ssl_read: " ++ what))

def writeAll (c : Connection) (data : Bytes) : Standing Sending NetError Unit :=
  converse writeTurn c.writes ⟨[], data⟩

def readAll (c : Connection) : Standing Receiving NetError Bytes :=
  converse readTurn c.reads ⟨[], false⟩

/-! ## Requests -/

/-- What one connection has carried. -/
structure Carried where
  host : Bytes
  authmode : Authmode
  octets : Bytes
  deriving DecidableEq

/-- The connections opened so far, what they have carried, the seconds slept, and what was
written to stderr. -/
structure NetState where
  opened : Nat
  wire : List Carried
  slept : List Nat
  stderr : Bytes
  deriving DecidableEq

def NetState.start : NetState := ⟨0, [], [], []⟩

/-- The trust of the process, and the connections that it will make. -/
structure NetEnv where
  trust : TlsTrust
  connection : Nat → Connection

abbrev NetProgram (α : Type) := Program NetState NetError α

section Requests

variable (env : NetEnv)

/-- A connection is opened, carries the request, and its answer is read to the end. -/
def exchange (request : HttpsRequest) : NetProgram HttpResponse := do
  let s ← current
  let c := env.connection s.opened
  change fun s => { s with opened := s.opened + 1 }
  let authmode ← lift (openConnection env.trust c request.host)
  let writing := writeAll c request.text
  change fun s => { s with wire := s.wire ++ [⟨request.host, authmode, writing.state.sent⟩] }
  lift (settle writing.outcome)
  let raw ← lift (settle (readAll c).outcome)
  lift ((parseHttpResponse raw).mapError .thrown)

/-- The warning and the sleep of `retry_transient` after a failed attempt. -/
def retryBackoff (attempt : Nat) (e : NetError) (s : NetState) : NetState :=
  match e with
  | .transient what => { s with
      slept := s.slept ++ [attempt * 2]
      stderr := s.stderr ++ Pool.retryMessage what attempt }
  | _ => s

/-- `retry_transient`, with its default of three attempts. -/
def retryTransient {α : Type} (op : NetProgram α) : NetProgram α :=
  retrying op NetError.Passing retryBackoff 2 1

/-- The text that `do_request` writes. -/
def requestText (host method path bearerToken : Bytes) (body : Option Bytes) : Bytes :=
  method ++ ascii " " ++ path ++ ascii " HTTP/1.1\r\n" ++
    ascii "Host: " ++ host ++ ascii "\r\n" ++
    ascii "Authorization: Bearer " ++ bearerToken ++ ascii "\r\n" ++
    ascii "Connection: close\r\n" ++
    (match body with
      | none => []
      | some body => ascii "Content-Type: application/json; charset=utf-8\r\n" ++
          ascii "Content-Length: " ++ ascii (toString body.length) ++ ascii "\r\n") ++
    ascii "\r\n" ++ body.getD []

def doRequest (host method path bearerToken : Bytes) (body : Option Bytes) :
    NetProgram HttpResponse :=
  exchange env ⟨host, requestText host method path bearerToken body⟩

/-- `https_post`. -/
def httpsPostOver (host path bearerToken jsonBody : Bytes) : NetProgram HttpResponse :=
  retryTransient (doRequest env host (ascii "POST") path bearerToken (some jsonBody))

/-- `https_get`. -/
def httpsGetOver (host path bearerToken : Bytes) : NetProgram HttpResponse :=
  retryTransient (doRequest env host (ascii "GET") path bearerToken none)

/-- `https_get_url`. -/
def httpsGetUrlOver (url bearerToken : Bytes) : NetProgram HttpResponse :=
  retryTransient do
    let request ← lift ((httpsGetUrl url bearerToken).mapError .thrown)
    exchange env request

def postRequest (host path contentType body : Bytes) : HttpsRequest where
  host
  text := ascii "POST " ++ path ++ ascii " HTTP/1.1\r\n" ++
    ascii "Host: " ++ host ++ ascii "\r\n" ++
    ascii "User-Agent: aas-sign/1.0\r\n" ++
    ascii "Accept: application/json\r\n" ++
    ascii "Content-Type: " ++ contentType ++ ascii "\r\n" ++
    ascii "Content-Length: " ++ ascii (toString body.length) ++ ascii "\r\n" ++
    ascii "Connection: close\r\n\r\n" ++ body

/-- The request that `https_post_url` sends. -/
def httpsPostUrlRequest (url contentType body : Bytes) : Except Exn HttpsRequest := do
  let (host, path) ← parseHttpsUrl url
  return postRequest host path contentType body

/-- `https_post_url`. -/
def httpsPostUrlOver (url contentType body : Bytes) : NetProgram HttpResponse :=
  retryTransient do
    let request ← lift ((httpsPostUrlRequest url contentType body).mapError .thrown)
    exchange env request

end Requests

end AasSign
