import AasSign.Auth.Json
import AasSign.Codec.Base64
import AasSign.Foundation.Program
import AasSign.Foundation.Search
import AasSign.Http.Response
import AasSign.Platform.Files

/-! # Signing a digest with the service

`azure_sign` posts a digest and polls the operation until it is no longer in
progress. What the service answers, and the time that everything but its own
sleeping takes, are given from outside.
-/

namespace AasSign

open Foundation Program

/-- `endpoint_host`: a bare host name, or a URL's. -/
def endpointHost (s : Bytes) : Bytes :=
  let s :=
    match findFrom (ascii "://") s 0 with
    | none => s
    | some scheme => s.drop (scheme + 3)
  match findFrom (ascii "/") s 0 with
  | none => s
  | some slash => s.take slash

example : endpointHost (ascii "https://eus.codesigning.azure.net/") =
    ascii "eus.codesigning.azure.net" := by decide +kernel

/-- How `azure_sign` ends when it does not return: an exception, an overflow of the `int` that
counts the polls, or a loop that does not end. -/
inductive AzureFailure where
  | thrown (what : Bytes)
  | overflow
  | diverges
  deriving DecidableEq

/-- The arguments of `azure_sign`. -/
structure AzureCall where
  endpoint : Bytes
  account : Bytes
  profile : Bytes
  token : Bytes
  digest : Bytes

inductive AzureEvent where
  | posted (host path token body : Bytes)
  | polled (host path token : Bytes)
  | slept (milliseconds : Nat)
  deriving DecidableEq

/-- The time in nanoseconds, how often the clock was read and the service polled, and what
was done. -/
structure AzureState where
  time : Nat
  readings : Nat
  polls : Nat
  log : List AzureEvent

def AzureState.start : AzureState := ⟨0, 0, 0, []⟩

/-- What the service, the clock and the JSON library answer. -/
structure AzureEnv where
  json : JsonLibrary
  /-- `j.dump()`. -/
  dump : Json → Except Bytes Bytes
  /-- The answer to `https_post`. -/
  post : Except Bytes HttpResponse
  /-- The answers to `https_get`, in turn. -/
  poll : Nat → Except Bytes HttpResponse
  /-- The nanoseconds that pass before a reading of the clock and are not slept. -/
  idle : Nat → Nat

abbrev AzureProgram (α : Type) := Program AzureState AzureFailure α

/-- `j[key].get<std::string>()`. -/
def Json.getString (j : Json) (key : Bytes) : Except Bytes Bytes :=
  let get : Json → Except Bytes Bytes
    | .string s => .ok s
    | other => .error (ascii "[json.exception.type_error.302] type must be string, but is " ++
        other.typeName)
  match j with
  | .object fields => get ((fields.lookup key).getD .null)
  | .null => get .null
  | other => .error (ascii "[json.exception.type_error.305] cannot use operator[] with a string " ++
      ascii "argument with " ++ other.typeName)

/-- `std::chrono::seconds(60)`. -/
def pollTimeout : Nat := 60 * 10 ^ 9

/-- The milliseconds slept before a poll. -/
def backoff (i : Nat) : Nat := min 1000 (50 + 10 * i)

/-- `std::min(1000, 50 + 10 * i++)` on an `int`. -/
def nextDelay (i : Nat) : Except AzureFailure Nat :=
  if 50 + 10 * i < 2 ^ 31 ∧ i + 1 < 2 ^ 31 then .ok (backoff i) else .error .overflow

/-- What `azure_sign` says in the request. -/
def signRequest (digest : Bytes) : Json :=
  (Json.null.set (ascii "signatureAlgorithm") (.string (ascii "RS256"))).set (ascii "digest")
    (.string (base64Encode digest))

theorem signRequest_eq (digest : Bytes) : signRequest digest =
    .object (Json.assign (ascii "digest") (.string (base64Encode digest))
      [(ascii "signatureAlgorithm", .string (ascii "RS256"))]) := rfl

namespace AzureCall

variable (call : AzureCall)

def host : Bytes := endpointHost call.endpoint

def path : Bytes :=
  ascii "/codesigningaccounts/" ++ call.account ++ ascii "/certificateprofiles/" ++ call.profile ++
    ascii "/sign?api-version=2022-06-15-preview"

def pollPath (operationId : Bytes) : Bytes :=
  ascii "/codesigningaccounts/" ++ call.account ++ ascii "/certificateprofiles/" ++ call.profile ++
    ascii "/sign/" ++ operationId ++ ascii "?api-version=2022-06-15-preview"

end AzureCall

/-- The variables of the polling loop. -/
structure Polling where
  body : Json
  status : Bytes
  i : Nat

section Programs

/-- A call into a library, whose exceptions pass through. -/
def throwing {α : Type} (x : Except Bytes α) : AzureProgram α :=
  match x with
  | .ok a => pure a
  | .error what => raise (.thrown what)

variable (env : AzureEnv)

/-- `std::chrono::steady_clock::now()`. -/
def steadyNow : AzureProgram Nat := do
  change fun s => { s with time := s.time + env.idle s.readings, readings := s.readings + 1 }
  let s ← current
  return s.time

def sleepFor (milliseconds : Nat) : AzureProgram Unit :=
  change fun s => { s with
    time := s.time + milliseconds * 10 ^ 6
    log := s.log ++ [.slept milliseconds] }

def httpsPost (host path token body : Bytes) : AzureProgram HttpResponse := do
  change fun s => { s with log := s.log ++ [.posted host path token body] }
  throwing env.post

def httpsGet (host path token : Bytes) : AzureProgram HttpResponse := do
  let s ← current
  change fun s => { s with polls := s.polls + 1, log := s.log ++ [.polled host path token] }
  throwing (env.poll s.polls)

/-- One pass of `while (status == "InProgress")`. -/
def pollPass (call : AzureCall) (operationId : Bytes) (start : Nat) (p : Polling) :
    AzureProgram (Pass Polling (Json × Bytes)) :=
  if p.status ≠ ascii "InProgress" then
    pure (.leave (p.body, p.status))
  else do
    let time ← steadyNow env
    raiseIf (time - start > pollTimeout)
      (.thrown (ascii "Azure signing operation " ++ operationId ++ ascii " timed out"))
    let delay ← lift (nextDelay p.i)
    sleepFor delay
    let poll ← httpsGet env call.host (call.pollPath operationId) call.token
    raiseIf (poll.status ≠ 200)
      (.thrown (ascii "Azure sign poll failed (HTTP " ++ ascii (toString poll.status) ++
        ascii "): " ++ poll.body))
    let body ← throwing (env.json.parse poll.body)
    let status ← throwing (body.value (ascii "status"))
    return .again ⟨body, status, p.i + 1⟩

/-- `azure_sign`, with a bound on the passes of its loop. -/
def azureSign (fuel : Nat) (call : AzureCall) : AzureProgram AzureSignResult := do
  let request ← throwing (env.dump (signRequest call.digest))
  let resp ← httpsPost env call.host call.path call.token request
  raiseIf (resp.status ≠ 200 ∧ resp.status ≠ 202)
    (.thrown (ascii "Azure sign POST failed (HTTP " ++ ascii (toString resp.status) ++
      ascii "): " ++ resp.body))
  let body ← throwing (env.json.parse resp.body)
  let operationId ← throwing (body.value (ascii "operationId"))
  let status ← throwing (body.value (ascii "status"))
  let start ← steadyNow env
  let (body, status) ← whileAgain (pollPass env call operationId start) .diverges fuel
    ⟨body, status, 0⟩
  raiseIf (status ≠ ascii "Succeeded") (.thrown (ascii "Azure signing failed: " ++ status))
  let signature ← throwing (body.getString (ascii "signature"))
  let pem ← throwing (body.getString (ascii "signingCertificate"))
  return ⟨base64Decode signature, base64MimeDecode (base64Decode pem)⟩

end Programs

/-! ## What the parts do -/

section Ends

variable {env : AzureEnv} {s : AzureState} {E : AzureFailure → AzureState → Prop}

@[simp] theorem ends_throwing {α : Type} {x : Except Bytes α} {Q : α → AzureState → Prop} :
    Ends (throwing x) s Q E ↔ Sat x (fun a => Q a s) fun what => E (.thrown what) s := by
  cases x <;> exact Iff.rfl

@[simp] theorem ends_steadyNow {Q : Nat → AzureState → Prop} : Ends (steadyNow env) s Q E ↔
    Q (s.time + env.idle s.readings)
      { s with time := s.time + env.idle s.readings, readings := s.readings + 1 } := Iff.rfl

@[simp] theorem ends_sleepFor {milliseconds : Nat} {Q : Unit → AzureState → Prop} :
    Ends (sleepFor milliseconds) s Q E ↔
      Q () { s with
        time := s.time + milliseconds * 10 ^ 6
        log := s.log ++ [.slept milliseconds] } := Iff.rfl

@[simp] theorem ends_httpsPost {host path token body : Bytes}
    {Q : HttpResponse → AzureState → Prop} : Ends (httpsPost env host path token body) s Q E ↔
      Sat env.post (fun resp => Q resp { s with log := s.log ++ [.posted host path token body] })
        fun what => E (.thrown what)
          { s with log := s.log ++ [.posted host path token body] } := by
  rw [httpsPost, ends_bind, ends_change, ends_throwing]

@[simp] theorem ends_httpsGet {host path token : Bytes} {Q : HttpResponse → AzureState → Prop} :
    Ends (httpsGet env host path token) s Q E ↔
      Sat (env.poll s.polls)
        (fun resp => Q resp
          { s with polls := s.polls + 1, log := s.log ++ [.polled host path token] })
        fun what => E (.thrown what)
          { s with polls := s.polls + 1, log := s.log ++ [.polled host path token] } := by
  rw [httpsGet, ends_bind, ends_current, ends_bind, ends_change, ends_throwing]

/-- The delay of a poll, while the count of the polls is small. -/
theorem nextDelay_eq {i : Nat} (h : i < 2 ^ 27) : nextDelay i = .ok (backoff i) :=
  if_pos ⟨by omega, by omega⟩

theorem getString_eq_ok {j : Json} {key s : Bytes} :
    j.getString key = .ok s ↔ j.field key = some (.string s) := by
  cases j with
  | object fields =>
      simp only [Json.getString, Json.field]
      cases hfield : fields.lookup key with
      | none => simp
      | some held => cases held <;> simp
  | _ => simp [Json.getString, Json.field]

end Ends

end AasSign
