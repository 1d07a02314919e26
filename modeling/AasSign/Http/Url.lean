import AasSign.Codec.Text
import AasSign.Foundation.Search

/-! # https URLs

How the POSIX `parse_https_url` cuts a URL into the host and the request target,
and where the request for the GitHub token goes.
-/

namespace AasSign

open Foundation

def httpsScheme : Bytes := ascii "https://"

/-- `host.erase(colon)`, when there is a colon. -/
def dropPort (host : Bytes) : Bytes :=
  match findFrom [58] host 0 with
  | none => host
  | some colon => host.take colon

/-- `parse_https_url`: the host and the path with the query. -/
def parseHttpsUrl (url : Bytes) : Except Exn (Bytes × Bytes) := do
  throwIf (url.take httpsScheme.length ≠ httpsScheme)
    ("expected https:// URL, got: " ++ latin1 url)
  match findFrom [47] url httpsScheme.length with
  | none =>
      let host ← substr url httpsScheme.length url.length
      return (dropPort host, [47])
  | some pathStart =>
      let host ← substr url httpsScheme.length (pathStart - httpsScheme.length)
      let pathAndQuery ← substr url pathStart url.length
      return (dropPort host, pathAndQuery)

/-- A request on a TLS connection. -/
structure HttpsRequest where
  host : Bytes
  text : Bytes
  deriving DecidableEq

def getRequest (host path bearerToken : Bytes) : HttpsRequest where
  host
  text := ascii "GET " ++ path ++ ascii " HTTP/1.1\r\n" ++
    ascii "Host: " ++ host ++ ascii "\r\n" ++
    ascii "User-Agent: aas-sign/1.0\r\n" ++
    ascii "Accept: application/json\r\n" ++
    ascii "Authorization: Bearer " ++ bearerToken ++ ascii "\r\n" ++
    ascii "Connection: close\r\n\r\n"

/-- The request that `https_get_url` sends. -/
def httpsGetUrl (url bearerToken : Bytes) : Except Exn HttpsRequest := do
  let (host, path) ← parseHttpsUrl url
  return getRequest host path bearerToken

structure OidcRuntime where
  requestUrl : Bytes
  requestToken : Bytes

def audience : Bytes := ascii "audience=api%3A%2F%2FAzureADTokenExchange"

/-- `mint_url.find('?') == npos ? '?' : '&'`. -/
def querySeparator (url : Bytes) : Bytes :=
  match findFrom [63] url 0 with
  | none => [63]
  | some _ => [38]

/-- The URL that `oidc_fetch_azure_token` mints the token with. -/
def mintUrl (requestUrl : Bytes) : Bytes := requestUrl ++ querySeparator requestUrl ++ audience

/-- The first request of `oidc_fetch_azure_token`. -/
def oidcMintRequest (r : OidcRuntime) : Except Exn HttpsRequest := do
  throwIf (r.requestUrl = [] ∨ r.requestToken = [])
    ("OIDC requested but ACTIONS_ID_TOKEN_REQUEST_URL/" ++
      "ACTIONS_ID_TOKEN_REQUEST_TOKEN are not set.  This flow only " ++
      "works inside a GitHub Actions runner with id-token: write " ++
      "permission.  On a laptop, use --token or $AZURE_ACCESS_TOKEN.")
  httpsGetUrl (mintUrl r.requestUrl) r.requestToken

/-! ## URLs -/

/-- The parts of a URL. The path is empty or starts with a slash. -/
structure HttpsUrl where
  host : Bytes
  port : Option Bytes
  path : Bytes
  query : Option Bytes
  host_free : 47 ∉ host ∧ 63 ∉ host ∧ 58 ∉ host ∧ 35 ∉ host
  port_free : ∀ digits ∈ port, 47 ∉ digits ∧ 63 ∉ digits
  path_slash : path = [] ∨ ∃ rest, path = 47 :: rest
  path_free : 63 ∉ path

namespace HttpsUrl

/-- The host, and the port behind a colon. -/
def authority (url : HttpsUrl) : Bytes :=
  match url.port with
  | none => url.host
  | some digits => url.host ++ 58 :: digits

def queryText (query : Option Bytes) : Bytes :=
  match query with
  | none => []
  | some text => 63 :: text

def text (url : HttpsUrl) : Bytes :=
  httpsScheme ++ (url.authority ++ (url.path ++ queryText url.query))

/-- The request target for a query at the path of the URL. -/
def target (url : HttpsUrl) (query : Option Bytes) : Bytes :=
  (if url.path = [] then [47] else url.path) ++ queryText query

/-- The query with one audience parameter more. -/
def withAudience (query : Option Bytes) : Bytes :=
  match query with
  | none => audience
  | some text => text ++ 38 :: audience

end HttpsUrl

/-! ## Cutting -/

section Cutting

theorem dropPort_eq (host : Bytes) : dropPort host = host.takeWhile (· ≠ 58) := by
  rw [dropPort, findFrom_symbol_from (Nat.zero_le _), List.drop_zero]
  split_ifs with hmem
  · dsimp only
    rw [Nat.zero_add]
    exact (List.prefix_iff_eq_take.mp (List.takeWhile_prefix _)).symm
  · exact (takeWhile_ne_of_not_mem hmem).1.symm

/-- What stands behind the scheme is cut at the first slash, and what stands before that
slash at the first colon. -/
theorem parseHttpsUrl_eq (rest : Bytes) : parseHttpsUrl (httpsScheme ++ rest) =
    .ok (dropPort (rest.takeWhile (· ≠ 47)),
      if 47 ∈ rest then rest.dropWhile (· ≠ 47) else [47]) := by
  have hscheme : (httpsScheme ++ rest).take httpsScheme.length = httpsScheme := List.take_left
  have hrest : (httpsScheme ++ rest).drop httpsScheme.length = rest := List.drop_left
  have hbound : httpsScheme.length ≤ (httpsScheme ++ rest).length := by simp
  rw [parseHttpsUrl, throwIf_of_not (not_not.mpr hscheme), ok_bind,
    findFrom_symbol_from hbound, hrest]
  split_ifs with hmem
  · obtain ⟨front, back, rfl, -, htake, hdrop⟩ := exists_first_symbol hmem
    have hpath : httpsScheme.length + front.length ≤
        (httpsScheme ++ (front ++ 47 :: back)).length := by simp
    dsimp only
    rw [htake, hdrop, substr_of_le hbound, ok_bind, substr_of_le hpath, ok_bind, hrest,
      Nat.add_sub_cancel_left, List.take_left, ← List.drop_drop, hrest, List.drop_left,
      List.take_of_length_le (by simp; omega)]
    rfl
  · dsimp only
    rw [(takeWhile_ne_of_not_mem hmem).1, substr_of_le hbound, ok_bind, hrest,
      List.take_of_length_le (by simp)]
    rfl

end Cutting

theorem querySeparator_eq (url : Bytes) :
    querySeparator url = if 63 ∈ url then [38] else [63] := by
  rw [querySeparator, findFrom_symbol_from (Nat.zero_le _), List.drop_zero]
  split_ifs <;> rfl

namespace HttpsUrl

variable (url : HttpsUrl)

theorem authority_free : 47 ∉ url.authority ∧ 63 ∉ url.authority := by
  obtain ⟨hslash, hmark, -, -⟩ := url.host_free
  have hport := url.port_free
  unfold authority
  cases hdigits : url.port with
  | none => exact ⟨hslash, hmark⟩
  | some digits =>
      obtain ⟨hslash', hmark'⟩ := hport digits hdigits
      simp [hslash, hmark, hslash', hmark']

theorem dropPort_authority : dropPort url.authority = url.host := by
  obtain ⟨-, -, hcolon, -⟩ := url.host_free
  rw [dropPort_eq]
  unfold authority
  cases url.port with
  | none => exact (takeWhile_ne_of_not_mem hcolon).1
  | some digits => exact (takeWhile_symbol hcolon digits).1

/-- With a path the first slash is where the path starts, whatever the query holds. -/
theorem parse_of_path (hpath : url.path ≠ []) :
    parseHttpsUrl url.text = .ok (url.host, url.target url.query) := by
  obtain ⟨rest, hrest⟩ := url.path_slash.resolve_left hpath
  obtain ⟨htake, hdrop⟩ := takeWhile_symbol url.authority_free.1 (rest ++ queryText url.query)
  rw [text, target, if_neg hpath, hrest, List.cons_append, parseHttpsUrl_eq, htake, hdrop,
    dropPort_authority, if_pos (by simp)]

theorem parse_of_no_query (hpath : url.path = []) (hquery : url.query = none) :
    parseHttpsUrl url.text = .ok (url.host, url.target url.query) := by
  have hslash := url.authority_free.1
  rw [text, target, if_pos hpath, hpath, hquery, queryText, List.append_nil, List.append_nil,
    parseHttpsUrl_eq, (takeWhile_ne_of_not_mem hslash).1, dropPort_authority, if_neg hslash]
  rfl

/-- Without a path the target that is cut out is too short to hold the query. -/
theorem parse_of_query (hpath : url.path = []) {query : Bytes} (hquery : url.query = some query) :
    ∃ host path, parseHttpsUrl url.text = .ok (host, path) ∧
      path.length < (url.target url.query).length := by
  refine ⟨_, _, parseHttpsUrl_eq _, ?_⟩
  have htarget : (url.target url.query).length = query.length + 2 := by
    simp [target, hpath, hquery, queryText]
  rw [htarget, hpath, hquery, queryText, List.nil_append]
  split_ifs with hmem
  · have hpass : ∀ c ∈ url.authority, decide (c ≠ 47) = true := fun c hc =>
      decide_eq_true (ne_of_mem_of_not_mem hc url.authority_free.1)
    have hshort := (List.dropWhile_suffix (fun c => decide (c ≠ 47)) (l := query)).length_le
    rw [List.dropWhile_append_of_pos hpass, List.dropWhile_cons_of_pos (by decide)]
    omega
  · simp

theorem parse_iff : parseHttpsUrl url.text = .ok (url.host, url.target url.query) ↔
    url.path ≠ [] ∨ url.query = none := by
  constructor
  · intro hparse
    by_contra hmissed
    obtain ⟨hpath, hquery⟩ := not_or.mp hmissed
    obtain ⟨query, hsome⟩ := Option.ne_none_iff_exists'.mp hquery
    obtain ⟨host, path, hparse', hshort⟩ := url.parse_of_query (not_not.mp hpath) hsome
    rw [hparse] at hparse'
    obtain ⟨-, rfl⟩ := Prod.mk.inj (Except.ok.inj hparse')
    exact lt_irrefl _ hshort
  · rintro (hpath | hquery)
    · exact url.parse_of_path hpath
    · by_cases hpath : url.path = []
      · exact url.parse_of_no_query hpath hquery
      · exact url.parse_of_path hpath

/-- The URL with the audience in its query. -/
def minted : HttpsUrl := { url with query := some (withAudience url.query) }

theorem minted_authority : url.minted.authority = url.authority := rfl

theorem mintUrl_text : mintUrl url.text = url.minted.text := by
  have hfree : 63 ∉ httpsScheme ++ (url.authority ++ url.path) := by
    have hscheme : 63 ∉ httpsScheme := by decide +kernel
    simp [hscheme, url.authority_free.2, url.path_free]
  rw [mintUrl, querySeparator_eq]
  cases hquery : url.query with
  | none =>
      have hmem : 63 ∉ url.text := by
        rw [text, hquery, queryText, List.append_nil]
        exact hfree
      rw [if_neg hmem, text, text, minted_authority]
      simp only [queryText, minted, withAudience, hquery, List.append_assoc, List.append_nil,
        List.cons_append, List.nil_append]
  | some query =>
      have hmem : 63 ∈ url.text := by simp [text, hquery, queryText]
      rw [if_pos hmem, text, text, minted_authority]
      simp only [queryText, minted, withAudience, hquery, List.append_assoc, List.cons_append,
        List.nil_append]

theorem text_ne_nil : url.text ≠ [] := by
  rw [text]
  exact List.append_ne_nil_of_left_ne_nil (by decide) _

theorem oidcMintRequest_eq {token : Bytes} (htoken : token ≠ []) :
    oidcMintRequest ⟨url.text, token⟩ = httpsGetUrl url.minted.text token := by
  have hguard : ¬(url.text = [] ∨ token = []) := not_or.mpr ⟨url.text_ne_nil, htoken⟩
  rw [oidcMintRequest, throwIf_of_not hguard, ok_bind, mintUrl_text]

/-- A request for another target is longer or shorter, or goes to another host. -/
theorem getRequest_ne {host host' path path' token : Bytes} (h : path'.length < path.length) :
    getRequest host' path' token ≠ getRequest host path token := by
  intro hsame
  obtain ⟨rfl, htext⟩ := HttpsRequest.mk.inj hsame
  have hlength := congrArg List.length htext
  simp only [List.length_append] at hlength
  omega

theorem mint_iff {token : Bytes} (htoken : token ≠ []) :
    oidcMintRequest ⟨url.text, token⟩ =
      .ok (getRequest url.host (url.target (some (withAudience url.query))) token) ↔
    url.path ≠ [] := by
  rw [url.oidcMintRequest_eq htoken, httpsGetUrl]
  constructor
  · intro hmint hpath
    obtain ⟨host, path, hparse, hshort⟩ := url.minted.parse_of_query hpath rfl
    rw [hparse] at hmint
    exact getRequest_ne hshort (Except.ok.inj hmint)
  · intro hpath
    have hparse := url.minted.parse_of_path hpath
    rw [hparse]
    rfl

end HttpsUrl

/-- `https://runner.example?a=b`. -/
def bareUrl : HttpsUrl where
  host := ascii "runner.example"
  port := none
  path := []
  query := some (ascii "a=b")
  host_free := by decide +kernel
  port_free := by simp
  path_slash := .inl rfl
  path_free := by simp

/-- The query lands in the host, and so does the audience of the minting URL. -/
theorem bareUrl_misdirected :
    (parseHttpsUrl bareUrl.text = .ok (ascii "runner.example?a=b", [47]) ∧
      parseHttpsUrl bareUrl.text ≠ .ok (bareUrl.host, bareUrl.target bareUrl.query)) ∧
    oidcMintRequest ⟨bareUrl.text, ascii "secret"⟩ = .ok (getRequest
      (ascii "runner.example?a=b&audience=api%3A%2F%2FAzureADTokenExchange") [47]
      (ascii "secret")) := by
  refine ⟨⟨?_, ?_⟩, ?_⟩
  · rw [HttpsUrl.text, parseHttpsUrl_eq]
    decide +kernel
  · rw [Ne, bareUrl.parse_iff]
    simp [bareUrl]
  · rw [bareUrl.oidcMintRequest_eq (by decide), httpsGetUrl, HttpsUrl.text, parseHttpsUrl_eq,
      ok_bind]
    exact congrArg Except.ok (by decide +kernel)

/-- The URL is cut where its parts meet exactly if it has a path or no query; the request for
the token goes to its host, path and extended query exactly if it has a path. -/
theorem httpsUrl_directed_iff (url : HttpsUrl) :
    (parseHttpsUrl url.text = .ok (url.host, url.target url.query) ↔
      url.path ≠ [] ∨ url.query = none) ∧
    (∀ token : Bytes, token ≠ [] →
      (oidcMintRequest ⟨url.text, token⟩ = .ok (getRequest url.host
        (url.target (some (HttpsUrl.withAudience url.query))) token) ↔ url.path ≠ [])) :=
  ⟨url.parse_iff, fun _ => url.mint_iff⟩

/-- `https://runner.example:443/token`. -/
def runnerUrl : HttpsUrl where
  host := ascii "runner.example"
  port := some (ascii "443")
  path := ascii "/token"
  query := none
  host_free := by decide +kernel
  port_free := by decide +kernel
  path_slash := .inr ⟨ascii "token", by decide +kernel⟩
  path_free := by decide +kernel

theorem runnerUrl_directed : oidcMintRequest ⟨runnerUrl.text, ascii "secret"⟩ =
    .ok (getRequest (ascii "runner.example") (ascii "/token" ++ 63 :: audience)
      (ascii "secret")) :=
  ((httpsUrl_directed_iff runnerUrl).2 (ascii "secret") (by decide)).mpr (by decide +kernel)

end AasSign
