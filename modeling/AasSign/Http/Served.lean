import AasSign.Http.Request

/-! # What a server is asked

The four calls, seen from the other end of their connections: a server that reads what a
connection has carried finds the request of the call and nothing else, or it waits.
-/

namespace AasSign

open Foundation

/-- No blank and no line end. -/
structure Unspaced (text : Bytes) : Prop where
  space : 32 ∉ text
  tab : 9 ∉ text
  cr : 13 ∉ text

theorem Unspaced.of_subset {text part : Bytes} (h : Unspaced text) (hpart : part ⊆ text) :
    Unspaced part :=
  ⟨fun hc => h.space (hpart hc), fun hc => h.tab (hpart hc), fun hc => h.cr (hpart hc)⟩

namespace HttpsCall

/-- The fields of a request to a URL, without those that describe a body. -/
def urlFields (host : Bytes) : List (Bytes × Bytes) :=
  [(ascii "Host", host), (ascii "User-Agent", ascii "aas-sign/1.0"),
    (ascii "Accept", ascii "application/json")]

def connectionField : Bytes × Bytes := (ascii "Connection", ascii "close")

def authorizationField (bearerToken : Bytes) : Bytes × Bytes :=
  (ascii "Authorization", ascii "Bearer " ++ bearerToken)

def lengthField (body : Bytes) : Bytes × Bytes :=
  (ascii "Content-Length", ascii (toString body.length))

/-- What the call asks the server for. -/
def message : HttpsCall → Except Exn RequestMessage
  | post host path bearerToken jsonBody => .ok
      { method := ascii "POST"
        target := path
        fields := [(ascii "Host", host), authorizationField bearerToken, connectionField,
          (ascii "Content-Type", ascii "application/json; charset=utf-8"), lengthField jsonBody]
        body := jsonBody }
  | get host path bearerToken => .ok
      { method := ascii "GET"
        target := path
        fields := [(ascii "Host", host), authorizationField bearerToken, connectionField]
        body := [] }
  | getUrl url bearerToken => do
      let (host, path) ← parseHttpsUrl url
      return { method := ascii "GET"
               target := path
               fields := urlFields host ++ [authorizationField bearerToken, connectionField]
               body := [] }
  | postUrl url contentType body => do
      let (host, path) ← parseHttpsUrl url
      return { method := ascii "POST"
               target := path
               fields := urlFields host ++
                 [(ascii "Content-Type", contentType), lengthField body, connectionField]
               body }

/-- What the caller passes in holds no line end, and no blank where one would be read as the
end of a part. -/
def Plain : HttpsCall → Prop
  | post host path bearerToken _ => Unspaced host ∧ Unspaced path ∧ 13 ∉ bearerToken
  | get host path bearerToken => Unspaced host ∧ Unspaced path ∧ 13 ∉ bearerToken
  | getUrl url bearerToken => Unspaced url ∧ 13 ∉ bearerToken
  | postUrl url contentType _ => Unspaced url ∧ Unspaced contentType

end HttpsCall

/-! ## The text of a request -/

section Text

variable {host path url bearerToken contentType body : Bytes}

/-- Where the literals of the source hold line ends and the colons of fields. -/
theorem literal_lines :
    ascii " HTTP/1.1\r\n" = ascii " HTTP/1.1" ++ crlf ∧ ascii "\r\n" = crlf ∧
    ascii "Host: " = ascii "Host" ++ ascii ": " ∧
    ascii "User-Agent: aas-sign/1.0\r\n" =
      ascii "User-Agent" ++ (ascii ": " ++ (ascii "aas-sign/1.0" ++ crlf)) ∧
    ascii "Accept: application/json\r\n" =
      ascii "Accept" ++ (ascii ": " ++ (ascii "application/json" ++ crlf)) ∧
    ascii "Authorization: Bearer " = ascii "Authorization" ++ (ascii ": " ++ ascii "Bearer ") ∧
    ascii "Connection: close\r\n" = ascii "Connection" ++ (ascii ": " ++ (ascii "close" ++ crlf)) ∧
    ascii "Connection: close\r\n\r\n" =
      ascii "Connection" ++ (ascii ": " ++ (ascii "close" ++ (crlf ++ crlf))) ∧
    ascii "Content-Type: " = ascii "Content-Type" ++ ascii ": " ∧
    ascii "Content-Type: application/json; charset=utf-8\r\n" = ascii "Content-Type" ++
      (ascii ": " ++ (ascii "application/json; charset=utf-8" ++ crlf)) ∧
    ascii "Content-Length: " = ascii "Content-Length" ++ ascii ": " := by
  decide

open RequestMessage HttpsCall in
theorem getRequest_raw : (getRequest host path bearerToken).text = raw
    { method := ascii "GET"
      target := path
      fields := urlFields host ++ [authorizationField bearerToken, connectionField]
      body := [] } := by
  obtain ⟨hversion, hline, hhost, hagent, haccept, hbearer, -, hclose, -, -, -⟩ := literal_lines
  have hmethod : ascii "GET " = ascii "GET" ++ ascii " " := by decide
  simp only [getRequest, raw, requestLine, lines, fieldLine, urlFields, authorizationField,
    connectionField, List.cons_append, List.nil_append, List.map_cons, List.map_nil, block_cons,
    block_nil, List.append_assoc, List.append_nil, hmethod, hversion, hline, hhost, hagent, haccept,
    hbearer, hclose]

open RequestMessage HttpsCall in
theorem postRequest_raw : (postRequest host path contentType body).text = raw
    { method := ascii "POST"
      target := path
      fields := urlFields host ++ [(ascii "Content-Type", contentType), lengthField body, connectionField]
      body } := by
  obtain ⟨hversion, hline, hhost, hagent, haccept, -, -, hclose, htype, -, hlength⟩ := literal_lines
  have hmethod : ascii "POST " = ascii "POST" ++ ascii " " := by decide
  simp only [postRequest, raw, requestLine, lines, fieldLine, urlFields, lengthField,
    connectionField, List.cons_append, List.nil_append, List.map_cons, List.map_nil, block_cons,
    block_nil, List.append_assoc, hmethod, hversion, hline, hhost, hagent, haccept, hclose, htype,
    hlength]

open RequestMessage HttpsCall in
theorem requestText_post : requestText host (ascii "POST") path bearerToken (some body) = raw
    { method := ascii "POST"
      target := path
      fields := [(ascii "Host", host), authorizationField bearerToken, connectionField,
        (ascii "Content-Type", ascii "application/json; charset=utf-8"), lengthField body]
      body } := by
  obtain ⟨hversion, hline, hhost, -, -, hbearer, hclose, -, -, htype, hlength⟩ := literal_lines
  simp only [requestText, raw, requestLine, lines, fieldLine, authorizationField, lengthField,
    connectionField, List.map_cons, List.map_nil, block_cons, block_nil, List.append_assoc,
    List.nil_append, Option.getD_some, hversion, hline, hhost, hbearer, hclose, htype, hlength]

open RequestMessage HttpsCall in
theorem requestText_get : requestText host (ascii "GET") path bearerToken none = raw
    { method := ascii "GET"
      target := path
      fields := [(ascii "Host", host), authorizationField bearerToken, connectionField]
      body := [] } := by
  obtain ⟨hversion, hline, hhost, -, -, hbearer, hclose, -, -, -, -⟩ := literal_lines
  simp only [requestText, raw, requestLine, lines, fieldLine, authorizationField, connectionField,
    List.map_cons, List.map_nil, block_cons, block_nil, List.append_assoc, List.append_nil,
    Option.getD_none, hversion, hline, hhost, hbearer, hclose]

end Text

/-! ## The parts of a URL -/

theorem parseHttpsUrl_parts {url host path : Bytes} (h : parseHttpsUrl url = .ok (host, path)) :
    host ⊆ url ∧ path ⊆ 47 :: url := by
  have hscheme : ∃ rest, url = httpsScheme ++ rest := by
    rw [parseHttpsUrl, bind_eq_ok] at h
    obtain ⟨_, hguard, -⟩ := h
    have hfront := not_not.mp (throwIf_eq_ok.mp hguard)
    exact ⟨url.drop httpsScheme.length, by
      conv_lhs => rw [← List.take_append_drop httpsScheme.length url, hfront]⟩
  obtain ⟨rest, rfl⟩ := hscheme
  rw [parseHttpsUrl_eq] at h
  obtain ⟨rfl, rfl⟩ := Prod.mk.inj (Except.ok.inj h)
  have hrest : rest ⊆ httpsScheme ++ rest := List.subset_append_right _ _
  constructor
  · rw [dropPort_eq]
    intro c hc
    exact hrest (List.takeWhile_subset _ (List.takeWhile_subset _ hc))
  · split_ifs
    · intro c hc
      exact List.mem_cons_of_mem 47 (hrest (List.dropWhile_subset _ hc))
    · exact List.cons_subset_cons 47 (List.nil_subset _)

/-- A part of a URL without blanks has none. -/
theorem Unspaced.url_parts {url host path : Bytes} (hurl : Unspaced url)
    (h : parseHttpsUrl url = .ok (host, path)) : Unspaced host ∧ Unspaced path := by
  obtain ⟨hhost, hpath⟩ := parseHttpsUrl_parts h
  have hslash : Unspaced (47 :: url) := by
    constructor
    · simpa using hurl.space
    · simpa using hurl.tab
    · simpa using hurl.cr
  exact ⟨hurl.of_subset hhost, hslash.of_subset hpath⟩

/-! ## The messages of the calls -/

namespace HttpsCall

open RequestMessage

variable {call : HttpsCall} {request : HttpsRequest} {m : RequestMessage}

/-- The request of a call is the text of its message. -/
theorem request_message (h : call.request = .ok request) :
    ∃ m, call.message = .ok m ∧ request.text = m.raw := by
  cases call with
  | post host path bearerToken jsonBody =>
      cases h
      exact ⟨_, rfl, requestText_post⟩
  | get host path bearerToken =>
      cases h
      exact ⟨_, rfl, requestText_get⟩
  | getUrl url bearerToken =>
      rw [HttpsCall.request, httpsGetUrl, bind_eq_ok] at h
      obtain ⟨⟨host, path⟩, hparse, hrequest⟩ := h
      cases hrequest
      exact ⟨_, by rw [message, hparse]; rfl, getRequest_raw⟩
  | postUrl url contentType body =>
      rw [HttpsCall.request, httpsPostUrlRequest, bind_eq_ok] at h
      obtain ⟨⟨host, path⟩, hparse, hrequest⟩ := h
      cases hrequest
      exact ⟨_, by rw [message, hparse]; rfl, postRequest_raw⟩

/-- The names of the fields that say nothing about the length of the body. -/
def otherNames : List Bytes :=
  [ascii "Host", ascii "User-Agent", ascii "Accept", ascii "Authorization", ascii "Connection",
    ascii "Content-Type"]

theorem otherNames_free : ∀ name ∈ otherNames,
    (58 ∉ name ∧ 13 ∉ name) ∧ name.map toLower ≠ ascii "content-length" ∧
      name.map toLower ≠ ascii "transfer-encoding" := by
  decide

theorem plainField_of_unspaced {name value : Bytes} (hname : 58 ∉ name ∧ 13 ∉ name)
    (hvalue : Unspaced value) : PlainField (name, value) :=
  ⟨hname.1, hname.2, hvalue.cr, fun h => hvalue.space (List.mem_of_mem_head? h),
    fun h => hvalue.tab (List.mem_of_mem_head? h)⟩

theorem plainField_host {host : Bytes} (h : Unspaced host) : PlainField (ascii "Host", host) :=
  plainField_of_unspaced (otherNames_free _ (by decide)).1 h

theorem plainField_type {contentType : Bytes} (h : Unspaced contentType) :
    PlainField (ascii "Content-Type", contentType) :=
  plainField_of_unspaced (otherNames_free _ (by decide)).1 h

theorem plainField_authorization {bearerToken : Bytes} (h : 13 ∉ bearerToken) :
    PlainField (authorizationField bearerToken) := by
  have hbearer : ascii "Bearer " = 66 :: ascii "earer " := by decide
  have hfree : (13 : UInt8) ∉ ascii "earer " := by decide
  have hname := (otherNames_free (ascii "Authorization") (by decide)).1
  refine ⟨hname.1, hname.2, ?_, ?_, ?_⟩
  all_goals simp [authorizationField, hbearer, hfree, h]

theorem plainField_length (body : Bytes) : PlainField (lengthField body) := by
  have hdigit {c : UInt8} (hc : c ∈ ascii (toString body.length)) : 48 ≤ c :=
    (isDigit_of_mem_ascii_toString hc).1
  have hname : (58 : UInt8) ∉ ascii "Content-Length" ∧ 13 ∉ ascii "Content-Length" := by
    decide
  refine ⟨hname.1, hname.2, fun h => ?_, fun h => ?_, fun h => ?_⟩
  · exact absurd (hdigit h) (by decide)
  · exact absurd (hdigit (List.mem_of_mem_head? h)) (by decide)
  · exact absurd (hdigit (List.mem_of_mem_head? h)) (by decide)

theorem plainField_connection : PlainField connectionField := by decide

theorem plainField_urlFields {host : Bytes} (h : Unspaced host) :
    ∀ field ∈ urlFields host, PlainField field := by
  rw [urlFields, List.forall_mem_cons, List.forall_mem_cons, List.forall_mem_singleton]
  exact ⟨plainField_host h, by decide, by decide⟩

/-- The fields give the length of the body, and nothing else does. -/
theorem contentLength_of_split (front back : List (Bytes × Bytes)) {body : Bytes}
    (hother : ∀ field ∈ front ++ back, field.1.map toLower ≠ ascii "content-length" ∧
      field.1.map toLower ≠ ascii "transfer-encoding") :
    readContentLength (front ++ lengthField body :: back) = some body.length := by
  have hname : (ascii "Content-Length").map toLower = ascii "content-length" := by decide
  have hne : ascii "content-length" ≠ ascii "transfer-encoding" := by decide
  have hlengths : fieldsNamed "content-length" (front ++ lengthField body :: back) =
      [lengthField body] := by
    have hfront : fieldsNamed "content-length" front = [] := by
      rw [fieldsNamed, List.filter_eq_nil_iff]
      exact fun field hfield => by simpa using (hother field (List.mem_append_left _ hfield)).1
    have hback : fieldsNamed "content-length" back = [] := by
      rw [fieldsNamed, List.filter_eq_nil_iff]
      exact fun field hfield => by simpa using (hother field (List.mem_append_right _ hfield)).1
    rw [fieldsNamed] at hfront hback ⊢
    rw [List.filter_append, hfront, List.nil_append, List.filter_cons_of_pos, hback]
    simpa [lengthField] using hname
  have hcodings : fieldsNamed "transfer-encoding" (front ++ lengthField body :: back) = [] := by
    rw [fieldsNamed, List.filter_eq_nil_iff]
    intro field hfield
    rw [List.mem_append, List.mem_cons] at hfield
    rcases hfield with hfield | rfl | hfield
    · simpa using (hother field (List.mem_append_left _ hfield)).2
    · simp [lengthField, hname, hne]
    · simpa using (hother field (List.mem_append_right _ hfield)).2
  rw [readContentLength, if_neg (not_not.mpr hcodings), hlengths]
  exact readDecimal_toString body.length

theorem contentLength_none {fields : List (Bytes × Bytes)}
    (hother : ∀ field ∈ fields, field.1.map toLower ≠ ascii "content-length" ∧
      field.1.map toLower ≠ ascii "transfer-encoding") : readContentLength fields = some 0 := by
  have hnone (name : String) (h : ∀ field ∈ fields, field.1.map toLower ≠ ascii name) :
      fieldsNamed name fields = [] := by
    rw [fieldsNamed, List.filter_eq_nil_iff]
    exact fun field hfield => by simpa using h field hfield
  rw [readContentLength, hnone _ fun field hfield => (hother field hfield).2,
    hnone _ fun field hfield => (hother field hfield).1]
  rfl

theorem others_of_names {fields : List (Bytes × Bytes)}
    (h : ∀ field ∈ fields, field.1 ∈ otherNames) : ∀ field ∈ fields,
      field.1.map toLower ≠ ascii "content-length" ∧ field.1.map toLower ≠ ascii "transfer-encoding" :=
  fun field hfield => (otherNames_free _ (h field hfield)).2

theorem post_free : 32 ∉ ascii "POST" ∧ 13 ∉ ascii "POST" := by decide

theorem get_free : 32 ∉ ascii "GET" ∧ 13 ∉ ascii "GET" := by decide

/-- What a call asks for is not cut off anywhere. -/
theorem message_plain (hcall : call.Plain) (h : call.message = .ok m) : m.Plain := by
  cases call with
  | post host path bearerToken jsonBody =>
      obtain ⟨hhost, hpath, htoken⟩ := hcall
      cases h
      have hjson : PlainField (ascii "Content-Type", ascii "application/json; charset=utf-8") := by
        decide
      constructor
      case method => exact post_free
      case target => exact ⟨hpath.space, hpath.cr⟩
      case fields =>
        simp only [List.forall_mem_cons, List.not_mem_nil, IsEmpty.forall_iff, implies_true, and_true]
        exact ⟨plainField_host hhost, plainField_authorization htoken, plainField_connection, hjson,
          plainField_length jsonBody⟩
      case length =>
        refine contentLength_of_split [_, _, _, _] [] (others_of_names ?_)
        simp [otherNames, authorizationField, connectionField]
  | get host path bearerToken =>
      obtain ⟨hhost, hpath, htoken⟩ := hcall
      cases h
      constructor
      case method => exact get_free
      case target => exact ⟨hpath.space, hpath.cr⟩
      case fields =>
        simp only [List.forall_mem_cons, List.not_mem_nil, IsEmpty.forall_iff, implies_true, and_true]
        exact ⟨plainField_host hhost, plainField_authorization htoken, plainField_connection⟩
      case length =>
        refine contentLength_none (others_of_names ?_)
        simp [otherNames, authorizationField, connectionField]
  | getUrl url bearerToken =>
      obtain ⟨hurl, htoken⟩ := hcall
      rw [message, bind_eq_ok] at h
      obtain ⟨⟨host, path⟩, hparse, hm⟩ := h
      cases hm
      obtain ⟨hhost, hpath⟩ := hurl.url_parts hparse
      constructor
      case method => exact get_free
      case target => exact ⟨hpath.space, hpath.cr⟩
      case fields =>
        rw [List.forall_mem_append]
        refine ⟨plainField_urlFields hhost, ?_⟩
        simp only [List.forall_mem_cons, List.not_mem_nil, IsEmpty.forall_iff, implies_true, and_true]
        exact ⟨plainField_authorization htoken, plainField_connection⟩
      case length =>
        refine contentLength_none (others_of_names ?_)
        simp [otherNames, urlFields, authorizationField, connectionField]
  | postUrl url contentType body =>
      obtain ⟨hurl, htype⟩ := hcall
      rw [message, bind_eq_ok] at h
      obtain ⟨⟨host, path⟩, hparse, hm⟩ := h
      cases hm
      obtain ⟨hhost, hpath⟩ := hurl.url_parts hparse
      constructor
      case method => exact post_free
      case target => exact ⟨hpath.space, hpath.cr⟩
      case fields =>
        rw [List.forall_mem_append]
        refine ⟨plainField_urlFields hhost, ?_⟩
        simp only [List.forall_mem_cons, List.not_mem_nil, IsEmpty.forall_iff, implies_true, and_true]
        exact ⟨plainField_type htype, plainField_length body, plainField_connection⟩
      case length =>
        refine contentLength_of_split [_, _, _, _] [_] (others_of_names ?_)
        simp [otherNames, connectionField]

end HttpsCall

end AasSign
