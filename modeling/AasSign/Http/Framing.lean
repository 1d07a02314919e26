import AasSign.Http.Response

/-! # Responses made of lines

A response as a server writes it: a status line, header lines, a blank line and a
body. What `parse_http_response` reads of it, and when its choice of the chunked
coding is the one that the headers make.
-/

namespace AasSign

open Foundation

/-- A status line: a version, a space, three digits, and the rest. -/
structure StatusLine where
  version : Bytes
  code : Fin 1000
  reason : Bytes
  version_space : 32 ∉ version
  version_unbroken : ¬ crlf <:+: version
  reason_unbroken : ¬ crlf <:+: reason

namespace StatusLine

/-- The three digits of a status. -/
def digits (code : Fin 1000) : Bytes :=
  [UInt8.ofNat (48 + code / 100), UInt8.ofNat (48 + code / 10 % 10), UInt8.ofNat (48 + code % 10)]

def raw (line : StatusLine) : Bytes := line.version ++ 32 :: (digits line.code ++ line.reason)

end StatusLine

/-- A status line, header lines, and a body. -/
structure HttpMessage where
  status : StatusLine
  headers : List Bytes
  body : Bytes
  headers_unbroken : ∀ header ∈ headers, ¬ crlf <:+: header ∧ header ≠ []

namespace HttpMessage

def raw (message : HttpMessage) : Bytes :=
  block crlf (message.status.raw :: message.headers) ++ (crlf ++ message.body)

end HttpMessage

/-- The header is `Transfer-Encoding` with the coding `chunked`: name and coding in any case,
blanks and tabs behind the colon. -/
def declaresChunked (header : Bytes) : Prop :=
  let name := header.takeWhile (· ≠ 58)
  let value := header.drop (name.length + 1)
  58 ∈ header ∧ name.map toLower = ascii "transfer-encoding" ∧
    (value.dropWhile fun c => c = 32 ∨ c = 9).map toLower = ascii "chunked"

instance (header : Bytes) : Decidable (declaresChunked header) :=
  inferInstanceAs (Decidable (_ ∧ _))

/-- The text contains a spelling that responses are searched for. -/
def SpellsChunked (text : Bytes) : Prop := ∃ spelling ∈ chunkedSpellings, spelling <:+: text

namespace HttpMessage

def DeclaresChunked (message : HttpMessage) : Prop :=
  ∃ header ∈ message.headers, declaresChunked header

instance (message : HttpMessage) : Decidable message.DeclaresChunked :=
  inferInstanceAs (Decidable (∃ _ ∈ _, _))

/-- The texts of a message that no line end divides. -/
def parts (message : HttpMessage) : List Bytes :=
  message.status.raw :: message.body :: message.headers

/-- What a parser with this decoder answers that goes by the headers: if they declare the
chunked coding it is undone, otherwise the body is what follows the blank line. -/
def answer (message : HttpMessage) (decode : Bytes → Except Exn Bytes) : Except Exn HttpResponse :=
  if message.DeclaresChunked then
    (decode message.body).map fun decoded => { status := message.status.code, body := decoded }
  else .ok { status := message.status.code, body := message.body }

/-- The headers alone decide whether the chunked coding is undone: `parse_http_response` answers
by them, and with any other decoder in its place the same choice is made. -/
structure FramedByHeaders (message : HttpMessage) : Prop where
  answers : parseHttpResponse message.raw = message.answer decodeChunks
  choice : ∀ decode, parseHttpResponseWith decode message.raw = message.answer decode

end HttpMessage

/-! ## What is read of a response -/

section StatusLine

variable {line : StatusLine}

theorem stoi_digits (code : Fin 1000) : stoi (StatusLine.digits code) = .ok (code : Nat) := by
  revert code
  decide +kernel

theorem StatusLine.raw_unbroken : ¬ crlf <:+: line.raw := by
  have hcode : ∀ digit : Nat, digit < 10 → UInt8.ofNat (48 + digit) ∉ crlf := by decide
  intro h
  rcases (infix_separator _ (by decide)).mp h with hversion | hrest
  · exact line.version_unbroken hversion
  · -- None of the digits belongs to a line end, so it lies in the reason.
    rw [digits] at hrest
    have h₁ := ((infix_separator [] (hcode _ (by omega))).mp hrest).resolve_left (by simp)
    have h₂ := ((infix_separator [] (hcode _ (by omega))).mp h₁).resolve_left (by simp)
    have h₃ := ((infix_separator [] (hcode _ (by omega))).mp h₂).resolve_left (by simp)
    exact line.reason_unbroken h₃

end StatusLine

section Message

variable {message : HttpMessage}

theorem HttpMessage.raw_eq_line : message.raw =
    message.status.raw ++ 13 :: 10 :: (block crlf message.headers ++ (crlf ++ message.body)) := by
  simp [HttpMessage.raw]

theorem HttpMessage.raw_eq_lines : message.raw =
    crlf.intercalate (message.status.raw :: message.headers) ++ (crlf ++ (crlf ++ message.body)) := by
  rw [HttpMessage.raw, block_eq_intercalate, List.append_assoc]

theorem statusOf_raw : statusOf message.raw = .ok (message.status.code : Nat) := by
  have hline : findFrom crlf message.raw 0 = some message.status.raw.length := by
    rw [HttpMessage.raw_eq_line]
    simpa using findFrom_line [] (by decide) StatusLine.raw_unbroken
  have hspace : findFrom [32] message.raw 0 = some message.status.version.length := by
    rw [HttpMessage.raw_eq_line, StatusLine.raw, List.append_assoc]
    exact findFrom_symbol message.status.version_space
  have hdigits : (message.raw.drop (message.status.version.length + 1)).take 3 =
      StatusLine.digits message.status.code := by
    rw [HttpMessage.raw_eq_line, StatusLine.raw, List.append_assoc, List.drop_length_add_append]
    simp [StatusLine.digits]
  rw [statusOf, throwIf_of_not (by simp [hline]), ok_bind, hspace]
  simp only [hdigits, stoi_digits]

theorem bodyOf_raw : bodyOf message.raw = message.body := by
  have hblank : findFrom (crlf ++ crlf) message.raw 0 =
      some (crlf.intercalate (message.status.raw :: message.headers)).length := by
    rw [HttpMessage.raw_eq_lines]
    exact findFrom_lines (by decide) StatusLine.raw_unbroken message.headers_unbroken
  simp only [bodyOf, hblank]
  rw [HttpMessage.raw_eq_lines, List.drop_length_add_append]
  simp

/-- What is answered to a response made of lines. -/
theorem parseHttpResponseWith_raw {decode : Bytes → Except Exn Bytes} :
    parseHttpResponseWith decode message.raw =
      if isChunked message.raw then
        (decode message.body).map fun decoded =>
          { status := message.status.code, body := decoded }
      else .ok { status := message.status.code, body := message.body } := by
  rw [parseHttpResponseWith, statusOf_raw, ok_bind, bodyOf_raw]
  split
  · cases decode message.body <;> rfl
  · rfl

theorem isChunked_iff {raw : Bytes} : isChunked raw ↔ SpellsChunked raw := by
  simp only [isChunked, SpellsChunked, findFrom_isSome]

/-- A text without line ends occurs in a block exactly if it occurs in a line. -/
theorem infix_block {needle rest : Bytes} {lines : List Bytes} (hcr : 13 ∉ needle) (hlf : 10 ∉ needle)
    (hneedle : needle ≠ []) : needle <:+: block crlf lines ++ rest ↔
      (∃ line ∈ lines, needle <:+: line) ∨ needle <:+: rest := by
  induction lines with
  | nil => simp
  | cons line lines ih =>
      rw [block_cons, List.append_assoc, List.append_assoc,
        show crlf ++ (block crlf lines ++ rest) = 13 :: ([] ++ 10 :: (block crlf lines ++ rest)) from rfl,
        infix_separator _ hcr, infix_separator _ hlf, ih]
      simp [hneedle, or_assoc]

theorem isChunked_raw : isChunked message.raw ↔ ∃ part ∈ message.parts, SpellsChunked part := by
  have hspelling : ∀ spelling ∈ chunkedSpellings, spelling <:+: message.raw ↔
      ∃ part ∈ message.parts, spelling <:+: part := by
    intro spelling hspelling
    obtain ⟨hcr, hlf, hne⟩ : 13 ∉ spelling ∧ 10 ∉ spelling ∧ spelling ≠ [] := by
      revert spelling
      decide +kernel
    rw [HttpMessage.raw, infix_block hcr hlf hne,
      show crlf ++ message.body = [] ++ 13 :: ([] ++ 10 :: message.body) from rfl,
      infix_separator _ hcr, infix_separator _ hlf]
    simp only [List.mem_cons, exists_eq_or_imp, HttpMessage.parts, List.infix_nil, hne, false_or,
      or_assoc]
    exact or_congr_right or_comm
  rw [isChunked_iff]
  constructor
  · rintro ⟨spelling, hmem, h⟩
    obtain ⟨part, hpart, h⟩ := (hspelling spelling hmem).mp h
    exact ⟨part, hpart, spelling, hmem, h⟩
  · rintro ⟨part, hpart, spelling, hmem, h⟩
    exact ⟨spelling, hmem, (hspelling spelling hmem).mpr ⟨part, hpart, h⟩⟩

end Message

theorem framedByHeaders_iff (message : HttpMessage) : message.FramedByHeaders ↔
    ((∃ part ∈ message.parts, SpellsChunked part) ↔ message.DeclaresChunked) := by
  rw [← isChunked_raw]
  constructor
  · intro h
    -- A decoder that refuses everything shows whether it was asked.
    have hasked := h.choice fun _ => .error (.fault .diverges)
    rw [parseHttpResponseWith_raw, HttpMessage.answer] at hasked
    constructor
    · intro hspelled
      by_contra hnone
      rw [if_pos hspelled, if_neg hnone] at hasked
      cases hasked
    · intro hdeclared
      by_contra hnone
      rw [if_neg hnone, if_pos hdeclared] at hasked
      cases hasked
  · intro hiff
    have hchoice : ∀ decode, parseHttpResponseWith decode message.raw = message.answer decode := by
      intro decode
      rw [parseHttpResponseWith_raw, HttpMessage.answer]
      exact if_congr hiff rfl rfl
    exact ⟨hchoice decodeChunks, hchoice⟩

theorem http11_space : 32 ∉ ascii "HTTP/1.1" := by decide +kernel

theorem http11_unbroken : ¬ crlf <:+: ascii "HTTP/1.1" := by decide +kernel

/-- An error page that quotes the header. -/
def quotingPage : HttpMessage where
  status :=
    { version := ascii "HTTP/1.1"
      code := ⟨400, by decide⟩
      reason := ascii " Bad Request"
      version_space := http11_space
      version_unbroken := http11_unbroken
      reason_unbroken := by decide +kernel }
  headers := [ascii "Content-Type: text/plain"]
  body := ascii "unexpected Transfer-Encoding: chunked"
  headers_unbroken := by decide +kernel

/-- The page has no chunks, so nothing of it is left. -/
theorem framedByHeaders_quotingPage : ¬ quotingPage.FramedByHeaders := by
  intro h
  have hempty : parseHttpResponse quotingPage.raw = .ok { status := 400, body := [] } := by
    decide +kernel
  have hwhole : quotingPage.answer decodeChunks =
      .ok { status := 400, body := ascii "unexpected Transfer-Encoding: chunked" } := by
    decide +kernel
  have hsame := hempty.symm.trans (h.answers.trans hwhole)
  exact absurd hsame (by decide +kernel)

end AasSign
