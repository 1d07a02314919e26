import AasSign.Http.Framing
import AasSign.Http.Progress

/-! # The chunked coding

A body written in chunks, and that `parse_http_response` reads the chunks back,
whatever octets they hold.
-/

namespace AasSign

open Foundation

/-- A chunk as it is written: the length in hexadecimal, an extension, and the data. -/
structure Chunk where
  size : Bytes
  ext : Bytes
  data : Bytes
  size_hex : ∀ c ∈ size, (hexValue c).isSome
  size_eq : digitsValue 16 (leadingDigits hexValue size) = data.length
  data_nonempty : data ≠ []
  ext_mark : ext = [] ∨ ∃ rest, ext = 59 :: rest
  ext_unbroken : ¬ crlf <:+: ext

namespace Chunk

def raw (chunk : Chunk) : Bytes := chunk.size ++ chunk.ext ++ crlf ++ chunk.data ++ crlf

/-- The chunks, the chunk of length zero, and the trailer lines. -/
def encode (chunks : List Chunk) (trailers : List Bytes) : Bytes :=
  chunks.flatMap raw ++ (48 :: crlf ++ (block crlf trailers ++ crlf))

end Chunk

/-! ## Chunk-size lines -/

section SizeLine

theorem hexValue_isSome {c : UInt8} (h : (hexValue c).isSome) :
    isSpaceByte c = false ∧ c ≠ 45 ∧ c ≠ 43 ∧ c ≠ 120 ∧ c ≠ 88 ∧ c ≠ 13 := by
  unfold hexValue isDigit at h
  unfold isSpaceByte
  grind

/-- What follows the digits does not count, when it does not start with a digit. -/
theorem leadingDigits_append {digit : UInt8 → Option Nat} {digits rest : Bytes}
    (hdigits : ∀ c ∈ digits, (digit c).isSome) (hrest : ∀ c ∈ rest.head?, digit c = none) :
    leadingDigits digit (digits ++ rest) = leadingDigits digit digits := by
  induction digits with
  | nil =>
      cases rest with
      | nil => rfl
      | cons c rest => simp [leadingDigits, hrest c (by simp)]
  | cons c digits ih =>
      obtain ⟨hc, htail⟩ := List.forall_mem_cons.mp hdigits
      obtain ⟨value, hvalue⟩ := Option.isSome_iff_exists.mp hc
      simp only [List.cons_append, leadingDigits, hvalue, ih htail]

/-- Digits with something behind them have no `0x` in front. -/
theorem dropHexMark_digits {digits rest : Bytes} (hdigits : ∀ c ∈ digits, (hexValue c).isSome)
    (hrest : rest = [] ∨ ∃ rest', rest = 59 :: rest') : dropHexMark (digits ++ rest) = digits ++ rest := by
  unfold dropHexMark
  split
  next mark c tail heq =>
    -- The second octet is a digit or the semicolon of the extension.
    have hmark : mark ≠ 120 ∧ mark ≠ 88 := by
      rcases digits with _ | ⟨d, _ | ⟨d', digits⟩⟩
      · rcases hrest with rfl | ⟨rest', rfl⟩ <;> simp at heq
      · rcases hrest with rfl | ⟨rest', rfl⟩
        · simp at heq
        · simp only [List.singleton_append, List.cons.injEq] at heq
          obtain ⟨-, rfl, -⟩ := heq
          decide
      · simp only [List.cons_append, List.cons.injEq] at heq
        obtain ⟨-, rfl, -⟩ := heq
        have h := hexValue_isSome (hdigits d' (by simp))
        exact ⟨h.2.2.2.1, h.2.2.2.2.1⟩
    rw [if_neg (by simp [hmark]), heq]
  · rfl

theorem stoul16_digits {digits rest : Bytes} (hdigits : ∀ c ∈ digits, (hexValue c).isSome)
    (hrest : rest = [] ∨ ∃ rest', rest = 59 :: rest') (hnonempty : digits ≠ [])
    (hvalue : digitsValue 16 (leadingDigits hexValue digits) < 2 ^ 64) :
    stoul16 (digits ++ rest) = .ok (digitsValue 16 (leadingDigits hexValue digits)) := by
  obtain ⟨c, tail, rfl⟩ := List.exists_cons_of_ne_nil hnonempty
  obtain ⟨hspace, hminus, hplus, -⟩ := hexValue_isSome (hdigits c List.mem_cons_self)
  have hsign : splitSign (c :: tail ++ rest) = (false, c :: tail ++ rest) := by
    rw [List.cons_append]
    unfold splitSign
    split <;> simp_all
  have hleading : leadingDigits hexValue (c :: tail ++ rest) = leadingDigits hexValue (c :: tail) := by
    apply leadingDigits_append hdigits
    rcases hrest with rfl | ⟨rest', rfl⟩ <;> simp [hexValue, isDigit]
  have hdigit : leadingDigits hexValue (c :: tail) ≠ [] := by
    obtain ⟨value, hc⟩ := Option.isSome_iff_exists.mp (hdigits c List.mem_cons_self)
    simp [leadingDigits, hc]
  rw [stoul16, List.cons_append, List.dropWhile_cons_of_neg (by simp [hspace]), ← List.cons_append,
    hsign]
  simp only [dropHexMark_digits hdigits hrest, hleading]
  rw [if_neg (Nat.not_le_of_lt hvalue)]
  rfl

theorem stoul16_zero : stoul16 [48] = .ok 0 := by decide +kernel

end SizeLine

/-! ## Chunks -/

section Chunk

variable {chunk : Chunk}

theorem Chunk.size_nonempty : chunk.size ≠ [] := by
  intro hsize
  apply chunk.data_nonempty
  rw [← List.length_eq_zero_iff, ← chunk.size_eq, hsize]
  rfl

theorem Chunk.line_unbroken : ¬ crlf <:+: chunk.size ++ chunk.ext := by
  intro h
  apply chunk.ext_unbroken
  refine infix_pair_append (fun hmem => ?_) h
  exact (hexValue_isSome (chunk.size_hex 13 hmem)).2.2.2.2.2 rfl

/-- A pass at a chunk puts its data behind what is decoded. -/
theorem chunkPass_chunk {front rest : Bytes} {decoded : Bytes}
    (hsize : (front ++ (chunk.raw ++ rest)).length < 2 ^ 64) :
    chunkPass (front ++ (chunk.raw ++ rest)) { pos := front.length, decoded } = .ok (.again
      { pos := (front ++ chunk.raw).length, decoded := decoded ++ chunk.data }) := by
  have hraw : chunk.raw ++ rest =
      (chunk.size ++ chunk.ext) ++ 13 :: 10 :: (chunk.data ++ (crlf ++ rest)) := by
    simp [Chunk.raw]
  have hlength : (front ++ chunk.raw).length =
      front.length + (chunk.size ++ chunk.ext).length + 2 + chunk.data.length + 2 := by
    simp only [Chunk.raw, List.length_append, List.length_cons, List.length_nil]
    omega
  have hfits : (front ++ chunk.raw).length < 2 ^ 64 := by
    rw [← List.append_assoc, List.length_append] at hsize
    omega
  rw [chunkPass_eq_again]
  refine ⟨⟨front.length, front.length + (chunk.size ++ chunk.ext).length, chunk.data.length⟩,
    ⟨?_, ?_, ?_, ?_⟩, rfl, ?_⟩
  · simp [Chunk.raw]
  · rw [hraw]
    exact findFrom_line front (by decide) chunk.line_unbroken
  · have hline : ((front ++ (chunk.raw ++ rest)).drop front.length).take
        (front.length + (chunk.size ++ chunk.ext).length - front.length) = chunk.size ++ chunk.ext := by
      rw [List.drop_left, Nat.add_sub_cancel_left, hraw, List.take_left]
    have hvalue := stoul16_digits chunk.size_hex chunk.ext_mark chunk.size_nonempty
      (by rw [chunk.size_eq]; omega)
    rw [chunk.size_eq] at hvalue
    rw [hline, hvalue]
  · exact fun h => chunk.data_nonempty (List.eq_nil_of_length_eq_zero h)
  · have hdata : ((front ++ (chunk.raw ++ rest)).drop
        (front.length + (chunk.size ++ chunk.ext).length + 2)).take chunk.data.length = chunk.data := by
      rw [hraw, Nat.add_assoc, List.drop_length_add_append, List.drop_length_add_append]
      simp
    simp only [appendChunk, SizeLine.head, ← hlength, Nat.mod_eq_of_lt hfits, hdata]

/-- A pass at the chunk of length zero leaves. -/
theorem chunkPass_last {front rest : Bytes} {decoded : Bytes} :
    chunkPass (front ++ (48 :: crlf ++ rest)) { pos := front.length, decoded } =
      .ok (.leave decoded) := by
  have hend : findFrom crlf (front ++ (48 :: crlf ++ rest)) front.length = some (front.length + 1) :=
    findFrom_line front (by decide) (show ¬ crlf <:+: [48] by decide)
  rw [chunkPass, readSizeLine, if_neg (by simp), hend]
  simp only [List.drop_left, Nat.add_sub_cancel_left]
  rw [show (48 :: crlf ++ rest).take 1 = [48] from rfl, stoul16_zero, ok_bind, if_pos rfl]
  rfl

/-- From the end of what is decoded the loop decodes the chunks that are left. -/
theorem loop_chunks {chunks : List Chunk} {front rest decoded : Bytes} {stuck : Exn} {fuel : Nat}
    (hfuel : chunks.length < fuel)
    (hsize : (front ++ (chunks.flatMap Chunk.raw ++ (48 :: crlf ++ rest))).length < 2 ^ 64) :
    loop (chunkPass (front ++ (chunks.flatMap Chunk.raw ++ (48 :: crlf ++ rest)))) stuck fuel
      { pos := front.length, decoded } = .ok (decoded ++ (chunks.map Chunk.data).flatten) := by
  obtain ⟨fuel, rfl⟩ := Nat.exists_eq_succ_of_ne_zero (Nat.ne_zero_of_lt hfuel)
  induction chunks generalizing front decoded fuel with
  | nil =>
      rw [List.flatMap_nil, List.nil_append, loop_leave chunkPass_last]
      simp
  | cons chunk chunks ih =>
      rw [List.flatMap_cons, List.append_assoc] at hsize ⊢
      obtain ⟨fuel, rfl⟩ : ∃ smaller, fuel = smaller + 1 :=
        Nat.exists_eq_succ_of_ne_zero (by rw [List.length_cons] at hfuel; omega)
      rw [loop_again (chunkPass_chunk hsize), ← List.append_assoc front]
      rw [← List.append_assoc front] at hsize
      rw [ih hsize fuel (by rw [List.length_cons] at hfuel; omega)]
      simp

/-- A body holds more octets than chunks. -/
theorem length_le_flatMap_raw (chunks : List Chunk) :
    chunks.length ≤ (chunks.flatMap Chunk.raw).length := by
  induction chunks with
  | nil => simp
  | cons chunk chunks ih =>
      rw [List.flatMap_cons, List.length_append, List.length_cons]
      have hraw : 0 < chunk.raw.length := by simp [Chunk.raw]
      omega

theorem decodeChunks_encode {chunks : List Chunk} {trailers : List Bytes}
    (hsize : (Chunk.encode chunks trailers).length < 2 ^ 64) :
    decodeChunks (Chunk.encode chunks trailers) = .ok (chunks.map Chunk.data).flatten := by
  have hfuel : chunks.length < (Chunk.encode chunks trailers).length + 1 := by
    have hchunks := length_le_flatMap_raw chunks
    rw [Chunk.encode, List.length_append]
    omega
  exact @loop_chunks chunks [] _ [] _ _ hfuel hsize

end Chunk

/-- A response in chunks, shorter than a `size_t` can count, is answered with what the chunks
hold. -/
theorem parseHttpResponse_chunked (message : HttpMessage) (chunks : List Chunk)
    (trailers : List Bytes) (hdeclared : ascii "Transfer-Encoding: chunked" ∈ message.headers)
    (hbody : message.body = Chunk.encode chunks trailers) (hsize : message.body.length < 2 ^ 64) :
    parseHttpResponse message.raw =
      .ok { status := message.status.code, body := (chunks.map Chunk.data).flatten } := by
  have hchunked : isChunked message.raw := by
    rw [isChunked_raw]
    refine ⟨_, List.mem_cons_of_mem _ (List.mem_cons_of_mem _ hdeclared), ?_⟩
    exact ⟨_, List.mem_cons_self, List.infix_refl _⟩
  rw [parseHttpResponse, parseHttpResponseWith_raw, if_pos hchunked, hbody, decodeChunks_encode (hbody ▸ hsize)]
  rfl

/-- A chunk whose data looks like the end of the chunks. -/
def misleadingChunk : Chunk where
  size := ascii "0A"
  ext := ascii ";q=1"
  data := ascii "a\r\n0\r\n\r\n\r\n"
  size_hex := by decide +kernel
  size_eq := by decide +kernel
  data_nonempty := by decide +kernel
  ext_mark := .inr ⟨ascii "q=1", by decide +kernel⟩
  ext_unbroken := by decide +kernel

def chunkedPage : HttpMessage where
  status :=
    { version := ascii "HTTP/1.1"
      code := ⟨200, by decide⟩
      reason := ascii " OK"
      version_space := http11_space
      version_unbroken := http11_unbroken
      reason_unbroken := by decide +kernel }
  headers := [ascii "Transfer-Encoding: chunked"]
  body := Chunk.encode [misleadingChunk, misleadingChunk] [ascii "Expires: 0"]
  headers_unbroken := by decide +kernel

theorem parseHttpResponse_chunkedPage : parseHttpResponse chunkedPage.raw =
    .ok { status := 200, body := ascii "a\r\n0\r\n\r\n\r\na\r\n0\r\n\r\n\r\n" } :=
  parseHttpResponse_chunked chunkedPage [misleadingChunk, misleadingChunk] [ascii "Expires: 0"]
    (by decide +kernel) rfl (by decide +kernel)

end AasSign
