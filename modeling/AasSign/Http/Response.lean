import AasSign.Codec.Text
import AasSign.Foundation.Passes
import AasSign.Foundation.Search

/-! # HTTP responses

`parse_http_response`: the status line, the body after the first blank line, and
the chunked transfer coding.
-/

namespace AasSign

open Foundation

structure HttpResponse where
  status : Int
  body : Bytes
  deriving DecidableEq

/-! ## Numbers in text -/

/-- `isspace` in the C locale. -/
def isSpaceByte (c : UInt8) : Bool := (9 ≤ c && c ≤ 13) || c == 32

/-- The value of a hexadecimal digit. -/
def hexValue (c : UInt8) : Option Nat :=
  if isDigit c then some (c.toNat - 48)
  else if 97 ≤ c ∧ c ≤ 102 then some (c.toNat - 87)
  else if 65 ≤ c ∧ c ≤ 70 then some (c.toNat - 55)
  else none

/-- The value of a decimal digit. -/
def decimalValue (c : UInt8) : Option Nat := if isDigit c then some (c.toNat - 48) else none

/-- The values of the digits in front of a string. -/
def leadingDigits (digit : UInt8 → Option Nat) : Bytes → List Nat
  | [] => []
  | c :: rest =>
      match digit c with
      | none => []
      | some value => value :: leadingDigits digit rest

/-- The number that digits write, most significant digit first. -/
def digitsValue (base : Nat) (digits : List Nat) : Nat :=
  digits.foldl (fun value digit => value * base + digit) 0

/-- The sign in front of a number: whether it is a minus, and what follows it. -/
def splitSign : Bytes → Bool × Bytes
  | 45 :: rest => (true, rest)
  | 43 :: rest => (false, rest)
  | s => (false, s)

/-- The `0x` in front of a hexadecimal number; without a digit behind it, the number is `0`. -/
def dropHexMark : Bytes → Bytes
  | 48 :: mark :: c :: rest =>
      if (mark = 120 ∨ mark = 88) ∧ (hexValue c).isSome then c :: rest
      else 48 :: mark :: c :: rest
  | s => s

/-- `std::stoul(s, nullptr, 16)`. A minus negates modulo `2^64`. -/
def stoul16 (s : Bytes) : Except Exn Nat :=
  let (negative, number) := splitSign (s.dropWhile isSpaceByte)
  match leadingDigits hexValue (dropHexMark number) with
  | [] => .error (.error "stoul")
  | digits =>
      let value := digitsValue 16 digits
      if 2 ^ 64 ≤ value then .error (.error "stoul")
      else .ok (if negative then (2 ^ 64 - value) % 2 ^ 64 else value)

/-- `std::stoi(s)`. -/
def stoi (s : Bytes) : Except Exn Int :=
  let (negative, number) := splitSign (s.dropWhile isSpaceByte)
  match leadingDigits decimalValue number with
  | [] => .error (.error "stoi")
  | digits =>
      let value : Int := if negative then -digitsValue 10 digits else digitsValue 10 digits
      if value < -2 ^ 31 ∨ 2 ^ 31 ≤ value then .error (.error "stoi")
      else .ok value

/-! ## Chunks -/

/-- A line ends in a carriage return and a line feed. -/
abbrev crlf : Bytes := [13, 10]

/-- The variables of the loop over the chunks. -/
structure ChunkState where
  pos : Nat
  decoded : Bytes
  deriving DecidableEq

def ChunkState.start : ChunkState := { pos := 0, decoded := [] }

/-- What a chunk-size line gives: the place behind the line, which is the next value of `pos`, and
the size of the chunk. -/
structure ChunkHead where
  pos : Nat
  chunkLen : Nat
  deriving DecidableEq

/-- The line at `pos`; none where the loop leaves. -/
def readSizeLine (src : Bytes) (pos : Nat) : Except Exn (Option ChunkHead) :=
  if src.length ≤ pos then
    .ok none
  else
    match findFrom crlf src pos with
    | none => .ok none
    | some nl => do
        let chunkLen ← stoul16 ((src.drop pos).take (nl - pos))
        return if chunkLen = 0 then none else some { pos := nl + 2, chunkLen }

/-- The chunk behind its line is appended, and `pos`, a `size_t`, is moved behind the chunk. -/
def appendChunk (src decoded : Bytes) (head : ChunkHead) : ChunkState where
  pos := (head.pos + head.chunkLen + 2) % 2 ^ 64
  decoded := decoded ++ (src.drop head.pos).take head.chunkLen

/-- One pass of the loop over the chunks. -/
def chunkPass (src : Bytes) (state : ChunkState) : Except Exn (Pass ChunkState Bytes) := do
  match ← readSizeLine src state.pos with
  | none => return .leave state.decoded
  | some head => return .again (appendChunk src state.decoded head)

/-- The loop over the chunks from the start of the body; more passes than the body has places
are a loop without an end. -/
def decodeChunks (src : Bytes) : Except Exn Bytes :=
  loop (chunkPass src) (.fault .diverges) (src.length + 1) .start

/-! ## Responses -/

/-- The number after the first space, where a status line has its status. -/
def statusOf (raw : Bytes) : Except Exn Int := do
  throwIf (findFrom crlf raw 0 = none) "malformed HTTP response"
  match findFrom [32] raw 0 with
  | none => throw (.error "malformed HTTP status line")
  | some sp1 => stoi ((raw.drop (sp1 + 1)).take 3)

/-- What follows the first blank line. -/
def bodyOf (raw : Bytes) : Bytes :=
  match findFrom (crlf ++ crlf) raw 0 with
  | none => []
  | some bodyStart => raw.drop (bodyStart + 4)

/-- The two spellings that the response is searched for. -/
def chunkedSpellings : List Bytes :=
  [ascii "Transfer-Encoding: chunked", ascii "transfer-encoding: chunked"]

def isChunked (raw : Bytes) : Prop :=
  ∃ spelling ∈ chunkedSpellings, (findFrom spelling raw 0).isSome

instance (raw : Bytes) : Decidable (isChunked raw) := inferInstanceAs (Decidable (∃ _ ∈ _, _))

/-- `parse_http_response`, with any decoder in the place of the loop over the chunks. -/
def parseHttpResponseWith (decode : Bytes → Except Exn Bytes) (raw : Bytes) :
    Except Exn HttpResponse := do
  let status ← statusOf raw
  if isChunked raw then
    let decoded ← decode (bodyOf raw)
    return { status, body := decoded }
  else
    return { status, body := bodyOf raw }

def parseHttpResponse (raw : Bytes) : Except Exn HttpResponse :=
  parseHttpResponseWith decodeChunks raw

end AasSign
