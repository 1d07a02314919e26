import AasSign.Runtime

/-! # Strings of octets

`std::string` is a string of octets. Percent encoding, and the decoding of the
URL-safe base64 alphabet.
-/

namespace AasSign

/-- A literal of the source. -/
def ascii (text : String) : Bytes := text.toList.map fun c => UInt8.ofNat c.toNat

/-- A string of octets as text, an octet a character. -/
def latin1 (octets : Bytes) : String := String.ofList (octets.map fun c => Char.ofNat c.toNat)

/-- `s.substr(pos, len)`. -/
def substr (s : Bytes) (pos len : Nat) : Except Exn Bytes :=
  if pos ≤ s.length then .ok ((s.drop pos).take len) else .error (.error "basic_string::substr")

theorem substr_of_le {s : Bytes} {pos len : Nat} (h : pos ≤ s.length) :
    substr s pos len = .ok ((s.drop pos).take len) := if_pos h

def hexDigits : Bytes := ascii "0123456789ABCDEF"

/-- `hex[digit & 0xF]`. -/
def hexDigit (digit : UInt8) : UInt8 := hexDigits.getD (digit &&& 0xf).toNat 0

def isUpper (c : UInt8) : Prop := 65 ≤ c ∧ c ≤ 90

def isLower (c : UInt8) : Prop := 97 ≤ c ∧ c ≤ 122

def isDigit (c : UInt8) : Prop := 48 ≤ c ∧ c ≤ 57

instance (c : UInt8) : Decidable (isUpper c) := inferInstanceAs (Decidable (_ ∧ _))

instance (c : UInt8) : Decidable (isLower c) := inferInstanceAs (Decidable (_ ∧ _))

instance (c : UInt8) : Decidable (isDigit c) := inferInstanceAs (Decidable (_ ∧ _))

def toLower (c : UInt8) : UInt8 := if isUpper c then c + 32 else c

/-- Letters, digits, and `-_.~`. -/
def isUnreserved (c : UInt8) : Prop :=
  isUpper c ∨ isLower c ∨ isDigit c ∨ c = 45 ∨ c = 95 ∨ c = 46 ∨ c = 126

instance (c : UInt8) : Decidable (isUnreserved c) := inferInstanceAs (Decidable (_ ∨ _))

def urlEncode (s : Bytes) : Bytes :=
  s.flatMap fun c => if isUnreserved c then [c] else [37, hexDigit (c >>> 4), hexDigit c]

/-- `form_encode`: the pairs joined by `&`, the values percent-encoded. -/
def formEncode (pairs : List (Bytes × Bytes)) : Bytes :=
  (pairs.map fun (key, value) => key ++ [61] ++ urlEncode value).intersperse [38] |>.flatten

/-- `hex_encode`: two lower-case digits an octet. -/
def hexEncode (octets : Bytes) : Bytes :=
  let hex := ascii "0123456789abcdef"
  octets.flatMap fun (b : UInt8) => [hex.getD (b >>> 4).toNat 0, hex.getD (b &&& 0xf).toNat 0]

def urlTable : Bytes := ascii "ABCDEFGHIJKLMNOPQRSTUVWXYZabcdefghijklmnopqrstuvwxyz0123456789-_"

/-- `url_table[digit & 0x3f]`. -/
def urlChar (digit : Nat) : UInt8 := urlTable.getD (digit % 64) 0

/-- `base64url_encode`: four characters for three octets, without padding. -/
def base64urlEncode : Bytes → Bytes
  | [] => []
  | [a] =>
      let n := a.toNat * 2 ^ 16
      [urlChar (n >>> 18), urlChar (n >>> 12)]
  | [a, b] =>
      let n := a.toNat * 2 ^ 16 + b.toNat * 2 ^ 8
      [urlChar (n >>> 18), urlChar (n >>> 12), urlChar (n >>> 6)]
  | a :: b :: c :: rest =>
      let n := a.toNat * 2 ^ 16 + b.toNat * 2 ^ 8 + c.toNat
      [urlChar (n >>> 18), urlChar (n >>> 12), urlChar (n >>> 6), urlChar n] ++
        base64urlEncode rest

def decodeUrlChar (c : UInt8) : Option Nat :=
  if isUpper c then some (c.toNat - 65)
  else if isLower c then some (c.toNat - 97 + 26)
  else if isDigit c then some (c.toNat - 48 + 52)
  else if c = 45 then some 62
  else if c = 95 then some 63
  else none

/-- The 32-bit accumulator, the number of bits waiting in it, and the output. -/
structure Base64State where
  accum : Nat
  bits : Nat
  out : Bytes

def base64urlStep (state : Base64State) (c : UInt8) : Base64State :=
  match decodeUrlChar c with
  | none => state
  | some v =>
      let accum := ((state.accum <<< 6) ||| v) % 2 ^ 32
      let bits := state.bits + 6
      if bits ≥ 8 then
        ⟨accum, bits - 8, state.out ++ [UInt8.ofNat ((accum >>> (bits - 8)) &&& 0xff)]⟩
      else
        ⟨accum, bits, state.out⟩

def base64urlDecode (s : Bytes) : Bytes := (s.foldl base64urlStep ⟨0, 0, []⟩).out

end AasSign
