import Mathlib.Data.List.Sort
import AasSign.Foundation.Tlv
import AasSign.Runtime

/-! # The DER writer

The encoders of `der.cpp`. Lengths are `size_t` values truncated octet by octet,
so the writer produces an element only for contents shorter than 2^32 octets.
-/

namespace AasSign

open Foundation

def derSequenceTag : UInt8 := 0x30

def derSetTag : UInt8 := 0x31

def writeLength (len : Nat) : Bytes :=
  if len < 0x80 then
    [UInt8.ofNat len]
  else if len < 0x100 then
    [0x81, UInt8.ofNat len]
  else if len < 0x10000 then
    [0x82, UInt8.ofNat (len >>> 8), UInt8.ofNat len]
  else if len < 0x1000000 then
    [0x83, UInt8.ofNat (len >>> 16), UInt8.ofNat (len >>> 8), UInt8.ofNat len]
  else
    [0x84, UInt8.ofNat (len >>> 24), UInt8.ofNat (len >>> 16), UInt8.ofNat (len >>> 8),
      UInt8.ofNat len]

def derWrap (tag : UInt8) (content : Bytes) : Bytes :=
  tag :: (writeLength content.length ++ content)

def derCat (parts : List Bytes) : Bytes := parts.flatten

/-! ## Primitive types -/

/-- Drop leading zero octets that the sign of the next octet does not need. -/
def skipZeros : Bytes → Bytes
  | first :: second :: rest =>
      if first = 0 ∧ second &&& 0x80 = 0 then skipZeros (second :: rest)
      else first :: second :: rest
  | short => short

def derIntegerBytes (data : Bytes) : Bytes :=
  match skipZeros data with
  | [] => derWrap 0x02 []
  | first :: rest =>
      if first &&& 0x80 ≠ 0 then derWrap 0x02 (0 :: first :: rest)
      else derWrap 0x02 (first :: rest)

/-- `for (tmp = v; tmp > 0; tmp >>= 8) nbytes++;` on an 8-byte integer. -/
def countBytes : Nat → Nat → Nat
  | 0, _ => 0
  | fuel + 1, tmp => if tmp > 0 then countBytes fuel (tmp >>> 8) + 1 else 0

/-- The low `nbytes` octets of `v`, most significant first. -/
def lowBytes : Nat → Nat → Bytes
  | 0, _ => []
  | nbytes + 1, v => lowBytes nbytes (v >>> 8) ++ [UInt8.ofNat (v &&& 0xff)]

/-- `der_integer(int64_t)`. -/
def derInteger (value : Int) : Except Exn Bytes := do
  throwIf (value < 0) "negative integers not supported"
  let v := value.toNat
  if v = 0 then return derIntegerBytes [0]
  else return derIntegerBytes (lowBytes (countBytes 8 v) v)

def ulongMax : Nat := 2 ^ 64 - 1

def isSpace (c : Char) : Bool := c = ' ' ∨ (9 ≤ c.toNat ∧ c.toNat ≤ 13)

/-- `strtoul(p, &end, 10)`: the value and the text at `end`. -/
def strtoul (p : List Char) : Nat × List Char :=
  let text := p.dropWhile isSpace
  let (negative, text) :=
    match text with
    | '-' :: rest => (true, rest)
    | '+' :: rest => (false, rest)
    | text => (false, text)
  let digits := text.takeWhile Char.isDigit
  let value := digits.foldl (fun value c => value * 10 + (c.toNat - 48)) 0
  if digits = [] then (0, p)
  else if value > ulongMax then (ulongMax, text.dropWhile Char.isDigit)
  else if negative then ((2 ^ 64 - value) % 2 ^ 64, text.dropWhile Char.isDigit)
  else (value, text.dropWhile Char.isDigit)

/-- One pass of the loop that splits a dotted identifier. The loop stands
still on a character that starts no number. -/
def componentPass (state : List Char × List Nat) :
    Except Exn (Pass (List Char × List Nat) (List Nat)) :=
  let (p, components) := state
  match p with
  | [] => .ok (.leave components)
  | p =>
      let (value, stop) := strtoul p
      let next :=
        match stop with
        | '.' :: rest => rest
        | stop => stop
      .ok (.again (next, components ++ [value]))

def oidComponents (dotted : List Char) : Except Exn (List Nat) :=
  loop componentPass (.fault .diverges) (dotted.length + 1) (dotted, [])

/-- The base-128 digits of `v`, least significant first; `buf` has room for ten. -/
def base128Digits : Nat → Nat → Bytes
  | 0, _ => []
  | room + 1, v =>
      UInt8.ofNat (v &&& 0x7f) :: (if v >>> 7 > 0 then base128Digits room (v >>> 7) else [])

def oidComponentOctets (v : Nat) : Bytes :=
  match base128Digits 10 v with
  | [] => []
  | low :: high => (high.reverse.map fun digit => digit ||| 0x80) ++ [low]

def derOid (dotted : String) : Except Exn Bytes := do
  let components ← oidComponents dotted.toList
  match components with
  | first :: second :: rest =>
      return derWrap 0x06
        (UInt8.ofNat (40 * first + second) :: (rest.map oidComponentOctets).flatten)
  | _ => throw (.error "OID must have at least 2 components")

def derOctetString (data : Bytes) : Bytes := derWrap 0x04 data

def derBitString (data : Bytes) : Bytes := derWrap 0x03 (0 :: data)

def derBoolean (value : Bool) : Bytes := [0x01, 0x01, if value then 0xff else 0x00]

def derNull : Bytes := [0x05, 0x00]

/-! ## Constructed types and context tags -/

def derSequence (parts : List Bytes) : Bytes := derWrap derSequenceTag (derCat parts)

/-- The parts in the lexicographic order of their octets. -/
def sortParts (parts : List Bytes) : List Bytes := parts.insertionSort (· ≤ ·)

def derSet (parts : List Bytes) : Bytes := derWrap derSetTag (derCat (sortParts parts))

def derExplicit (tagNumber : Nat) (content : Bytes) : Bytes :=
  derWrap (0xa0 ||| UInt8.ofNat (tagNumber &&& 0x1f)) content

def derImplicit (tagNumber : Nat) (constructed : Bool) (content : Bytes) : Except Exn Bytes :=
  match content with
  | [] => .error (.error "cannot implicit-tag empty content")
  | _ :: rest =>
      let tag := 0x80 ||| UInt8.ofNat (tagNumber &&& 0x1f)
      .ok ((if constructed then tag ||| 0x20 else tag) :: rest)

/-! ## What the writer writes -/

theorem writeLength_octets {len : Nat} (h : len < 2 ^ 32) : LengthOctets len (writeLength len) := by
  have long (lead : UInt8) (digits : List UInt8) (hlead : lead.toNat = 0x80 + digits.length)
      (hpos : 0 < digits.length) (hmax : digits.length ≤ 4) (hvalue : bigEndian digits = len) :
      LengthOctets len (lead :: digits) := hvalue ▸ .long lead digits hlead hpos hmax
  unfold writeLength
  split
  next hlt =>
    have hvalue : (UInt8.ofNat len).toNat = len := by
      rw [UInt8.toNat_ofNat']
      omega
    have hshort := LengthOctets.short (UInt8.ofNat len) (by omega)
    rwa [hvalue] at hshort
  next =>
    split_ifs
    all_goals
      apply long _ _ (by rfl) (by simp) (by simp)
      simp only [bigEndian, List.foldl_cons, List.foldl_nil, UInt8.toNat_ofNat',
        Nat.shiftRight_eq_div_pow]
      omega

/-- The element that `derWrap` writes. -/
def wrapped (tag : UInt8) (content : Bytes) (h : content.length < 2 ^ 32) : Element where
  tag
  octets := writeLength content.length
  content
  wellFormed := writeLength_octets h

theorem wrapped_raw {tag : UInt8} {content : Bytes} (h : content.length < 2 ^ 32) :
    (wrapped tag content h).raw = derWrap tag content := by
  simp [wrapped, Element.raw, Element.header, derWrap]

@[simp] theorem wrapped_tag {tag : UInt8} {content : Bytes} (h : content.length < 2 ^ 32) :
    (wrapped tag content h).tag = tag := rfl

@[simp] theorem wrapped_content {tag : UInt8} {content : Bytes} (h : content.length < 2 ^ 32) :
    (wrapped tag content h).content = content := rfl

/-- What is written in fewer than 2^32 octets is an element. -/
theorem exists_element (tag : UInt8) (content : Bytes)
    (h : (derWrap tag content).length < 2 ^ 32) :
    ∃ e : Element, e.raw = derWrap tag content ∧ e.tag = tag ∧ e.content = content :=
  have hcontent : content.length < 2 ^ 32 := by
    rw [derWrap, List.length_cons, List.length_append] at h
    omega
  ⟨wrapped tag content hcontent, wrapped_raw hcontent, rfl, rfl⟩

theorem derWrap_length {tag : UInt8} {content : Bytes} :
    (derWrap tag content).length = 1 + (writeLength content.length).length + content.length := by
  simp only [derWrap, List.length_cons, List.length_append]
  omega

theorem length_lt_derWrap_length {tag : UInt8} {content : Bytes} :
    content.length < (derWrap tag content).length := by
  rw [derWrap_length]
  omega

theorem part_lt {tag : UInt8} {part : Bytes} {parts : List Bytes} {bound : Nat}
    (hpart : part ∈ parts) (h : (derWrap tag (derCat parts)).length < bound) :
    part.length < bound :=
  ((List.sublist_flatten_of_mem hpart).length_le).trans_lt (length_lt_derWrap_length.trans h)

/-- Elements wrapped together are an element. -/
theorem exists_constructed (tag : UInt8) (es : List Element)
    (h : (derWrap tag (derCat (es.map Element.raw))).length < 2 ^ 32) :
    ∃ e : Element, e.raw = derWrap tag (derCat (es.map Element.raw)) ∧ e.tag = tag ∧
      e.content = rawAll es := exists_element _ _ h

end AasSign
