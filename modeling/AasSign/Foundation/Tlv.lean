import AasSign.Foundation.Octets

/-! # Definite-length tag-length-value elements

The grammar of one element: a tag octet, a definite length in short form or in
long form with one to four digits, and the content. Minimality of the length is
not part of the grammar. Elements are self-delimiting, so a concatenation of
elements has one reading.
-/

namespace Foundation

/-- `octets` write the length `n` in definite form. -/
inductive LengthOctets : Nat → List UInt8 → Prop where
  | short (lead : UInt8) (hlead : lead.toNat < 0x80) : LengthOctets lead.toNat [lead]
  | long (lead : UInt8) (digits : List UInt8) (hlead : lead.toNat = 0x80 + digits.length)
      (hpos : 0 < digits.length) (hmax : digits.length ≤ 4) :
      LengthOctets (bigEndian digits) (lead :: digits)

namespace LengthOctets

theorem lt {n : Nat} {octets : List UInt8} (h : LengthOctets n octets) : n < 2 ^ 32 := by
  cases h with
  | short lead hlead => omega
  | long lead digits hlead hpos hmax =>
      calc bigEndian digits < 256 ^ digits.length := bigEndian_lt digits
        _ ≤ 256 ^ 4 := Nat.pow_le_pow_right (by decide) hmax
        _ = 2 ^ 32 := by decide

theorem length_pos {n : Nat} {octets : List UInt8} (h : LengthOctets n octets) :
    0 < octets.length := by
  cases h <;> simp

/-- No length is a proper prefix of another. -/
theorem unique {n m : Nat} {first second r s : List UInt8} (hfirst : LengthOctets n first)
    (hsecond : LengthOctets m second) (heq : first ++ r = second ++ s) :
    n = m ∧ first = second := by
  cases hfirst with
  | short lead hlead =>
      cases hsecond with
      | short lead' hlead' =>
          simp only [List.cons_append, List.nil_append, List.cons.injEq] at heq
          obtain ⟨rfl, -⟩ := heq
          exact ⟨rfl, rfl⟩
      | long lead' digits' hlead' _ _ =>
          simp only [List.cons_append, List.nil_append, List.cons.injEq] at heq
          obtain ⟨rfl, -⟩ := heq
          omega
  | long lead digits hlead _ _ =>
      cases hsecond with
      | short lead' hlead' =>
          simp only [List.cons_append, List.nil_append, List.cons.injEq] at heq
          obtain ⟨rfl, -⟩ := heq
          omega
      | long lead' digits' hlead' _ _ =>
          simp only [List.cons_append, List.cons.injEq] at heq
          obtain ⟨rfl, heq⟩ := heq
          obtain ⟨rfl, -⟩ := List.append_inj heq (by omega)
          exact ⟨rfl, rfl⟩

end LengthOctets

/-- A well-formed element, with the length octets it is written with. -/
@[ext] structure Element where
  tag : UInt8
  octets : List UInt8
  content : List UInt8
  wellFormed : LengthOctets content.length octets

namespace Element

/-- Tag and length octets. -/
def header (e : Element) : List UInt8 := e.tag :: e.octets

/-- The element as it is written. -/
def raw (e : Element) : List UInt8 := e.header ++ e.content

theorem raw_length (e : Element) : e.raw.length = e.header.length + e.content.length := by
  simp [raw]

theorem two_le_header_length (e : Element) : 2 ≤ e.header.length := by
  have hpos := e.wellFormed.length_pos
  simp only [header, List.length_cons]
  omega

theorem two_le_raw_length (e : Element) : 2 ≤ e.raw.length := by
  have hheader := e.two_le_header_length
  rw [raw_length]
  omega

theorem raw_ne_nil (e : Element) : e.raw ≠ [] := by
  simp [raw, header]

/-- Replacing the tag octet leaves the rest of the element as it is written. -/
def retag (e : Element) (tag : UInt8) : Element := { e with tag := tag }

theorem retag_raw (e : Element) (tag : UInt8) : (e.retag tag).raw = tag :: e.raw.tail := rfl

/-- An element is read off the front of a string in one way. -/
theorem raw_append_inj {first second : Element} {r s : List UInt8}
    (h : first.raw ++ r = second.raw ++ s) : first = second ∧ r = s := by
  simp only [raw, header, List.cons_append, List.append_assoc, List.cons.injEq] at h
  obtain ⟨htag, hbody⟩ := h
  obtain ⟨hlength, hoctets⟩ := first.wellFormed.unique second.wellFormed hbody
  rw [hoctets] at hbody
  obtain ⟨hcontent, hrest⟩ := List.append_inj (List.append_cancel_left hbody) hlength
  exact ⟨Element.ext htag hoctets hcontent, hrest⟩

theorem raw_injective {first second : Element} (h : first.raw = second.raw) :
    first = second := by
  have hpair : first.raw ++ [] = second.raw ++ [] := by simpa using h
  exact (raw_append_inj hpair).1

end Element

/-! ## Lengths with any number of digits -/

/-- `octets` write the length `n` in definite form, with up to 126 digits. -/
inductive DefiniteLength : Nat → List UInt8 → Prop where
  | short (lead : UInt8) (hlead : lead.toNat < 0x80) : DefiniteLength lead.toNat [lead]
  | long (lead : UInt8) (digits : List UInt8) (hlead : lead.toNat = 0x80 + digits.length)
      (hpos : 0 < digits.length) (hmax : digits.length ≤ 126) :
      DefiniteLength (bigEndian digits) (lead :: digits)

theorem LengthOctets.definite {n : Nat} {octets : List UInt8} (h : LengthOctets n octets) :
    DefiniteLength n octets := by
  cases h with
  | short lead hlead => exact .short lead hlead
  | long lead digits hlead hpos hmax => exact .long lead digits hlead hpos (by omega)

/-- `raw` is an element with the tag and the content. -/
def IsTlv (tag : UInt8) (content raw : List UInt8) : Prop :=
  ∃ octets, DefiniteLength content.length octets ∧ raw = tag :: (octets ++ content)

/-- The concatenation of the elements of a list. -/
def rawAll (elements : List Element) : List UInt8 := (elements.map Element.raw).flatten

@[simp] theorem rawAll_nil : rawAll [] = [] := rfl

@[simp] theorem rawAll_cons (e : Element) (rest : List Element) :
    rawAll (e :: rest) = e.raw ++ rawAll rest := by
  simp [rawAll]

theorem rawAll_append (first second : List Element) :
    rawAll (first ++ second) = rawAll first ++ rawAll second := by
  simp [rawAll]

theorem rawAll_eq_nil {elements : List Element} : rawAll elements = [] ↔ elements = [] := by
  cases elements with
  | nil => simp
  | cons e rest => simp [e.raw_ne_nil]

theorem length_le_rawAll_length (elements : List Element) :
    elements.length ≤ (rawAll elements).length := by
  induction elements with
  | nil => exact Nat.le_refl _
  | cons e rest ih =>
      have hraw := e.two_le_raw_length
      rw [rawAll_cons, List.length_append, List.length_cons]
      omega

/-- A concatenation of elements determines the list. -/
theorem rawAll_injective {first second : List Element} (h : rawAll first = rawAll second) :
    first = second := by
  induction first generalizing second with
  | nil => exact (rawAll_eq_nil.mp h.symm).symm
  | cons e rest ih =>
      cases second with
      | nil => exact absurd h (by simp [e.raw_ne_nil])
      | cons e' rest' =>
          rw [rawAll_cons, rawAll_cons] at h
          obtain ⟨rfl, hrest⟩ := Element.raw_append_inj h
          rw [ih hrest]

end Foundation
