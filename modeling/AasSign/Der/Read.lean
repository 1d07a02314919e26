import AasSign.Foundation.Tlv
import AasSign.Runtime

/-! # The TLV reader

`der_read_tlv` of `x509.cpp`, and its reading as the grammar of elements: on a
buffer that holds `l`, it succeeds exactly when `l` starts with an element, and
returns the view of that element.
-/

namespace AasSign

open Foundation

structure TlvView where
  tag : UInt8
  content : Ptr
  contentLen : Nat
  totalLen : Nat
  deriving DecidableEq, Repr

/-- The digits of a long-form length, most significant first. -/
def readLengthDigits (data : Ptr) : Nat → Nat → Nat → Except Exn Nat
  | 0, _, contentLen => .ok contentLen
  | nbytes + 1, pos, contentLen => do
      let digit ← data.read pos
      readLengthDigits data nbytes (pos + 1) ((contentLen <<< 8) ||| digit.toNat)

/-- The length octets at `data[1]`: the position after them and the content length. -/
def readLength (data : Ptr) (len : Nat) : Except Exn (Nat × Nat) := do
  let lead ← data.read 1
  if lead < 0x80 then
    return (2, lead.toNat)
  else
    let nbytes := (lead &&& 0x7f).toNat
    throwIf (nbytes = 0 ∨ nbytes > 4 ∨ 2 + nbytes > len) "invalid DER length"
    let contentLen ← readLengthDigits data nbytes 2 0
    return (2 + nbytes, contentLen)

def derReadTlv (data : Ptr) (len : Nat) : Except Exn TlvView := do
  throwIf (len < 2) "truncated DER TLV"
  let tag ← data.read 0
  let (pos, contentLen) ← readLength data len
  throwIf (pos + contentLen > len) "DER content exceeds buffer"
  return { tag, content := data.add pos, contentLen, totalLen := pos + contentLen }

/-- A view is at least two octets long and lies within the length it was read from. -/
theorem derReadTlv_totalLen {data : Ptr} {len : Nat} {v : TlvView}
    (h : derReadTlv data len = .ok v) : 2 ≤ v.totalLen ∧ v.totalLen ≤ len := by
  simp only [derReadTlv, bind_eq_ok, throwIf_eq_ok, Except.ok.injEq, pure, Except.pure] at h
  obtain ⟨_, _, tag, _, ⟨pos, contentLen⟩, hlength, _, hfit, rfl⟩ := h
  have hpos : 2 ≤ pos := by
    simp only [readLength, bind_eq_ok] at hlength
    obtain ⟨lead, _, hlength⟩ := hlength
    split at hlength
    · cases hlength
      exact Nat.le_refl _
    · simp only [bind_eq_ok] at hlength
      obtain ⟨_, _, _, _, hlength⟩ := hlength
      cases hlength
      exact Nat.le_add_right _ _
  dsimp only at hfit ⊢
  omega

/-! ## The reader and the grammar -/

/-- The view of an element that starts at `data`. -/
def TlvView.of (e : Element) (data : Ptr) : TlvView where
  tag := e.tag
  content := data.add e.header.length
  contentLen := e.content.length
  totalLen := e.raw.length

@[simp] theorem TlvView.of_tag (e : Element) (data : Ptr) : (TlvView.of e data).tag = e.tag := rfl

@[simp] theorem TlvView.of_totalLen (e : Element) (data : Ptr) :
    (TlvView.of e data).totalLen = e.raw.length := rfl

@[simp] theorem TlvView.of_contentLen (e : Element) (data : Ptr) :
    (TlvView.of e data).contentLen = e.content.length := rfl

theorem Ptr.Sees.content {data : Ptr} {e : Element} {rest : Bytes}
    (h : data.Sees (e.raw ++ rest)) : (TlvView.of e data).content.Sees e.content := by
  have hraw : data.Sees (e.header ++ e.content) := h.left
  exact hraw.right

theorem readLengthDigits_eq {data : Ptr} (before digits after : Bytes) (contentLen : Nat)
    (h : data.Sees (before ++ (digits ++ after))) :
    readLengthDigits data digits.length before.length contentLen =
      .ok (digits.foldl (fun value digit => value * 256 + digit.toNat) contentLen) := by
  induction digits generalizing before contentLen with
  | nil => rfl
  | cons digit rest ih =>
      have hread : data.read before.length = .ok digit := by
        rw [h.read (by simp)]
        simp
      have htail := ih (before ++ [digit]) (contentLen * 256 + digit.toNat)
        (by simpa using h)
      rw [List.length_append, List.length_singleton] at htail
      simp only [List.length_cons, readLengthDigits, hread, ok_bind, shiftLeft_or_octet]
      exact htail

theorem long_lead_toNat {lead : UInt8} (h : ¬ lead < 0x80) :
    lead.toNat = 0x80 + (lead &&& 0x7f).toNat := by
  have hvalue : ¬ lead.toNat < 0x80 := h
  have hlt := lead.toNat_lt
  have hmod : (lead &&& 0x7f).toNat = lead.toNat % 2 ^ 7 := by
    rw [UInt8.toNat_and]
    exact Nat.and_two_pow_sub_one_eq_mod lead.toNat 7
  omega

/-- Length octets are read as the number they write. -/
theorem readLength_octets {data : Ptr} {tag : UInt8} {n len : Nat} {octets after : Bytes}
    (hoctets : LengthOctets n octets) (h : data.Sees (tag :: (octets ++ after)))
    (hlen : 1 + octets.length ≤ len) : readLength data len = .ok (1 + octets.length, n) := by
  cases hoctets with
  | short lead hlead =>
      have hread : data.read 1 = .ok lead := h.read (by simp)
      have hshort : lead < 0x80 := hlead
      simp only [readLength, hread, ok_bind, if_pos hshort]
      rfl
  | long lead digits hlead hpos hmax =>
      have hread : data.read 1 = .ok lead := h.read (by simp)
      have hlong : ¬ lead < 0x80 := by
        intro hlt
        have hval : lead.toNat < 0x80 := hlt
        omega
      have hcount : (lead &&& 0x7f).toNat = digits.length := by
        have hsplit := long_lead_toNat hlong
        omega
      rw [List.length_cons] at hlen
      have hvalue := readLengthDigits_eq [tag, lead] digits after 0 (by simpa using h)
      simp only [List.length_cons, List.length_nil, Nat.reduceAdd] at hvalue
      simp only [readLength, hread, ok_bind, if_neg hlong, hcount]
      rw [throwIf_of_not (by omega), ok_bind, hvalue, List.length_cons]
      simp only [ok_bind, bigEndian]
      congr 2
      omega

theorem derReadTlv_of_length {data : Ptr} {tag : UInt8} {after : Bytes} {len pos n : Nat}
    (h : data.Sees (tag :: after)) (hlen : 2 ≤ len) (hlength : readLength data len = .ok (pos, n))
    (hfit : pos + n ≤ len) : derReadTlv data len = .ok ⟨tag, data.add pos, n, pos + n⟩ := by
  have htag : data.read 0 = .ok tag := h.read (by simp)
  simp only [derReadTlv, htag, hlength, throwIf_of_not (Nat.not_lt.mpr hlen),
    throwIf_of_not (Nat.not_lt.mpr hfit), ok_bind]
  rfl

/-- A buffer that starts with an element is read as that element. -/
theorem derReadTlv_raw {data : Ptr} {e : Element} {rest : Bytes}
    (h : data.Sees (e.raw ++ rest)) :
    derReadTlv data (e.raw ++ rest).length = .ok (TlvView.of e data) := by
  have hsees : data.Sees (e.tag :: (e.octets ++ (e.content ++ rest))) := by
    simpa [Element.raw, Element.header] using h
  have htotal : 1 + e.octets.length + e.content.length = e.raw.length := by
    simp only [Element.raw_length, Element.header, List.length_cons]
    omega
  have hraw := e.two_le_raw_length
  rw [derReadTlv_of_length hsees (by rw [List.length_append]; omega)
    (readLength_octets e.wellFormed hsees (by rw [List.length_append]; omega))
    (by rw [List.length_append]; omega)]
  simp [TlvView.of, Element.header, ← htotal, Nat.add_comm]

/-- What `readLength` returns are the length octets that follow the tag. -/
theorem readLength_safe {data : Ptr} {tag lead : UInt8} {after : Bytes}
    (h : data.Sees (tag :: lead :: after)) :
    Safe (readLength data (tag :: lead :: after).length) fun (pos, n) =>
      ∃ octets rest, lead :: after = octets ++ rest ∧ LengthOctets n octets ∧
        pos = 1 + octets.length := by
  have hread : data.read 1 = .ok lead := h.read (by simp)
  rw [readLength, hread, ok_bind]
  apply safe_ite.mpr
  constructor
  · intro hshort
    exact ⟨[lead], after, rfl, .short lead hshort, rfl⟩
  · intro hlong
    dsimp only
    rw [safe_bind, safe_throwIf]
    intro hok
    generalize hcount : (lead &&& 0x7f).toNat = nbytes at hok
    have hsplit := long_lead_toNat hlong
    simp only [List.length_cons] at hok
    have hdigits : (after.take nbytes).length = nbytes := by
      rw [List.length_take]
      omega
    have hvalue := readLengthDigits_eq [tag, lead] (after.take nbytes) (after.drop nbytes) 0
      (by simpa using h)
    rw [hdigits] at hvalue
    simp only [List.length_cons, List.length_nil, Nat.reduceAdd] at hvalue
    rw [hvalue, ok_bind]
    refine ⟨lead :: after.take nbytes, after.drop nbytes, by simp, ?_, by simp [hdigits]; omega⟩
    exact .long lead (after.take nbytes) (by omega) (by omega) (by omega)

/-- The reader stays inside its buffer, and what it accepts starts with an
element, whose view it returns. -/
theorem derReadTlv_safe {data : Ptr} {l : Bytes} (h : data.Sees l) :
    Safe (derReadTlv data l.length) fun v =>
      ∃ e rest, l = Element.raw e ++ rest ∧ v = TlvView.of e data := by
  rw [derReadTlv, safe_bind, safe_throwIf]
  intro hlen
  obtain ⟨tag, lead, after, rfl⟩ : ∃ tag lead after, l = tag :: lead :: after := by
    match l, hlen with
    | [], hlen => simp at hlen
    | [_], hlen => simp at hlen
    | tag :: lead :: after, _ => exact ⟨tag, lead, after, rfl⟩
  rw [h.read (by simp), ok_bind]
  apply (readLength_safe h).bind
  rintro ⟨pos, n⟩ ⟨octets, rest, hsplit, hoctets, hpos⟩
  dsimp only at hpos ⊢
  rw [safe_bind, safe_throwIf]
  intro hfit
  have hlength : (lead :: after).length = octets.length + rest.length := by
    rw [hsplit, List.length_append]
  simp only [List.length_cons] at hfit hlength
  have hcontent : (rest.take n).length = n := by
    rw [List.length_take]
    omega
  refine ⟨⟨tag, octets, rest.take n, hcontent.symm ▸ hoctets⟩, rest.drop n, ?_, ?_⟩
  · simp [Element.raw, Element.header, hsplit]
  · simp only [TlvView.of, Element.raw, Element.header, List.length_append, List.length_cons,
      hcontent, hpos]
    simp [Nat.add_comm]

/-- The reader accepts exactly the strings that start with an element. -/
theorem derReadTlv_eq_ok {data : Ptr} {l : Bytes} (h : data.Sees l) {v : TlvView} :
    derReadTlv data l.length = .ok v ↔
      ∃ e rest, l = Element.raw e ++ rest ∧ v = TlvView.of e data := by
  constructor
  · exact (derReadTlv_safe h).of_ok
  · rintro ⟨e, rest, rfl, rfl⟩
    exact derReadTlv_raw h

end AasSign
