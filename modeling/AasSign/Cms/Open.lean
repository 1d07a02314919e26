import AasSign.Cms.Build

/-! # Opening and closing an envelope

A CMS with one signer, taken apart with the TLV reader down to the fields of
that signer, and put together again with the lengths written anew. Closing and
then opening returns the same parts.
-/

namespace AasSign

open Foundation

/-- The content of the element at the front of `data`. -/
def derContent (data : Bytes) : Except Exn Bytes := do
  let v ← derReadTlv (Ptr.data data) data.length
  v.content.copy v.contentLen

/-- The elements inside the element at the front of `data`. -/
def derParts (data : Bytes) : Except Exn (List Bytes) := do
  splitConcatenated (← derContent data)

/-- The string is one element. -/
def IsElement (data : Bytes) : Prop := ∃ e : Element, e.raw = data

section Parts

theorem derContent_raw (e : Element) : derContent e.raw = .ok e.content := by
  have hsees : (Ptr.data e.raw).Sees (e.raw ++ []) := by
    rw [List.append_nil]
    exact Ptr.Sees.data e.raw
  have hread := derReadTlv_raw hsees
  rw [List.append_nil] at hread
  rw [derContent, hread, ok_bind]
  exact hsees.content.copy

theorem derParts_raw {e : Element} {es : List Element} (h : e.content = rawAll es) :
    derParts e.raw = .ok (es.map Element.raw) := by
  rw [derParts, derContent_raw, ok_bind, h, splitConcatenated_rawAll]

theorem isElement_derWrap {tag : UInt8} {content : Bytes}
    (h : (derWrap tag content).length < 2 ^ 32) : IsElement (derWrap tag content) :=
  ⟨wrapped tag content (length_lt_derWrap_length.trans h), wrapped_raw _⟩

theorem derContent_derWrap {tag : UInt8} {content : Bytes}
    (h : (derWrap tag content).length < 2 ^ 32) :
    derContent (derWrap tag content) = .ok content := by
  rw [← wrapped_raw (length_lt_derWrap_length.trans h), derContent_raw]
  rfl

theorem derParts_isElement {data : Bytes} {parts : List Bytes} (h : derParts data = .ok parts) :
    ∀ part ∈ parts, IsElement part := by
  rw [derParts, bind_eq_ok] at h
  obtain ⟨content, -, hsplit⟩ := h
  obtain ⟨es, -, rfl⟩ := (splitConcatenated_safe content).of_ok hsplit
  intro part hpart
  obtain ⟨e, -, rfl⟩ := List.mem_map.mp hpart
  exact ⟨e, rfl⟩

theorem exists_elements {parts : List Bytes} (h : ∀ part ∈ parts, IsElement part) :
    ∃ es : List Element, es.map Element.raw = parts := by
  induction parts with
  | nil => exact ⟨[], rfl⟩
  | cons part parts ih =>
      obtain ⟨e, rfl⟩ := h part List.mem_cons_self
      obtain ⟨es, rfl⟩ := ih fun other hother => h other (List.mem_cons_of_mem _ hother)
      exact ⟨e :: es, rfl⟩

/-- Elements wrapped together are split again. -/
theorem derParts_derWrap {tag : UInt8} {parts : List Bytes}
    (hlength : (derWrap tag (derCat parts)).length < 2 ^ 32)
    (hparts : ∀ part ∈ parts, IsElement part) :
    derParts (derWrap tag (derCat parts)) = .ok parts := by
  obtain ⟨es, rfl⟩ := exists_elements hparts
  exact (congrArg _ (wrapped_raw (length_lt_derWrap_length.trans hlength)).symm).trans
    (derParts_raw rfl)

end Parts

/-! ## One signer -/

structure OpenedCms where
  contentType : Bytes
  version : Bytes
  digestAlgorithms : Bytes
  encapsulated : Bytes
  certificates : Bytes
  signer : List Bytes
  deriving DecidableEq, Repr

/-- ContentInfo, [0], SignedData with a certificates field, and one SignerInfo. -/
def openCms (pkcs7 : Bytes) : Except Exn OpenedCms := do
  match ← derParts pkcs7 with
  | [contentType, wrapper] =>
      match ← derParts wrapper with
      | [sd] =>
          match ← derParts sd with
          | [version, digestAlgorithms, encapsulated, certificates, signers] =>
              match ← derParts signers with
              | [si] =>
                  let signer ← derParts si
                  return { contentType, version, digestAlgorithms, encapsulated, certificates,
                           signer }
              | _ => throw (.error "not one signer")
          | _ => throw (.error "unexpected SignedData fields")
      | _ => throw (.error "unexpected content")
  | _ => throw (.error "unexpected ContentInfo fields")

namespace OpenedCms

def signerInfo (o : OpenedCms) : Bytes := derWrap derSequenceTag (derCat o.signer)

def signerInfos (o : OpenedCms) : Bytes := derWrap derSetTag (derCat [o.signerInfo])

def signedDataFields (o : OpenedCms) : List Bytes :=
  [o.version, o.digestAlgorithms, o.encapsulated, o.certificates, o.signerInfos]

def signedData (o : OpenedCms) : Bytes := derWrap derSequenceTag (derCat o.signedDataFields)

def wrapper (o : OpenedCms) : Bytes := derWrap 0xa0 (derCat [o.signedData])

/-- The envelope with all lengths written anew. -/
def close (o : OpenedCms) : Bytes := derWrap derSequenceTag (derCat [o.contentType, o.wrapper])

/-- Every part is an element. -/
structure WellFormed (o : OpenedCms) : Prop where
  contentType : IsElement o.contentType
  version : IsElement o.version
  digestAlgorithms : IsElement o.digestAlgorithms
  encapsulated : IsElement o.encapsulated
  certificates : IsElement o.certificates
  signer : ∀ field ∈ o.signer, IsElement field

section Bounds

variable {o : OpenedCms} (h : o.close.length < 2 ^ 32)

include h

theorem wrapper_lt : o.wrapper.length < 2 ^ 32 :=
  part_lt (by simp) h

theorem signedData_lt : o.signedData.length < 2 ^ 32 :=
  part_lt (by simp) (wrapper_lt h)

theorem field_lt {field : Bytes} (hfield : field ∈ o.signedDataFields) :
    field.length < 2 ^ 32 :=
  part_lt hfield (signedData_lt h)

theorem signerInfos_lt : o.signerInfos.length < 2 ^ 32 :=
  field_lt h (by simp [signedDataFields])

theorem signerInfo_lt : o.signerInfo.length < 2 ^ 32 :=
  part_lt (by simp) (signerInfos_lt h)

theorem signer_lt {field : Bytes} (hfield : field ∈ o.signer) : field.length < 2 ^ 32 :=
  part_lt hfield (signerInfo_lt h)

end Bounds

end OpenedCms

open OpenedCms in
/-- A closed envelope opens to its parts. -/
theorem openCms_close {o : OpenedCms} (hparts : o.WellFormed) (h : o.close.length < 2 ^ 32) :
    openCms o.close = .ok o := by
  have hsigner : derParts o.signerInfo = .ok o.signer :=
    derParts_derWrap (signerInfo_lt h) hparts.signer
  have hsigners : derParts o.signerInfos = .ok [o.signerInfo] :=
    derParts_derWrap (signerInfos_lt h) (List.forall_mem_singleton.mpr (isElement_derWrap (signerInfo_lt h)))
  have hsd : derParts o.signedData = .ok o.signedDataFields := by
    apply derParts_derWrap (signedData_lt h)
    simp only [signedDataFields, List.mem_cons, List.not_mem_nil, or_false]
    rintro field (rfl | rfl | rfl | rfl | rfl)
    · exact hparts.version
    · exact hparts.digestAlgorithms
    · exact hparts.encapsulated
    · exact hparts.certificates
    · exact isElement_derWrap (signerInfos_lt h)
  have hwrapper : derParts o.wrapper = .ok [o.signedData] :=
    derParts_derWrap (wrapper_lt h) (List.forall_mem_singleton.mpr (isElement_derWrap (signedData_lt h)))
  have hclose : derParts o.close = .ok [o.contentType, o.wrapper] :=
    derParts_derWrap h (List.forall_mem_cons.mpr ⟨hparts.contentType,
      List.forall_mem_singleton.mpr (isElement_derWrap (wrapper_lt h))⟩)
  simp only [openCms, hclose, ok_bind, hwrapper, hsd, signedDataFields, hsigners, hsigner]
  rfl

/-- What opens has elements for parts. -/
theorem openCms_wellFormed {pkcs7 : Bytes} {o : OpenedCms} (h : openCms pkcs7 = .ok o) :
    o.WellFormed := by
  rw [openCms, bind_eq_ok] at h
  obtain ⟨info, hinfo, h⟩ := h
  split at h
  case h_2 => cases h
  obtain ⟨content, -, h⟩ := bind_eq_ok.mp h
  split at h
  case h_2 => cases h
  obtain ⟨sd, hsd, h⟩ := bind_eq_ok.mp h
  split at h
  case h_2 => cases h
  obtain ⟨signers, -, h⟩ := bind_eq_ok.mp h
  split at h
  case h_2 => cases h
  obtain ⟨signer, hsigner, h⟩ := bind_eq_ok.mp h
  cases h
  have hfields := derParts_isElement hsd
  exact
    { contentType := derParts_isElement hinfo _ (by simp)
      version := hfields _ (by simp)
      digestAlgorithms := hfields _ (by simp)
      encapsulated := hfields _ (by simp)
      certificates := hfields _ (by simp)
      signer := derParts_isElement hsigner }

/-- Append a field to the signer and write the enclosing lengths anew. -/
def appendToSigner (pkcs7 field : Bytes) : Except Exn Bytes := do
  let o ← openCms pkcs7
  return OpenedCms.close { o with signer := o.signer ++ [field] }

/-- The field comes behind those of the signer, and nothing else changes. -/
theorem appendToSigner_opened {pkcs7 field stamped : Bytes} (hfield : IsElement field)
    (h : appendToSigner pkcs7 field = .ok stamped) (hlength : stamped.length < 2 ^ 32) :
    ∃ o, openCms pkcs7 = .ok o ∧
      openCms stamped = .ok { o with signer := o.signer ++ [field] } := by
  obtain ⟨o, hopen, h⟩ := bind_eq_ok.mp h
  cases h
  have hparts := openCms_wellFormed hopen
  have hsigner : ∀ part ∈ o.signer ++ [field], IsElement part := by
    intro part hpart
    rcases List.mem_append.mp hpart with hold | hnew
    · exact hparts.signer part hold
    · exact List.mem_singleton.mp hnew ▸ hfield
  exact ⟨o, hopen, openCms_close { hparts with signer := hsigner } hlength⟩

end AasSign
