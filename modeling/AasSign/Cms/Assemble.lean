import AasSign.Cms.Open

/-! # What the builder builds

The authenticated attributes in their sorted order, and the envelope that
`cms_build_authenticode` returns, as a closed envelope of known parts.
-/

namespace AasSign

open Foundation

def contentTypeAttr : Bytes :=
  derSequence [derWrap 0x06 contentTypeContent, derSet [derWrap 0x06 spcIndirectDataContent]]

def statementTypeAttr : Bytes :=
  derSequence [derWrap 0x06 spcStatementTypeContent,
    derSet [derSequence [derWrap 0x06 spcIndividualContent]]]

def messageDigestAttr (d : Digest) : Bytes :=
  derSequence [derWrap 0x06 messageDigestContent, derSet [derOctetString d.val]]

/-- The authenticated attributes in the order they are written. -/
def authAttrs (d : Digest) : List Bytes :=
  [contentTypeAttr, statementTypeAttr, messageDigestAttr d]

@[simp] theorem derSet_singleton (part : Bytes) : derSet [part] = derWrap derSetTag part := by
  simp [derSet, sortParts, derCat]

@[simp] theorem derExplicit_zero (content : Bytes) : derExplicit 0 content = derWrap 0xa0 content :=
  rfl

theorem derImplicit_derWrap (tag : UInt8) (content : Bytes) :
    derImplicit 0 true (derWrap tag content) = .ok (derWrap 0xa0 content) := rfl

theorem messageDigestAttr_length (d : Digest) : (messageDigestAttr d).length = 49 := by
  simp [messageDigestAttr, derSequence, derOctetString, derCat, derWrap_length, writeLength,
    messageDigestContent, d.property]

/-- The digest attribute, whatever the digest, starts with its tag and length. -/
theorem messageDigestAttr_eq (d : Digest) :
    ∃ rest, messageDigestAttr d = 0x30 :: 0x2f :: rest := by
  have hcontent (content : Bytes) (h : content.length = 47) :
      derWrap 0x30 content = 0x30 :: 0x2f :: content := by
    simp [derWrap, writeLength, h]
  refine ⟨_, hcontent _ ?_⟩
  simp [derOctetString, derCat, derWrap_length, writeLength, messageDigestContent, d.property]

theorem contentTypeAttr_lt : contentTypeAttr < statementTypeAttr := by decide

theorem statementTypeAttr_lt (d : Digest) : statementTypeAttr < messageDigestAttr d := by
  obtain ⟨rest, hrest⟩ := messageDigestAttr_eq d
  have hstatement : ∃ rest, statementTypeAttr = 0x30 :: 0x1c :: rest := ⟨_, rfl⟩
  obtain ⟨rest', hrest'⟩ := hstatement
  rw [hrest, hrest', List.cons_lt_cons_iff, List.cons_lt_cons_iff]
  exact .inr ⟨rfl, .inl (by decide)⟩

/-- The attributes are written in strictly increasing order. -/
theorem authAttrs_sorted (d : Digest) : (authAttrs d).Pairwise (· < ·) := by
  have hfirst : contentTypeAttr < messageDigestAttr d :=
    List.lt_trans contentTypeAttr_lt (statementTypeAttr_lt d)
  simp [authAttrs, contentTypeAttr_lt, statementTypeAttr_lt d, hfirst]

theorem derSet_authAttrs (d : Digest) :
    derSet [contentTypeAttr, messageDigestAttr d, statementTypeAttr] =
      derWrap derSetTag (derCat (authAttrs d)) := by
  have hlast : ¬ messageDigestAttr d ≤ statementTypeAttr := List.not_le.mpr (statementTypeAttr_lt d)
  have hfirst : contentTypeAttr ≤ statementTypeAttr := List.le_of_lt contentTypeAttr_lt
  simp [derSet, sortParts, authAttrs, hlast, hfirst]

section Build

variable (sha256 : Bytes → Digest)

/-- The attributes are built from the content of one SEQUENCE. -/
theorem buildAuthAttrs_raw {idc : Element} (htag : idc.tag = derSequenceTag) :
    buildAuthAttrs sha256 idc.raw =
      .ok (derWrap derSetTag (derCat (authAttrs (sha256 idc.content)))) := by
  have hsees : (Ptr.data idc.raw).Sees (idc.raw ++ []) := by
    rw [List.append_nil]
    exact Ptr.Sees.data idc.raw
  have hread := derReadTlv_raw hsees
  rw [List.append_nil] at hread
  rw [buildAuthAttrs, hread, ok_bind, throwIf_of_not (by simp [htag]), ok_bind,
    TlvView.of_contentLen, hsees.content.copy]
  simp only [ok_bind, oidContentType_eq, oidSpcIndirectData_eq, oidMessageDigest_eq,
    oidSpcStatementType_eq, oidSpcIndividual_eq]
  exact congrArg Except.ok (derSet_authAttrs (sha256 idc.content))

theorem buildAuthAttrs_eq_ok {indirectData attrs : Bytes} :
    buildAuthAttrs sha256 indirectData = .ok attrs ↔ ∃ idc : Element, indirectData = idc.raw ∧
      idc.tag = derSequenceTag ∧ attrs = derWrap derSetTag (derCat (authAttrs (sha256 idc.content))) := by
  constructor
  · intro h
    have hsafe := derReadTlv_safe (Ptr.Sees.data indirectData)
    have hbuild := h
    rw [buildAuthAttrs, bind_eq_ok] at hbuild
    obtain ⟨_, hread, hbuild⟩ := hbuild
    obtain ⟨idc, rest, hsplit, rfl⟩ := hsafe.of_ok hread
    rw [bind_eq_ok] at hbuild
    obtain ⟨_, hchecked, -⟩ := hbuild
    rw [throwIf_eq_ok, not_or, not_not, not_not, TlvView.of_totalLen, hsplit,
      List.length_append] at hchecked
    have hrest : rest = [] := List.length_eq_zero_iff.mp (by omega)
    rw [hrest, List.append_nil] at hsplit
    rw [hsplit, buildAuthAttrs_raw sha256 hchecked.1] at h
    cases h
    exact ⟨idc, hsplit, hchecked.1, rfl⟩
  · rintro ⟨idc, rfl, htag, rfl⟩
    exact buildAuthAttrs_raw sha256 htag

end Build

def sha256Algorithm : Bytes := derSequence [derWrap 0x06 sha256Content, derNull]

def rsaAlgorithm : Bytes := derSequence [derWrap 0x06 rsaEncryptionContent, derNull]

@[simp] theorem sha256AlgId_eq : sha256AlgId = .ok sha256Algorithm := by
  simp [sha256AlgId, sha256Algorithm]

/-- The parts of the envelope that is built over the indirect data `idc`. -/
def builtCms (idc : Bytes) (d : Digest) (signature : Bytes) (certs : List Bytes) (certId : CertId) :
    OpenedCms where
  contentType := derWrap 0x06 oidSignedDataContent
  version := derWrap 0x02 [1]
  digestAlgorithms := derWrap derSetTag sha256Algorithm
  encapsulated := derSequence [derWrap 0x06 spcIndirectDataContent, derWrap 0xa0 idc]
  certificates := derWrap 0xa0 certs.flatten
  signer := [derWrap 0x02 [1], derSequence [certId.issuerRaw, certId.serialRaw], sha256Algorithm,
    derWrap 0xa0 (derCat (authAttrs d)), rsaAlgorithm, derOctetString signature]

section Built

variable (sha256 : Bytes → Digest) {idc : Element} {signature certsDer cert : Bytes}
  {certs : List Bytes} {certId : CertId}

theorem cmsBuildAuthenticode_raw (htag : idc.tag = derSequenceTag)
    (hsplit : x509SplitCerts certsDer = .ok (cert :: certs)) (hid : x509CertId cert = .ok certId) :
    cmsBuildAuthenticode sha256 idc.raw signature certsDer =
      .ok (builtCms idc.raw (sha256 idc.content) signature (cert :: certs) certId).close := by
  simp only [cmsBuildAuthenticode, assembleCms, hsplit, ok_bind, hid, buildAuthAttrs_raw sha256 htag,
    signerInfo, derInteger_one, sha256AlgId_eq, derImplicit_derWrap, oidRsaEncryption_eq,
    assembleSignedData, oidSpcIndirectData_eq, oidSignedData_eq, pure, Except.pure,
    derSet_singleton, derExplicit_zero]
  simp [OpenedCms.close, OpenedCms.wrapper, OpenedCms.signedData, OpenedCms.signedDataFields,
    OpenedCms.signerInfos, OpenedCms.signerInfo, builtCms, derSequence, derCat, rsaAlgorithm]

/-- What a successful build was given, and what it returns. -/
theorem cmsBuildAuthenticode_eq_ok {indirectData pkcs7 : Bytes}
    (h : cmsBuildAuthenticode sha256 indirectData signature certsDer = .ok pkcs7) :
    ∃ (idc : Element) (cert : Bytes) (certs : List Bytes) (certId : CertId),
      indirectData = idc.raw ∧ idc.tag = derSequenceTag ∧
      x509SplitCerts certsDer = .ok (cert :: certs) ∧ x509CertId cert = .ok certId ∧
      pkcs7 = (builtCms idc.raw (sha256 idc.content) signature (cert :: certs) certId).close := by
  have hbuild := h
  rw [cmsBuildAuthenticode, assembleCms, bind_eq_ok] at hbuild
  obtain ⟨split, hsplit, hbuild⟩ := hbuild
  cases split with
  | nil => cases hbuild
  | cons cert certs =>
      simp only [bind_eq_ok] at hbuild
      obtain ⟨certId, hid, attrs, hattrs, -⟩ := hbuild
      obtain ⟨idc, rfl, htag, -⟩ := (buildAuthAttrs_eq_ok sha256).mp hattrs
      rw [cmsBuildAuthenticode_raw sha256 htag hsplit hid] at h
      cases h
      exact ⟨idc, cert, certs, certId, rfl, htag, hsplit, hid, rfl⟩

end Built

end AasSign
