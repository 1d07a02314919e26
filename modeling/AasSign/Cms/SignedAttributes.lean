import AasSign.Cms.RoundTrip

/-! # What is signed is what is carried

The hash given to the signer is recomputed by the builder in another place. The
envelope, opened with the TLV reader, carries attributes that hash to it.
-/

namespace AasSign

open Foundation OpenedCms

/-- The type of an attribute, as it is written. -/
def attributeType (attr : Bytes) : Except Exn Bytes := do
  match ← derParts attr with
  | [type, _] => return type
  | _ => throw (.error "unexpected attribute fields")

/-- The values of an attribute, as they are written. -/
def attributeValues (attr : Bytes) : Except Exn (List Bytes) := do
  match ← derParts attr with
  | [_, values] => derParts values
  | _ => throw (.error "unexpected attribute fields")

theorem derParts_attribute {type value : Bytes} (htype : IsElement type)
    (h : (derSequence [type, derWrap derSetTag value]).length < 2 ^ 32) :
    derParts (derSequence [type, derWrap derSetTag value]) =
      .ok [type, derWrap derSetTag value] := by
  apply derParts_derWrap h
  simp only [List.mem_cons, List.not_mem_nil, or_false]
  rintro part (rfl | rfl)
  · exact htype
  · exact isElement_derWrap (part_lt (by simp) h)

theorem messageDigestAttr_lt (d : Digest) : (messageDigestAttr d).length < 2 ^ 32 := by
  rw [messageDigestAttr_length]
  decide

theorem derParts_messageDigestAttr (d : Digest) :
    derParts (messageDigestAttr d) =
      .ok [derWrap 0x06 messageDigestContent, derWrap derSetTag (derOctetString d.val)] := by
  have h := messageDigestAttr_lt d
  rw [messageDigestAttr, derSet_singleton] at h ⊢
  exact derParts_attribute (isElement_derWrap (by decide)) h

theorem attributeType_messageDigestAttr (d : Digest) :
    attributeType (messageDigestAttr d) = oidMessageDigest := by
  rw [attributeType, derParts_messageDigestAttr, oidMessageDigest_eq]
  rfl

theorem attributeValues_messageDigestAttr (d : Digest) :
    attributeValues (messageDigestAttr d) = .ok [derOctetString d.val] := by
  have hset : (derWrap derSetTag (derCat [derOctetString d.val])).length < 2 ^ 32 := by
    have h := messageDigestAttr_lt d
    rw [messageDigestAttr] at h
    exact part_lt (by simp [derSet_singleton, derCat]) h
  have hvalue : (derOctetString d.val).length < 2 ^ 32 := part_lt (by simp) hset
  have hvalues := derParts_derWrap hset (List.forall_mem_singleton.mpr (isElement_derWrap hvalue))
  rw [derCat, List.flatten_singleton] at hvalues
  rw [attributeValues, derParts_messageDigestAttr]
  exact hvalues

/-- One of the authenticated attributes has the message digest type. -/
theorem authAttrs_messageDigest (d : Digest) :
    (authAttrs d).filter (fun attr => attributeType attr = oidMessageDigest) =
      [messageDigestAttr d] := by
  have hcontentType : attributeType contentTypeAttr ≠ oidMessageDigest := by decide
  have hstatementType : attributeType statementTypeAttr ≠ oidMessageDigest := by decide
  simp only [authAttrs, List.filter_cons, hcontentType, hstatementType,
    attributeType_messageDigestAttr, decide_true, decide_false, if_true, List.filter_nil]
  simp

theorem authAttrs_isElement (d : Digest) : ∀ attr ∈ authAttrs d, IsElement attr := by
  obtain ⟨es, hes, -⟩ := exists_authAttrs d
  rw [← hes]
  simp [IsElement]

/-- The field, tagged as the SET it stands for, holds sorted attributes that hash
to `hash`, with one message digest, that of `content`. -/
structure HoldsSignedAttributes (sha256 : Bytes → Digest) (content : Bytes) (hash : Digest)
    (field : Bytes) : Prop where
  tag : field.head? = some 0xa0
  hashed : sha256 (0x31 :: field.tail) = hash
  attributes : ∃ attrs, derParts (0x31 :: field.tail) = .ok attrs ∧ attrs.Pairwise (· < ·) ∧
    ∃ digest, attrs.filter (fun attr => attributeType attr = oidMessageDigest) = [digest] ∧
      attributeValues digest = .ok [derOctetString (sha256 content).val]

/-- A CMS carries what was hashed for signing, next to the signature and the
certificates it was built with. -/
theorem cmsBuildAuthenticode_carries (sha256 : Bytes → Digest)
    {indirectData signature certsDer pkcs7 : Bytes} {hash : Digest}
    (hbuild : cmsBuildAuthenticode sha256 indirectData signature certsDer = .ok pkcs7)
    (hhash : cmsAuthAttrsHash sha256 indirectData = .ok hash) (hlength : pkcs7.length < 2 ^ 32) :
    ∃ (o : OpenedCms) (version sid digestAlgorithm field signatureAlgorithm : Bytes)
      (octets content cert : Bytes) (certs : List Bytes) (certId : CertId),
      openCms pkcs7 = .ok o ∧
      o.signer = [version, sid, digestAlgorithm, field, signatureAlgorithm,
        derOctetString signature] ∧
      LengthOctets content.length octets ∧ indirectData = 0x30 :: (octets ++ content) ∧
      HoldsSignedAttributes sha256 content hash field ∧
      derContent (derOctetString signature) = .ok signature ∧
      x509SplitCerts certsDer = .ok (cert :: certs) ∧ x509CertId cert = .ok certId ∧
      sid.head? = some 0x30 ∧ derParts sid = .ok [certId.issuerRaw, certId.serialRaw] ∧
      o.certificates.head? = some 0xa0 ∧ derContent o.certificates = .ok (cert :: certs).flatten := by
  obtain ⟨idc, cert, certs, certId, rfl, htag, hsplit, hid, rfl⟩ :=
    cmsBuildAuthenticode_eq_ok sha256 hbuild
  obtain ⟨layout, -, rfl⟩ := (x509CertId_safe cert).of_ok hid
  rw [cmsAuthAttrsHash, buildAuthAttrs_raw sha256 htag, ok_bind] at hhash
  cases hhash
  have hsid : (derSequence [layout.issuer.raw, layout.serial.raw]).length < 2 ^ 32 :=
    signer_lt hlength (by simp [builtCms, CertLayout.certId])
  have hfield : (derWrap 0xa0 (derCat (authAttrs (sha256 idc.content)))).length < 2 ^ 32 :=
    signer_lt hlength (by simp [builtCms])
  have hsignature : (derOctetString signature).length < 2 ^ 32 :=
    signer_lt hlength (by simp [builtCms])
  have hcertificates : (derWrap 0xa0 (cert :: certs).flatten).length < 2 ^ 32 :=
    field_lt hlength (by simp [signedDataFields, builtCms])
  refine ⟨_, _, _, _, _, _, idc.octets, idc.content, cert, certs, layout.certId,
    openCms_close (builtCms_wellFormed hlength) hlength, rfl, idc.wellFormed, ?_, ?_,
    derContent_derWrap hsignature, hsplit, hid, rfl, ?_, rfl, derContent_derWrap hcertificates⟩
  · rw [Element.raw, Element.header, htag]
    rfl
  · refine ⟨rfl, rfl, authAttrs (sha256 idc.content), ?_, authAttrs_sorted _,
      messageDigestAttr (sha256 idc.content), authAttrs_messageDigest _,
      attributeValues_messageDigestAttr _⟩
    exact derParts_derWrap hfield (authAttrs_isElement _)
  · apply derParts_derWrap hsid
    simp [IsElement]

theorem sampleCms_carries :
    ∃ (o : OpenedCms) (version sid digestAlgorithm field signatureAlgorithm : Bytes)
      (octets content cert : Bytes) (certs : List Bytes) (certId : CertId),
      openCms (builtCms sampleIndirectData sampleDigest [1] [sampleCertificate]
        ⟨derSequence [derNull], derWrap 0x02 [1]⟩).close = .ok o ∧
      o.signer = [version, sid, digestAlgorithm, field, signatureAlgorithm,
        derOctetString [1]] ∧
      LengthOctets content.length octets ∧ sampleIndirectData = 0x30 :: (octets ++ content) ∧
      HoldsSignedAttributes (fun _ => sampleDigest) content sampleDigest field ∧
      derContent (derOctetString [1]) = .ok [1] ∧
      x509SplitCerts sampleCertificate = .ok (cert :: certs) ∧ x509CertId cert = .ok certId ∧
      sid.head? = some 0x30 ∧ derParts sid = .ok [certId.issuerRaw, certId.serialRaw] ∧
      o.certificates.head? = some 0xa0 ∧ derContent o.certificates = .ok (cert :: certs).flatten :=
  cmsBuildAuthenticode_carries (fun _ => sampleDigest) (by decide +kernel) (by decide)
    (by decide +kernel)

end AasSign
