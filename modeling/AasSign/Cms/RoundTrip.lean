import AasSign.Cms.Assemble
import AasSign.Cms.Extract
import AasSign.Cms.Signers

/-! # The parsers undo the builder

An envelope built over indirect data is read back as that indirect data and has
a signer, also after a field of unsigned attributes is appended to the signer.
-/

namespace AasSign

open Foundation OpenedCms

/-! ## The parts of a signer -/

theorem exists_isAlgorithm (oid : Bytes) (hoid : oid ≠ [])
    (h : (derSequence [derWrap 0x06 oid, derNull]).length < 2 ^ 32) :
    ∃ e : Element, e.raw = derSequence [derWrap 0x06 oid, derNull] ∧ IsAlgorithm e := by
  obtain ⟨o, horaw, hotag, hocontent⟩ := exists_element 0x06 oid (part_lt (by simp) h)
  have hnull : derNull = (wrapped 0x05 [] (by decide)).raw := rfl
  rw [← horaw, hnull] at h ⊢
  obtain ⟨e, hraw, htag, hcontent⟩ := exists_constructed _ [o, wrapped 0x05 [] (by decide)] h
  exact ⟨e, hraw, @IsAlgorithm.mk _ o [_] htag hcontent hotag (hocontent ▸ hoid) (Nat.le_refl 1)⟩

theorem exists_isAttribute (oid value : Bytes) (hoid : oid ≠ []) (hvalue : IsElement value)
    (h : (derSequence [derWrap 0x06 oid, derWrap derSetTag value]).length < 2 ^ 32) :
    ∃ e : Element, e.raw = derSequence [derWrap 0x06 oid, derWrap derSetTag value] ∧
      IsAttribute e := by
  obtain ⟨o, horaw, hotag, hocontent⟩ := exists_element 0x06 oid (part_lt (by simp) h)
  obtain ⟨set, hsetraw, hsettag, hsetcontent⟩ :=
    exists_element derSetTag value (part_lt (by simp) h)
  obtain ⟨v, rfl⟩ := hvalue
  rw [← horaw, ← hsetraw] at h ⊢
  obtain ⟨e, hraw, htag, hcontent⟩ := exists_constructed _ [o, set] h
  exact ⟨e, hraw, .mk htag hcontent hotag (hocontent ▸ hoid) hsettag
    (hsetcontent.trans (by simp : v.raw = rawAll [v])) (by simp)⟩

theorem exists_authAttrs (d : Digest) :
    ∃ es : List Element, es.map Element.raw = authAttrs d ∧ ∀ e ∈ es, IsAttribute e := by
  obtain ⟨contentType, hcontentType, hisContentType⟩ := exists_isAttribute
    contentTypeContent (derWrap 0x06 spcIndirectDataContent) (by decide)
    (isElement_derWrap (by decide)) (by decide)
  obtain ⟨statementType, hstatementType, hisStatementType⟩ := exists_isAttribute
    spcStatementTypeContent (derSequence [derWrap 0x06 spcIndividualContent]) (by decide)
    (isElement_derWrap (by decide)) (by decide)
  have hdigest : (derOctetString d.val).length < 2 ^ 32 := by
    simp [derOctetString, derWrap_length, writeLength, d.property]
  have hdigestAttr : (messageDigestAttr d).length < 2 ^ 32 := by
    rw [messageDigestAttr_length]
    decide
  obtain ⟨messageDigest, hmessageDigest, hisMessageDigest⟩ := exists_isAttribute
    messageDigestContent (derOctetString d.val) (by decide)
    (isElement_derWrap hdigest) (by simpa [messageDigestAttr] using hdigestAttr)
  refine ⟨[contentType, statementType, messageDigest], ?_, ?_⟩
  · simp [hcontentType, hstatementType, hmessageDigest, authAttrs, contentTypeAttr,
      statementTypeAttr, messageDigestAttr]
  · simp [hisContentType, hisStatementType, hisMessageDigest]

section RoundTrip

variable {idc issuer serial : Element} {d : Digest} {signature : Bytes} {certs : List Bytes}

/-- A built envelope, with what has been appended to its signer. -/
def stampedCms (idc : Bytes) (d : Digest) (signature : Bytes) (certs : List Bytes) (certId : CertId)
    (unauthAttrs : List Element) : OpenedCms :=
  { builtCms idc d signature certs certId with
    signer := (builtCms idc d signature certs certId).signer ++ unauthAttrs.map Element.raw }

theorem exists_isSignerInfo {unauthAttrs : List Element} (hsignature : signature ≠ [])
    (hissuerTag : issuer.tag = derSequenceTag) (hissuer : issuer.content ≠ [])
    (hserialTag : serial.tag = 0x02) (hserial : serial.content ≠ [])
    (hunauth : OptionalAttributes 0xa1 unauthAttrs)
    (h : (stampedCms idc.raw d signature certs ⟨issuer.raw, serial.raw⟩
      unauthAttrs).signerInfo.length < 2 ^ 32) :
    ∃ e : Element, e.raw = (stampedCms idc.raw d signature certs ⟨issuer.raw, serial.raw⟩
      unauthAttrs).signerInfo ∧ IsSignerInfo e := by
  have hfield {field : Bytes} (hmem : field ∈
      (builtCms idc.raw d signature certs ⟨issuer.raw, serial.raw⟩).signer) :
      field.length < 2 ^ 32 := part_lt (List.mem_append_left _ hmem) h
  obtain ⟨version, hversionRaw, hversionTag, hversionContent⟩ :=
    exists_element 0x02 [1] (by decide)
  obtain ⟨sid, hsidRaw, hsidTag, hsidContent⟩ := exists_constructed derSequenceTag
    [issuer, serial] (hfield (by simp [builtCms, derSequence]))
  obtain ⟨digestAlgorithm, hdigestRaw, hdigest⟩ :=
    exists_isAlgorithm sha256Content (by decide) (by decide)
  obtain ⟨attrs, hattrsRaw, hattrs⟩ := exists_authAttrs d
  obtain ⟨authField, hauthRaw, hauthTag, hauthContent⟩ := exists_constructed 0xa0 attrs
    (hfield (by simp [builtCms, hattrsRaw]))
  obtain ⟨signatureAlgorithm, hsignatureAlgorithmRaw, hsignatureAlgorithm⟩ :=
    exists_isAlgorithm rsaEncryptionContent (by decide) (by decide)
  obtain ⟨sig, hsigRaw, hsigTag, hsigContent⟩ :=
    exists_element 0x04 signature (hfield (by simp [builtCms, derOctetString]))
  let fields := [version, sid, digestAlgorithm, authField, signatureAlgorithm, sig] ++ unauthAttrs
  have hfields : (stampedCms idc.raw d signature certs ⟨issuer.raw, serial.raw⟩
      unauthAttrs).signer = fields.map Element.raw := by
    simp [stampedCms, builtCms, fields, hversionRaw, hsidRaw, hdigestRaw, hauthRaw, hattrsRaw,
      hsignatureAlgorithmRaw, hsigRaw, derSequence, sha256Algorithm, rsaAlgorithm, derOctetString]
  rw [OpenedCms.signerInfo, hfields] at h ⊢
  obtain ⟨si, hraw, htag, hcontent⟩ := exists_constructed derSequenceTag fields h
  have hattrsNonempty : attrs ≠ [] := by
    rintro rfl
    simp [authAttrs] at hattrsRaw
  refine ⟨si, hraw, @IsSignerInfo.mk _ version sid digestAlgorithm signatureAlgorithm sig
    [authField] unauthAttrs htag ?_ hversionTag hversionContent ?_ hdigest ?_ hsignatureAlgorithm
    hsigTag (hsigContent ▸ hsignature) hunauth⟩
  · simp [hcontent, fields]
  · exact .mk hsidTag hsidContent hissuerTag hissuer hserialTag hserial
  · exact .inr ⟨authField, rfl, .mk hauthTag hauthContent hattrsNonempty hattrs⟩

/-- The envelope has the layout that the parsers read. -/
theorem exists_layout {o : OpenedCms} {si : Element} (hidc : IsIndirectData idc)
    (hcontentType : o.contentType = derWrap 0x06 oidSignedDataContent)
    (hversion : o.version = derWrap 0x02 [1])
    (hdigests : o.digestAlgorithms = derWrap derSetTag sha256Algorithm)
    (hencapsulated : o.encapsulated =
      derSequence [derWrap 0x06 spcIndirectDataContent, derWrap 0xa0 idc.raw])
    (hcertificates : o.certificates = derWrap 0xa0 certs.flatten)
    (hsi : si.raw = o.signerInfo) (h : o.close.length < 2 ^ 32) :
    ∃ layout : SignedDataLayout, layout.encoding = o.close ∧ Encapsulates layout.eci idc ∧
      layout.signers.content = rawAll [si] := by
  have hencap : o.encapsulated.length < 2 ^ 32 := field_lt h (by simp [signedDataFields])
  have hcerts : o.certificates.length < 2 ^ 32 := field_lt h (by simp [signedDataFields])
  rw [hencapsulated] at hencap
  rw [hcertificates] at hcerts
  obtain ⟨oid, hoidRaw, hoidTag, hoidContent⟩ :=
    exists_element 0x06 oidSignedDataContent (by decide)
  obtain ⟨version, hversionRaw, hversionTag, hversionContent⟩ :=
    exists_element 0x02 [1] (by decide)
  obtain ⟨digests, hdigestsRaw, hdigestsTag, -⟩ :=
    exists_element derSetTag sha256Algorithm (by decide)
  obtain ⟨spcOid, hspcRaw, hspcTag, hspcContent⟩ :=
    exists_element 0x06 spcIndirectDataContent (by decide)
  obtain ⟨idcWrapper, hidcRaw, hidcTag, hidcContent⟩ :=
    exists_element 0xa0 idc.raw (part_lt (by simp) hencap)
  rw [← hspcRaw, ← hidcRaw] at hencap
  obtain ⟨eci, heciRaw, heciTag, heciContent⟩ :=
    exists_constructed derSequenceTag [spcOid, idcWrapper] hencap
  obtain ⟨certificates, hcertificatesRaw, hcertificatesTag, -⟩ :=
    exists_element 0xa0 certs.flatten hcerts
  have hsigners : o.signerInfos = derWrap derSetTag (derCat ([si].map Element.raw)) := by
    simp [signerInfos, hsi]
  obtain ⟨signers, hsignersRaw, hsignersTag, hsignersContent⟩ :=
    exists_constructed derSetTag [si] (hsigners ▸ signerInfos_lt h)
  -- Each level is one element more around the ones that are there already.
  let fields := [version, digests, eci, certificates, signers]
  have hfields : o.signedDataFields = fields.map Element.raw := by
    simp [signedDataFields, fields, hversion, hversionRaw, hdigests, hdigestsRaw, hencapsulated,
      heciRaw, hspcRaw, hidcRaw, hcertificates, hcertificatesRaw, hsigners, hsignersRaw, derSequence]
  obtain ⟨sd, hsdRaw, hsdTag, hsdContent⟩ :=
    exists_constructed derSequenceTag fields (hfields ▸ signedData_lt h)
  have hsd : o.signedData = sd.raw := by
    rw [OpenedCms.signedData, hfields, hsdRaw]
  have hwrapper : o.wrapper = derWrap 0xa0 sd.raw := by
    simp [OpenedCms.wrapper, hsd, derCat]
  obtain ⟨wrapper, hwrapperRaw, hwrapperTag, hwrapperContent⟩ :=
    exists_element 0xa0 sd.raw (hwrapper ▸ wrapper_lt h)
  have hclose : o.close = derWrap derSequenceTag (derCat ([oid, wrapper].map Element.raw)) := by
    simp [OpenedCms.close, hcontentType, hoidRaw, hwrapper, hwrapperRaw]
  obtain ⟨ci, hciRaw, hciTag, hciContent⟩ :=
    exists_constructed derSequenceTag [oid, wrapper] (hclose ▸ h)
  refine ⟨⟨ci, oid, wrapper, sd, version, digests, eci, [certificates], [], signers, hciTag,
    hciContent, hoidTag, hoidContent, hwrapperTag, hwrapperContent, hsdTag, ?_, hversionTag,
    hversionContent, hdigestsTag, heciTag, .inr ⟨certificates, rfl, hcertificatesTag⟩, .inl rfl,
    hsignersTag⟩, hciRaw.trans hclose.symm, ?_, hsignersContent⟩
  · simp [hsdContent, fields]
  · exact .mk heciContent hspcTag hspcContent hidcTag hidcContent hidc

/-- Both parsers on a built envelope, with or without unsigned attributes. -/
theorem stampedCms_parsed (unauthAttrs : List Element) (hidc : IsIndirectData idc)
    (hsignature : signature ≠ []) (hissuerTag : issuer.tag = derSequenceTag)
    (hissuer : issuer.content ≠ []) (hserialTag : serial.tag = 0x02) (hserial : serial.content ≠ [])
    (hunauth : OptionalAttributes 0xa1 unauthAttrs)
    (h : (stampedCms idc.raw d signature certs ⟨issuer.raw, serial.raw⟩ unauthAttrs).close.length
      < 2 ^ 32) :
    cmsExtractIndirectData
      (stampedCms idc.raw d signature certs ⟨issuer.raw, serial.raw⟩ unauthAttrs).close =
        .ok idc.raw ∧
    cmsHasSigner (stampedCms idc.raw d signature certs ⟨issuer.raw, serial.raw⟩ unauthAttrs).close =
      .ok true := by
  obtain ⟨si, hsiRaw, hsi⟩ := exists_isSignerInfo hsignature hissuerTag hissuer hserialTag hserial
    hunauth (signerInfo_lt h)
  obtain ⟨layout, hencoding, hencapsulates, hsigners⟩ :=
    exists_layout hidc rfl rfl rfl rfl rfl hsiRaw h
  rw [← hencoding]
  constructor
  · exact cmsExtractIndirectData_encoding hencapsulates
  · exact cmsHasSigner_encoding hsigners (List.forall_mem_singleton.mpr hsi)

/-- All parts of a built envelope are elements, if it is short enough. -/
theorem builtCms_wellFormed
    (h : (builtCms idc.raw d signature certs ⟨issuer.raw, serial.raw⟩).close.length < 2 ^ 32) :
    (builtCms idc.raw d signature certs ⟨issuer.raw, serial.raw⟩).WellFormed where
  contentType := isElement_derWrap (by decide)
  version := isElement_derWrap (by decide)
  digestAlgorithms := isElement_derWrap (by decide)
  encapsulated := isElement_derWrap (field_lt h (by simp [signedDataFields, builtCms, derSequence]))
  certificates := isElement_derWrap (field_lt h (by simp [signedDataFields, builtCms]))
  signer := by
    intro field hfield
    have hlength : field.length < 2 ^ 32 := signer_lt h hfield
    simp only [builtCms, List.mem_cons, List.not_mem_nil, or_false] at hfield
    rcases hfield with rfl | rfl | rfl | rfl | rfl | rfl
    all_goals exact isElement_derWrap hlength

end RoundTrip

/-- The parsers read a built CMS as the indirect data it was built over, with a
signer, and so they do after unsigned attributes are appended to that signer. -/
theorem cmsBuildAuthenticode_parsed (sha256 : Bytes → Digest)
    {indirectData signature certsDer cert : Bytes} {certs : List Bytes} {certId : CertId}
    (hindirectData : ∃ envelope, cmsExtractIndirectData envelope = .ok indirectData)
    (hsignature : signature ≠ []) (hsplit : x509SplitCerts certsDer = .ok (cert :: certs))
    (hid : x509CertId cert = .ok certId) (hissuerTag : certId.issuerRaw.head? = some 0x30)
    (hissuer : derContent certId.issuerRaw ≠ .ok []) (hserial : derContent certId.serialRaw ≠ .ok []) :
    ∃ pkcs7, cmsBuildAuthenticode sha256 indirectData signature certsDer = .ok pkcs7 ∧
      (pkcs7.length < 2 ^ 32 → cmsExtractIndirectData pkcs7 = .ok indirectData ∧
        cmsHasSigner pkcs7 = .ok true ∧
        ∀ field : Element, IsAttributes 0xa1 field →
          ∃ stamped, appendToSigner pkcs7 field.raw = .ok stamped ∧
            (stamped.length < 2 ^ 32 → cmsExtractIndirectData stamped = .ok indirectData ∧
              cmsHasSigner stamped = .ok true)) := by
  obtain ⟨envelope, hextracted⟩ := hindirectData
  obtain ⟨_, idc, -, hencapsulates, rfl⟩ := (cmsExtractIndirectData_safe envelope).of_ok hextracted
  have htag := hencapsulates.idc_tag
  obtain ⟨-, -, -, -, -, hidc⟩ := hencapsulates
  obtain ⟨layout, -, rfl⟩ := (x509CertId_safe cert).of_ok hid
  have htag' : layout.issuer.tag = derSequenceTag := Option.some.inj hissuerTag
  have hissuer' : layout.issuer.content ≠ [] := fun hempty =>
    hissuer ((derContent_raw layout.issuer).trans (congrArg Except.ok hempty))
  have hserial' : layout.serial.content ≠ [] := fun hempty =>
    hserial ((derContent_raw layout.serial).trans (congrArg Except.ok hempty))
  refine ⟨_, cmsBuildAuthenticode_raw sha256 htag hsplit hid, fun hlength => ?_⟩
  have hplain := stampedCms_parsed [] hidc hsignature htag' hissuer' layout.serialTag hserial'
    (.inl rfl) hlength
  refine ⟨hplain.1, hplain.2, fun field hfield => ?_⟩
  refine ⟨(stampedCms idc.raw (sha256 idc.content) signature (cert :: certs) layout.certId
    [field]).close, ?_, fun hstamped => ?_⟩
  · rw [appendToSigner, CertLayout.certId, openCms_close (builtCms_wellFormed hlength) hlength]
    rfl
  · exact stampedCms_parsed [field] hidc hsignature htag' hissuer' layout.serialTag hserial'
      (.inr ⟨field, rfl, hfield⟩) hstamped

/-! ## The smallest inputs -/

/-- SEQUENCE { SEQUENCE {}, SEQUENCE { sha-256, one octet } }. -/
def sampleIndirectData : Bytes :=
  derSequence [derSequence [],
    derSequence [derSequence [derWrap 0x06 sha256Content], derOctetString [0x5a]]]

/-- A certificate that stops after an issuer of one NULL. -/
def sampleCertificate : Bytes :=
  derSequence [derSequence [derWrap 0x02 [1], derSequence [], derSequence [derNull]]]

def sampleDigest : Digest := ⟨List.replicate 32 0x5a, rfl⟩

def sampleEnvelope : Bytes :=
  derSequence [derWrap 0x06 oidSignedDataContent, derWrap 0xa0 (derSequence [derWrap 0x02 [1],
    derSet [], derSequence [derWrap 0x06 spcIndirectDataContent, derWrap 0xa0 sampleIndirectData],
    derSet []])]

theorem sampleEnvelope_extracted :
    cmsExtractIndirectData sampleEnvelope = .ok sampleIndirectData := by decide

theorem sampleCertificate_split : x509SplitCerts sampleCertificate = .ok [sampleCertificate] := by
  decide

theorem sampleCertificate_certId :
    x509CertId sampleCertificate = .ok ⟨derSequence [derNull], derWrap 0x02 [1]⟩ := by decide

theorem sampleCms_parsed :
    ∃ pkcs7, cmsBuildAuthenticode (fun _ => sampleDigest) sampleIndirectData [1]
        sampleCertificate = .ok pkcs7 ∧
      (pkcs7.length < 2 ^ 32 → cmsExtractIndirectData pkcs7 = .ok sampleIndirectData ∧
        cmsHasSigner pkcs7 = .ok true ∧
        ∀ field : Element, IsAttributes 0xa1 field →
          ∃ stamped, appendToSigner pkcs7 field.raw = .ok stamped ∧
            (stamped.length < 2 ^ 32 → cmsExtractIndirectData stamped = .ok sampleIndirectData ∧
              cmsHasSigner stamped = .ok true)) :=
  cmsBuildAuthenticode_parsed (fun _ => sampleDigest) ⟨sampleEnvelope, sampleEnvelope_extracted⟩
    (by decide) sampleCertificate_split sampleCertificate_certId (by decide) (by decide) (by decide)

end AasSign
