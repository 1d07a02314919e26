import AasSign.Cms.Parse

/-! # The envelope grammar

The layout of a CMS that the readers accept, element by element, with the proof
that they accept exactly these layouts. The lengths need not be minimal; nothing
may follow the last field of a level.
-/

namespace AasSign

open Foundation DerFields

/-- The elements are absent, or one element with the tag. -/
def AtMostOne (tag : UInt8) (es : List Element) : Prop :=
  es = [] ∨ ∃ e, es = [e] ∧ e.tag = tag

/-- SEQUENCE { OID sha-256, NULL OPTIONAL }. -/
inductive IsDigestAlgorithm : Element → Prop where
  | mk {algorithm oid : Element} {parameters : List Element} (tag : algorithm.tag = derSequenceTag)
      (content : algorithm.content = rawAll (oid :: parameters)) (oidTag : oid.tag = 0x06)
      (oidContent : oid.content = sha256Content) (parametersTag : AtMostOne 0x05 parameters)
      (parametersEmpty : ∀ e ∈ parameters, e.content = []) : IsDigestAlgorithm algorithm

theorem IsDigestAlgorithm.tag_eq {algorithm : Element} (h : IsDigestAlgorithm algorithm) :
    algorithm.tag = derSequenceTag := by
  cases h with
  | mk htag => exact htag

/-- SEQUENCE { SEQUENCE any, SEQUENCE { digest algorithm, OCTET STRING } }. -/
inductive IsIndirectData : Element → Prop where
  | mk {idc payload digest algorithm value : Element} (tag : idc.tag = derSequenceTag)
      (content : idc.content = rawAll [payload, digest]) (payloadTag : payload.tag = derSequenceTag)
      (digestTag : digest.tag = derSequenceTag)
      (digestContent : digest.content = rawAll [algorithm, value])
      (isAlgorithm : IsDigestAlgorithm algorithm) (valueTag : value.tag = 0x04)
      (valueContent : value.content ≠ []) : IsIndirectData idc

/-- SEQUENCE { OID SPC_INDIRECT_DATA, [0] { indirect data } }. -/
inductive Encapsulates : Element → Element → Prop where
  | mk {eci oid wrapper idc : Element} (content : eci.content = rawAll [oid, wrapper])
      (oidTag : oid.tag = 0x06) (oidContent : oid.content = spcIndirectDataContent)
      (wrapperTag : wrapper.tag = 0xa0) (wrapperContent : wrapper.content = idc.raw)
      (isIndirectData : IsIndirectData idc) : Encapsulates eci idc

/-- ContentInfo { signedData OID, [0] { SEQUENCE { INTEGER 1, SET, SEQUENCE,
optional [0], optional [1], SET } } }. -/
structure SignedDataLayout where
  ci : Element
  oid : Element
  wrapper : Element
  sd : Element
  version : Element
  digests : Element
  eci : Element
  certs : List Element
  crls : List Element
  signers : Element
  ciTag : ci.tag = derSequenceTag
  ciContent : ci.content = rawAll [oid, wrapper]
  oidTag : oid.tag = 0x06
  oidContent : oid.content = oidSignedDataContent
  wrapperTag : wrapper.tag = 0xa0
  wrapperContent : wrapper.content = sd.raw
  sdTag : sd.tag = derSequenceTag
  sdContent : sd.content =
    version.raw ++ (digests.raw ++ (eci.raw ++ (rawAll certs ++ (rawAll crls ++ signers.raw))))
  versionTag : version.tag = 0x02
  versionContent : version.content = [1]
  digestsTag : digests.tag = derSetTag
  eciTag : eci.tag = derSequenceTag
  certsTag : AtMostOne 0xa0 certs
  crlsTag : AtMostOne 0xa1 crls
  signersTag : signers.tag = derSetTag

def SignedDataLayout.encoding (layout : SignedDataLayout) : Bytes := layout.ci.raw

/-- SEQUENCE { non-empty OID, at most one parameter }. -/
inductive IsAlgorithm : Element → Prop where
  | mk {algorithm oid : Element} {parameters : List Element} (tag : algorithm.tag = derSequenceTag)
      (content : algorithm.content = rawAll (oid :: parameters)) (oidTag : oid.tag = 0x06)
      (oidContent : oid.content ≠ []) (parametersLength : parameters.length ≤ 1) :
      IsAlgorithm algorithm

/-- SEQUENCE { non-empty OID, SET of one or more elements }. -/
inductive IsAttribute : Element → Prop where
  | mk {attr oid set : Element} {values : List Element} (tag : attr.tag = derSequenceTag)
      (content : attr.content = rawAll [oid, set]) (oidTag : oid.tag = 0x06)
      (oidContent : oid.content ≠ []) (setTag : set.tag = derSetTag)
      (setContent : set.content = rawAll values) (valuesNonempty : values ≠ []) :
      IsAttribute attr

/-- A field of one or more attributes with the given context tag. -/
inductive IsAttributes (tag : UInt8) : Element → Prop where
  | mk {field : Element} {attrs : List Element} (fieldTag : field.tag = tag)
      (content : field.content = rawAll attrs) (nonempty : attrs ≠ [])
      (isAttribute : ∀ e ∈ attrs, IsAttribute e) : IsAttributes tag field

/-- The optional attributes field of a signer. -/
def OptionalAttributes (tag : UInt8) (es : List Element) : Prop :=
  es = [] ∨ ∃ e, es = [e] ∧ IsAttributes tag e

/-- SEQUENCE { non-empty issuer SEQUENCE, non-empty serial INTEGER }. -/
inductive IsSignerId : Element → Prop where
  | mk {sid issuer serial : Element} (tag : sid.tag = derSequenceTag)
      (content : sid.content = rawAll [issuer, serial]) (issuerTag : issuer.tag = derSequenceTag)
      (issuerContent : issuer.content ≠ []) (serialTag : serial.tag = 0x02)
      (serialContent : serial.content ≠ []) : IsSignerId sid

inductive IsSignerInfo : Element → Prop where
  | mk {signer version sid digestAlgorithm signatureAlgorithm signature : Element}
      {authAttrs unauthAttrs : List Element} (tag : signer.tag = derSequenceTag)
      (content : signer.content = version.raw ++ (sid.raw ++ (digestAlgorithm.raw ++
        (rawAll authAttrs ++ (signatureAlgorithm.raw ++ (signature.raw ++ rawAll unauthAttrs))))))
      (versionTag : version.tag = 0x02) (versionContent : version.content = [1])
      (isSignerId : IsSignerId sid) (isDigestAlgorithm : IsAlgorithm digestAlgorithm)
      (isAuthAttrs : OptionalAttributes 0xa0 authAttrs)
      (isSignatureAlgorithm : IsAlgorithm signatureAlgorithm) (signatureTag : signature.tag = 0x04)
      (signatureContent : signature.content ≠ [])
      (isUnauthAttrs : OptionalAttributes 0xa1 unauthAttrs) : IsSignerInfo signer

/-! ## The steps of the walk -/

section Steps

variable {fields : DerFields} {l : Bytes}

/-- Comparing identifiers compares the contents. -/
theorem requireOid_eq {value : TlvView} {bytes : Bytes} (content : Bytes)
    (h : (ofView value).Covers bytes) (hcontent : content.length < 2 ^ 32) :
    requireOid value (derWrap 0x06 content) = throwIf (bytes ≠ content)
      "unexpected CMS content or digest algorithm (SHA-256 required)" := by
  let expected := wrapped 0x06 content hcontent
  have hsees : (Ptr.data expected.raw).Sees (expected.raw ++ []) := by
    rw [List.append_nil]
    exact Ptr.Sees.data expected.raw
  have hexpected := derReadTlv_raw hsees
  rw [List.append_nil] at hexpected
  have hlength : value.contentLen = bytes.length := h.length
  rw [requireOid, ← wrapped_raw hcontent, hexpected, ok_bind, hlength]
  dsimp only
  by_cases hsame : bytes.length = (TlvView.of expected (Ptr.data expected.raw)).contentLen
  · have hbytes : value.content.copy bytes.length = .ok bytes := h.sees.copy
    have hexpectedBytes : (TlvView.of expected (Ptr.data expected.raw)).content.copy
        bytes.length = .ok content := by
      have hcount : bytes.length = content.length := hsame
      rw [hcount]
      exact hsees.content.copy
    rw [throwIf_of_not (not_not.mpr hsame), ok_bind, hbytes, ok_bind, hexpectedBytes]
    rfl
  · have hne : bytes ≠ content := fun heq => hsame (congrArg List.length heq)
    rw [throwIf_of hsame, throwIf_of hne]
    rfl

theorem requireVersion1_eq {version : TlvView} {bytes : Bytes} {what : String}
    (h : (ofView version).Covers bytes) :
    requireVersion1 version what = throwIf (bytes ≠ [1]) what := by
  have hlength : version.contentLen = bytes.length := h.length
  rw [requireVersion1, hlength]
  match bytes, h with
  | [b], h =>
      have hread : version.content.read 0 = .ok b := h.sees.read (by simp)
      simp [hread]
  | [], _ => simp [throwIf]
  | _ :: _ :: _, _ => simp [throwIf]

theorem takeOptional_safe (h : fields.Covers l) (tag : UInt8) :
    Safe (takeOptional fields tag) fun next => ∃ es rest, l = rawAll es ++ rest ∧
      AtMostOne tag es ∧ next.Covers rest := by
  rw [takeOptional, next_eq h, ok_bind]
  apply safe_ite.mpr
  constructor
  · intro _
    apply (take_safe h tag).bind
    rintro ⟨_, next⟩ ⟨e, rest, rfl, htag, rfl, rfl⟩
    exact ⟨[e], rest, by simp, .inr ⟨e, rfl, htag⟩, h.after⟩
  · intro _
    exact ⟨[], l, rfl, .inl rfl, h⟩

/-- An optional field is taken when it is there, and when it is not the next
field must differ from it in its tag. -/
theorem takeOptional_rawAll {es : List Element} {rest : Bytes} {tag : UInt8}
    (h : fields.Covers (rawAll es ++ rest)) (hes : AtMostOne tag es) (hrest : rest.headD 0 ≠ tag) :
    ∃ next, takeOptional fields tag = .ok next ∧ next.Covers rest := by
  rcases hes with rfl | ⟨e, rfl, htag⟩
  · refine ⟨fields, ?_, h⟩
    rw [takeOptional, next_eq h, ok_bind]
    exact if_neg hrest
  · rw [rawAll_cons, rawAll_nil, List.append_nil] at h
    refine ⟨fields.after e, ?_, h.after⟩
    have hhead : (e.raw ++ rest).headD 0 = tag := htag
    rw [takeOptional, next_eq h, ok_bind, if_pos hhead, take_tag h htag]
    rfl

/-- The envelope is walked down to the cursor over SignedData. -/
theorem signedData_safe (pkcs7 : Bytes) :
    Safe (signedData pkcs7) fun view => ∃ ci oid wrapper sd : Element, pkcs7 = ci.raw ∧
      ci.tag = derSequenceTag ∧ ci.content = rawAll [oid, wrapper] ∧ oid.tag = 0x06 ∧
      oid.content = oidSignedDataContent ∧ wrapper.tag = 0xa0 ∧ wrapper.content = sd.raw ∧
      sd.tag = derSequenceTag ∧ (ofView view).Covers sd.content := by
  rw [signedData]
  apply (derReadTlv_safe (Ptr.Sees.data pkcs7)).bind
  rintro _ ⟨ci, rest, rfl, rfl⟩
  rw [safe_bind, safe_throwIf, not_or, not_not, not_not, List.length_append]
  rintro ⟨hciTag, hlength⟩
  have hrest : rest = [] := by
    rw [TlvView.of_totalLen] at hlength
    exact List.length_eq_zero_iff.mp (by omega)
  subst hrest
  have hci := covers_ofView (Ptr.Sees.data (ci.raw ++ []))
  apply (take_safe hci 0x06).bind
  rintro ⟨_, _⟩ ⟨oid, rest, hciContent, hoidTag, rfl, rfl⟩
  rw [hciContent] at hci
  dsimp only
  rw [oidSignedData_eq, ok_bind, requireOid_eq _ hci.inner (by decide), safe_bind, safe_throwIf,
    not_not]
  intro hoidContent
  apply (take_safe hci.after 0xa0).bind
  rintro ⟨_, _⟩ ⟨wrapper, rest, rfl, hwrapperTag, rfl, rfl⟩
  have hwrapper := hci.after.inner
  apply (take_safe hwrapper derSequenceTag).bind
  rintro ⟨_, _⟩ ⟨sd, afterSd, hwrapperContent, hsdTag, rfl, rfl⟩
  rw [hwrapperContent] at hwrapper
  dsimp only
  rw [safe_bind, DerFields.finish, safe_throwIf, Bool.not_eq_false, empty_iff hwrapper.after]
  rintro rfl
  rw [safe_bind, DerFields.finish, safe_throwIf, Bool.not_eq_false, empty_iff hci.after.after]
  rintro rfl
  refine ⟨ci, oid, wrapper, sd, by simp, hciTag, by simpa using hciContent, hoidTag, hoidContent,
    hwrapperTag, by simpa using hwrapperContent, hsdTag, hwrapper.inner⟩

theorem signedData_raw {ci oid wrapper sd : Element} (hciTag : ci.tag = derSequenceTag)
    (hciContent : ci.content = rawAll [oid, wrapper]) (hoidTag : oid.tag = 0x06)
    (hoidContent : oid.content = oidSignedDataContent) (hwrapperTag : wrapper.tag = 0xa0)
    (hwrapperContent : wrapper.content = sd.raw) (hsdTag : sd.tag = derSequenceTag) :
    ∃ view, signedData ci.raw = .ok view ∧ (ofView view).Covers sd.content := by
  have hsees : (Ptr.data ci.raw).Sees (ci.raw ++ []) := by
    rw [List.append_nil]
    exact Ptr.Sees.data ci.raw
  have hread := derReadTlv_raw hsees
  rw [List.append_nil] at hread
  have hci := covers_ofView hsees
  rw [hciContent, rawAll_cons, rawAll_cons, rawAll_nil] at hci
  have hwrapper := hci.after.inner
  rw [hwrapperContent, ← List.append_nil sd.raw] at hwrapper
  refine ⟨_, ?_, hwrapper.inner⟩
  rw [signedData, hread, ok_bind, throwIf_of_not (by simp [hciTag])]
  simp only [ok_bind, take_tag hci hoidTag, oidSignedData_eq,
    requireOid_eq oidSignedDataContent hci.inner (by decide),
    throwIf_of_not (not_not.mpr hoidContent), take_tag hci.after hwrapperTag,
    take_tag hwrapper hsdTag, finish_nil hwrapper.after, finish_nil hci.after.after]
  rfl

theorem skipSignedDataHeader_safe (h : fields.Covers l) :
    Safe (skipSignedDataHeader fields) fun (view, next) =>
      ∃ version digests eci rest, l = Element.raw version ++ (Element.raw digests ++
        (Element.raw eci ++ rest)) ∧ version.tag = 0x02 ∧ version.content = [1] ∧
        digests.tag = derSetTag ∧ eci.tag = derSequenceTag ∧
        (ofView view).Covers eci.content ∧ next.Covers rest := by
  rw [skipSignedDataHeader]
  apply (take_safe h 0x02).bind
  rintro ⟨_, _⟩ ⟨version, rest, rfl, hversionTag, rfl, rfl⟩
  dsimp only
  rw [requireVersion1_eq h.inner, safe_bind, safe_throwIf, not_not]
  intro hversionContent
  apply (take_safe h.after derSetTag).bind
  rintro ⟨_, _⟩ ⟨digests, rest, rfl, hdigestsTag, rfl, rfl⟩
  apply (take_safe h.after.after derSequenceTag).mono
  rintro ⟨_, _⟩ ⟨eci, rest, rfl, heciTag, rfl, rfl⟩
  exact ⟨version, digests, eci, rest, rfl, hversionTag, hversionContent, hdigestsTag, heciTag,
    h.after.after.inner, h.after.after.after⟩

theorem skipSignedDataHeader_raw {version digests eci : Element} {rest : Bytes}
    (h : fields.Covers (version.raw ++ (digests.raw ++ (eci.raw ++ rest))))
    (hversionTag : version.tag = 0x02) (hversionContent : version.content = [1])
    (hdigestsTag : digests.tag = derSetTag) (heciTag : eci.tag = derSequenceTag) :
    ∃ view next, skipSignedDataHeader fields = .ok (view, next) ∧
      (ofView view).Covers eci.content ∧ next.Covers rest := by
  refine ⟨_, _, ?_, h.after.after.inner, h.after.after.after⟩
  simp only [skipSignedDataHeader, take_tag h hversionTag, ok_bind, requireVersion1_eq h.inner,
    throwIf_of_not (not_not.mpr hversionContent), take_tag h.after hdigestsTag,
    take_tag h.after.after heciTag]

/-- The walk over the fields after the encapsulated content reaches the signers. -/
theorem SignedDataLayout.signers_covered (layout : SignedDataLayout)
    (h : fields.Covers (rawAll layout.certs ++ (rawAll layout.crls ++ layout.signers.raw))) :
    ∃ next view done, takeOptional fields 0xa0 >>= (takeOptional · 0xa1) = .ok next ∧
      next.take derSetTag = .ok (view, done) ∧ (ofView view).Covers layout.signers.content ∧
      done.finish = .ok () := by
  have hsignersHead : (layout.signers.raw).headD 0 = derSetTag := layout.signersTag
  have hcrlsHead : (rawAll layout.crls ++ layout.signers.raw).headD 0 ≠ 0xa0 := by
    rcases layout.crlsTag with hcrls | ⟨crl, hcrls, hcrlTag⟩
    · rw [hcrls, rawAll_nil, List.nil_append, hsignersHead]
      decide
    · rw [hcrls, rawAll_cons, rawAll_nil, List.append_nil]
      change crl.tag ≠ 0xa0
      rw [hcrlTag]
      decide
  obtain ⟨afterCerts, hcerts, hcovers⟩ := takeOptional_rawAll h layout.certsTag hcrlsHead
  obtain ⟨afterCrls, hcrls, hcovers⟩ := takeOptional_rawAll hcovers layout.crlsTag
    (by rw [hsignersHead]; decide)
  rw [← List.append_nil layout.signers.raw] at hcovers
  refine ⟨afterCrls, _, _, ?_, take_tag hcovers layout.signersTag, hcovers.inner,
    finish_nil hcovers.after⟩
  rw [hcerts, ok_bind, hcrls]

end Steps

end AasSign
