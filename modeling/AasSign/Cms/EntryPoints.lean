import AasSign.Cms.Extract
import AasSign.Cms.Signers

/-! # Untrusted input

The functions that are given bytes from outside have no fault on any input:
they stay in their buffer, their counters do not wrap, and their loops end. What
they return is cut out of the content of the element it was read from.
-/

namespace AasSign

open Foundation

/-- `part` is cut out of the content of `parent`, which lies in `data`. -/
structure CutFrom (part : Bytes) (parent : Element) (data : Bytes) : Prop where
  lies : parent.raw <:+: data
  cut : part <:+: parent.content

theorem content_infix_raw (e : Element) : e.content <:+: e.raw :=
  ⟨e.header, [], by simp [Element.raw]⟩

theorem raw_infix_rawAll {e : Element} {es : List Element} (h : e ∈ es) : e.raw <:+: rawAll es := by
  obtain ⟨before, after, rfl⟩ := List.append_of_mem h
  exact ⟨rawAll before, rawAll after, by simp [rawAll_append]⟩

theorem CutFrom.lies_in {part data : Bytes} {parent : Element} (h : CutFrom part parent data) :
    part <:+: data :=
  h.cut.trans ((content_infix_raw parent).trans h.lies)

/-- An element in the content of another is itself a parent. -/
theorem CutFrom.child {e parent : Element} {part data : Bytes} (h : CutFrom e.raw parent data)
    (hpart : part <:+: e.content) : CutFrom part e data :=
  ⟨h.lies_in, hpart⟩

/-! ## Every pass of a loop consumes an element -/

theorem splitPass_consumes {state next : SplitState} (h : splitPass state = .ok (.again next)) :
    next.cr + 2 ≤ state.cr := by
  unfold splitPass at h
  split at h
  · cases h
  · simp only [bind_eq_ok, usub_eq_ok] at h
    obtain ⟨cert, hread, raw, -, cr, ⟨-, rfl⟩, ⟨⟩⟩ := h
    obtain ⟨hlow, hhigh⟩ := derReadTlv_totalLen hread
    dsimp only
    omega

theorem fieldPass_consumes {state next : DerFields} (h : fieldPass state = .ok (.again next)) :
    next.remaining + 2 ≤ state.remaining := by
  unfold fieldPass at h
  split at h
  · cases h
  · simp only [bind_eq_ok] at h
    obtain ⟨field, hread, h⟩ := h
    obtain ⟨hlow, hhigh⟩ := derReadTlv_totalLen hread
    split at h
    · simp only [bind_eq_ok] at h
      obtain ⟨_, -, ⟨⟩⟩ := h
    · simp only [bind_eq_ok, usub_eq_ok] at h
      obtain ⟨remaining, ⟨-, rfl⟩, ⟨⟩⟩ := h
      dsimp only
      omega

theorem rawPass_consumes {data : Ptr} {len : Nat} {state next : Nat × List Bytes}
    (h : rawPass data len state = .ok (.again next)) :
    next.1 ≤ len ∧ (len - next.1) + 2 ≤ len - state.1 := by
  obtain ⟨pos, certs⟩ := state
  unfold rawPass at h
  dsimp only at h ⊢
  split at h
  · simp only [bind_eq_ok, usub_eq_ok] at h
    obtain ⟨left, ⟨hle, rfl⟩, tlv, hread, raw, -, ⟨⟩⟩ := h
    obtain ⟨hlow, hhigh⟩ := derReadTlv_totalLen hread
    dsimp only
    omega
  · cases h

theorem valuePass_consumes {values next : DerFields} (h : valuePass values = .ok (.again next)) :
    next.remaining + 2 ≤ values.remaining := by
  unfold valuePass at h
  split at h
  · cases h
  · simp only [bind_eq_ok] at h
    obtain ⟨tag, -, ⟨view, rest⟩, htake, ⟨⟩⟩ := h
    exact DerFields.take_remaining htake

theorem attributePass_consumes {attrs next : DerFields}
    (h : attributePass attrs = .ok (.again next)) : next.remaining + 2 ≤ attrs.remaining := by
  unfold attributePass at h
  split at h
  · cases h
  · rw [bind_eq_ok] at h
    obtain ⟨⟨view, rest⟩, htake, h⟩ := h
    simp only [bind_eq_ok] at h
    obtain ⟨_, -, _, -, _, -, _, -, _, -, _, -, ⟨⟩⟩ := h
    exact DerFields.take_remaining htake

theorem signerPass_consumes {state next : DerFields × Bool}
    (h : signerPass state = .ok (.again next)) : next.1.remaining + 2 ≤ state.1.remaining := by
  unfold signerPass at h
  dsimp only at h
  split at h
  · cases h
  · rw [bind_eq_ok] at h
    obtain ⟨⟨view, rest⟩, htake, h⟩ := h
    simp only [bind_eq_ok] at h
    obtain ⟨_, -, ⟨⟩⟩ := h
    exact DerFields.take_remaining htake

/-! ## What is returned -/

theorem CertLayout.cut_issuer (layout : CertLayout) :
    CutFrom layout.issuer.raw layout.tbs layout.encoding := by
  have hcert : CutFrom layout.tbs.raw layout.cert layout.encoding :=
    ⟨⟨[], layout.afterCert, rfl⟩, ⟨[], layout.afterTbs, layout.certContent.symm⟩⟩
  refine hcert.child ⟨rawAll layout.version ++ layout.serial.raw ++ layout.algorithm.raw,
    layout.afterIssuer, ?_⟩
  simp [layout.tbsContent]

theorem CertLayout.cut_serial (layout : CertLayout) :
    CutFrom layout.serial.raw layout.tbs layout.encoding := by
  have hcert : CutFrom layout.tbs.raw layout.cert layout.encoding :=
    ⟨⟨[], layout.afterCert, rfl⟩, ⟨[], layout.afterTbs, layout.certContent.symm⟩⟩
  refine hcert.child ⟨rawAll layout.version,
    layout.algorithm.raw ++ (layout.issuer.raw ++ layout.afterIssuer), ?_⟩
  simp [layout.tbsContent]

theorem CertsEnvelope.cut {data : Bytes} {certs : List Bytes} (envelope : CertsEnvelope data certs)
    {cert : Bytes} (hcert : cert ∈ certs) : CutFrom cert envelope.field data := by
  have hexplicit : CutFrom envelope.explicit0.raw envelope.ci data :=
    ⟨⟨[], envelope.afterCi, envelope.encoding.symm⟩,
      ⟨envelope.oid.raw, envelope.afterExplicit, by simp [envelope.ciContent]⟩⟩
  have hsd : CutFrom envelope.sd.raw envelope.explicit0 data :=
    hexplicit.child ⟨[], envelope.afterSd, by simp [envelope.explicitContent]⟩
  have hfield : CutFrom envelope.field.raw envelope.sd data :=
    hsd.child ⟨rawAll envelope.before, envelope.afterField, by simp [envelope.sdContent]⟩
  rw [envelope.certs_eq] at hcert
  obtain ⟨e, he, rfl⟩ := List.mem_map.mp hcert
  apply hfield.child
  rw [envelope.fieldContent]
  exact raw_infix_rawAll he

theorem SignedDataLayout.cut_eci (layout : SignedDataLayout) :
    CutFrom layout.eci.raw layout.sd layout.encoding := by
  have hwrapper : CutFrom layout.wrapper.raw layout.ci layout.encoding :=
    ⟨List.infix_refl _, layout.ciContent ▸ raw_infix_rawAll (by simp)⟩
  have hsd : CutFrom layout.sd.raw layout.wrapper layout.encoding :=
    hwrapper.child (layout.wrapperContent ▸ List.infix_refl _)
  refine hsd.child ⟨layout.version.raw ++ layout.digests.raw,
    rawAll layout.certs ++ (rawAll layout.crls ++ layout.signers.raw), ?_⟩
  simp [layout.sdContent]

/-- What is extracted is cut from the [0] of the encapsulated content. -/
theorem Encapsulates.cut {layout : SignedDataLayout} {idc : Element}
    (h : Encapsulates layout.eci idc) :
    ∃ wrapper : Element, wrapper.tag = 0xa0 ∧ CutFrom wrapper.raw layout.eci layout.encoding ∧
      CutFrom idc.raw wrapper layout.encoding := by
  obtain @⟨oid, wrapper, _, hcontent, -, -, hwrapperTag, hwrapperContent, -⟩ := h
  have hwrapper : CutFrom wrapper.raw layout.eci layout.encoding :=
    layout.cut_eci.child (hcontent ▸ raw_infix_rawAll (by simp))
  exact ⟨wrapper, hwrapperTag, hwrapper, hwrapper.child (hwrapperContent ▸ List.infix_refl _)⟩

theorem derReadTlv_inside (data : Bytes) :
    Safe (derReadTlv (Ptr.data data) data.length) fun v => v.content.buf = data ∧
      2 ≤ v.content.off ∧ v.content.off + v.contentLen = v.totalLen ∧ v.totalLen ≤ data.length := by
  apply (derReadTlv_safe (Ptr.Sees.data data)).mono
  rintro _ ⟨e, rest, rfl, rfl⟩
  have hheader := e.two_le_header_length
  have hoff : (TlvView.of e (Ptr.data (e.raw ++ rest))).content.off = e.header.length := by
    simp [TlvView.of, Ptr.data, Ptr.add]
  refine ⟨rfl, hoff ▸ hheader, ?_, ?_⟩
  · rw [hoff, TlvView.of_contentLen, TlvView.of_totalLen, Element.raw_length]
  · rw [TlvView.of_totalLen, List.length_append]
    exact Nat.le_add_right _ _

/-- On every input the entry points return or throw, without reading outside
their buffer, wrapping a counter or looping forever; each pass of their loops
consumes at least two octets; and what they return is cut from the content of
the element it was read from, or from bare input. -/
theorem derEntryPoints_safe (data : Bytes) :
    (Safe (derReadTlv (Ptr.data data) data.length) fun v => v.content.buf = data ∧
      2 ≤ v.content.off ∧ v.content.off + v.contentLen = v.totalLen ∧ v.totalLen ≤ data.length) ∧
    (Safe (x509CertId data) fun id => ∃ layout : CertLayout, data = layout.encoding ∧
      CutFrom id.issuerRaw layout.tbs data ∧ CutFrom id.serialRaw layout.tbs data) ∧
    (Safe (x509SplitCerts data) fun certs =>
      (∃ envelope : CertsEnvelope data certs, ∀ cert ∈ certs, CutFrom cert envelope.field data) ∨
      data = certs.flatten) ∧
    (Safe (cmsExtractIndirectData data) fun found => ∃ (layout : SignedDataLayout)
      (wrapper : Element), data = layout.encoding ∧ wrapper.tag = 0xa0 ∧
      CutFrom wrapper.raw layout.eci data ∧ CutFrom found wrapper data) ∧
    (Safe (cmsHasSigner data) fun _ => True) ∧
    (∀ state next, splitPass state = .ok (.again next) → next.cr + 2 ≤ state.cr) ∧
    (∀ state next, fieldPass state = .ok (.again next) → next.remaining + 2 ≤ state.remaining) ∧
    (∀ state next, rawPass (Ptr.data data) data.length state = .ok (.again next) →
      next.1 ≤ data.length ∧ (data.length - next.1) + 2 ≤ data.length - state.1) ∧
    (∀ values next, valuePass values = .ok (.again next) →
      next.remaining + 2 ≤ values.remaining) ∧
    (∀ attrs next, attributePass attrs = .ok (.again next) →
      next.remaining + 2 ≤ attrs.remaining) ∧
    (∀ state next, signerPass state = .ok (.again next) →
      next.1.remaining + 2 ≤ state.1.remaining) := by
  refine ⟨derReadTlv_inside data, ?_, ?_, ?_, (cmsHasSigner_safe data).mono fun _ _ => trivial,
    fun _ _ => splitPass_consumes, fun _ _ => fieldPass_consumes, fun _ _ => rawPass_consumes,
    fun _ _ => valuePass_consumes, fun _ _ => attributePass_consumes,
    fun _ _ => signerPass_consumes⟩
  · apply (x509CertId_safe data).mono
    rintro _ ⟨layout, rfl, rfl⟩
    exact ⟨layout, rfl, layout.cut_issuer, layout.cut_serial⟩
  · apply (x509SplitCerts_safe data).mono
    rintro certs (⟨⟨envelope⟩⟩ | ⟨es, hdata, rfl⟩)
    · exact .inl ⟨envelope, fun _ hcert => envelope.cut hcert⟩
    · exact .inr hdata
  · apply (cmsExtractIndirectData_safe data).mono
    rintro _ ⟨layout, idc, rfl, hencapsulates, rfl⟩
    obtain ⟨wrapper, htag, hwrapper, hcut⟩ := hencapsulates.cut
    exact ⟨layout, wrapper, rfl, htag, hwrapper, hcut⟩

end AasSign
