import AasSign.Cms.Grammar

/-! # Extraction of the indirect data

`cms_extract_indirect_data` accepts exactly the envelopes that encapsulate
indirect data, and returns that element as it is written.
-/

namespace AasSign

open Foundation DerFields

variable {fields : DerFields} {l : Bytes}

theorem checkDigestAlgorithm_safe {algorithm : Element} (htag : algorithm.tag = derSequenceTag)
    (h : fields.Covers algorithm.content) :
    Safe (checkDigestAlgorithm fields) fun _ => IsDigestAlgorithm algorithm := by
  rw [checkDigestAlgorithm]
  apply (take_safe h 0x06).bind
  rintro ⟨_, _⟩ ⟨oid, rest, hcontent, hoidTag, rfl, rfl⟩
  rw [hcontent] at h
  dsimp only
  rw [oidSha256_eq, ok_bind, requireOid_eq _ h.inner (by decide), safe_bind, safe_throwIf, not_not]
  intro hoidContent
  apply safe_ite.mpr
  constructor
  · intro _
    apply (take_safe h.after 0x05).bind
    rintro ⟨_, _⟩ ⟨parameter, rest, rfl, hparameterTag, rfl, rfl⟩
    dsimp only
    rw [safe_bind, safe_throwIf, not_not, DerFields.finish, safe_throwIf, Bool.not_eq_false,
      empty_iff h.after.after]
    rintro hempty rfl
    exact @IsDigestAlgorithm.mk _ oid [parameter] htag (by simpa using hcontent) hoidTag
      hoidContent (.inr ⟨parameter, rfl, hparameterTag⟩)
      (by simpa using List.length_eq_zero_iff.mp hempty)
  · intro hempty
    rw [Bool.not_eq_false, empty_iff h.after] at hempty
    subst hempty
    rw [finish_nil h.after]
    exact @IsDigestAlgorithm.mk _ oid [] htag (by simpa using hcontent) hoidTag hoidContent
      (.inl rfl) (by simp)

theorem checkDigestAlgorithm_ok {algorithm : Element} (halgorithm : IsDigestAlgorithm algorithm)
    (h : fields.Covers algorithm.content) : checkDigestAlgorithm fields = .ok () := by
  obtain @⟨oid, parameters, -, hcontent, hoidTag, hoidContent, hparameters, hempty⟩ := halgorithm
  rw [hcontent, rawAll_cons] at h
  rw [checkDigestAlgorithm, take_tag h hoidTag, ok_bind]
  dsimp only
  rw [oidSha256_eq, ok_bind, requireOid_eq _ h.inner (by decide),
    throwIf_of_not (not_not.mpr hoidContent), ok_bind]
  rcases hparameters with rfl | ⟨parameter, rfl, hparameterTag⟩
  · have hdone := (empty_iff h.after).mpr rfl
    rw [if_neg (by simp [hdone]), finish_nil h.after]
  · have hmore : (fields.after oid).empty = false := by
      rw [Bool.eq_false_iff, ne_eq, empty_iff h.after]
      simp [parameter.raw_ne_nil]
    have hcontent : parameter.content = [] := hempty parameter (by simp)
    rw [rawAll_cons, rawAll_nil] at h
    rw [if_pos hmore, take_tag h.after hparameterTag, ok_bind]
    dsimp only
    rw [throwIf_of_not (by simp [hcontent]), ok_bind, finish_nil h.after.after]

theorem checkIndirectData_safe {view : TlvView} {idc : Element} (htag : idc.tag = derSequenceTag)
    (h : (ofView view).Covers idc.content) :
    Safe (checkIndirectData view) fun _ => IsIndirectData idc := by
  rw [checkIndirectData]
  apply (take_safe h derSequenceTag).bind
  rintro ⟨_, _⟩ ⟨payload, rest, hcontent, hpayloadTag, rfl, rfl⟩
  rw [hcontent] at h
  apply (take_safe h.after derSequenceTag).bind
  rintro ⟨_, _⟩ ⟨digest, rest, rfl, hdigestTag, rfl, rfl⟩
  have hdigest := h.after.inner
  apply (take_safe hdigest derSequenceTag).bind
  rintro ⟨_, _⟩ ⟨algorithm, afterAlgorithm, hdigestContent, halgorithmTag, rfl, rfl⟩
  rw [hdigestContent] at hdigest
  apply (checkDigestAlgorithm_safe halgorithmTag hdigest.inner).bind
  intro _ halgorithm
  apply (take_safe hdigest.after 0x04).bind
  rintro ⟨_, _⟩ ⟨value, afterValue, rfl, hvalueTag, rfl, rfl⟩
  dsimp only
  rw [safe_bind, safe_throwIf, safe_bind, DerFields.finish, safe_throwIf, Bool.not_eq_false,
    empty_iff hdigest.after.after, DerFields.finish, safe_throwIf, Bool.not_eq_false,
    empty_iff h.after.after]
  rintro hvalue rfl rfl
  exact .mk htag (by simpa using hcontent) hpayloadTag hdigestTag (by simpa using hdigestContent)
    halgorithm hvalueTag (by simpa using hvalue)

theorem checkIndirectData_ok {view : TlvView} {idc : Element} (hidc : IsIndirectData idc)
    (h : (ofView view).Covers idc.content) : checkIndirectData view = .ok () := by
  cases hidc with
  | mk _ hcontent hpayloadTag hdigestTag hdigestContent halgorithm hvalueTag hvalue =>
      rw [hcontent, rawAll_cons, rawAll_cons, rawAll_nil] at h
      have hdigest := h.after.inner
      rw [hdigestContent, rawAll_cons, rawAll_cons, rawAll_nil] at hdigest
      simp only [checkIndirectData, take_tag h hpayloadTag, ok_bind, take_tag h.after hdigestTag,
        take_tag hdigest halgorithm.tag_eq, checkDigestAlgorithm_ok halgorithm hdigest.inner,
        take_tag hdigest.after hvalueTag, finish_nil hdigest.after.after, finish_nil h.after.after]
      rw [throwIf_of_not (by simpa using hvalue)]
      rfl

theorem Encapsulates.idc_tag {eci idc : Element} (h : Encapsulates eci idc) :
    idc.tag = derSequenceTag := by
  cases h with
  | mk _ _ _ _ _ hidc =>
      cases hidc with
      | mk htag => exact htag

/-- Stepping back from the content over the header copies the whole element. -/
theorem copy_before_content {data : Ptr} {e : Element} {rest : Bytes}
    (h : data.Sees (e.raw ++ rest)) :
    (do
      let headerLen ← usub (TlvView.of e data).totalLen (TlvView.of e data).contentLen
      let start ← usub (TlvView.of e data).content.off headerLen
      Ptr.copy ⟨(TlvView.of e data).content.buf, start⟩ (TlvView.of e data).totalLen) =
      .ok e.raw := by
  have hheader : e.raw.length - e.content.length = e.header.length := by
    rw [Element.raw_length]
    omega
  have hoff : (TlvView.of e data).content.off = data.off + e.header.length := rfl
  rw [TlvView.of_totalLen, TlvView.of_contentLen, usub_of_le (by rw [Element.raw_length]; omega),
    ok_bind, hheader, hoff, usub_of_le (by omega), ok_bind, Nat.add_sub_cancel]
  exact h.left.copy

/-- What the extraction accepts encapsulates the indirect data that it returns. -/
theorem cmsExtractIndirectData_safe (pkcs7 : Bytes) :
    Safe (cmsExtractIndirectData pkcs7) fun found => ∃ (layout : SignedDataLayout) (idc : Element),
      pkcs7 = layout.encoding ∧ Encapsulates layout.eci idc ∧ found = idc.raw := by
  rw [cmsExtractIndirectData]
  apply (signedData_safe pkcs7).bind
  rintro sdView ⟨ci, ciOid, ciWrapper, sd, rfl, hciTag, hciContent, hciOidTag, hciOidContent,
    hciWrapperTag, hciWrapperContent, hsdTag, hsd⟩
  apply (skipSignedDataHeader_safe hsd).bind
  rintro ⟨_, _⟩ ⟨version, digests, eci, rest, hsdContent, hversionTag, hversionContent,
    hdigestsTag, heciTag, heci, hrest⟩
  apply (take_safe heci 0x06).bind
  rintro ⟨_, _⟩ ⟨oid, afterOid, heciContent, hoidTag, rfl, rfl⟩
  rw [heciContent] at heci
  dsimp only
  rw [oidSpcIndirectData_eq, ok_bind, requireOid_eq _ heci.inner (by decide), safe_bind,
    safe_throwIf, not_not]
  intro hoidContent
  apply (take_safe heci.after 0xa0).bind
  rintro ⟨_, _⟩ ⟨wrapper, afterWrapper, rfl, hwrapperTag, rfl, rfl⟩
  have hwrapper := heci.after.inner
  apply (take_safe hwrapper derSequenceTag).bind
  rintro ⟨_, _⟩ ⟨idc, afterIdc, hwrapperContent, hidcTag, rfl, rfl⟩
  rw [hwrapperContent] at hwrapper
  dsimp only
  rw [safe_bind, DerFields.finish, safe_throwIf, Bool.not_eq_false, empty_iff hwrapper.after]
  rintro rfl
  rw [safe_bind, DerFields.finish, safe_throwIf, Bool.not_eq_false, empty_iff heci.after.after]
  rintro rfl
  apply (checkIndirectData_safe hidcTag hwrapper.inner).bind
  intro _ hidc
  apply (takeOptional_safe hrest 0xa0).bind
  rintro _ ⟨certs, rest, rfl, hcerts, hrest⟩
  apply (takeOptional_safe hrest 0xa1).bind
  rintro _ ⟨crls, rest, rfl, hcrls, hrest⟩
  apply (take_safe hrest derSetTag).bind
  rintro ⟨_, _⟩ ⟨signers, rest, rfl, hsignersTag, rfl, rfl⟩
  dsimp only
  rw [safe_bind, DerFields.finish, safe_throwIf, Bool.not_eq_false, empty_iff hrest.after]
  rintro rfl
  rw [copy_before_content hwrapper.sees]
  exact ⟨⟨ci, ciOid, ciWrapper, sd, version, digests, eci, certs, crls, signers, hciTag,
    hciContent, hciOidTag, hciOidContent, hciWrapperTag, hciWrapperContent, hsdTag,
    by simpa using hsdContent, hversionTag, hversionContent, hdigestsTag, heciTag, hcerts, hcrls,
    hsignersTag⟩, idc, rfl, .mk (by simpa using heciContent) hoidTag hoidContent hwrapperTag
    (by simpa using hwrapperContent) hidc, rfl⟩

/-- Every envelope that encapsulates indirect data has it extracted. -/
theorem cmsExtractIndirectData_encoding {layout : SignedDataLayout} {idc : Element}
    (h : Encapsulates layout.eci idc) :
    cmsExtractIndirectData layout.encoding = .ok idc.raw := by
  obtain ⟨sdView, hsd, hsdCovers⟩ := signedData_raw layout.ciTag layout.ciContent layout.oidTag
    layout.oidContent layout.wrapperTag layout.wrapperContent layout.sdTag
  rw [layout.sdContent] at hsdCovers
  obtain ⟨eciView, afterEci, heci, heciCovers, hrest⟩ := skipSignedDataHeader_raw hsdCovers
    layout.versionTag layout.versionContent layout.digestsTag layout.eciTag
  obtain ⟨afterCrls, view, done, hoptional, hsigners, -, hdone⟩ := layout.signers_covered hrest
  have hidcTag := h.idc_tag
  obtain ⟨heciContent, hoidTag, hoidContent, hwrapperTag, hwrapperContent, hidc⟩ := h
  rw [heciContent, rawAll_cons, rawAll_cons, rawAll_nil] at heciCovers
  have hwrapper := heciCovers.after.inner
  rw [hwrapperContent, ← List.append_nil idc.raw] at hwrapper
  obtain ⟨afterCerts, hcerts, hcrls⟩ := bind_eq_ok.mp hoptional
  rw [cmsExtractIndirectData, SignedDataLayout.encoding]
  simp only [hsd, ok_bind, heci, take_tag heciCovers hoidTag, oidSpcIndirectData_eq,
    requireOid_eq spcIndirectDataContent heciCovers.inner (by decide),
    throwIf_of_not (not_not.mpr hoidContent), take_tag heciCovers.after hwrapperTag,
    take_tag hwrapper hidcTag, finish_nil hwrapper.after, finish_nil heciCovers.after.after,
    checkIndirectData_ok hidc hwrapper.inner, hcerts, hcrls, hsigners, hdone]
  exact copy_before_content hwrapper.sees

end AasSign
