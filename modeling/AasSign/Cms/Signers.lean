import AasSign.Cms.Grammar

/-! # The signers of a CMS

`cms_has_signer` accepts exactly the envelopes whose signer infos are well
formed, and answers whether there is one.
-/

namespace AasSign

open Foundation DerFields

variable {fields : DerFields} {l : Bytes}

theorem takeAlgorithm_safe (h : fields.Covers l) :
    Safe (takeAlgorithm fields) fun next =>
      ∃ e rest, l = Element.raw e ++ rest ∧ IsAlgorithm e ∧ next = fields.after e := by
  rw [takeAlgorithm]
  apply (take_safe h derSequenceTag).bind
  rintro ⟨_, _⟩ ⟨algorithm, rest, rfl, htag, rfl, rfl⟩
  have hinner := h.inner
  apply (take_safe hinner 0x06).bind
  rintro ⟨_, _⟩ ⟨oid, afterOid, hcontent, hoidTag, rfl, rfl⟩
  rw [hcontent] at hinner
  dsimp only
  rw [safe_bind, safe_throwIf, TlvView.of_contentLen, List.length_eq_zero_iff]
  intro hoid
  apply safe_ite.mpr
  constructor
  · intro _
    rw [next_eq hinner.after, ok_bind]
    apply (take_safe hinner.after _).bind
    rintro ⟨_, _⟩ ⟨parameter, rest, rfl, -, rfl, rfl⟩
    dsimp only
    rw [safe_bind, DerFields.finish, safe_throwIf, Bool.not_eq_false,
      empty_iff hinner.after.after]
    rintro rfl
    exact ⟨algorithm, _, rfl, @IsAlgorithm.mk _ oid [parameter] htag (by simpa using hcontent)
      hoidTag hoid (Nat.le_refl 1), rfl⟩
  · intro hempty
    rw [Bool.not_eq_false, empty_iff hinner.after] at hempty
    subst hempty
    rw [finish_nil hinner.after]
    exact ⟨algorithm, _, rfl, @IsAlgorithm.mk _ oid [] htag (by simpa using hcontent)
      hoidTag hoid (Nat.zero_le 1), rfl⟩

theorem takeAlgorithm_raw {e : Element} {rest : Bytes} (h : fields.Covers (e.raw ++ rest))
    (he : IsAlgorithm e) : takeAlgorithm fields = .ok (fields.after e) := by
  obtain @⟨oid, parameters, htag, hcontent, hoidTag, hoid, hlength⟩ := he
  have hinner := h.inner
  rw [hcontent, rawAll_cons] at hinner
  rw [takeAlgorithm, take_tag h htag, ok_bind]
  dsimp only
  rw [take_tag hinner hoidTag, ok_bind]
  dsimp only
  rw [throwIf_of_not (by simpa using hoid), ok_bind]
  match parameters, hlength with
  | [], _ =>
      have hdone := (empty_iff hinner.after).mpr rfl
      rw [if_neg (by simp [hdone]), finish_nil hinner.after]
      rfl
  | [parameter], _ =>
      rw [rawAll_cons, rawAll_nil] at hinner
      rw [if_pos (not_empty_raw hinner.after), next_raw hinner.after, ok_bind,
        take_raw hinner.after, ok_bind]
      dsimp only
      rw [finish_nil hinner.after.after]
      rfl

/-! ## Attributes -/

theorem valuePass_leave {values : DerFields} (h : values.Covers []) :
    valuePass values = .ok (.leave ()) := by
  rw [valuePass, if_pos ((empty_iff h).mpr rfl)]
  rfl

theorem valuePass_raw {values : DerFields} {e : Element} {rest : Bytes}
    (h : values.Covers (e.raw ++ rest)) : valuePass values = .ok (.again (values.after e)) := by
  rw [valuePass, if_neg (by simp [not_empty_raw h]), next_raw h, ok_bind, take_raw h]
  rfl

theorem valuePass_safe {values : DerFields} (hl : l ≠ []) (h : values.Covers l) :
    Safe (valuePass values) fun pass => ∃ e rest, l = Element.raw e ++ rest ∧ True ∧
      pass = .again (values.after e) := by
  rw [valuePass, if_neg (fun hempty => hl ((empty_iff h).mp hempty)), next_eq h, ok_bind]
  apply (take_safe h _).bind
  rintro ⟨_, _⟩ ⟨e, rest, rfl, -, rfl, rfl⟩
  exact ⟨e, rest, rfl, trivial, rfl⟩

theorem valueLoop_safe (h : fields.Covers l) :
    Safe (loop valuePass (.fault .diverges) (fields.remaining + 1) fields) fun _ =>
      ∃ es, l = rawAll es := by
  have hloop := loop_safe id (fun _ => True) DerFields.after (fun _ => ())
    (fun _ hvalues => valuePass_leave hvalues) (fun _ _ hl hvalues => valuePass_safe hl hvalues)
    (fun _ _ => rfl) h
  apply hloop.mono
  rintro _ ⟨es, hl, -⟩
  exact ⟨es, hl⟩

theorem valueLoop_rawAll {values : List Element} (h : fields.Covers (rawAll values)) :
    loop valuePass (.fault .diverges) (fields.remaining + 1) fields = .ok () :=
  loop_rawAll id (fun _ => True) DerFields.after (fun _ => ())
    (fun _ hvalues => valuePass_leave hvalues) (fun _ _ _ hvalues _ => valuePass_raw hvalues)
    (fun _ _ => rfl) h fun _ _ => trivial

theorem attributePass_leave {attrs : DerFields} (h : attrs.Covers []) :
    attributePass attrs = .ok (.leave ()) := by
  rw [attributePass, if_pos ((empty_iff h).mpr rfl)]
  rfl

theorem attributePass_safe {attrs : DerFields} (hl : l ≠ []) (h : attrs.Covers l) :
    Safe (attributePass attrs) fun pass => ∃ e rest, l = Element.raw e ++ rest ∧
      IsAttribute e ∧ pass = .again (attrs.after e) := by
  rw [attributePass, if_neg (fun hempty => hl ((empty_iff h).mp hempty))]
  apply (take_safe h derSequenceTag).bind
  rintro ⟨_, _⟩ ⟨attr, rest, rfl, htag, rfl, rfl⟩
  have hattr := h.inner
  apply (take_safe hattr 0x06).bind
  rintro ⟨_, _⟩ ⟨oid, afterOid, hcontent, hoidTag, rfl, rfl⟩
  rw [hcontent] at hattr
  dsimp only
  rw [safe_bind, safe_throwIf, TlvView.of_contentLen, List.length_eq_zero_iff]
  intro hoid
  apply (take_safe hattr.after derSetTag).bind
  rintro ⟨_, _⟩ ⟨set, afterSet, rfl, hsetTag, rfl, rfl⟩
  have hset := hattr.after.inner
  dsimp only
  rw [safe_bind, safe_throwIf, empty_iff hset]
  intro hsetContent
  apply (valueLoop_safe hset).bind
  rintro _ ⟨values, hvalues⟩
  rw [safe_bind, DerFields.finish, safe_throwIf, Bool.not_eq_false, empty_iff hattr.after.after]
  rintro rfl
  have hnonempty : values ≠ [] := by
    rintro rfl
    exact hsetContent hvalues
  exact ⟨attr, rest, rfl, .mk htag (by simpa using hcontent) hoidTag hoid hsetTag hvalues
    hnonempty, rfl⟩

theorem attributePass_raw {attrs : DerFields} {e : Element} {rest : Bytes}
    (h : attrs.Covers (e.raw ++ rest)) (he : IsAttribute e) :
    attributePass attrs = .ok (.again (attrs.after e)) := by
  obtain @⟨oid, set, values, htag, hcontent, hoidTag, hoid, hsetTag, hvalues, hnonempty⟩ := he
  have hattr := h.inner
  rw [hcontent, rawAll_cons, rawAll_cons, rawAll_nil] at hattr
  have hset := hattr.after.inner
  rw [hvalues] at hset
  have hmore := mt ((empty_iff hset).trans rawAll_eq_nil).mp hnonempty
  rw [attributePass, if_neg (by simp [not_empty_raw h])]
  simp only [take_tag h htag, ok_bind, take_tag hattr hoidTag, take_tag hattr.after hsetTag,
    throwIf_of_not hmore, valueLoop_rawAll hset, finish_nil hattr.after.after]
  rw [throwIf_of_not (by simpa using hoid)]
  rfl

theorem attributeLoop_safe (h : fields.Covers l) :
    Safe (loop attributePass (.fault .diverges) (fields.remaining + 1) fields) fun u =>
      ∃ es, l = rawAll es ∧ (∀ e ∈ es, IsAttribute e) ∧ u = () :=
  loop_safe id IsAttribute DerFields.after (fun _ => ()) (fun _ hattrs => attributePass_leave hattrs)
    (fun _ _ hl hattrs => attributePass_safe hl hattrs) (fun _ _ => rfl) h

theorem attributeLoop_rawAll {attrs : List Element} (h : fields.Covers (rawAll attrs))
    (hattrs : ∀ e ∈ attrs, IsAttribute e) :
    loop attributePass (.fault .diverges) (fields.remaining + 1) fields = .ok () :=
  loop_rawAll id IsAttribute DerFields.after (fun _ => ())
    (fun _ hattrs => attributePass_leave hattrs)
    (fun _ _ _ hattrs he => attributePass_raw hattrs he) (fun _ _ => rfl) h hattrs

theorem takeAttributes_safe (h : fields.Covers l) (tag : UInt8) :
    Safe (takeAttributes fields tag) fun next => ∃ e rest, l = Element.raw e ++ rest ∧
      IsAttributes tag e ∧ next = fields.after e := by
  rw [takeAttributes]
  apply (take_safe h tag).bind
  rintro ⟨_, _⟩ ⟨field, rest, rfl, htag, rfl, rfl⟩
  have hinner := h.inner
  dsimp only
  rw [safe_bind, safe_throwIf, empty_iff hinner]
  intro hcontent
  apply (attributeLoop_safe hinner).bind
  rintro _ ⟨attrs, hattrs, hall, -⟩
  have hnonempty : attrs ≠ [] := by
    rintro rfl
    exact hcontent hattrs
  exact ⟨field, rest, rfl, .mk htag hattrs hnonempty hall, rfl⟩

theorem takeAttributes_raw {tag : UInt8} {e : Element} {rest : Bytes}
    (h : fields.Covers (e.raw ++ rest)) (he : IsAttributes tag e) :
    takeAttributes fields tag = .ok (fields.after e) := by
  obtain @⟨attrs, htag, hattrs, hnonempty, hall⟩ := he
  have hinner := h.inner
  rw [hattrs] at hinner
  have hmore := mt ((empty_iff hinner).trans rawAll_eq_nil).mp hnonempty
  simp only [takeAttributes, take_tag h htag, ok_bind, throwIf_of_not hmore,
    attributeLoop_rawAll hinner hall]
  rfl

theorem takeOptionalAttributes_safe (h : fields.Covers l) (tag : UInt8) :
    Safe (takeOptionalAttributes fields tag) fun next => ∃ es rest, l = rawAll es ++ rest ∧
      OptionalAttributes tag es ∧ next.Covers rest := by
  rw [takeOptionalAttributes, next_eq h, ok_bind]
  apply safe_ite.mpr
  constructor
  · intro _
    apply (takeAttributes_safe h tag).mono
    rintro _ ⟨e, rest, rfl, he, rfl⟩
    exact ⟨[e], rest, by simp, .inr ⟨e, rfl, he⟩, h.after⟩
  · intro _
    exact ⟨[], l, rfl, .inl rfl, h⟩

theorem takeOptionalAttributes_rawAll {es : List Element} {rest : Bytes} {tag : UInt8}
    (h : fields.Covers (rawAll es ++ rest)) (hes : OptionalAttributes tag es)
    (hrest : rest.headD 0 ≠ tag) :
    ∃ next, takeOptionalAttributes fields tag = .ok next ∧ next.Covers rest := by
  rcases hes with rfl | ⟨e, rfl, he⟩
  · refine ⟨fields, ?_, h⟩
    rw [takeOptionalAttributes, next_eq h, ok_bind]
    exact if_neg hrest
  · rw [rawAll_cons, rawAll_nil, List.append_nil] at h
    refine ⟨fields.after e, ?_, h.after⟩
    have hhead : (e.raw ++ rest).headD 0 = tag := by
      obtain ⟨htag⟩ := he
      exact htag
    rw [takeOptionalAttributes, next_eq h, ok_bind, if_pos hhead, takeAttributes_raw h he]

/-! ## One signer -/

theorem checkSigner_safe {signer : Element} (htag : signer.tag = derSequenceTag)
    (h : fields.Covers signer.content) :
    Safe (checkSigner fields) fun _ => IsSignerInfo signer := by
  rw [checkSigner]
  generalize hcontent : signer.content = content at h
  apply (take_safe h 0x02).bind
  rintro ⟨_, _⟩ ⟨version, rest, rfl, hversionTag, rfl, rfl⟩
  dsimp only
  rw [requireVersion1_eq h.inner, safe_bind, safe_throwIf, not_not]
  intro hversion
  apply (take_safe h.after derSequenceTag).bind
  rintro ⟨_, _⟩ ⟨sid, rest, rfl, hsidTag, rfl, rfl⟩
  have hsid := h.after.inner
  apply (take_safe hsid derSequenceTag).bind
  rintro ⟨_, _⟩ ⟨issuer, afterIssuer, hsidContent, hissuerTag, rfl, rfl⟩
  rw [hsidContent] at hsid
  dsimp only
  rw [safe_bind, safe_throwIf, TlvView.of_contentLen, List.length_eq_zero_iff]
  intro hissuer
  apply (take_safe hsid.after 0x02).bind
  rintro ⟨_, _⟩ ⟨serial, afterSerial, rfl, hserialTag, rfl, rfl⟩
  dsimp only
  rw [safe_bind, safe_throwIf, TlvView.of_contentLen, List.length_eq_zero_iff]
  intro hserial
  rw [safe_bind, DerFields.finish, safe_throwIf, Bool.not_eq_false, empty_iff hsid.after.after]
  rintro rfl
  apply (takeAlgorithm_safe h.after.after).bind
  rintro _ ⟨digestAlgorithm, rest, rfl, hdigestAlgorithm, rfl⟩
  apply (takeOptionalAttributes_safe h.after.after.after 0xa0).bind
  rintro next ⟨authAttrs, rest, rfl, hauthAttrs, hnext⟩
  apply (takeAlgorithm_safe hnext).bind
  rintro _ ⟨signatureAlgorithm, rest, rfl, hsignatureAlgorithm, rfl⟩
  apply (take_safe hnext.after 0x04).bind
  rintro ⟨_, _⟩ ⟨signature, rest, rfl, hsignatureTag, rfl, rfl⟩
  dsimp only
  rw [safe_bind, safe_throwIf, TlvView.of_contentLen, List.length_eq_zero_iff]
  intro hsignature
  apply (takeOptionalAttributes_safe hnext.after.after 0xa1).bind
  rintro last ⟨unauthAttrs, rest, rfl, hunauthAttrs, hlast⟩
  rw [DerFields.finish, safe_throwIf, Bool.not_eq_false, empty_iff hlast]
  rintro rfl
  have hsignerId : IsSignerId sid :=
    .mk hsidTag (by simpa using hsidContent) hissuerTag hissuer hserialTag hserial
  exact .mk htag (by simpa using hcontent) hversionTag hversion hsignerId hdigestAlgorithm
    hauthAttrs hsignatureAlgorithm hsignatureTag hsignature hunauthAttrs

theorem IsAlgorithm.tag_eq {e : Element} (h : IsAlgorithm e) : e.tag = derSequenceTag := by
  cases h with
  | mk htag => exact htag

theorem checkSigner_ok {signer : Element} (hsigner : IsSignerInfo signer)
    (h : fields.Covers signer.content) : checkSigner fields = .ok () := by
  obtain @⟨version, sid, digestAlgorithm, signatureAlgorithm, signature, authAttrs, unauthAttrs, -,
    hcontent, hversionTag, hversion, hsignerId, hdigestAlgorithm, hauthAttrs,
    hsignatureAlgorithm, hsignatureTag, hsignature, hunauthAttrs⟩ := hsigner
  obtain @⟨issuer, serial, hsidTag, hsidContent, hissuerTag, hissuer, hserialTag, hserial⟩ :=
    hsignerId
  rw [hcontent] at h
  have hsid := h.after.inner
  rw [hsidContent, rawAll_cons, rawAll_cons, rawAll_nil] at hsid
  have halgorithmHead (rest : Bytes) :
      (signatureAlgorithm.raw ++ rest).headD 0 ≠ 0xa0 := by
    change signatureAlgorithm.tag ≠ 0xa0
    rw [hsignatureAlgorithm.tag_eq]
    decide
  obtain ⟨next, hauth, hnext⟩ := takeOptionalAttributes_rawAll h.after.after.after hauthAttrs
    (halgorithmHead _)
  have hafter := hnext.after.after
  rw [← List.append_nil (rawAll unauthAttrs)] at hafter
  obtain ⟨last, hunauth, hlast⟩ := takeOptionalAttributes_rawAll hafter hunauthAttrs (by decide)
  simp only [checkSigner, take_tag h hversionTag, ok_bind, requireVersion1_eq h.inner,
    throwIf_of_not (not_not.mpr hversion), take_tag h.after hsidTag, take_tag hsid hissuerTag,
    take_tag hsid.after hserialTag, finish_nil hsid.after.after,
    takeAlgorithm_raw h.after.after hdigestAlgorithm, hauth,
    takeAlgorithm_raw hnext hsignatureAlgorithm, take_tag hnext.after hsignatureTag, hunauth,
    finish_nil hlast]
  rw [throwIf_of_not (by simpa using hissuer), throwIf_of_not (by simpa using hserial),
    throwIf_of_not (by simpa using hsignature)]
  rfl

/-! ## All signers -/

/-- The cursor and the flag after one signer. -/
def afterSigner (state : DerFields × Bool) (e : Element) : DerFields × Bool :=
  (state.1.after e, true)

theorem foldl_afterSigner (es : List Element) (state : DerFields × Bool) :
    (es.foldl afterSigner state).2 = (state.2 || !es.isEmpty) := by
  induction es generalizing state with
  | nil => simp
  | cons e es ih => simp [ih, afterSigner]

theorem signerPass_leave {state : DerFields × Bool} (h : state.1.Covers []) :
    signerPass state = .ok (.leave state.2) := by
  rw [signerPass, if_pos ((empty_iff h).mpr rfl)]
  rfl

theorem signerPass_safe {state : DerFields × Bool} (hl : l ≠ []) (h : state.1.Covers l) :
    Safe (signerPass state) fun pass => ∃ e rest, l = Element.raw e ++ rest ∧ IsSignerInfo e ∧
      pass = .again (afterSigner state e) := by
  rw [signerPass, if_neg (fun hempty => hl ((empty_iff h).mp hempty))]
  apply (take_safe h derSequenceTag).bind
  rintro ⟨_, _⟩ ⟨signer, rest, rfl, htag, rfl, rfl⟩
  apply (checkSigner_safe htag h.inner).bind
  intro _ hsigner
  exact ⟨signer, rest, rfl, hsigner, rfl⟩

theorem signerPass_raw {state : DerFields × Bool} {e : Element} {rest : Bytes}
    (h : state.1.Covers (e.raw ++ rest)) (he : IsSignerInfo e) :
    signerPass state = .ok (.again (afterSigner state e)) := by
  have htag : e.tag = derSequenceTag := by
    obtain ⟨htag⟩ := he
    exact htag
  rw [signerPass, if_neg (by simp [not_empty_raw h]), take_tag h htag, ok_bind]
  dsimp only
  rw [checkSigner_ok he h.inner]
  rfl

theorem signerLoop_safe (h : fields.Covers l) :
    Safe (loop signerPass (.fault .diverges) (fields.remaining + 1) (fields, false)) fun found =>
      ∃ es, l = rawAll es ∧ (∀ e ∈ es, IsSignerInfo e) ∧ found = !es.isEmpty := by
  have hcovers : (Prod.fst (fields, false)).Covers l := h
  have hloop := loop_safe Prod.fst IsSignerInfo afterSigner Prod.snd
    (fun _ h => signerPass_leave h) (fun _ _ hl h => signerPass_safe hl h) (fun _ _ => rfl) hcovers
  simpa only [foldl_afterSigner, Bool.false_or] using hloop

theorem signerLoop_rawAll {es : List Element} (h : fields.Covers (rawAll es))
    (hes : ∀ e ∈ es, IsSignerInfo e) :
    loop signerPass (.fault .diverges) (fields.remaining + 1) (fields, false) =
      .ok (!es.isEmpty) := by
  have hcovers : (Prod.fst (fields, false)).Covers (rawAll es) := h
  have hloop := loop_rawAll Prod.fst IsSignerInfo afterSigner Prod.snd
    (fun _ h => signerPass_leave h) (fun _ _ _ h he => signerPass_raw h he) (fun _ _ => rfl)
    hcovers hes
  simpa only [foldl_afterSigner, Bool.false_or] using hloop

/-- What `cmsHasSigner` accepts is an envelope of signer infos, and the answer
is whether there is one. -/
theorem cmsHasSigner_safe (pkcs7 : Bytes) :
    Safe (cmsHasSigner pkcs7) fun found => ∃ (layout : SignedDataLayout) (signers : List Element),
      pkcs7 = layout.encoding ∧ layout.signers.content = rawAll signers ∧
      (∀ e ∈ signers, IsSignerInfo e) ∧ found = !signers.isEmpty := by
  rw [cmsHasSigner]
  apply (signedData_safe pkcs7).bind
  rintro sdView ⟨ci, ciOid, ciWrapper, sd, rfl, hciTag, hciContent, hciOidTag, hciOidContent,
    hciWrapperTag, hciWrapperContent, hsdTag, hsd⟩
  apply (skipSignedDataHeader_safe hsd).bind
  rintro ⟨_, _⟩ ⟨version, digests, eci, rest, hsdContent, hversionTag, hversionContent,
    hdigestsTag, heciTag, -, hrest⟩
  apply (takeOptional_safe hrest 0xa0).bind
  rintro _ ⟨certs, rest, rfl, hcerts, hrest⟩
  apply (takeOptional_safe hrest 0xa1).bind
  rintro _ ⟨crls, rest, rfl, hcrls, hrest⟩
  apply (take_safe hrest derSetTag).bind
  rintro ⟨_, _⟩ ⟨set, rest, rfl, hsetTag, rfl, rfl⟩
  dsimp only
  rw [safe_bind, DerFields.finish, safe_throwIf, Bool.not_eq_false, empty_iff hrest.after]
  rintro rfl
  apply (signerLoop_safe hrest.inner).mono
  rintro _ ⟨signers, hsigners, hall, rfl⟩
  exact ⟨⟨ci, ciOid, ciWrapper, sd, version, digests, eci, certs, crls, set, hciTag,
    hciContent, hciOidTag, hciOidContent, hciWrapperTag, hciWrapperContent, hsdTag,
    by simpa using hsdContent, hversionTag, hversionContent, hdigestsTag, heciTag, hcerts, hcrls,
    hsetTag⟩, signers, rfl, hsigners, hall, rfl⟩

/-- Every envelope of signer infos is answered by whether there is one. -/
theorem cmsHasSigner_encoding {layout : SignedDataLayout} {signers : List Element}
    (hsigners : layout.signers.content = rawAll signers) (hall : ∀ e ∈ signers, IsSignerInfo e) :
    cmsHasSigner layout.encoding = .ok (!signers.isEmpty) := by
  obtain ⟨sdView, hsd, hsdCovers⟩ := signedData_raw layout.ciTag layout.ciContent layout.oidTag
    layout.oidContent layout.wrapperTag layout.wrapperContent layout.sdTag
  rw [layout.sdContent] at hsdCovers
  obtain ⟨eciView, afterEci, heci, -, hrest⟩ := skipSignedDataHeader_raw hsdCovers
    layout.versionTag layout.versionContent layout.digestsTag layout.eciTag
  obtain ⟨afterCrls, view, done, hoptional, hset, hcovers, hdone⟩ := layout.signers_covered hrest
  obtain ⟨afterCerts, hcerts, hcrls⟩ := bind_eq_ok.mp hoptional
  rw [hsigners] at hcovers
  simp only [cmsHasSigner, SignedDataLayout.encoding, hsd, ok_bind, heci, hcerts, hcrls, hset,
    hdone]
  exact signerLoop_rawAll hcovers hall

end AasSign
