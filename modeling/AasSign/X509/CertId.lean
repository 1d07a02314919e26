import AasSign.Der.Fields

/-! # Issuer and serial number of a certificate

`x509_cert_id`. A certificate that it accepts has the layout below, and what it
returns are the two elements of that layout as they are written.
-/

namespace AasSign

open Foundation DerFields

structure CertId where
  issuerRaw : Bytes
  serialRaw : Bytes
  deriving DecidableEq, Repr

/-- The low five bits of the tag say SEQUENCE, in any class. -/
def isSequence (tag : UInt8) : Prop := tag &&& 0x1f = 0x10

instance (tag : UInt8) : Decidable (isSequence tag) := inferInstanceAs (Decidable (_ = _))

/-- Skip version [0] EXPLICIT if present. -/
def skipVersion (p : Ptr) (remaining : Nat) : Except Exn (TlvView × Ptr × Nat) := do
  let elem ← derReadTlv p remaining
  if elem.tag = 0xa0 then
    let p := p.add elem.totalLen
    let remaining ← usub remaining elem.totalLen
    let elem ← derReadTlv p remaining
    return (elem, p, remaining)
  else
    return (elem, p, remaining)

def x509CertId (certDer : Bytes) : Except Exn CertId := do
  let cert ← derReadTlv (Ptr.data certDer) certDer.length
  throwIf (¬ isSequence cert.tag) "expected SEQUENCE for Certificate"
  let tbs ← derReadTlv cert.content cert.contentLen
  throwIf (¬ isSequence tbs.tag) "expected SEQUENCE for TBSCertificate"
  let (elem, p, remaining) ← skipVersion tbs.content tbs.contentLen
  throwIf (elem.tag ≠ 0x02) "expected INTEGER for serialNumber"
  let serialRaw ← p.copy elem.totalLen
  let p := p.add elem.totalLen
  let remaining ← usub remaining elem.totalLen
  let elem ← derReadTlv p remaining
  let p := p.add elem.totalLen
  let remaining ← usub remaining elem.totalLen
  let elem ← derReadTlv p remaining
  throwIf (¬ isSequence elem.tag) "expected SEQUENCE for issuer"
  let issuerRaw ← p.copy elem.totalLen
  return { issuerRaw, serialRaw }

/-- The elements of a certificate that `x509CertId` looks at. -/
structure CertLayout where
  cert : Element
  tbs : Element
  version : List Element
  serial : Element
  algorithm : Element
  issuer : Element
  afterCert : Bytes
  afterTbs : Bytes
  afterIssuer : Bytes
  certTag : isSequence cert.tag
  tbsTag : isSequence tbs.tag
  versionTag : version = [] ∨ ∃ v, version = [v] ∧ v.tag = 0xa0
  serialTag : serial.tag = 0x02
  issuerTag : isSequence issuer.tag
  certContent : cert.content = tbs.raw ++ afterTbs
  tbsContent : tbs.content =
    rawAll version ++ (serial.raw ++ (algorithm.raw ++ (issuer.raw ++ afterIssuer)))

/-- The certificate as it is written, with the bytes that follow it. -/
def CertLayout.encoding (layout : CertLayout) : Bytes := layout.cert.raw ++ layout.afterCert

def CertLayout.certId (layout : CertLayout) : CertId :=
  ⟨layout.issuer.raw, layout.serial.raw⟩

/-- The version is skipped if there is one, and the next element is read. -/
theorem skipVersion_safe {p : Ptr} {remaining : Nat} {l : Bytes} (h : Covers ⟨p, remaining⟩ l) :
    Safe (skipVersion p remaining) fun (elem, p, remaining) => ∃ version e rest,
      l = rawAll version ++ (Element.raw e ++ rest) ∧
      (version = [] ∨ ∃ v, version = [v] ∧ v.tag = 0xa0) ∧
      elem = TlvView.of e p ∧ Covers ⟨p, remaining⟩ (e.raw ++ rest) := by
  rw [skipVersion]
  apply h.read_safe.bind
  rintro _ ⟨v, rest, rfl, rfl⟩
  apply safe_ite.mpr
  constructor
  · intro hversion
    rw [TlvView.of_totalLen, h.usub_raw, ok_bind]
    apply h.after.read_safe.bind
    rintro _ ⟨e, rest, rfl, rfl⟩
    exact ⟨[v], e, rest, by simp, .inr ⟨v, rfl, hversion⟩, rfl, h.after⟩
  · intro _
    exact ⟨[], v, rest, by simp, .inl rfl, rfl, h⟩

/-- A certificate is read inside its bounds, and what is accepted has the
layout of a certificate. -/
theorem x509CertId_safe (certDer : Bytes) :
    Safe (x509CertId certDer) fun id =>
      ∃ layout : CertLayout, certDer = layout.encoding ∧ id = layout.certId := by
  rw [x509CertId]
  apply (derReadTlv_safe (Ptr.Sees.data certDer)).bind
  rintro _ ⟨cert, afterCert, rfl, rfl⟩
  rw [safe_bind, safe_throwIf, not_not]
  intro hcert
  have hcontent := covers_ofView (Ptr.Sees.data (cert.raw ++ afterCert))
  apply hcontent.read_safe.bind
  rintro _ ⟨tbs, afterTbs, hcertContent, rfl⟩
  rw [safe_bind, safe_throwIf, not_not]
  intro htbs
  rw [hcertContent] at hcontent
  apply (skipVersion_safe (covers_ofView hcontent.sees)).bind
  rintro ⟨_, p, remaining⟩ ⟨version, serial, rest, htbsContent, hversion, rfl, hserial⟩
  dsimp only
  rw [safe_bind, safe_throwIf, not_not]
  intro hserialTag
  simp only [TlvView.of_totalLen]
  rw [hserial.copy_raw, hserial.usub_raw, ok_bind, ok_bind]
  have halgorithm := hserial.after
  dsimp only [DerFields.after] at halgorithm
  apply halgorithm.read_safe.bind
  rintro _ ⟨algorithm, rest, rfl, rfl⟩
  rw [TlvView.of_totalLen, halgorithm.usub_raw, ok_bind]
  have hissuer := halgorithm.after
  dsimp only [DerFields.after] at hissuer
  apply hissuer.read_safe.bind
  rintro _ ⟨issuer, afterIssuer, rfl, rfl⟩
  rw [safe_bind, safe_throwIf, not_not]
  intro hissuerTag
  rw [TlvView.of_totalLen, hissuer.copy_raw]
  exact ⟨⟨cert, tbs, version, serial, algorithm, issuer, afterCert, afterTbs, afterIssuer,
    hcert, htbs, hversion, hserialTag, hissuerTag, hcertContent, htbsContent⟩, rfl, rfl⟩

/-- The version is skipped in front of the serial number. -/
theorem skipVersion_raw {p : Ptr} {remaining : Nat} {version : List Element} {serial : Element}
    {rest : Bytes} (hversion : version = [] ∨ ∃ v, version = [v] ∧ v.tag = 0xa0)
    (hserial : serial.tag = 0x02) (h : Covers ⟨p, remaining⟩ (rawAll version ++ (serial.raw ++ rest))) :
    ∃ p' remaining', skipVersion p remaining = .ok (TlvView.of serial p', p', remaining') ∧
      Covers ⟨p', remaining'⟩ (serial.raw ++ rest) := by
  rw [skipVersion]
  rcases hversion with rfl | ⟨v, rfl, hv⟩
  · rw [rawAll_nil, List.nil_append] at h
    rw [h.read_raw, ok_bind, TlvView.of_tag, if_neg (by rw [hserial]; decide)]
    exact ⟨p, remaining, rfl, h⟩
  · rw [rawAll_cons, rawAll_nil, List.append_nil] at h
    rw [h.read_raw, ok_bind, TlvView.of_tag, if_pos hv, TlvView.of_totalLen, h.usub_raw, ok_bind,
      h.after.read_raw]
    exact ⟨_, _, rfl, h.after⟩

/-- The two elements of a layout are read off, whatever stands behind them. -/
theorem CertLayout.read (layout : CertLayout) :
    x509CertId layout.encoding = .ok layout.certId := by
  rw [x509CertId, encoding, derReadTlv_raw (Ptr.Sees.data _), ok_bind,
    throwIf_of_not (by simpa using layout.certTag), ok_bind]
  have hcert := covers_ofView (Ptr.Sees.data (layout.cert.raw ++ layout.afterCert))
  rw [layout.certContent] at hcert
  dsimp only [ofView] at hcert
  rw [hcert.read_raw, ok_bind, throwIf_of_not (by simpa using layout.tbsTag), ok_bind]
  have htbs := covers_ofView hcert.sees
  rw [layout.tbsContent] at htbs
  obtain ⟨p, remaining, hskip, hserial⟩ := skipVersion_raw layout.versionTag layout.serialTag htbs
  have halgorithm := hserial.after
  have hissuer := halgorithm.after
  dsimp only [DerFields.after] at halgorithm hissuer
  rw [hskip, ok_bind]
  dsimp only
  rw [throwIf_of_not (by simpa using layout.serialTag), ok_bind, TlvView.of_totalLen,
    hserial.copy_raw, ok_bind, hserial.usub_raw, ok_bind, halgorithm.read_raw, ok_bind,
    TlvView.of_totalLen, halgorithm.usub_raw, ok_bind, hissuer.read_raw, ok_bind,
    throwIf_of_not (by simpa using layout.issuerTag), ok_bind, TlvView.of_totalLen,
    hissuer.copy_raw]
  rfl

/-- A certificate is accepted exactly when it has the layout, and then the issuer and the
serial number are returned as they are written. -/
theorem x509CertId_eq_ok {certDer : Bytes} {id : CertId} : x509CertId certDer = .ok id ↔
    ∃ layout : CertLayout, certDer = layout.encoding ∧ id = layout.certId := by
  constructor
  · exact (x509CertId_safe certDer).of_ok
  · rintro ⟨layout, rfl, rfl⟩
    exact layout.read

end AasSign
