import AasSign.Der.Fields

/-! # Splitting a certificate chain

`x509_split_certs` accepts a PKCS#7 envelope or bare concatenated certificates.
Both loops cut their input into elements; nothing is skipped inside the part
that holds the certificates.
-/

namespace AasSign

open Foundation DerFields

/-- signedData OID: 1.2.840.113549.1.7.2 -/
def oidSignedDataContent : Bytes := [0x2a, 0x86, 0x48, 0x86, 0xf7, 0x0d, 0x01, 0x07, 0x02]

/-- The cursor of a splitting loop and the certificates it has cut off. -/
structure SplitState where
  cp : Ptr
  cr : Nat
  out : List Bytes

/-- One pass of the loop over the certificates field. -/
def splitPass (state : SplitState) : Except Exn (Pass SplitState (List Bytes)) :=
  if state.cr = 0 then
    .ok (.leave state.out)
  else do
    let cert ← derReadTlv state.cp state.cr
    let raw ← state.cp.copy cert.totalLen
    let cr ← usub state.cr cert.totalLen
    return .again ⟨state.cp.add cert.totalLen, cr, state.out ++ [raw]⟩

def splitField (cp : Ptr) (cr : Nat) : Except Exn (List Bytes) :=
  loop splitPass (.fault .diverges) (cr + 1) ⟨cp, cr, []⟩

/-- One pass of the walk over the SignedData fields, looking for [0]. -/
def fieldPass (state : DerFields) : Except Exn (Pass DerFields (Option (List Bytes))) :=
  if state.remaining = 0 then
    .ok (.leave none)
  else do
    let field ← derReadTlv state.p state.remaining
    if field.tag = 0xa0 then
      let certs ← splitField field.content field.contentLen
      return .leave (some certs)
    else
      let remaining ← usub state.remaining field.totalLen
      return .again ⟨state.p.add field.totalLen, remaining⟩

def findCerts (p : Ptr) (remaining : Nat) : Except Exn (Option (List Bytes)) :=
  loop fieldPass (.fault .diverges) (remaining + 1) ⟨p, remaining⟩

/-- `memcmp(p, expected, sizeof expected) == 0`. -/
def sameBytes (p : Ptr) (expected : Bytes) : Except Exn Bool := do
  let bytes ← p.copy expected.length
  return bytes == expected

/-- `none` is the answer `false`: the data is not a PKCS#7 envelope. -/
def tryExtractCmsCerts (data : Bytes) : Except Exn (Option (List Bytes)) := do
  if data.length < 20 then return none
  let ci ← derReadTlv (Ptr.data data) data.length
  if ci.tag ≠ 0x30 then return none
  let oid ← derReadTlv ci.content ci.contentLen
  if oid.tag ≠ 0x06 ∨ oid.contentLen ≠ oidSignedDataContent.length then return none
  let same ← sameBytes oid.content oidSignedDataContent
  if same = false then return none
  let remaining ← usub ci.contentLen oid.totalLen
  let explicit0 ← derReadTlv (ci.content.add oid.totalLen) remaining
  if explicit0.tag ≠ 0xa0 then return none
  let sd ← derReadTlv explicit0.content explicit0.contentLen
  if sd.tag ≠ 0x30 then return none
  findCerts sd.content sd.contentLen

/-- One pass of the loop over bare certificates; `pos` counts from `data`. -/
def rawPass (data : Ptr) (len : Nat) (state : Nat × List Bytes) :
    Except Exn (Pass (Nat × List Bytes) (List Bytes)) :=
  let (pos, certs) := state
  if pos < len then do
    let left ← usub len pos
    let tlv ← derReadTlv (data.add pos) left
    let raw ← (data.add pos).copy tlv.totalLen
    return .again (pos + tlv.totalLen, certs ++ [raw])
  else
    .ok (.leave certs)

/-- Raw concatenated certificates. -/
def splitConcatenated (data : Bytes) : Except Exn (List Bytes) :=
  loop (rawPass (Ptr.data data) data.length) (.fault .diverges) (data.length + 1) (0, [])

def x509SplitCerts (data : Bytes) : Except Exn (List Bytes) := do
  match ← tryExtractCmsCerts data with
  | some certs => return certs
  | none => splitConcatenated data

/-! ## The loops cut their input into elements -/

section Field

/-- The cursor of the loop over the certificates field. -/
def SplitState.cursor (state : SplitState) : DerFields := ⟨state.cp, state.cr⟩

def SplitState.after (state : SplitState) (e : Element) : SplitState :=
  ⟨state.cp.add e.raw.length, state.cr - e.raw.length, state.out ++ [e.raw]⟩

theorem foldl_after (es : List Element) (state : SplitState) :
    (es.foldl SplitState.after state).out = state.out ++ es.map Element.raw := by
  induction es generalizing state with
  | nil => simp
  | cons e es ih => simp [ih, SplitState.after]

theorem splitPass_leave {state : SplitState} (h : state.cursor.Covers []) :
    splitPass state = .ok (.leave state.out) :=
  if_pos h.length

theorem splitPass_read {state : SplitState} {l : Bytes} (hl : l ≠ []) (h : state.cursor.Covers l) :
    splitPass state = (do
      let cert ← derReadTlv state.cp state.cr
      let raw ← state.cp.copy cert.totalLen
      let cr ← usub state.cr cert.totalLen
      return .again ⟨state.cp.add cert.totalLen, cr, state.out ++ [raw]⟩) := by
  apply if_neg
  rw [show state.cr = l.length from h.length, List.length_eq_zero_iff]
  exact hl

theorem splitField_safe {cp : Ptr} {cr : Nat} {l : Bytes} (h : Covers ⟨cp, cr⟩ l) :
    Safe (splitField cp cr) fun certs => ∃ es, l = rawAll es ∧ certs = es.map Element.raw := by
  have hstart : (SplitState.cursor ⟨cp, cr, []⟩).Covers l := h
  have hloop := loop_safe SplitState.cursor (fun _ => True) SplitState.after SplitState.out
    (fun _ h => splitPass_leave h)
    (fun state l hl hcovers => by
      rw [splitPass_read hl hcovers]
      apply hcovers.read_safe.bind
      rintro _ ⟨e, rest, rfl, rfl⟩
      rw [TlvView.of_totalLen, hcovers.copy_raw, hcovers.usub_raw]
      exact ⟨e, rest, rfl, trivial, rfl⟩)
    (fun _ _ => rfl) hstart
  apply Safe.mono hloop
  rintro _ ⟨es, hl, -, rfl⟩
  exact ⟨es, hl, by rw [foldl_after, List.nil_append]⟩

/-- Elements in the field are cut off one by one. -/
theorem splitField_rawAll {cp : Ptr} {cr : Nat} {es : List Element}
    (h : Covers ⟨cp, cr⟩ (rawAll es)) : splitField cp cr = .ok (es.map Element.raw) := by
  have hstart : (SplitState.cursor ⟨cp, cr, []⟩).Covers (rawAll es) := h
  have hloop := loop_rawAll SplitState.cursor (fun _ => True) SplitState.after SplitState.out
    (fun _ h => splitPass_leave h)
    (fun state e rest hcovers _ => by
      rw [splitPass_read (by simp [e.raw_ne_nil]) hcovers, hcovers.read_raw, ok_bind,
        TlvView.of_totalLen, hcovers.copy_raw, ok_bind, hcovers.usub_raw]
      rfl)
    (fun _ _ => rfl) hstart fun _ _ => trivial
  rwa [foldl_after, List.nil_append] at hloop

end Field

/-- The walk ends at the first [0] field and returns the elements in it. -/
theorem findCerts_safe {p : Ptr} {remaining : Nat} {l : Bytes} (h : Covers ⟨p, remaining⟩ l) :
    Safe (findCerts p remaining) fun found => ∀ certs, found = some certs →
      ∃ before field rest es, l = rawAll before ++ (Element.raw field ++ rest) ∧
        (∀ e ∈ before, e.tag ≠ 0xa0) ∧ field.tag = 0xa0 ∧ field.content = rawAll es ∧
        certs = es.map Element.raw := by
  apply loop_sat DerFields.remaining (fun state => ∃ before rest, l = rawAll before ++ rest ∧
    (∀ e ∈ before, e.tag ≠ 0xa0) ∧ state.Covers rest)
  · rintro ⟨p, remaining⟩ ⟨before, rest, hl, hbefore, hcovers⟩
    change Safe _ _
    rw [fieldPass]
    apply safe_ite.mpr
    constructor
    · rintro _ certs ⟨⟩
    · intro _
      apply hcovers.read_safe.bind
      rintro _ ⟨field, rest, rfl, rfl⟩
      apply safe_ite.mpr
      constructor
      · intro htag
        apply (splitField_safe (covers_ofView hcovers.sees)).bind
        rintro certs ⟨es, hcontent, rfl⟩ _ ⟨⟩
        exact ⟨before, field, rest, es, hl, hbefore, htag, hcontent, rfl⟩
      · intro htag
        rw [TlvView.of_totalLen, hcovers.usub_raw]
        refine ⟨⟨before ++ [field], rest, ?_, ?_, hcovers.after⟩, ?_⟩
        · simp [hl, rawAll_append]
        · intro e he
          rcases List.mem_append.mp he with he | he
          · exact hbefore e he
          · rw [List.mem_singleton.mp he]
            exact htag
        · have hraw := field.two_le_raw_length
          have hlength : remaining = (field.raw ++ rest).length := hcovers.length
          rw [List.length_append] at hlength
          dsimp only
          omega
  · exact ⟨[], l, rfl, by simp, h⟩
  · exact Nat.lt_succ_self remaining

/-- The walk passes over other fields and splits the first [0]. -/
theorem findCerts_raw {p : Ptr} {remaining : Nat} {before es : List Element} {field : Element}
    {rest : Bytes} (hbefore : ∀ e ∈ before, e.tag ≠ 0xa0) (hfield : field.tag = 0xa0)
    (hcontent : field.content = rawAll es)
    (h : Covers ⟨p, remaining⟩ (rawAll before ++ (field.raw ++ rest))) :
    findCerts p remaining = .ok (some (es.map Element.raw)) := by
  have hmore {p : Ptr} {remaining : Nat} {e : Element} {rest : Bytes}
      (h : Covers ⟨p, remaining⟩ (e.raw ++ rest)) : remaining ≠ 0 := by
    have hraw := e.two_le_raw_length
    have hlength : remaining = (e.raw ++ rest).length := h.length
    rw [List.length_append] at hlength
    omega
  have hfuel : before.length < remaining + 1 := by
    have hlength : remaining = (rawAll before ++ (field.raw ++ rest)).length := h.length
    have hcount := length_le_rawAll_length before
    rw [List.length_append] at hlength
    omega
  unfold findCerts
  generalize remaining + 1 = fuel at hfuel
  induction before generalizing p remaining fuel with
  | nil =>
      obtain ⟨fuel, rfl⟩ := Nat.exists_eq_succ_of_ne_zero (Nat.ne_of_gt hfuel)
      rw [rawAll_nil, List.nil_append] at h
      have hcerts := covers_ofView h.sees
      rw [hcontent] at hcerts
      apply loop_leave
      rw [fieldPass, if_neg (hmore h), h.read_raw, ok_bind, TlvView.of_tag, if_pos hfield,
        splitField_rawAll hcerts]
      rfl
  | cons e before ih =>
      obtain ⟨fuel, rfl⟩ := Nat.exists_eq_succ_of_ne_zero (Nat.ne_of_gt (Nat.zero_lt_of_lt hfuel))
      rw [rawAll_cons, List.append_assoc] at h
      have hpass : fieldPass ⟨p, remaining⟩ = .ok (.again (DerFields.after ⟨p, remaining⟩ e)) := by
        rw [fieldPass, if_neg (hmore h), h.read_raw, ok_bind, TlvView.of_tag,
          if_neg (hbefore e List.mem_cons_self), TlvView.of_totalLen, h.usub_raw]
        rfl
      rw [loop_again hpass]
      apply ih (fun other hother => hbefore other (List.mem_cons_of_mem e hother)) h.after
      simp only [List.length_cons] at hfuel
      omega

/-- A PKCS#7 envelope in which `certs` are the elements of the certificates field. -/
structure CertsEnvelope (data : Bytes) (certs : List Bytes) where
  ci : Element
  oid : Element
  explicit0 : Element
  sd : Element
  before : List Element
  field : Element
  elements : List Element
  afterCi : Bytes
  afterExplicit : Bytes
  afterSd : Bytes
  afterField : Bytes
  encoding : data = ci.raw ++ afterCi
  ciTag : ci.tag = 0x30
  ciContent : ci.content = oid.raw ++ (explicit0.raw ++ afterExplicit)
  oidTag : oid.tag = 0x06
  oidContent : oid.content = oidSignedDataContent
  explicitTag : explicit0.tag = 0xa0
  explicitContent : explicit0.content = sd.raw ++ afterSd
  sdTag : sd.tag = 0x30
  sdContent : sd.content = rawAll before ++ (field.raw ++ afterField)
  beforeTags : ∀ e ∈ before, e.tag ≠ 0xa0
  fieldTag : field.tag = 0xa0
  fieldContent : field.content = rawAll elements
  certs_eq : certs = elements.map Element.raw

theorem tryExtractCmsCerts_safe (data : Bytes) :
    Safe (tryExtractCmsCerts data) fun found =>
      ∀ certs, found = some certs → Nonempty (CertsEnvelope data certs) := by
  rw [tryExtractCmsCerts]
  apply safe_ite.mpr
  refine ⟨by rintro _ _ ⟨⟩, fun _ => ?_⟩
  apply (derReadTlv_safe (Ptr.Sees.data data)).bind
  rintro _ ⟨ci, afterCi, rfl, rfl⟩
  apply safe_ite.mpr
  refine ⟨by rintro _ _ ⟨⟩, fun hci => ?_⟩
  have hfields := covers_ofView (Ptr.Sees.data (ci.raw ++ afterCi))
  generalize hcontent : ci.content = content at hfields
  dsimp only [DerFields.ofView] at hfields
  apply hfields.read_safe.bind
  rintro _ ⟨oid, rest, rfl, rfl⟩
  apply safe_ite.mpr
  refine ⟨by rintro _ _ ⟨⟩, fun hoid => ?_⟩
  rw [not_or, not_not, not_not, TlvView.of_contentLen] at hoid
  -- The object identifier is compared octet for octet, at the length that was checked.
  have hsame : (TlvView.of oid (TlvView.of ci (Ptr.data (ci.raw ++ afterCi))).content).content.copy
      oidSignedDataContent.length = .ok oid.content := by
    rw [← hoid.2]
    exact hfields.sees.content.copy
  rw [sameBytes, hsame]
  apply safe_ite.mpr
  refine ⟨by rintro _ _ ⟨⟩, fun hbytes => ?_⟩
  have hoidContent : oid.content = oidSignedDataContent := by simpa using hbytes
  rw [TlvView.of_totalLen, hfields.usub_raw, ok_bind]
  have hrest := hfields.after
  dsimp only [DerFields.after] at hrest
  apply hrest.read_safe.bind
  rintro _ ⟨explicit0, afterExplicit, rfl, rfl⟩
  apply safe_ite.mpr
  refine ⟨by rintro _ _ ⟨⟩, fun hexplicit => ?_⟩
  have hwrapped := covers_ofView hrest.sees
  generalize hexplicitContent : explicit0.content = content at hwrapped
  dsimp only [DerFields.ofView] at hwrapped
  apply hwrapped.read_safe.bind
  rintro _ ⟨sd, afterSd, rfl, rfl⟩
  apply safe_ite.mpr
  refine ⟨by rintro _ _ ⟨⟩, fun hsd => ?_⟩
  apply (findCerts_safe (covers_ofView hwrapped.sees)).mono
  rintro found hfound certs rfl
  obtain ⟨before, field, afterField, es, hsdContent, hbefore, hfield, hfieldContent, hcerts⟩ :=
    hfound certs rfl
  exact ⟨⟨ci, oid, explicit0, sd, before, field, es, afterCi, afterExplicit, afterSd, afterField,
    rfl, not_not.mp hci, hcontent, hoid.1, hoidContent, not_not.mp hexplicit, hexplicitContent,
    not_not.mp hsd, hsdContent, hbefore, hfield, hfieldContent, hcerts⟩⟩

/-- An envelope that is long enough to be looked into is taken for one. -/
theorem CertsEnvelope.extracted {data : Bytes} {certs : List Bytes}
    (envelope : CertsEnvelope data certs) (hlong : 20 ≤ data.length) :
    tryExtractCmsCerts data = .ok (some certs) := by
  obtain ⟨ci, oid, explicit0, sd, before, field, elements, afterCi, afterExplicit, afterSd,
    afterField, rfl, hci, hciContent, hoid, hoidContent, hexplicit, hexplicitContent, hsd,
    hsdContent, hbefore, hfield, hfieldContent, rfl⟩ := envelope
  have hfields := covers_ofView (Ptr.Sees.data (ci.raw ++ afterCi))
  rw [hciContent] at hfields
  dsimp only [DerFields.ofView] at hfields
  have hrest := hfields.after
  dsimp only [DerFields.after] at hrest
  have hwrapped := covers_ofView hrest.sees
  rw [hexplicitContent] at hwrapped
  dsimp only [DerFields.ofView] at hwrapped
  have hsigned := covers_ofView hwrapped.sees
  rw [hsdContent] at hsigned
  have hsame := hfields.sees.content.copy
  rw [hoidContent] at hsame
  have hbytes : sameBytes (TlvView.of oid
      (TlvView.of ci (Ptr.data (ci.raw ++ afterCi))).content).content oidSignedDataContent =
      .ok true := by
    rw [sameBytes, hsame]
    rfl
  rw [tryExtractCmsCerts, if_neg (Nat.not_lt.mpr hlong), derReadTlv_raw (Ptr.Sees.data _), ok_bind,
    TlvView.of_tag, if_neg (not_not.mpr hci), hfields.read_raw, ok_bind, TlvView.of_tag,
    TlvView.of_contentLen, hoidContent, if_neg (by simp [hoid]), hbytes, ok_bind,
    if_neg (by simp), TlvView.of_totalLen, hfields.usub_raw, ok_bind,
    hrest.read_raw, ok_bind, TlvView.of_tag, if_neg (not_not.mpr hexplicit), hwrapped.read_raw,
    ok_bind, TlvView.of_tag, if_neg (not_not.mpr hsd)]
  exact findCerts_raw hbefore hfield hfieldContent hsigned

/-- A certificate, as far as the sniffing looks at it. -/
structure IsCertificate (cert : Element) : Prop where
  tag : cert.tag = 0x30
  long : 20 ≤ cert.raw.length
  child : ∃ tbs rest, cert.content = Element.raw tbs ++ rest ∧ tbs.tag = 0x30

/-- Bare certificates are not taken for an envelope. -/
theorem IsCertificate.not_extracted {cert : Element} (h : IsCertificate cert) (rest : Bytes) :
    tryExtractCmsCerts (cert.raw ++ rest) = .ok none := by
  obtain ⟨tbs, afterTbs, hcontent, htbs⟩ := h.child
  have hfields := covers_ofView (Ptr.Sees.data (cert.raw ++ rest))
  rw [hcontent] at hfields
  dsimp only [DerFields.ofView] at hfields
  have hlong : ¬ (cert.raw ++ rest).length < 20 := by
    have hcert := h.long
    rw [List.length_append]
    omega
  rw [tryExtractCmsCerts, if_neg hlong, derReadTlv_raw (Ptr.Sees.data _), ok_bind, TlvView.of_tag,
    if_neg (not_not.mpr h.tag), hfields.read_raw, ok_bind, TlvView.of_tag,
    if_pos (.inl (by rw [htbs]; decide))]
  rfl

section Concatenated

variable {data : Bytes}

/-- The cursor of the loop over concatenated elements. -/
def rawCursor (data : Bytes) (state : Nat × List Bytes) : DerFields :=
  ⟨(Ptr.data data).add state.1, data.length - state.1⟩

def rawStep (state : Nat × List Bytes) (e : Element) : Nat × List Bytes :=
  (state.1 + e.raw.length, state.2 ++ [e.raw])

theorem foldl_rawStep (es : List Element) (state : Nat × List Bytes) :
    (es.foldl rawStep state).2 = state.2 ++ es.map Element.raw := by
  induction es generalizing state with
  | nil => simp
  | cons e es ih => simp [ih, rawStep]

theorem rawCursor_rawStep (state : Nat × List Bytes) (e : Element) :
    rawCursor data (rawStep state e) = (rawCursor data state).after e := by
  simp only [rawCursor, rawStep, DerFields.after, Ptr.add, Nat.add_assoc, Nat.sub_sub]

theorem rawPass_leave {state : Nat × List Bytes} (h : (rawCursor data state).Covers []) :
    rawPass (Ptr.data data) data.length state = .ok (.leave state.2) := by
  have hdone : data.length - state.1 = 0 := h.length
  exact if_neg (by omega)

theorem rawPass_read {state : Nat × List Bytes} {l : Bytes} (hl : l ≠ [])
    (h : (rawCursor data state).Covers l) :
    rawPass (Ptr.data data) data.length state = (do
      let tlv ← derReadTlv ((Ptr.data data).add state.1) (data.length - state.1)
      let raw ← ((Ptr.data data).add state.1).copy tlv.totalLen
      return .again (state.1 + tlv.totalLen, state.2 ++ [raw])) := by
  have hlength : data.length - state.1 = l.length := h.length
  have hpos : 0 < l.length := List.length_pos_iff.mpr hl
  rw [rawPass, if_pos (by omega), usub_of_le (by omega)]
  rfl

theorem splitConcatenated_safe (data : Bytes) :
    Safe (splitConcatenated data) fun certs =>
      ∃ es, data = rawAll es ∧ certs = es.map Element.raw := by
  have hstart : (rawCursor data (0, [])).Covers data := ⟨Ptr.Sees.data data, rfl⟩
  have hloop := loop_safe (rawCursor data) (fun _ => True) rawStep Prod.snd
    (fun _ h => rawPass_leave h)
    (fun state l hl h => by
      rw [rawPass_read hl h]
      apply h.read_safe.bind
      rintro _ ⟨e, rest, rfl, rfl⟩
      rw [TlvView.of_totalLen, h.copy_raw]
      exact ⟨e, rest, rfl, trivial, rfl⟩)
    (fun _ _ => rawCursor_rawStep _ _) hstart
  apply Safe.mono hloop
  rintro _ ⟨es, hdata, -, rfl⟩
  exact ⟨es, hdata, by rw [foldl_rawStep, List.nil_append]⟩

/-- A concatenation of elements is split into them. -/
theorem splitConcatenated_rawAll (es : List Element) :
    splitConcatenated (rawAll es) = .ok (es.map Element.raw) := by
  have hstart : (rawCursor (rawAll es) (0, [])).Covers (rawAll es) := ⟨Ptr.Sees.data _, rfl⟩
  have hloop := loop_rawAll (rawCursor (rawAll es)) (fun _ => True) rawStep Prod.snd
    (fun _ h => rawPass_leave h)
    (fun state e rest h _ => by
      rw [rawPass_read (by simp [e.raw_ne_nil]) h, h.read_raw, ok_bind, TlvView.of_totalLen,
        h.copy_raw]
      rfl)
    (fun _ _ => rawCursor_rawStep _ _) hstart fun _ _ => trivial
  rwa [foldl_rawStep, List.nil_append] at hloop

end Concatenated

/-- A chain is split inside its bounds, into the elements of the certificates
field of an envelope or of the whole input. -/
theorem x509SplitCerts_safe (data : Bytes) :
    Safe (x509SplitCerts data) fun certs => Nonempty (CertsEnvelope data certs) ∨
      ∃ es, data = rawAll es ∧ certs = es.map Element.raw := by
  rw [x509SplitCerts]
  apply (tryExtractCmsCerts_safe data).bind
  rintro (_ | certs) hfound
  · exact (splitConcatenated_safe data).mono fun certs h => .inr h
  · exact .inl (hfound certs rfl)

theorem x509SplitCerts_of_none {data : Bytes} (h : tryExtractCmsCerts data = .ok none) :
    x509SplitCerts data = splitConcatenated data := by
  rw [x509SplitCerts, h, ok_bind]

/-- An envelope around certificates is long enough to be looked into. -/
theorem CertsEnvelope.long {data : Bytes} {cert : Element} {certs : List Element}
    (envelope : CertsEnvelope data ((cert :: certs).map Element.raw)) (hcert : 20 ≤ cert.raw.length) :
    20 ≤ data.length := by
  have hle (e : Element) : e.content.length ≤ e.raw.length := by
    rw [e.raw_length]
    exact Nat.le_add_left _ _
  obtain ⟨ci, oid, explicit0, sd, before, field, elements, afterCi, afterExplicit, afterSd,
    afterField, rfl, -, hci, -, -, -, hexplicit, -, hsd, -, -, hfield, hcerts⟩ := envelope
  cases elements with
  | nil => cases hcerts
  | cons e elements =>
      simp only [List.map_cons, List.cons.injEq] at hcerts
      have hfieldLength := hle field
      have hsdLength := hle sd
      have hexplicitLength := hle explicit0
      have hciLength := hle ci
      rw [hfield, rawAll_cons, List.length_append, ← hcerts.1] at hfieldLength
      rw [hsd, List.length_append, List.length_append] at hsdLength
      rw [hexplicit, List.length_append] at hexplicitLength
      rw [hci, List.length_append, List.length_append] at hciLength
      rw [List.length_append]
      omega

/-- Bare certificates and an envelope around them give the same chain, in order; and
what is split as bare certificates is split without a loss. -/
theorem x509SplitCerts_formats {certs : List Element} (hne : certs ≠ [])
    (hcerts : ∀ cert ∈ certs, IsCertificate cert) :
    x509SplitCerts (rawAll certs) = .ok (certs.map Element.raw) ∧
      (∀ data, Nonempty (CertsEnvelope data (certs.map Element.raw)) →
        x509SplitCerts data = .ok (certs.map Element.raw)) ∧
      ∀ data split, tryExtractCmsCerts data = .ok none → x509SplitCerts data = .ok split →
        split.flatten = data := by
  refine ⟨?_, ?_, ?_⟩
  · cases certs with
    | nil => exact absurd rfl hne
    | cons cert certs =>
        have hbare := (hcerts cert List.mem_cons_self).not_extracted (rawAll certs)
        rw [rawAll_cons, x509SplitCerts_of_none hbare, ← rawAll_cons, splitConcatenated_rawAll]
  · rintro data ⟨envelope⟩
    cases certs with
    | nil => exact absurd rfl hne
    | cons cert certs =>
        have hlong := envelope.long (hcerts cert List.mem_cons_self).long
        rw [x509SplitCerts, envelope.extracted hlong]
        rfl
  · intro data split hbare hsplit
    rw [x509SplitCerts_of_none hbare] at hsplit
    obtain ⟨es, rfl, rfl⟩ := (splitConcatenated_safe data).of_ok hsplit
    rfl

/-- A certificate with nothing but a body of eighteen octets. -/
def shortTbs : Element := ⟨0x30, [18], List.replicate 18 0, .short 18 (by decide)⟩

def shortCert : Element := ⟨0x30, [20], shortTbs.raw, .short 20 (by decide)⟩

theorem shortCert_isCertificate : IsCertificate shortCert :=
  ⟨rfl, by decide, shortTbs, [], (List.append_nil _).symm, rfl⟩

theorem shortChain_formats :
    x509SplitCerts (rawAll [shortCert, shortCert]) = .ok [shortCert.raw, shortCert.raw] ∧
      (∀ data, Nonempty (CertsEnvelope data [shortCert.raw, shortCert.raw]) →
        x509SplitCerts data = .ok [shortCert.raw, shortCert.raw]) ∧
      ∀ data split, tryExtractCmsCerts data = .ok none → x509SplitCerts data = .ok split →
        split.flatten = data :=
  @x509SplitCerts_formats [shortCert, shortCert] (by simp)
    (by simp [shortCert_isCertificate])

end AasSign
