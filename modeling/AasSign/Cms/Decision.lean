import AasSign.Cms.Extract
import AasSign.Cms.Signers

/-! # What the two readers decide

`cms_extract_indirect_data` and `cms_has_signer` return on the strings of their
grammars, with the answer the grammar gives, and throw on every other string.
-/

namespace AasSign

open Foundation

/-- An exception of the code, not a fault of the model. -/
def Throws {α : Type} (x : Except Exn α) : Prop := ∃ what, x = .error (.error what)

theorem Safe.throws {α : Type} {x : Except Exn α} {Q : α → Prop} (h : Safe x Q)
    (hnot : ∀ a, x ≠ .ok a) : Throws x := by
  cases x with
  | ok a => exact absurd rfl (hnot a)
  | error e =>
      cases e with
      | error what => exact ⟨what, rfl⟩
      | fault kind => exact (h : False).elim

/-! ## Indirect data -/

/-- An Authenticode envelope and the encoding of its indirect data. -/
inductive IsEnvelope : Bytes → Bytes → Prop where
  | mk {layout : SignedDataLayout} {idc : Element} (encapsulates : Encapsulates layout.eci idc) :
      IsEnvelope layout.encoding idc.raw

theorem cmsExtractIndirectData_eq_ok {pkcs7 found : Bytes} :
    cmsExtractIndirectData pkcs7 = .ok found ↔ IsEnvelope pkcs7 found := by
  constructor
  · intro h
    obtain ⟨layout, idc, rfl, hencapsulates, rfl⟩ := (cmsExtractIndirectData_safe pkcs7).of_ok h
    exact .mk hencapsulates
  · rintro ⟨hencapsulates⟩
    exact cmsExtractIndirectData_encoding hencapsulates

/-- An envelope is one element, so none is a proper prefix of another. -/
theorem IsEnvelope.prefix_eq {pkcs7 other found found' : Bytes} (h : IsEnvelope pkcs7 found)
    (h' : IsEnvelope other found') (hfront : pkcs7 <+: other) : pkcs7 = other := by
  cases h with
  | @mk layout =>
      cases h' with
      | @mk layout' =>
          obtain ⟨rest, hrest⟩ := hfront
          have hsplit : layout.ci.raw ++ rest = layout'.ci.raw ++ [] := by
            rw [List.append_nil]
            exact hrest
          exact congrArg Element.raw (Element.raw_append_inj hsplit).1

/-- The extraction returns the indirect data of an envelope and throws on everything
else, so on every proper prefix and every extension of an envelope. -/
theorem cmsExtractIndirectData_decides (pkcs7 : Bytes) :
    (∀ found, cmsExtractIndirectData pkcs7 = .ok found ↔ IsEnvelope pkcs7 found) ∧
    ((∀ found, ¬ IsEnvelope pkcs7 found) → Throws (cmsExtractIndirectData pkcs7)) ∧
    (∀ found, IsEnvelope pkcs7 found → ∀ other, other ≠ pkcs7 →
      other <+: pkcs7 ∨ pkcs7 <+: other → Throws (cmsExtractIndirectData other)) := by
  have hthrows (data : Bytes) (hnot : ∀ found, ¬ IsEnvelope data found) :
      Throws (cmsExtractIndirectData data) :=
    (cmsExtractIndirectData_safe data).throws fun found hok =>
      hnot found (cmsExtractIndirectData_eq_ok.mp hok)
  refine ⟨fun _ => cmsExtractIndirectData_eq_ok, hthrows pkcs7, ?_⟩
  intro found hfound other hne hfront
  apply hthrows
  intro found' hfound'
  rcases hfront with hfront | hfront
  · exact hne (hfound'.prefix_eq hfound hfront)
  · exact hne (hfound.prefix_eq hfound' hfront).symm

/-! ## Signers -/

/-- A SignedData envelope whose signer set holds these signer infos. -/
inductive HasSigners : Bytes → List Element → Prop where
  | mk {layout : SignedDataLayout} {signers : List Element}
      (content : layout.signers.content = rawAll signers)
      (isSignerInfo : ∀ e ∈ signers, IsSignerInfo e) : HasSigners layout.encoding signers

theorem cmsHasSigner_eq_ok {pkcs7 : Bytes} {found : Bool} :
    cmsHasSigner pkcs7 = .ok found ↔
      ∃ signers, HasSigners pkcs7 signers ∧ found = !signers.isEmpty := by
  constructor
  · intro h
    obtain ⟨layout, signers, rfl, hcontent, hall, rfl⟩ := (cmsHasSigner_safe pkcs7).of_ok h
    exact ⟨signers, .mk hcontent hall, rfl⟩
  · rintro ⟨signers, ⟨hcontent, hall⟩, rfl⟩
    exact cmsHasSigner_encoding hcontent hall

/-- The fields of SignedData as one list of elements. -/
theorem SignedDataLayout.sdContent_eq (layout : SignedDataLayout) :
    layout.sd.content = rawAll ([layout.version, layout.digests, layout.eci] ++
      (layout.certs ++ layout.crls) ++ [layout.signers]) := by
  rw [layout.sdContent]
  simp [rawAll_append]

/-- An encoding determines the signer set. -/
theorem SignedDataLayout.signers_eq {layout layout' : SignedDataLayout}
    (h : layout.encoding = layout'.encoding) : layout.signers = layout'.signers := by
  have hci : layout.ci = layout'.ci := Element.raw_injective h
  have hfields : [layout.oid, layout.wrapper] = [layout'.oid, layout'.wrapper] := by
    apply rawAll_injective
    rw [← layout.ciContent, ← layout'.ciContent, hci]
  obtain ⟨-, hwrapper⟩ : layout.oid = layout'.oid ∧ layout.wrapper = layout'.wrapper := by
    simpa using hfields
  have hsd : layout.sd = layout'.sd := by
    apply Element.raw_injective
    rw [← layout.wrapperContent, ← layout'.wrapperContent, hwrapper]
  have hall := layout.sdContent_eq
  rw [hsd, layout'.sdContent_eq] at hall
  have hlist := List.append_inj' (rawAll_injective hall) rfl
  exact (List.cons.inj hlist.2).1.symm

/-- One element that is no signer info spoils the whole set. -/
theorem HasSigners.isSignerInfo_of_content {layout : SignedDataLayout} {es signers : List Element}
    (h : HasSigners layout.encoding signers) (hes : layout.signers.content = rawAll es) :
    ∀ e ∈ es, IsSignerInfo e := by
  generalize hencoding : layout.encoding = pkcs7 at h
  cases h with
  | mk hcontent hall =>
      rw [SignedDataLayout.signers_eq hencoding, hcontent] at hes
      rwa [← rawAll_injective hes]

/-- The answer is true on an envelope of one or more signer infos, false on an
envelope of none, and an exception on everything else; in particular when one
element of the signer set is no signer info, whatever the others are. -/
theorem cmsHasSigner_decides (pkcs7 : Bytes) :
    (cmsHasSigner pkcs7 = .ok true ↔ ∃ signers, HasSigners pkcs7 signers ∧ signers ≠ []) ∧
    (cmsHasSigner pkcs7 = .ok false ↔ HasSigners pkcs7 []) ∧
    ((∀ signers, ¬ HasSigners pkcs7 signers) → Throws (cmsHasSigner pkcs7)) ∧
    (∀ (layout : SignedDataLayout) (es : List Element), pkcs7 = layout.encoding →
      layout.signers.content = rawAll es → (∃ e ∈ es, ¬ IsSignerInfo e) →
      Throws (cmsHasSigner pkcs7)) := by
  have hthrows (hnot : ∀ signers, ¬ HasSigners pkcs7 signers) : Throws (cmsHasSigner pkcs7) := by
    apply (cmsHasSigner_safe pkcs7).throws
    intro found hok
    obtain ⟨signers, hsigners, -⟩ := cmsHasSigner_eq_ok.mp hok
    exact hnot signers hsigners
  refine ⟨?_, ?_, hthrows, ?_⟩
  · rw [cmsHasSigner_eq_ok]
    simp
  · rw [cmsHasSigner_eq_ok]
    simp
  · rintro layout es rfl hes ⟨e, he, hnot⟩
    exact hthrows fun signers hsigners => hnot (hsigners.isSignerInfo_of_content hes e he)

end AasSign
