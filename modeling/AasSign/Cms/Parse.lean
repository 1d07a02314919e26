import AasSign.Cms.Build

/-! # Reading a CMS back

The envelope walk shared by `cms_extract_indirect_data` and `cms_has_signer`,
and the two functions themselves.
-/

namespace AasSign

open Foundation

def requireOid (value : TlvView) (oid : Bytes) : Except Exn Unit := do
  let expected ← derReadTlv (Ptr.data oid) oid.length
  let unexpected := "unexpected CMS content or digest algorithm (SHA-256 required)"
  throwIf (value.contentLen ≠ expected.contentLen) unexpected
  let bytes ← value.content.copy value.contentLen
  let expectedBytes ← expected.content.copy value.contentLen
  throwIf (bytes ≠ expectedBytes) unexpected

def signedData (pkcs7 : Bytes) : Except Exn TlvView := do
  let outer ← derReadTlv (Ptr.data pkcs7) pkcs7.length
  throwIf (outer.tag ≠ derSequenceTag ∨ outer.totalLen ≠ pkcs7.length) "invalid PKCS#7 ContentInfo"
  let ci := DerFields.ofView outer
  let (oid, ci) ← ci.take 0x06
  requireOid oid (← oidSignedData)
  let (content, ci) ← ci.take 0xa0
  let wrapper := DerFields.ofView content
  let (sd, wrapper) ← wrapper.take derSequenceTag
  wrapper.finish
  ci.finish
  return sd

/-- The version check of SignedData and of SignerInfo. -/
def requireVersion1 (version : TlvView) (what : String) : Except Exn Unit := do
  throwIf (version.contentLen ≠ 1) what
  let value ← version.content.read 0
  throwIf (value ≠ 1) what

/-- The encapsulated content, and the cursor after it. -/
def skipSignedDataHeader (sd : DerFields) : Except Exn (TlvView × DerFields) := do
  let (version, sd) ← sd.take 0x02
  requireVersion1 version "Authenticode requires SignedData version 1"
  let (_, sd) ← sd.take derSetTag
  sd.take derSequenceTag

/-- `if (fields.next() == tag) fields.take(tag);` -/
def takeOptional (fields : DerFields) (tag : UInt8) : Except Exn DerFields := do
  if (← fields.next) = tag then
    let (_, fields) ← fields.take tag
    return fields
  else
    return fields

/-- The checks of the digest algorithm inside the indirect data. -/
def checkDigestAlgorithm (algorithm : DerFields) : Except Exn Unit := do
  let (oid, algorithm) ← algorithm.take 0x06
  requireOid oid (← oidSha256)
  if algorithm.empty = false then
    let (parameters, algorithm) ← algorithm.take 0x05
    throwIf (parameters.contentLen ≠ 0) "invalid SHA-256 parameters"
    algorithm.finish
  else
    algorithm.finish

/-- The checks of the content of SpcIndirectDataContent. -/
def checkIndirectData (idc : TlvView) : Except Exn Unit := do
  let data := DerFields.ofView idc
  let (_, data) ← data.take derSequenceTag
  let (digestInfo, data) ← data.take derSequenceTag
  let digest := DerFields.ofView digestInfo
  let (algorithm, digest) ← digest.take derSequenceTag
  checkDigestAlgorithm (DerFields.ofView algorithm)
  let (value, digest) ← digest.take 0x04
  throwIf (value.contentLen = 0) "empty Authenticode digest"
  digest.finish
  data.finish

def cmsExtractIndirectData (pkcs7 : Bytes) : Except Exn Bytes := do
  let sd := DerFields.ofView (← signedData pkcs7)
  let (encapContent, sd) ← skipSignedDataHeader sd
  let eci := DerFields.ofView encapContent
  let (oid, eci) ← eci.take 0x06
  requireOid oid (← oidSpcIndirectData)
  let (wrapper, eci) ← eci.take 0xa0
  let content := DerFields.ofView wrapper
  let (idc, content) ← content.take derSequenceTag
  content.finish
  eci.finish
  checkIndirectData idc
  let sd ← takeOptional sd 0xa0
  let sd ← takeOptional sd 0xa1
  let (_, sd) ← sd.take derSetTag
  sd.finish
  let headerLen ← usub idc.totalLen idc.contentLen
  let start ← usub idc.content.off headerLen
  Ptr.copy ⟨idc.content.buf, start⟩ idc.totalLen

/-! ## Signers -/

/-- The `algorithm` lambda: check the next AlgorithmIdentifier of the signer. -/
def takeAlgorithm (signer : DerFields) : Except Exn DerFields := do
  let (view, signer) ← signer.take derSequenceTag
  let fields := DerFields.ofView view
  let (oid, fields) ← fields.take 0x06
  throwIf (oid.contentLen = 0) "empty signature algorithm OID"
  if fields.empty = false then
    let (_, fields) ← fields.take (← fields.next)
    fields.finish
  else
    fields.finish
  return signer

/-- One pass over the values of an attribute. -/
def valuePass (values : DerFields) : Except Exn (Pass DerFields Unit) := do
  if values.empty then
    return .leave ()
  else
    let (_, values) ← values.take (← values.next)
    return .again values

/-- One pass over the attributes of a signer. -/
def attributePass (attrs : DerFields) : Except Exn (Pass DerFields Unit) := do
  if attrs.empty then
    return .leave ()
  else
    let (view, attrs) ← attrs.take derSequenceTag
    let attr := DerFields.ofView view
    let (oid, attr) ← attr.take 0x06
    throwIf (oid.contentLen = 0) "empty attribute OID"
    let (set, attr) ← attr.take derSetTag
    let values := DerFields.ofView set
    throwIf (values.empty = true) "empty attribute values"
    loop valuePass (.fault .diverges) (values.remaining + 1) values
    attr.finish
    return .again attrs

/-- The `attributes` lambda: check the attributes field with the given tag. -/
def takeAttributes (signer : DerFields) (tag : UInt8) : Except Exn DerFields := do
  let (view, signer) ← signer.take tag
  let attrs := DerFields.ofView view
  throwIf (attrs.empty = true) "empty signer attributes"
  loop attributePass (.fault .diverges) (attrs.remaining + 1) attrs
  return signer

/-- `if (signer.next() == tag) attributes(tag);` -/
def takeOptionalAttributes (signer : DerFields) (tag : UInt8) : Except Exn DerFields := do
  if (← signer.next) = tag then takeAttributes signer tag else return signer

def checkSigner (signer : DerFields) : Except Exn Unit := do
  let (version, signer) ← signer.take 0x02
  requireVersion1 version "invalid Authenticode SignerInfo version"
  let (sidView, signer) ← signer.take derSequenceTag
  let sid := DerFields.ofView sidView
  let (issuer, sid) ← sid.take derSequenceTag
  throwIf (issuer.contentLen = 0) "empty signer issuer"
  let (serial, sid) ← sid.take 0x02
  throwIf (serial.contentLen = 0) "empty signer serial"
  sid.finish
  let signer ← takeAlgorithm signer
  let signer ← takeOptionalAttributes signer 0xa0
  let signer ← takeAlgorithm signer
  let (signature, signer) ← signer.take 0x04
  throwIf (signature.contentLen = 0) "empty CMS signature"
  let signer ← takeOptionalAttributes signer 0xa1
  signer.finish

/-- One pass over the signer infos; the flag is `found`. -/
def signerPass (state : DerFields × Bool) : Except Exn (Pass (DerFields × Bool) Bool) := do
  let (signers, found) := state
  if signers.empty then
    return .leave found
  else
    let (signer, signers) ← signers.take derSequenceTag
    checkSigner (DerFields.ofView signer)
    return .again (signers, true)

def cmsHasSigner (pkcs7 : Bytes) : Except Exn Bool := do
  let sd := DerFields.ofView (← signedData pkcs7)
  let (_, sd) ← skipSignedDataHeader sd
  let sd ← takeOptional sd 0xa0
  let sd ← takeOptional sd 0xa1
  let (set, sd) ← sd.take derSetTag
  sd.finish
  let signers := DerFields.ofView set
  loop signerPass (.fault .diverges) (signers.remaining + 1) (signers, false)

end AasSign
