import AasSign.Der.Write
import AasSign.X509.CertId
import AasSign.X509.SplitCerts

/-! # Building an Authenticode CMS

`build_auth_attrs`, `assemble_cms` and their two callers in `cms.cpp`. SHA-256
comes from the platform and is a parameter.
-/

namespace AasSign

open Foundation

/-- `std::array<uint8_t, 32>`. -/
abbrev Digest := { octets : Bytes // octets.length = 32 }

/-! ## Well-known OIDs -/

def oidSignedData : Except Exn Bytes := derOid "1.2.840.113549.1.7.2"
def oidSpcIndirectData : Except Exn Bytes := derOid "1.3.6.1.4.1.311.2.1.4"
def oidSpcStatementType : Except Exn Bytes := derOid "1.3.6.1.4.1.311.2.1.11"
def oidSpcIndividual : Except Exn Bytes := derOid "1.3.6.1.4.1.311.2.1.21"
def oidSha256 : Except Exn Bytes := derOid "2.16.840.1.101.3.4.2.1"
def oidRsaEncryption : Except Exn Bytes := derOid "1.2.840.113549.1.1.1"
def oidContentType : Except Exn Bytes := derOid "1.2.840.113549.1.9.3"
def oidMessageDigest : Except Exn Bytes := derOid "1.2.840.113549.1.9.4"

/-- SHA-256 AlgorithmIdentifier: SEQUENCE { OID sha-256, NULL }. -/
def sha256AlgId : Except Exn Bytes := do
  let oid ← oidSha256
  return derSequence [oid, derNull]

section Build

variable (sha256 : Bytes → Digest)

/-- The authenticated attributes SET (tag 0x31). -/
def buildAuthAttrs (spcIndirectData : Bytes) : Except Exn Bytes := do
  let content ← derReadTlv (Ptr.data spcIndirectData) spcIndirectData.length
  throwIf (content.tag ≠ derSequenceTag ∨ content.totalLen ≠ spcIndirectData.length)
    "invalid SpcIndirectDataContent"
  let hashed ← content.content.copy content.contentLen
  let contentHash := sha256 hashed
  let ctOid ← oidContentType
  let ctValOid ← oidSpcIndirectData
  let attrContentType := derSequence [ctOid, derSet [ctValOid]]
  let mdOid ← oidMessageDigest
  let mdValOctets := derOctetString contentHash.val
  let attrMsgDigest := derSequence [mdOid, derSet [mdValOctets]]
  let stOid ← oidSpcStatementType
  let stIndOid ← oidSpcIndividual
  let stIndSeq := derSequence [stIndOid]
  let attrStatement := derSequence [stOid, derSet [stIndSeq]]
  return derSet [attrContentType, attrMsgDigest, attrStatement]

def signerInfo (certId : CertId) (authAttrsSet signature : Bytes) : Except Exn Bytes := do
  let siVersion ← derInteger 1
  let sid := derSequence [certId.issuerRaw, certId.serialRaw]
  let siDigestAlg ← sha256AlgId
  let siAuthAttrs ← derImplicit 0 true authAttrsSet
  let rsaOid ← oidRsaEncryption
  let siSigAlg := derSequence [rsaOid, derNull]
  let siSignature := derOctetString signature
  return derSequence [siVersion, sid, siDigestAlg, siAuthAttrs, siSigAlg, siSignature]

def assembleSignedData (spcIdc : Bytes) (certs : List Bytes) (signerInfo : Bytes) :
    Except Exn Bytes := do
  let sdVersion ← derInteger 1
  let sdDigestAlg ← sha256AlgId
  let sdDigestAlgs := derSet [sdDigestAlg]
  let eciOid ← oidSpcIndirectData
  let eciContent := derExplicit 0 spcIdc
  let encapContent := derSequence [eciOid, eciContent]
  let certsWrapped := derWrap 0xa0 certs.flatten
  let signerInfos := derSet [signerInfo]
  return derSequence [sdVersion, sdDigestAlgs, encapContent, certsWrapped, signerInfos]

def assembleCms (spcIdc signature certsDer : Bytes) : Except Exn Bytes := do
  let certs ← x509SplitCerts certsDer
  match certs with
  | [] => throw (.error "no certificates in chain")
  | signing :: _ =>
      let certId ← x509CertId signing
      let authAttrsSet ← buildAuthAttrs sha256 spcIdc
      let si ← signerInfo certId authAttrsSet signature
      let signedData ← assembleSignedData spcIdc certs si
      let ciOid ← oidSignedData
      return derSequence [ciOid, derExplicit 0 signedData]

def cmsAuthAttrsHash (indirectData : Bytes) : Except Exn Digest := do
  let attrs ← buildAuthAttrs sha256 indirectData
  return sha256 attrs

def cmsBuildAuthenticode (indirectData signature certsDer : Bytes) : Except Exn Bytes :=
  assembleCms sha256 indirectData signature certsDer

end Build

/-! ## The identifiers, encoded -/

def spcIndirectDataContent : Bytes := [0x2b, 0x06, 0x01, 0x04, 0x01, 0x82, 0x37, 0x02, 0x01, 0x04]
def spcStatementTypeContent : Bytes := [0x2b, 0x06, 0x01, 0x04, 0x01, 0x82, 0x37, 0x02, 0x01, 0x0b]
def spcIndividualContent : Bytes := [0x2b, 0x06, 0x01, 0x04, 0x01, 0x82, 0x37, 0x02, 0x01, 0x15]
def sha256Content : Bytes := [0x60, 0x86, 0x48, 0x01, 0x65, 0x03, 0x04, 0x02, 0x01]
def rsaEncryptionContent : Bytes := [0x2a, 0x86, 0x48, 0x86, 0xf7, 0x0d, 0x01, 0x01, 0x01]
def contentTypeContent : Bytes := [0x2a, 0x86, 0x48, 0x86, 0xf7, 0x0d, 0x01, 0x09, 0x03]
def messageDigestContent : Bytes := [0x2a, 0x86, 0x48, 0x86, 0xf7, 0x0d, 0x01, 0x09, 0x04]

@[simp] theorem oidSignedData_eq : oidSignedData = .ok (derWrap 0x06 oidSignedDataContent) := by
  decide

@[simp] theorem oidSpcIndirectData_eq :
    oidSpcIndirectData = .ok (derWrap 0x06 spcIndirectDataContent) := by decide

@[simp] theorem oidSpcStatementType_eq :
    oidSpcStatementType = .ok (derWrap 0x06 spcStatementTypeContent) := by decide

@[simp] theorem oidSpcIndividual_eq :
    oidSpcIndividual = .ok (derWrap 0x06 spcIndividualContent) := by decide

@[simp] theorem oidSha256_eq : oidSha256 = .ok (derWrap 0x06 sha256Content) := by decide

@[simp] theorem oidRsaEncryption_eq :
    oidRsaEncryption = .ok (derWrap 0x06 rsaEncryptionContent) := by decide

@[simp] theorem oidContentType_eq :
    oidContentType = .ok (derWrap 0x06 contentTypeContent) := by decide

@[simp] theorem oidMessageDigest_eq :
    oidMessageDigest = .ok (derWrap 0x06 messageDigestContent) := by decide

@[simp] theorem derInteger_one : derInteger 1 = .ok (derWrap 0x02 [1]) := by decide

end AasSign
