import AasSign.Cms.Decision
import AasSign.Msi.CabinetFormat

/-! # Signatures of PE images

`pe_has_signature` on the bytes of a file: the headers down to the security
directory, and the walk over the certificates that the directory points at.
-/

namespace AasSign

open Foundation

/-- `MAX_CMS`. -/
def maxCms : Nat := 16 * 1024 * 1024

/-- `p[i] | p[i + 1] << 8`. -/
def le16 (p : Bytes) (i : Nat) : Nat := (p.getD i 0).toNat ||| (p.getD (i + 1) 0).toNat <<< 8

def le32 (p : Bytes) (i : Nat) : Nat :=
  (p.getD i 0).toNat ||| (p.getD (i + 1) 0).toNat <<< 8 ||| (p.getD (i + 2) 0).toNat <<< 16 |||
    (p.getD (i + 3) 0).toNat <<< 24

/-- `(n + 7) & ~uint64_t(7)`. -/
def align8 (n : Nat) : Nat := (n + 7) &&& 0xfffffffffffffff8

/-- "MZ". -/
def dosMagic : Bytes := [77, 90]

/-- "PE" and two zeros. -/
def peMagic : Bytes := [80, 69, 0, 0]

section Inspect

variable (path : Path) (file : Bytes)

/-- Where the optional header starts counting its directories, by its format. -/
def directoriesAt (format : Nat) : Nat :=
  if format = 0x10b then 96 else if format = 0x20b then 112 else 0

structure PeHeader where
  /-- `e_lfanew`. -/
  pe : Nat
  optLen : Nat
  directories : Nat
  /-- `NumberOfRvaAndSizes`. -/
  count : Nat
  deriving DecidableEq, Repr

/-- The headers, as far as the count of the data directories. -/
def readPeHeader : Except Exn PeHeader := do
  let dos ← readAt path file 0 64
  throwIf (dos.take 2 ≠ dosMagic) ("not a PE image: " ++ path.text)
  let pe := le32 dos 60
  let header ← readAt path file pe 26
  throwIf (header.take 4 ≠ peMagic) ("invalid PE header: " ++ path.text)
  let optLen := le16 header 20
  let directories := directoriesAt (le16 header 24)
  throwIf (directories = 0 ∨ optLen < directories)
    ("invalid PE optional header: " ++ path.text)
  let count ← readAt path file (pe + 24 + directories - 4) 4
  return { pe, optLen, directories, count := le32 count 0 }

/-- The offset and the length in the security directory, if it is there. -/
def securityDirectory (header : PeHeader) : Except Exn (Option (Nat × Nat)) :=
  if header.count ≤ 4 then
    return none
  else do
    throwIf (header.optLen < header.directories + 40)
      ("truncated PE data directory: " ++ path.text)
    let entry ← readAt path file (header.pe + 24 + header.directories + 32) 8
    let offset := le32 entry 0
    let length := le32 entry 4
    if offset = 0 ∧ length = 0 then
      return none
    else
      throwIf (offset = 0 ∨ length = 0 ∨ offset % 8 ≠ 0 ∨
        offset < header.pe + 24 + header.optLen ∨ file.length < offset)
        ("invalid PE certificate table: " ++ path.text)
      let room ← usub file.length offset
      throwIf (room < length) ("invalid PE certificate table: " ++ path.text)
      return some (offset, length)

/-- One `WIN_CERTIFICATE`: its own length, checked, with the signature in it. -/
def inspectCertificate (offset length : Nat) : Except Exn Nat := do
  throwIf (length < 8) ("truncated WIN_CERTIFICATE: " ++ path.text)
  let cert ← readAt path file offset 8
  let n := le32 cert 0
  throwIf (n < 8 ∨ length < n ∨ maxCms < n ∨ le16 cert 4 ≠ 0x200 ∨ le16 cert 6 ≠ 2)
    ("malformed PE Authenticode signature: " ++ path.text)
  let size ← usub n 8
  let pkcs7 ← readAt path file (offset + 8) size
  let der ← derReadTlv (Ptr.data pkcs7) pkcs7.length
  throwIf (∃ c ∈ pkcs7.drop der.totalLen, c ≠ 0) ("invalid PE signature padding: " ++ path.text)
  let signer ← cmsHasSigner (pkcs7.take der.totalLen)
  throwIf (signer = false) ("PE signature contains no signer: " ++ path.text)
  return n

/-- What is left of the certificate table, and whether a signature was found. -/
structure CertificateWalk where
  offset : Nat
  length : Nat
  found : Bool
  deriving DecidableEq, Repr

def certificatePass (walk : CertificateWalk) : Except Exn (Pass CertificateWalk Bool) :=
  if walk.length = 0 then
    .ok (.leave walk.found)
  else do
    let n ← inspectCertificate path file walk.offset walk.length
    if walk.length < align8 n then
      throwIf (n ≠ walk.length) ("invalid certificate alignment: " ++ path.text)
      let length ← usub walk.length n
      return .again { offset := walk.offset + n, length, found := true }
    else
      let length ← usub walk.length (align8 n)
      return .again { offset := walk.offset + align8 n, length, found := true }

def peHasSignature : Except Exn Bool := do
  let header ← readPeHeader path file
  match ← securityDirectory path file header with
  | none => return false
  | some (offset, length) =>
      loop (certificatePass path file) (.fault .diverges) (length + 1)
        { offset, length, found := false }

end Inspect

end AasSign
