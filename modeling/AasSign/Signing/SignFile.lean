import Mathlib.Data.List.Infix
import AasSign.Cms.Build
import AasSign.Msi.Rewrite
import AasSign.Signing.PeSignature

/-! # Signing a file

`sign_file` and `sign_staged` over the platform: everything happens on copies in
temporary directories, and the original is replaced at the end. The companion is
asked about files by their paths.
-/

namespace AasSign

open Foundation Program

structure SigningOptions where
  osslsigncode : Bytes
  timestampUrl : Bytes
  /-- Empty if the signature is not to be kept. -/
  dumpCms : Bytes
  caBundle : Bytes
  noTimestamp : Bool
  msiDse : Bool
  recursive : Bool
  insecure : Bool
  deriving DecidableEq, Repr

inductive Kind where
  | pe
  | msi
  | msix
  deriving DecidableEq, Repr

/-- The first octets of a compound file. -/
def compoundMagic : Bytes := [0xd0, 0xcf, 0x11, 0xe0, 0xa1, 0xb1, 0x1a, 0xe1]

/-- `identify`, from the contents and the extension of the file. -/
def identifyFile (path : Path) (file : Bytes) : Except Exn Kind := do
  let magic ← readAt path file 0 8
  let ext := extension path
  if magic = compoundMagic then
    throwIf (ext ≠ ascii ".msi") "compound file is not a supported .msi package"
    return .msi
  else
    throwIf (ext = ascii ".msi") "not an MSI compound file"
    if magic.take 2 = dosMagic then
      return .pe
    else if magic.take 4 = [80, 75, 3, 4] ∧ (ext = ascii ".msix" ∨ ext = ascii ".msixbundle" ∨
        ext = ascii ".appx" ∨ ext = ascii ".appxbundle") then
      return .msix
    else
      throw (.error "unsupported file format; expected PE, MSI, MSIX or MSIX bundle")

section Programs

variable (env : Env) (sha256 : Bytes → Digest)

def readBlob (path : Path) : Prog Bytes := do
  let file ← readFile env path
  lift (throwIf (maxCms < file.length) ("signature data exceeds 16 MiB: " ++ path.text))
  return file

def writeBlob (path : Path) (bytes : Bytes) : Prog Unit := writeFile env path bytes

def identify (path : Path) : Prog Kind := do
  let file ← readFile env path
  lift (identifyFile path file)

/-- `pe_has_signature` of a path. -/
def inspectPe (path : Path) : Prog Bool := do
  let file ← readFile env path
  lift (peHasSignature path file)

def invoke (options : SigningOptions) (args : List Arg) : Prog ProcessResult :=
  runProcess env options.osslsigncode args

/-- The command is the first argument. -/
def checked (options : SigningOptions) (command : String) (args : List Arg) : Prog Unit := do
  let result ← invoke env options (arg command :: args)
  lift (throwIf (result.exitCode ≠ 0) ("osslsigncode " ++ command ++ " failed (exit " ++
    toString result.exitCode ++ "):\n" ++ latin1 result.output))

/-- What the companion says when there is no signature. -/
def Kind.missing : Kind → Bytes
  | .pe => ascii "No signature found"
  | .msi => ascii "MSI file has no signature"
  | .msix => ascii "AppxSignature.p7x does not exist"

def extractExisting (path output : Path) (kind : Kind) (options : SigningOptions) :
    Prog Bool := do
  let result ← invoke env options
    [arg "extract-signature", arg "-in", .file path, arg "-out", .file output]
  if result.exitCode = 0 then
    let signature ← readBlob env output
    let signer ← lift (cmsHasSigner signature)
    lift (throwIf (signer = false) ("existing signature contains no signer: " ++ path.text))
    return true
  else
    lift (throwIf (¬ kind.missing <:+: result.output)
      ("cannot inspect existing signature: " ++ path.text ++ "\n" ++ latin1 result.output))
    return false

/-- `format_args`. -/
def formatArgs (enhanced : Bool) (args : List Arg) : List Arg :=
  [arg "-h", arg "sha256"] ++ (if enhanced then [arg "-add-msi-dse"] else []) ++ args

/-- The file without a signature that is to be signed. -/
def unsignedSource (path : Path) (kind : Kind) (options : SigningOptions) (work : Nat) :
    Prog Path := do
  let existing := Path.temp work (ascii "existing.der")
  let unsignedPath := Path.temp work (ascii "unsigned" ++ extension path)
  let signedInput ← extractExisting env path existing kind options
  if signedInput then
    checked env options "remove-signature"
      [arg "-in", .file path, arg "-out", .file unsignedPath]
    return unsignedPath
  else
    return path

/-- The indirect data that the companion extracts from a file. -/
def extractData (options : SigningOptions) (enhanced : Bool) (source extracted : Path) :
    Prog Bytes := do
  checked env options "extract-data"
    (formatArgs enhanced [arg "-in", .file source, arg "-out", .file extracted])
  let content ← readBlob env extracted
  lift (cmsExtractIndirectData content)

/-- The signature over the indirect data is attached to the source. -/
def attach (options : SigningOptions) (enhanced : Bool) (work : Nat) (ext : Bytes) (source : Path)
    (indirectData : Bytes) : Prog Path := do
  let digest ← lift (cmsAuthAttrsHash sha256 indirectData)
  log env (ascii "Signing via Azure...\n")
  let result ← signDigest env digest.1
  let cms ← lift (cmsBuildAuthenticode sha256 indirectData result.signature result.certChainDer)
  let signaturePath := Path.temp work (ascii "signature.der")
  writeBlob env signaturePath cms
  let output := Path.temp work (ascii "signed" ++ ext)
  checked env options "attach-signature" (formatArgs enhanced
    [arg "-sigin", .file signaturePath, arg "-in", .file source, arg "-out", .file output])
  return output

def timestamp (options : SigningOptions) (enhanced : Bool) (work : Nat) (ext : Bytes)
    (output : Path) : Prog Path :=
  if options.noTimestamp then
    return output
  else do
    log env (ascii "Requesting timestamp from " ++ options.timestampUrl ++ ascii " ...\n")
    let timestamped := Path.temp work (ascii "timestamped" ++ ext)
    checked env options "add" (formatArgs enhanced
      ([arg "-ts", .text options.timestampUrl, arg "-in", .file output, arg "-out",
          .file timestamped] ++
        (if options.insecure then [arg "-noverifypeer"] else []) ++
        (if options.caBundle ≠ [] then [arg "-HTTPS-CAfile", .text options.caBundle] else [])))
    return timestamped

/-- The final signature, extracted again and compared with what was signed. -/
def verify (options : SigningOptions) (enhanced : Bool) (work : Nat) (output : Path)
    (indirectData : Bytes) : Prog Bytes := do
  let finalCmsPath := Path.temp work (ascii "final.der")
  checked env options "extract-signature"
    [arg "-in", .file output, arg "-out", .file finalCmsPath]
  let finalCms ← readBlob env finalCmsPath
  let signer ← lift (cmsHasSigner finalCms)
  lift (throwIf (signer = false) "completed signature contains no signer")
  let found ← lift (cmsExtractIndirectData finalCms)
  lift (throwIf (found ≠ indirectData) "completed signature changed the indirect data")
  let rechecked := Path.temp work (ascii "rechecked.der")
  let again ← extractData env options enhanced output rechecked
  lift (throwIf (again ≠ indirectData) "completed file no longer matches its signature")
  return finalCms

def signIn (path : Path) (kind : Kind) (options : SigningOptions) (work : Nat) : Prog Unit := do
  let source ← unsignedSource env path kind options work
  let enhanced := decide (kind = .msi) && options.msiDse
  let extracted := Path.temp work (ascii "content.der")
  let indirectData ← extractData env options enhanced source extracted
  let signed ← attach env sha256 options enhanced work (extension path) source indirectData
  let output ← timestamp env options enhanced work (extension path) signed
  let finalCms ← verify env options enhanced work output indirectData
  if options.dumpCms ≠ [] then
    writeBlob env (.user options.dumpCms) finalCms
  atomicReplaceFile env output path

def signStaged (path : Path) (kind : Kind) (options : SigningOptions) : Prog Unit :=
  withTempDir env (signIn env sha256 path kind options)

/-- The callback that `sign_file` gives to `rewrite_msi_payload`. -/
def signIfUnsigned (options : SigningOptions) : Callback := fun payload displayName => do
  if ← inspectPe env payload then
    log env (ascii "Preserved signed payload: " ++ displayName ++ ascii "\n")
    return false
  else
    log env (ascii "Signing payload: " ++ displayName ++ ascii "\n")
    signStaged env sha256 payload .pe options
    return true

/-- A rewriting, from the files of the platform. -/
def runRewrite (lib : MsiLibrary) (staged : Path) (callback : Callback) :
    Prog MsiRewriteResult := fun w =>
  let (result, s) := rewriteMsiPayload env lib staged callback (.start w)
  (result, s.world)

def payloadOptions (options : SigningOptions) : SigningOptions :=
  { options with dumpCms := [], recursive := false }

def rewriteStaged (lib : MsiLibrary) (staged : Path) (options : SigningOptions) : Prog Unit := do
  let counts ← runRewrite env lib staged (signIfUnsigned env sha256 (payloadOptions options))
  log env (ascii "MSI payloads: " ++ ascii (toString counts.signedFiles) ++ ascii " signed, " ++
    ascii (toString counts.preservedFiles) ++ ascii " preserved\n")

def signCopy (lib : MsiLibrary) (path : Path) (kind : Kind) (options : SigningOptions)
    (work : Nat) : Prog Unit := do
  let staged := Path.temp work (ascii "input" ++ extension path)
  copyFile env path staged
  if kind = .msi ∧ options.recursive = true then
    rewriteStaged env sha256 lib staged options
  signStaged env sha256 staged kind options
  atomicReplaceFile env staged path
  log env (ascii "Signed " ++ path.name ++ ascii " successfully.\n")

def signFile (lib : MsiLibrary) (path : Path) (options : SigningOptions) : Prog Unit := do
  if options.dumpCms ≠ [] then
    let same ← sameFile env path (.user options.dumpCms)
    lift (throwIf (same = true) "--dump-cms must not refer to the input file")
  let kind ← identify env path
  -- A malformed certificate table is refused here.
  if kind = .pe then
    let _ ← inspectPe env path
  withTempDir env (signCopy env sha256 lib path kind options)

end Programs

end AasSign
