import TeeProof.Evidence

/-! The Nitro attestation document: a COSE_Sign1 signature under a certificate chain
to the pinned AWS root, and the evidence checks made on it. -/
namespace TeeProof.Verifier

variable (node : Node)

def awsNitroRootFp : JStr :=
  "64:1A:03:21:A3:E2:44:EF:E4:56:46:31:95:D6:06:31:7E:D7:CD:CC:3C:17:56:E0:98:93:F3:C6:8F:79:BB:5B"

def requireDocBytes (value : Option Cbor) (label : JStr) : Throws Bytes :=
  match value with
  | some (.bytes b) => .ok b
  | _ => .error (JStr.lit "invalid attestation document: " ++ label ++ " must be bytes")

def requireDocObject (value : Option Cbor) (label : JStr) : Throws (List (JStr × Cbor)) :=
  match value with
  | some (.map entries) => .ok entries
  | _ => .error (JStr.lit "invalid attestation document: " ++ label ++ " must be a map")

def bytesOf : Cbor → Option Bytes
  | .bytes b => some b
  | _ => none

def requireDocByteArray (value : Option Cbor) (label : JStr) : Throws (List Bytes) :=
  let bad := .error (JStr.lit "invalid attestation document: " ++ label ++ " must be byte strings")
  match value with
  | some (.array items) =>
    match items.mapM bytesOf with
    | some list => .ok list
    | none => bad
  | _ => bad

/-- `enc.text` of a text shorter than 24 octets. -/
def encText (s : JStr) : Bytes := UInt8.ofNat (0x60 + s.utf8.length) :: s.utf8

/-- `enc.bstr`. -/
def encBstr (b : Bytes) : Bytes :=
  if b.length < 24 then UInt8.ofNat (0x40 + b.length) :: b
  else if b.length < 256 then 0x58 :: UInt8.ofNat b.length :: b
  else if b.length < 65536 then 0x59 :: beBytes 2 b.length ++ b
  else 0x5A :: beBytes 4 b.length ++ b

/-- The `Sig_structure` the document's signature covers. -/
def sigStructure (protectedRaw payloadRaw : Bytes) : Bytes :=
  0x84 :: encText "Signature1" ++ encBstr protectedRaw ++ encBstr [] ++ encBstr payloadRaw

/-- Every certificate is verified by the one before it; the first failure stops. -/
def chainVerified : List node.Cert → Throws Bool
  | issuer :: cert :: rest => do
    let key ← node.publicKey issuer
    if node.certVerify cert key then chainVerified (cert :: rest) else .ok false
  | _ => .ok true

structure AttestationVerdict where
  sigOk : Bool
  chainOk : Bool
  rootSelf : Bool
  rootPinned : Bool
  timeValid : Bool
  leafNotAfter : JStr
  moduleId : Option Cbor
  pcr0 : JStr
  publicKey : Option JStr
  nonce : Option JStr
  rootFingerprint : JStr

/-- The parts of a document, read before anything is verified. -/
structure AttestationDoc where
  protectedRaw : Bytes
  payloadRaw : Bytes
  signature : Bytes
  certificate : Bytes
  cabundle : List Bytes
  pcr0 : Bytes
  moduleId : Option Cbor
  publicKey : Option Bytes
  nonce : Option Bytes

def parseAttestationDoc (buf : Bytes) : Throws AttestationDoc := do
  if buf.length = 0 ∨ buf.length > maxAttestationBytes then .error "attestation too large or empty" else .ok ()
  let cose ← decodeComplete buf
  match cose with
  | .array [protectedRaw, _, payloadRaw, sig] => do
    let protectedRaw ← requireDocBytes (some protectedRaw) "protected header"
    let payloadRaw ← requireDocBytes (some payloadRaw) "payload"
    let signature ← requireDocBytes (some sig) "signature"
    let payload ← decodeComplete payloadRaw
    let doc ← requireDocObject (some payload) "payload"
    let certificate ← requireDocBytes (doc.lookup (JStr.lit "certificate")) "certificate"
    let cabundle ← requireDocByteArray (doc.lookup (JStr.lit "cabundle")) "cabundle"
    let pcrs ← requireDocObject (doc.lookup (JStr.lit "pcrs")) "pcrs"
    let pcr0 ← requireDocBytes (pcrs.lookup (JStr.lit "0")) "pcrs[0]"
    .ok { protectedRaw, payloadRaw, signature, certificate, cabundle, pcr0,
          moduleId := doc.lookup (JStr.lit "module_id"),
          publicKey := (doc.lookup (JStr.lit "public_key")).bind bytesOf,
          nonce := (doc.lookup (JStr.lit "nonce")).bind bytesOf }
  | _ => .error "invalid COSE_Sign1 envelope"

/-- `root` is the first certificate of the bundle, or the leaf when it is empty. -/
def chainRoot (leaf : node.Cert) : List node.Cert → node.Cert
  | [] => leaf
  | root :: _ => root

def verifyAttestationDoc (buf : Bytes) (now : Option ℚ) : Throws AttestationVerdict := do
  let doc ← parseAttestationDoc buf
  let leaf ← node.parseCert doc.certificate
  let leafKey ← node.publicKey leaf
  let sigOk ← node.verifyP1363 leafKey (sigStructure doc.protectedRaw doc.payloadRaw) doc.signature
  let bundle ← doc.cabundle.mapM node.parseCert
  let chain := bundle ++ [leaf]
  let chainOk ← chainVerified node chain
  let root := chainRoot node leaf bundle
  let rootKey ← node.publicKey root
  .ok { sigOk, chainOk,
        rootSelf := node.certVerify root rootKey,
        rootPinned := node.fingerprint256 root == awsNitroRootFp,
        timeValid := chain.all (timeValid node (now.getD node.dateNow)),
        leafNotAfter := node.validTo leaf,
        moduleId := doc.moduleId,
        pcr0 := JStr.hex doc.pcr0,
        publicKey := doc.publicKey.map toBase64,
        nonce := doc.nonce.map toBase64,
        rootFingerprint := node.fingerprint256 root }

def AttestationVerdict.chainAll (att : AttestationVerdict) : Bool :=
  att.sigOk && att.chainOk && att.rootSelf && att.rootPinned

def nitroChecks (att : AttestationVerdict) (expectedPcr0 : Option JStr) (proof : TeeProofWire) : List TeeCheck :=
  [check "远程证明" att.chainAll
      (JStr.lit "COSE/P-384 链到 AWS 根(指纹 " ++ att.rootFingerprint.take 11 ++ "…)") "attestation 链校验失败",
    check "证书有效期" att.timeValid
      (JStr.lit "链上证书均在有效期内(叶 notAfter " ++ att.leafNotAfter ++ ")")
      (JStr.lit "证书过期/未生效(叶 notAfter " ++ att.leafNotAfter ++ ")——无法确认新鲜"),
    check "PCR0 比对" (isNonempty expectedPcr0 && some att.pcr0 == expectedPcr0)
      "PCR0 == 审计值(跑的是审计镜像)"
      (JStr.lit "PCR0 不符: " ++ att.pcr0.take 12 ++ "… ≠ " ++ (shown "undefined" expectedPcr0).take 12 ++ "…"),
    check "公钥绑定" (isNonempty att.publicKey && att.publicKey == some proof.publicKey)
      "签名公钥 == attestation 背书的公钥" "签名公钥与 attestation 不符(换了把没被认证的钥匙)",
    check "nonce 绑定" (att.nonce == some proof.nonce)
      "att 内嵌 nonce == proof 顶层 nonce(均被签名覆盖)"
      (JStr.lit "nonce 不符:proof=" ++ proof.nonce.take 10 ++ "… att=" ++ (shown "null" att.nonce).take 10 ++
        "…(拼接/伪造)")]

/-- `nitroEvidenceVerifier.verifyEvidence`. -/
def nitroVerifyEvidence (proof : TeeProofWire) (trust : EvidenceTrust) (now : Option ℚ) : EvidenceVerdict :=
  match verifyAttestationDoc node (node.fromBase64 proof.attestation) now with
  | .error message =>
    { ok := false, profile := "nitro",
      checks := [{ name := "远程证明", ok := false, detail := JStr.lit "attestation 解析/验证异常:" ++ message }] }
  | .ok att =>
    let checks := nitroChecks att trust.expectedPcr0 proof
    let platformTrust : PlatformVerdict :=
      { ok := att.chainAll, mode := .offlineChain,
        detail := if att.chainAll then "AWS Nitro PKI root pinned" else "AWS Nitro attestation chain failed" }
    { ok := checks.all (·.ok), profile := "nitro", checks, moduleId := att.moduleId, pcr0 := some att.pcr0,
      publicKey := att.publicKey, nonce := att.nonce, platformTrust := some platformTrust }

end TeeProof.Verifier
