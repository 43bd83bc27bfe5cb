import TeeProof.Evidence

/-! The Alibaba Cloud vTPM evidence verifier: the challenge rebuilt from the proof, the
TPM quote and its signature, the PCR values and allowlist, and the platform chain. -/
namespace TeeProof.Verifier.AliyunVtpm

open JsVal

variable (node : Node)

def maxFieldBytes : Nat := 256 * 1024
def tpmGeneratedValue : Nat := 0xFF544347
def tpmStAttestQuote : Nat := 0x8018
def tpmAlgSha256 : Nat := 0x000B
def tpmAlgRsassa : Nat := 0x0014
def tpmAlgRsapss : Nat := 0x0016
def requiredAliyunPcrs : List JStr := [JStr.lit "sha256:8", JStr.lit "sha256:9", JStr.lit "sha256:11"]

def isBase64Unit (u : UInt16) : Bool :=
  let n := u.toNat
  (65 ≤ n && n ≤ 90) || (97 ≤ n && n ≤ 122) || (48 ≤ n && n ≤ 57) || n == 43 || n == 47

/-- `/^[A-Za-z0-9+/]+={0,2}$/` and a length divisible by four. -/
def isBase64Text (value : JStr) : Bool :=
  let body := value.takeWhile isBase64Unit
  let rest := value.dropWhile isBase64Unit
  !body.isEmpty && rest.length ≤ 2 && rest.all (· == 0x3D) && value.length % 4 == 0

def decodeBase64 (value : JStr) (label : String) : Throws Bytes :=
  if value = [] then .error (JStr.lit label ++ " must be non-empty base64")
  else
    let b := node.fromBase64 value
    if b.length = 0 ∨ b.length > maxFieldBytes then .error (JStr.lit label ++ " too large or empty")
    else if !isBase64Text value then .error (JStr.lit label ++ " is not valid base64")
    else .ok b

def required (value : JsVal) (label : String) : Throws JStr :=
  match value with
  | .str (u :: text) => .ok (u :: text)
  | _ => .error (JStr.lit label ++ " is required")

/-- `decodeBase64(required(value, label), label)`. -/
def requiredBase64 (value : JsVal) (label : String) : Throws Bytes := do
  let text ← required value label
  decodeBase64 node text label

/-- `value.replace(/^0x/i, '').toLowerCase()`. -/
def normaliseHex (value : JStr) : JStr :=
  node.toLowerCase (match value with
    | 0x30 :: 0x78 :: rest => rest
    | 0x30 :: 0x58 :: rest => rest
    | other => other)

/-- `jcsCanonicalize` of the flat object of the challenge: its keys sorted. -/
def jcsCanonicalize (fields : List (String × JsVal)) : JStr :=
  let sorted := (fields.map fun p => (JStr.lit p.1, p.2)).insertionSort fun p q => JStr.le p.1 q.1
  0x7B :: commaJoin (sorted.map fun p => quote p.1 ++ 0x3A :: stringify node p.2) ++ [0x7D]

def buildAliyunVtpmChallengePayload (proof : TeeProofWire) : Throws JStr := do
  let publicKey ← decodeBase64 node proof.publicKey "public_key"
  .ok (jcsCanonicalize node
    ([("http_method", .str proof.httpMethod), ("http_status", .num proof.httpStatus), ("nonce", .str proof.nonce),
      ("profile", lit "aliyun-vtpm"), ("request_body_sha256", .str proof.requestBodySha256),
      ("resp_content_type", .str proof.respContentType),
      ("response_body_sha256", .str proof.responseBodySha256),
      ("statement_public_key_sha256", .str (sha256Hex node publicKey)),
      ("upstream_host", .str proof.upstreamHost), ("upstream_path", .str proof.upstreamPath)] ++
    if isTruthy proof.fieldClaims then
      [("field_claims_sha256", .str (fieldClaimsSha256Hex node proof.fieldClaims))] else []))

def isOne : JsVal → Bool
  | .num n => n = 1
  | _ => false

def validateEvidenceProfile (evidence : JsVal) : Throws Unit := do
  let profile := evidence.get "profile"
  if isTruthy profile && !isText "aliyun-vtpm" profile then do
    let text ← toText node profile
    .error (JStr.lit "unexpected evidence profile: " ++ text)
  else .ok ()
  let version := evidence.get "version"
  if !isUndefined version && !isOne version then do
    let text ← toText node version
    .error (JStr.lit "unsupported aliyun-vtpm evidence version: " ++ text)
  else .ok ()

def parseEvidence (proof : TeeProofWire) : Throws JsVal :=
  if proof.evidence.isObject then do
    validateEvidenceProfile node proof.evidence
    .ok proof.evidence
  else do
    let raw ← decodeBase64 node proof.attestation "attestation"
    let parsed ← node.parseJson (bufferText raw)
    if parsed.isObject then do
      validateEvidenceProfile node parsed
      .ok parsed
    else .error "aliyun-vtpm evidence must be an object"

/-- `value?.field` where a missing or non-object value gives `undefined`. Reading a
field of `null` would throw only without the `?.` of the source. -/
def field (value : JsVal) (key : String) : JsVal := value.get key

/-! The TPM structures. A reader is the buffer that is left. -/

abbrev Reader := StateT Bytes Throws

def bytes (n : Nat) : Reader Bytes := fun buf =>
  if n > buf.length then .error "unexpected EOF while parsing TPM structure" else .ok (buf.take n, buf.drop n)

def uint (width : Nat) : Reader Nat := do
  let b ← bytes width
  pure (beNat b)

def u8 : Reader Nat := uint 1
def u16 : Reader Nat := uint 2
def u32 : Reader Nat := uint 4

def tpm2b : Reader Bytes := do
  let len ← u16
  bytes len

def done : Reader Unit := fun buf =>
  if buf.length ≠ 0 then .error (JStr.lit "trailing bytes: " ++ JStr.natDigits buf.length) else .ok ((), buf)

def throwing (message : JStr) : Reader α := fun _ => .error message

/-- `reader` over a whole buffer. -/
def runReader (r : Reader α) (buf : Bytes) : Throws α := do
  let (a, _) ← r buf
  .ok a

structure PcrSelection where
  hashAlg : Nat
  pcrs : List Nat
  deriving DecidableEq

structure ParsedQuote where
  extraData : Bytes
  selections : List PcrSelection
  pcrDigest : Bytes

def pcrsFromSelect (select : Bytes) : List Nat :=
  select.zipIdx.flatMap fun p =>
    (List.range 8).filterMap fun bit => if p.1.toNat.testBit bit then some (p.2 * 8 + bit) else none

def repeatReader (r : Reader α) : Nat → Reader (List α)
  | 0 => pure []
  | n + 1 => do
    let a ← r
    let rest ← repeatReader r n
    pure (a :: rest)

def readPcrSelection : Reader PcrSelection := do
  let hashAlg ← u16
  let sizeOfSelect ← u8
  if sizeOfSelect < 1 ∨ sizeOfSelect > 8 then throwing "invalid PCR select size"
  else do
    let select ← bytes sizeOfSelect
    pure { hashAlg, pcrs := pcrsFromSelect select }

def readPcrSelections : Reader (List PcrSelection) := do
  let selectionCount ← u32
  if selectionCount < 1 ∨ selectionCount > 8 then throwing "invalid PCR selection count"
  else repeatReader readPcrSelection selectionCount

def hexNumber (n : Nat) : JStr := JStr.ofChars (Nat.toDigits 16 n)

def parseTpmsAttestQuote : Bytes → Throws ParsedQuote := runReader do
  let magic ← u32
  if magic ≠ tpmGeneratedValue then throwing (JStr.lit "unexpected TPM magic: 0x" ++ hexNumber magic)
  else do
    let type ← u16
    if type ≠ tpmStAttestQuote then throwing (JStr.lit "unexpected attestation type: 0x" ++ hexNumber type)
    else do
      let _qualifiedSigner ← tpm2b
      let extraData ← tpm2b
      let _clockInfo ← bytes 17
      let _firmwareVersion ← bytes 8
      let selections ← readPcrSelections
      let pcrDigest ← tpm2b
      done
      pure { extraData, selections, pcrDigest }

def parseTpmlPcrSelection : Bytes → Throws (List PcrSelection) := runReader do
  let selections ← readPcrSelections
  done
  pure selections

def parseTpmlDigest : Bytes → Throws (List Bytes) := runReader do
  let count ← u32
  if count < 1 ∨ count > 32 then throwing "invalid PCRValues digest count"
  else do
    let digests ← repeatReader tpm2b count
    done
    pure digests

/-- A `TPM2B_ATTEST` loses its size field. -/
def normalizeQuotedAttest (buf : Bytes) : Bytes :=
  if buf.length ≥ 4 ∧ beNat (buf.take 4) = tpmGeneratedValue then buf
  else if buf.length ≥ 6 ∧ beNat (buf.take 2) = buf.length - 2 ∧ beNat (slice buf 2 4) = tpmGeneratedValue then
    buf.drop 2
  else buf

def verifyTpmRsaSignature (publicKey : node.Key) (quoteMsg signatureBlob : Bytes) : Throws Bool := do
  let (sigAlg, sig) ← runReader (do
    let sigAlg ← u16
    let hashAlg ← u16
    if hashAlg ≠ tpmAlgSha256 then
      throwing (JStr.lit "unsupported TPM signature hash algorithm: 0x" ++ hexNumber hashAlg)
    else do
      let sig ← tpm2b
      done
      pure (sigAlg, sig)) signatureBlob
  if sigAlg = tpmAlgRsassa then node.verifySha256 publicKey quoteMsg sig
  else if sigAlg = tpmAlgRsapss then node.verifyPss publicKey quoteMsg sig
  else .error (JStr.lit "unsupported TPM signature algorithm: 0x" ++ hexNumber sigAlg)

structure CertInfo where
  publicKey : node.Key
  cert : Option node.Cert

def parseQuoteReportCert (certDer : Bytes) (allowSynthetic : Bool) : Throws (CertInfo node) :=
  let parsed : Throws (CertInfo node) := do
    let cert ← node.parseCert certDer
    let publicKey ← node.publicKey cert
    .ok { publicKey, cert := some cert }
  match parsed with
  | .ok info => .ok info
  | .error _ =>
    if !allowSynthetic then .error "quote_report.cert_b64 must be a DER X.509 certificate"
    else do
      let publicKey ← node.createPublicKey certDer
      .ok { publicKey, cert := none }

structure PcrInfo where
  ok : Bool
  detail : JStr
  values : JsVal
  selections : List PcrSelection

def pcrKey (pcr : Nat) : JStr := JStr.lit "sha256:" ++ JStr.natDigits pcr

def parsePcrValues (evidence : JsVal) : Throws PcrInfo := do
  let info := field (field evidence "quote_report") "pcr_info"
  let valuesRaw ← requiredBase64 node (field info "pcr_values_b64") "quote_report.pcr_info.pcr_values_b64"
  let selectionRaw ←
    requiredBase64 node (field info "pcr_selection_out_b64") "quote_report.pcr_info.pcr_selection_out_b64"
  let selections ← parseTpmlPcrSelection selectionRaw
  let digests ← parseTpmlDigest valuesRaw
  let pcrs := selections.flatMap fun s => if s.hashAlg = tpmAlgSha256 then s.pcrs else []
  if digests.length ≠ pcrs.length then
    .error (JStr.lit "PCRValues digest count " ++ JStr.natDigits digests.length ++
      " does not match PCRSelectionOut count " ++ JStr.natDigits pcrs.length)
  else
    let values := (pcrs.zip digests).foldl (fun out p => out.set (pcrKey p.1) (.str (JStr.hex p.2))) empty
    .ok { ok := true
          detail := JStr.lit "PCRInfo parsed (" ++ joinWith ", " (values.entries.map Prod.fst) ++ ")"
          values, selections }

def parsePcrInfo (evidence : JsVal) : PcrInfo :=
  match parsePcrValues node evidence with
  | .ok info => info
  | .error message => { ok := false, detail := message, values := empty, selections := [] }

/-- `selectionSummary`, compared as values instead of as their JSON text. -/
def selectionSummary (selections : List PcrSelection) : List PcrSelection :=
  (selections.map fun s => { s with pcrs := s.pcrs.insertionSort (· ≤ ·) }).insertionSort
    fun x y => x.hashAlg ≤ y.hashAlg

def sameSelections (a b : List PcrSelection) : Bool := selectionSummary a = selectionSummary b

/-- `Buffer.from(value, 'hex')` of a text that `toString('hex')` wrote. -/
def ofHex : JStr → Bytes
  | a :: b :: rest => UInt8.ofNat (unit a * 16 + unit b) :: ofHex rest
  | _ => []
where
  unit (u : UInt16) : Nat := if u.toNat < 58 then u.toNat - 48 else u.toNat - 87

/-- The values of the selected PCRs in order, or the first one that is missing. -/
def collectPcrs (values : JsVal) : List Nat → Except Nat Bytes
  | [] => .ok []
  | pcr :: rest =>
    match values.get (pcrKey pcr) with
    | .str (u :: text) => do
      let tail ← collectPcrs values rest
      .ok (ofHex (u :: text) ++ tail)
    | _ => .error pcr

def verifyQuotedPcrDigest (quote : ParsedQuote) (values : JsVal) : Bool × JStr :=
  match quote.selections.find? fun s => s.hashAlg = tpmAlgSha256 with
  | none => (false, "quote 未包含 sha256 PCR selection")
  | some selection =>
    match collectPcrs values selection.pcrs with
    | .error pcr => (false, JStr.lit "缺少 quote selection 中的 " ++ pcrKey pcr ++ " PCR 值")
    | .ok bytes =>
      let calculated := (node.sha256 bytes).1
      if calculated = quote.pcrDigest then (true, "quote 内 PCR digest == PCRInfo.PCRValues 重算值")
      else (false, JStr.lit "PCR digest 不符: calc=" ++ (JStr.hex calculated).take 12 ++ "… quote=" ++
        (JStr.hex quote.pcrDigest).take 12 ++ "…")

def isDigit (u : UInt16) : Bool := 48 ≤ u.toNat && u.toNat ≤ 57

/-- `/^(?:sha256:)?(\d+)$/` on the lowercased key. -/
def normalisePcrKey (key : JStr) : JStr :=
  let key := node.toLowerCase key
  let digits := if key.startsWith "sha256:" then key.drop 7 else key
  if !digits.isEmpty && digits.all isDigit then
    JStr.lit "sha256:" ++
      numberToString node (.finite (digits.foldl (fun acc u => acc * 10 + (u.toNat - 48)) 0 : Nat))
  else key

def normaliseExpectedPcrs (values : List (JStr × JStr)) : JsVal :=
  (enumerate values).foldl (fun out p => out.set (normalisePcrKey node p.1) (.str (normaliseHex node p.2))) empty

def allowlistCheck (expected : JsVal) : TeeCheck :=
  let missing := requiredAliyunPcrs.filter fun key => !isTruthy (expected.get key)
  check "PCR allowlist" missing.isEmpty "required PCR allowlist contains sha256:8, sha256:9, sha256:11"
    (JStr.lit "missing required PCR allowlist entries: " ++ joinWith ", " missing)

def pcrMatchCheck (values : JsVal) (key : JStr) (expected : JStr) : TeeCheck :=
  let actual := match values.get key with | .str s => some s | _ => none
  check (key ++ " 比对") (isNonempty actual && actual == some expected) (key ++ " == allowlist")
    (key ++ " 不符: " ++ (shown "undefined" actual).take 12 ++ "… ≠ " ++ expected.take 12 ++ "…")

/-! Platform trust. -/

def beginMark : JStr := "-----BEGIN CERTIFICATE-----"
def endMark : JStr := "-----END CERTIFICATE-----"

/-- The shortest text from a start of `s` that ends in `mark`, none if there is none. -/
def upTo (mark : JStr) : JStr → Option JStr
  | [] => if mark = [] then some [] else none
  | u :: rest => if mark.isPrefixOf (u :: rest) then some mark else (upTo mark rest).map (u :: ·)

/-- The first match of a begin mark, the shortest text, and an end mark. -/
def firstPem : JStr → Option JStr
  | [] => none
  | u :: rest =>
    if beginMark.isPrefixOf (u :: rest) then
      match upTo endMark ((u :: rest).drop beginMark.length) with
      | some body => some (beginMark ++ body)
      | none => firstPem rest
    else firstPem rest

def extractCertificatePem (input : JStr) : JStr := (firstPem input).getD input

def parseCertificates : Nat → List JStr → Throws (List node.Cert)
  | _, [] => .ok []
  | i, pem :: rest =>
    match node.parsePem (extractCertificatePem pem) with
    | .error message => .error (JStr.lit "certificate[" ++ JStr.natDigits i ++ "]: " ++ message)
    | .ok cert => do
      let tail ← parseCertificates (i + 1) rest
      .ok (cert :: tail)

def fingerprint (cert : node.Cert) : JStr :=
  node.toLowerCase ((node.fingerprint256 cert).filter fun u => u ≠ 0x3A)

def issuedAndVerified (child issuer : node.Cert) : Throws Bool :=
  if !node.checkIssued child issuer then .ok false
  else do
    let key ← node.publicKey issuer
    .ok (node.certVerify child key)

def subjectComponent (subject key : JStr) : Option JStr :=
  (subject.splitOn 0x0A).findSome? fun line =>
    let name := line.takeWhile (· ≠ 0x3D)
    if name = [] ∨ name.length = line.length then none
    else if trim name = key then some (trim (line.drop (name.length + 1))) else none

structure PlatformResult where
  check : TeeCheck
  platformTrust : PlatformVerdict

def invalid (detail : JStr) : PlatformResult :=
  ⟨{ name := "平台证明链", ok := false, detail }, { ok := false, mode := .certChain, detail }⟩

def defaultCnPattern : JStr := "^i-[A-Za-z0-9][A-Za-z0-9-]*-enclave-[0-9]+$"

/-- The last step of the search: the leaf's name under a root and an intermediate
that both passed. -/
def acceptChain (platform : PlatformTrust) (leaf root intermediate : node.Cert) : Throws PlatformResult := do
  let cn := subjectComponent (node.subject leaf) "CN"
  let named ← match cn with
    | some (u :: name) => node.regExpTest (platform.enclaveSubjectCnPattern.getD defaultCnPattern) (u :: name)
    | _ => .ok false
  if !named then
    .ok (invalid (JStr.lit "QuoteReport.Cert subject CN does not match Alibaba Enclave EK pattern: " ++
      cn.getD (JStr.lit "<missing>")))
  else
    let detail := JStr.lit "QuoteReport.Cert chains to Aliyun TPM root; EK CN=" ++ cn.getD [] ++ "; root=" ++
      (fingerprint node root).take 12 ++ "... intermediate=" ++ (fingerprint node intermediate).take 12 ++ "..."
    .ok ⟨{ name := "平台证明链", ok := true, detail },
      { ok := true, mode := .certChain, issuer := some (node.issuer leaf), detail }⟩

def pinned (pins : List JStr) (fp : JStr) : Bool := pins.isEmpty || pins.contains fp

def searchIntermediates (platform : PlatformTrust) (at_ : ℚ) (leaf root : node.Cert) :
    List node.Cert → Throws (Option PlatformResult)
  | [] => .ok none
  | intermediate :: rest => do
    let pins := (platform.intermediateFingerprintsSha256.getD []).map (normaliseHex node)
    if !timeValid node at_ intermediate then searchIntermediates platform at_ leaf root rest
    else do
      let issued ← issuedAndVerified node intermediate root
      if !issued || !pinned pins (fingerprint node intermediate) then
        searchIntermediates platform at_ leaf root rest
      else do
        let issued ← issuedAndVerified node leaf intermediate
        if !issued then searchIntermediates platform at_ leaf root rest
        else do
          let result ← acceptChain node platform leaf root intermediate
          .ok (some result)

def searchRoots (platform : PlatformTrust) (at_ : ℚ) (leaf : node.Cert) (intermediates : List node.Cert) :
    List node.Cert → Throws PlatformResult
  | [] => .ok (invalid
      "QuoteReport.Cert does not chain to configured Alibaba Cloud TPM root/intermediate certificates")
  | root :: rest => do
    let pins := (platform.rootFingerprintsSha256.getD []).map (normaliseHex node)
    if !timeValid node at_ root then searchRoots platform at_ leaf intermediates rest
    else do
      let key ← node.publicKey root
      if !node.certVerify root key then searchRoots platform at_ leaf intermediates rest
      else if !pinned pins (fingerprint node root) then searchRoots platform at_ leaf intermediates rest
      else do
        let found ← searchIntermediates node platform at_ leaf root intermediates
        match found with
        | some result => .ok result
        | none => searchRoots platform at_ leaf intermediates rest

def parseTrustCertificates (platform : PlatformTrust) : Throws (List node.Cert × List node.Cert) := do
  let roots ← parseCertificates node 0 (platform.rootCertificatesPem.getD [])
  let intermediates ← parseCertificates node 0 (platform.intermediateCertificatesPem.getD [])
  .ok (roots, intermediates)

/-- `now ? new Date(now) : new Date()`: zero is no time here, and a date is whole. -/
def timeOf (now : Option ℚ) : Int :=
  match now with
  | some t => if t = 0 then node.dateNow else t.num.tdiv t.den
  | none => node.dateNow

def evaluateCertChainTrust (trust : EvidenceTrust) (certInfo : Option (CertInfo node)) (now : Option ℚ) :
    Throws PlatformResult :=
  match certInfo.bind CertInfo.cert with
  | none => .ok (invalid "QuoteReport.Cert is not a parseable X.509 certificate; fail closed")
  | some leaf =>
    let platform := trust.platformTrust.getD {}
    let revocation := platform.revocation.getD {}
    if revocation.required && !revocation.checkedExternally then
      .ok (invalid "CRL revocation checking is required but not implemented by this TypeScript verifier; provide checkedExternally=true only after an external CRL check")
    else
      match parseTrustCertificates node platform with
      | .error message => .ok (invalid (JStr.lit "trust certificate parse failed: " ++ message))
      | .ok (roots, intermediates) =>
        if roots.isEmpty then .ok (invalid "platformTrust.rootCertificatesPem is required for cert-chain mode")
        else if intermediates.isEmpty then
          .ok (invalid "platformTrust.intermediateCertificatesPem is required for cert-chain mode")
        else if !timeValid node (timeOf node now) leaf then do
          let text ← node.toIsoString (timeOf node now)
          .ok (invalid (JStr.lit "QuoteReport.Cert is not valid at " ++ text))
        else searchRoots node platform (timeOf node now) leaf intermediates roots

/-- The configured mode wins; without one the evidence names it. -/
def isCertChainMode (evidence : JsVal) (trust : EvidenceTrust) : Bool :=
  match trust.platformTrust.bind PlatformTrust.mode with
  | some mode => mode = .certChain
  | none => isText "cert-chain" (field (field evidence "platform_attestation") "mode")

def evaluatePlatformTrust (evidence : JsVal) (trust : EvidenceTrust) (certInfo : Option (CertInfo node))
    (now : Option ℚ) : Throws PlatformResult :=
  if isCertChainMode evidence trust then evaluateCertChainTrust node trust certInfo now
  else
    let ok := !trust.requirePlatformTrust
    let detail : JStr :=
      if ok then "QuoteReport.Cert root/intermediate chain 未配置；实验模式仅验证 quote/challenge/PCR"
      else "QuoteReport.Cert root/intermediate chain 未配置；生产模式失败"
    .ok ⟨{ name := "平台证明链", ok, detail }, { ok := false, mode := .missing, detail }⟩

/-! The checks, one `try` of the source at a time. -/

open Checking in
def challengeChecks (evidence : JsVal) (rebuilt : Bytes) : Checking Unit := do
  let challenge := field evidence "challenge"
  let alg := field challenge "alg"
  let shownAlg ← ofThrows (toText node alg)
  record (check "challenge alg" (isText "sha256" alg) "challenge.alg == sha256"
    (JStr.lit "unsupported challenge.alg: " ++ shownAlg))
  let payload ← ofThrows (requiredBase64 node (field challenge "payload_b64") "challenge.payload_b64")
  record (check "challenge payload" (payload == rebuilt)
    "payload_b64 == verifier 重建的 RFC8785/JCS canonical payload" "payload_b64 与 verifier 重建 payload 不一致")
  let claimed ← ofThrows (required (field challenge "qualifying_data_hex") "challenge.qualifying_data_hex")
  record (check "qualifying data" (normaliseHex node claimed == sha256Hex node rebuilt)
    "qualifying_data_hex == sha256(challenge_payload)" "qualifying_data_hex 与 sha256(challenge_payload) 不一致")

structure QuoteReport where
  quote : Bytes
  signature : Option Bytes
  certInfo : Option (CertInfo node)

/-- The assignments made before a throw stay visible after the `try`. -/
def readQuoteReport (evidence : JsVal) (trust : EvidenceTrust) : Option (QuoteReport node) × TeeCheck :=
  let report := field evidence "quote_report"
  let fail (message : JStr) : TeeCheck := { name := "QuoteReport 字段", ok := false, detail := message }
  match requiredBase64 node (field report "quoted_b64") "quote_report.quoted_b64" with
  | .error message => (none, fail message)
  | .ok quoteRaw =>
    let quote := normalizeQuotedAttest quoteRaw
    match requiredBase64 node (field report "signature_b64") "quote_report.signature_b64" with
    | .error message => (some ⟨quote, none, none⟩, fail message)
    | .ok signature =>
      let parsed : Throws (CertInfo node) := do
        let certDer ← requiredBase64 node (field report "cert_b64") "quote_report.cert_b64"
        parseQuoteReportCert node certDer trust.allowSyntheticQuoteReportCertForTest
      match parsed with
      | .error message => (some ⟨quote, some signature, none⟩, fail message)
      | .ok info =>
        let stripped : JStr :=
          if quoteRaw.length = quote.length then "" else "；quoted 为 TPM2B_ATTEST，已剥离 size 前缀"
        (some ⟨quote, some signature, some info⟩,
          { name := "QuoteReport 字段", ok := true
            detail := (if info.cert.isSome then JStr.lit "quoted/signature/Cert DER 已解码，Cert 可解析为 X.509"
              else JStr.lit "quoted/signature 已解码；测试 fixture 使用 SPKI public key 代替 X.509 Cert") ++ stripped })

def quoteSignatureCheck (report : QuoteReport node) : List TeeCheck :=
  match report.signature, report.certInfo with
  | some signature, some info =>
    match verifyTpmRsaSignature node info.publicKey report.quote signature with
    | .ok signatureOk =>
      [check "quote 签名" signatureOk "QuoteReport.Cert public key 验证 quote signature 通过"
        "QuoteReport.Cert public key 验证 quote signature 失败"]
    | .error message => [{ name := "quote 签名", ok := false, detail := message }]
  | _, _ => []

def structureCheck (quote : Bytes) : Option ParsedQuote × TeeCheck :=
  match parseTpmsAttestQuote quote with
  | .ok parsed => (some parsed, { name := "quote 结构", ok := true, detail := "TPMS_ATTEST quote 结构可解析" })
  | .error message => (none, { name := "quote 结构", ok := false, detail := message })

/-- The checks on the quote and the PCR values. -/
def quoteChecks (evidence : JsVal) (report : Option (QuoteReport node)) (qualifyingData : Bytes) :
    List TeeCheck :=
  let parsed := report.map fun r => structureCheck r.quote
  let quote := parsed.bind Prod.fst
  let info := parsePcrInfo node evidence
  let digest := match quote with
    | some q => verifyQuotedPcrDigest node q info.values
    | none => (false, JStr.lit "quote 未解析，无法核对 PCR digest")
  (parsed.map Prod.snd).toList ++
  ((report.map (quoteSignatureCheck node)).getD []) ++
  (match quote with
    | some q => [check "quote challenge" (q.extraData == qualifyingData)
        "quote extraData == sha256(challenge_payload)" "quote extraData 与 sha256(challenge_payload) 不一致"]
    | none => []) ++
  [{ name := "PCRInfo", ok := info.ok, detail := info.detail }] ++
  (match quote with
    | some q =>
      if info.ok then
        [check "PCR selection" (sameSelections q.selections info.selections)
          "Quote PCR selection == PCRInfo.PCRSelectionOut" "Quote PCR selection 与 PCRInfo.PCRSelectionOut 不一致"]
      else []
    | none => []) ++
  [{ name := "PCR digest", ok := digest.1, detail := digest.2 }]

def allowlistChecks (values : JsVal) (trust : EvidenceTrust) : List TeeCheck :=
  let expected := normaliseExpectedPcrs node (trust.expectedPcrs.getD [])
  allowlistCheck expected ::
    expected.entries.map fun p => pcrMatchCheck values p.1 (stringOr [] p.2)

/-- `aliyunVtpmEvidenceVerifier.verifyEvidence`; the payload is rebuilt outside any
`try`, so a bad public key ends the whole verification. -/
def verifyEvidence (proof : TeeProofWire) (trust : EvidenceTrust) (now : Option ℚ) : Throws EvidenceVerdict :=
  match parseEvidence node proof with
  | .error message =>
    .ok { ok := false, profile := "aliyun-vtpm"
          checks := [{ name := "Evidence 格式", ok := false, detail := message }] }
  | .ok evidence => do
    let payload ← buildAliyunVtpmChallengePayload node proof
    let rebuilt := payload.utf8
    let parsed : TeeCheck :=
      { name := "Evidence 格式", ok := true, detail := "aliyun-vtpm QuoteReport evidence envelope 可解析" }
    let challenge := (Checking.guarded "challenge payload" (challengeChecks node evidence rebuilt) [parsed]).2
    let report := readQuoteReport node evidence trust
    let values := (parsePcrInfo node evidence).values
    let platform ← evaluatePlatformTrust node evidence trust (report.1.bind (·.certInfo)) now
    let checks := challenge ++ [report.2] ++ quoteChecks node evidence report.1 (node.sha256 rebuilt).1 ++
      allowlistChecks node values trust ++ [platform.check]
    .ok { ok := checks.all (·.ok), profile := "aliyun-vtpm", checks
          measurements := some values, publicKey := some proof.publicKey, nonce := some proof.nonce
          platformTrust := some platform.platformTrust }

end TeeProof.Verifier.AliyunVtpm
