import TeeProof.Evidence

/-! The QingTian evidence verifier: its own CBOR decoder, the COSE_Sign1 envelope,
the certificate chain to the pinned roots and the checks. -/
namespace TeeProof.Verifier.QingTian

/-- A decoded value. Reading past the end gives `undefined`, and arithmetic on it the
number `NaN`, which is `num none`. -/
inductive CborValue where
  | undefined
  | num (n : Option Int)
  | text (s : JStr)
  | bytes (b : Bytes)
  | array (items : List CborValue)
  | map (entries : List (CborValue × CborValue))
  | tagged (tag : Option Nat) (value : CborValue)
  | bool (b : Bool)
  | null

instance : Inhabited CborValue := ⟨.undefined⟩

/-- An offset into the buffer; `none` is `NaN`. -/
abbrev Offset := Option Nat

/-- A read outside the buffer; the text is the host's error code. -/
def outOfRange : Throws α := .error "ERR_OUT_OF_RANGE"

def readUIntBE (buf : Bytes) (offset width : Nat) : Throws Nat :=
  if offset + width ≤ buf.length then .ok (beNat (slice buf offset width)) else outOfRange

/-- The length is `none` when the source reads `undefined`. -/
def readCborLength (buf : Bytes) (offset ai : Nat) : Throws (Option Nat × Nat) :=
  if ai < 24 then .ok (some ai, offset)
  else if ai = 24 then .ok ((buf[offset]?).map UInt8.toNat, offset + 1)
  else if ai = 25 then do
    let v ← readUIntBE buf offset 2
    .ok (some v, offset + 2)
  else if ai = 26 then do
    let v ← readUIntBE buf offset 4
    .ok (some v, offset + 4)
  else if ai = 27 then do
    let v ← readUIntBE buf offset 8
    if v > maxSafeInteger then .error "CBOR uint64 is not safe integer" else .ok (some v, offset + 8)
  else .error (JStr.lit "unsupported CBOR length ai=" ++ JStr.natDigits ai)

/-- `SameValueZero` on keys: values with identity are never equal to another one. -/
def sameKey : CborValue → CborValue → Bool
  | .undefined, .undefined => true
  | .num n, .num m => n = m
  | .text s, .text t => s = t
  | .bool a, .bool b => a = b
  | .null, .null => true
  | _, _ => false

def mapSet (key value : CborValue) : List (CborValue × CborValue) → List (CborValue × CborValue)
  | [] => [(key, value)]
  | (k, v) :: rest => if sameKey k key then (k, value) :: rest else (k, v) :: mapSet key value rest

def mapGet (entries : List (CborValue × CborValue)) (key : CborValue) : CborValue :=
  ((entries.find? fun p => sameKey p.1 key).map Prod.snd).getD .undefined

abbrev Decoder := Offset → Throws (CborValue × Offset)

def decodeItems (dec : Decoder) : Nat → List CborValue → Offset → Throws (CborValue × Offset)
  | 0, items, p => .ok (.array items, p)
  | n + 1, items, p => do
    let (v, p) ← dec p
    decodeItems dec n (items ++ [v]) p

def decodeEntries (dec : Decoder) : Nat → List (CborValue × CborValue) → Offset → Throws (CborValue × Offset)
  | 0, entries, p => .ok (.map entries, p)
  | n + 1, entries, p => do
    let (k, p) ← dec p
    let (v, p) ← dec p
    decodeEntries dec n (mapSet k v entries) p

/-- A byte or text string: with an `undefined` length the end is `NaN` and the slice
empty. -/
def decodeString (buf : Bytes) (len : Option Nat) (next : Nat) : Throws (Bytes × Offset) :=
  match len with
  | none => .ok ([], none)
  | some len =>
    if next + len > buf.length then .error "CBOR byte/text string exceeds input"
    else .ok (slice buf next len, some (next + len))

def decodeMajor (dec : Decoder) (buf : Bytes) (major : Nat) (len : Option Nat) (next : Nat) :
    Throws (CborValue × Offset) :=
  match major with
  | 0 => .ok (match len with | some n => .num (some n) | none => .undefined, some next)
  | 1 => .ok (.num (len.map fun n => -1 - (n : Int)), some next)
  | 2 => do
    let (b, p) ← decodeString buf len next
    .ok (.bytes b, p)
  | 3 => do
    let (b, p) ← decodeString buf len next
    .ok (.text (bufferText b), p)
  | 4 => decodeItems dec (len.getD 0) [] (some next)
  | 5 => decodeEntries dec (len.getD 0) [] (some next)
  | _ => do
    let (v, p) ← dec (some next)
    .ok (.tagged len v, p)

/-- `decodeCbor` with a bound on the nesting that no input reaches: every nested call
starts at a later offset. At the offset `NaN` the source reads `undefined`, whose
shifts are zero, and returns the number 0. -/
def decodeCbor (buf : Bytes) : (fuel : Nat) → Decoder
  | 0, _ => .error "unexpected end of CBOR"
  | _ + 1, none => .ok (.num (some 0), none)
  | fuel + 1, some offset =>
    if offset ≥ buf.length then .error "unexpected end of CBOR"
    else
      let major := byteAt buf offset / 32
      let ai := byteAt buf offset % 32
      if major = 7 then
        if ai = 20 then .ok (.bool false, some (offset + 1))
        else if ai = 21 then .ok (.bool true, some (offset + 1))
        else if ai = 22 then .ok (.null, some (offset + 1))
        else .error (JStr.lit "unsupported CBOR major=7 ai=" ++ JStr.natDigits ai)
      else do
        let (len, next) ← readCborLength buf (offset + 1) ai
        decodeMajor (decodeCbor buf fuel) buf major len next

def decode (buf : Bytes) : Throws (CborValue × Offset) := decodeCbor buf (buf.length + 1) (some 0)

mutual

/-- `String(value)`; an item of a joined array shows `null` and `undefined` as empty. -/
def showValue (joined : Bool) : CborValue → JStr
  | .undefined => if joined then [] else "undefined"
  | .num (some n) => intDigits n
  | .num none => "NaN"
  | .text s => s
  | .bytes b => bufferText b
  | .array items => showItems items
  | .map _ => "[object Map]"
  | .tagged _ _ => "[object Object]"
  | .bool true => "true"
  | .bool false => "false"
  | .null => if joined then [] else "null"

/-- `items.join(',')`. -/
def showItems : List CborValue → JStr
  | [] => []
  | v :: rest =>
    match rest with
    | [] => showValue true v
    | _ :: _ => showValue true v ++ 0x2C :: showItems rest

end

def valueText (v : CborValue) : JStr := showValue false v

/-- `writeUInt32BE` throws on a larger value. -/
def encodeCborHead (major value : Nat) : Throws Bytes :=
  if value < 24 then .ok [UInt8.ofNat (major * 32 + value)]
  else if value ≤ 0xFF then .ok [UInt8.ofNat (major * 32 + 24), UInt8.ofNat value]
  else if value ≤ 0xFFFF then .ok (UInt8.ofNat (major * 32 + 25) :: beBytes 2 value)
  else if value < 2 ^ 32 then .ok (UInt8.ofNat (major * 32 + 26) :: beBytes 4 value)
  else outOfRange

/-- The values `encodeCbor` takes. -/
inductive CborInput where
  | num (n : Int)
  | text (s : JStr)
  | bytes (b : Bytes)
  | array (items : List CborInput)

mutual

def encodeCbor : CborInput → Throws Bytes
  | .num n => if 0 ≤ n then encodeCborHead 0 n.toNat else encodeCborHead 1 (-1 - n).toNat
  | .text s => do
    let head ← encodeCborHead 3 s.utf8.length
    .ok (head ++ s.utf8)
  | .bytes b => do
    let head ← encodeCborHead 2 b.length
    .ok (head ++ b)
  | .array items => do
    let head ← encodeCborHead 4 items.length
    let body ← encodeItems items
    .ok (head ++ body)

def encodeItems : List CborInput → Throws Bytes
  | [] => .ok []
  | v :: rest => do
    let first ← encodeCbor v
    let body ← encodeItems rest
    .ok (first ++ body)

end

structure ParsedQingTianEvidence where
  protectedBytes : Bytes
  protectedHeader : List (CborValue × CborValue)
  payloadBytes : Bytes
  signature : Bytes
  moduleId : JStr
  timestamp : Option Int
  digest : JStr
  pcrs : List (CborValue × CborValue)
  certificate : Bytes
  cabundle : List Bytes
  userData : Bytes
  nonce : Bytes
  publicKey : Bytes

def unwrapCoseSign1 : CborValue → CborValue
  | .tagged (some 18) v => v
  | v => v

/-- One of the `required…` readers: a field of the wanted kind, or an error naming it. -/
def requiredField (read : CborValue → Option α) (kind : JStr) (payload : List (CborValue × CborValue))
    (key : String) : Throws α :=
  match read (mapGet payload (.text key)) with
  | some v => .ok v
  | none => .error (JStr.lit key ++ " must be " ++ kind)

def asText : CborValue → Option JStr
  | .text s => some s
  | _ => none

def asNumber : CborValue → Option (Option Int)
  | .num n => some n
  | _ => none

def asBytes : CborValue → Option Bytes
  | .bytes b => some b
  | _ => none

def asMap : CborValue → Option (List (CborValue × CborValue))
  | .map entries => some entries
  | _ => none

def asArray : CborValue → Option (List CborValue)
  | .array items => some items
  | _ => none

def requiredString := requiredField asText "string"
def requiredNumber := requiredField asNumber "number"
def requiredBytes := requiredField asBytes "bytes"
def requiredMap := requiredField asMap "map"
def requiredArray := requiredField asArray "array"

def expectMap (v : CborValue) (message : JStr) : Throws (List (CborValue × CborValue)) :=
  match asMap v with
  | some entries => .ok entries
  | none => .error message

def expectBytes (v : CborValue) (message : JStr) : Throws Bytes :=
  match asBytes v with
  | some b => .ok b
  | none => .error message

def bundleBytes : Nat → List CborValue → Throws (List Bytes)
  | _, [] => .ok []
  | i, c :: rest => do
    let b ← expectBytes c (JStr.lit "cabundle[" ++ JStr.natDigits i ++ "] must be bstr DER certificate")
    let tail ← bundleBytes (i + 1) rest
    .ok (b :: tail)

def maxAttestationBytes : Nat := 128 * 1024

def parsePayload (protectedBytes payloadBytes signature : Bytes)
    (protectedHeader payload : List (CborValue × CborValue)) : Throws ParsedQingTianEvidence := do
  let cabundle ← requiredArray payload "cabundle"
  let moduleId ← requiredString payload "module_id"
  let timestamp ← requiredNumber payload "timestamp"
  let digest ← requiredString payload "digest"
  let pcrs ← requiredMap payload "pcrs"
  let certificate ← requiredBytes payload "certificate"
  let cabundle ← bundleBytes 0 cabundle
  let userData ← requiredBytes payload "user_data"
  let nonce ← requiredBytes payload "nonce"
  let publicKey ← requiredBytes payload "public_key"
  .ok { protectedBytes, protectedHeader, payloadBytes, signature, moduleId, timestamp, digest, pcrs,
        certificate, cabundle, userData, nonce, publicKey }

def parseQingTianEvidence (attestation : Bytes) : Throws ParsedQingTianEvidence := do
  if attestation.length > maxAttestationBytes then
    .error (JStr.lit "attestation exceeds " ++ JStr.natDigits maxAttestationBytes ++ " bytes") else .ok ()
  let (value, offset) ← decode attestation
  if offset ≠ some attestation.length then .error "trailing bytes after COSE_Sign1" else .ok ()
  match unwrapCoseSign1 value with
  | .array [protectedValue, unprotected, payloadValue, signatureValue] => do
    let protectedBytes ← expectBytes protectedValue "COSE protected header must be bstr"
    match unprotected with
    | .map [] => .ok ()
    | _ => .error "COSE unprotected header must be empty map"
    let payloadBytes ← expectBytes payloadValue "COSE payload must be bstr"
    let signature ← expectBytes signatureValue "COSE signature must be bstr"
    if signature.length ≠ 96 then
      .error (JStr.lit "ES384 signature must be 96-byte raw r||s, got " ++ JStr.natDigits signature.length)
    else .ok ()
    let (protectedDecoded, _) ← decode protectedBytes
    let protectedHeader ← expectMap protectedDecoded "COSE protected header must decode to map"
    let (payloadDecoded, _) ← decode payloadBytes
    let payload ← expectMap payloadDecoded "QingTian payload must decode to map"
    parsePayload protectedBytes payloadBytes signature protectedHeader payload
  | _ => .error "QingTian attestation must be COSE_Sign1 array[4]"

def reverseEcdsaHalves (raw : Bytes) : Bytes :=
  (raw.take (raw.length / 2)).reverse ++ (raw.drop (raw.length / 2)).reverse

/-- `n >> 8`, of the low 32 bits as a signed number. A negative one ends the loop below as
zero does. -/
def shiftOctet (n : Nat) : Nat := if n % 2 ^ 32 < 2 ^ 31 then n % 2 ^ 32 / 256 else 0

/-- The length octets of a long form. -/
def lengthOctets : (fuel : Nat) → Nat → Bytes
  | 0, _ => []
  | fuel + 1, n => if n = 0 then [] else lengthOctets fuel (shiftOctet n) ++ [UInt8.ofNat n]

def derLength (len : Nat) : Bytes :=
  if len < 0x80 then [UInt8.ofNat len]
  else
    let bytes := lengthOctets len len
    UInt8.ofNat (0x80 + bytes.length) :: bytes

/-- Redundant leading zeros go, as long as the sign bit stays clear. -/
def dropZeros : Bytes → Bytes
  | a :: b :: rest => if a = 0 ∧ b.toNat < 0x80 then dropZeros (b :: rest) else a :: b :: rest
  | short => short

def derInteger (raw : Bytes) : Bytes :=
  let value := dropZeros raw
  let value := if (value.headD 0).toNat ≥ 0x80 then 0 :: value else value
  0x02 :: derLength value.length ++ value

def derSequence (items : List Bytes) : Bytes := 0x30 :: derLength items.flatten.length ++ items.flatten

def rawEcdsaToDer (raw : Bytes) : Bytes :=
  derSequence [derInteger (raw.take (raw.length / 2)), derInteger (raw.drop (raw.length / 2))]

variable (node : Node)

def verifyEs384 (data : Bytes) (cert : node.Cert) (signature : Bytes) : Throws Bool := do
  let key ← node.publicKey cert
  let plain ← node.verifyP1363 key data signature
  if plain then .ok true
  else if signature.length = 96 then do
    let qtsmSignature := reverseEcdsaHalves signature
    let reversed ← node.verifyP1363 key data qtsmSignature
    if reversed then .ok true
    else do
      let der ← node.verifySha384 key data (rawEcdsaToDer qtsmSignature)
      if der then .ok true else node.verifySha384 key data (rawEcdsaToDer signature)
  else .ok false

def isColon (u : UInt16) : Bool := u == 0x3A

def sha256HexUpper (b : Bytes) : JStr := node.toUpperCase (sha256Hex node b)
def normaliseHex (s : JStr) : JStr := node.toUpperCase (s.filter fun u => !isColon u)
def normaliseMeasurementHex (s : JStr) : JStr := node.toLowerCase (s.filter fun u => !isColon u && !isSpace u)

structure ChainVerdict where
  ok : Bool
  detail : JStr
  rootFingerprint : Option JStr := none

/-- The walk from the leaf by issuer name; an error is the name that has no issuer. -/
def walk : Nat → node.Cert → List node.Cert → List node.Cert → Except JStr (List node.Cert)
  | 0, _, _, chain => .ok chain
  | n + 1, current, remaining, chain =>
    if node.subject current = node.issuer current then .ok chain
    else
      match remaining.findIdx? fun candidate => node.issuer current = node.subject candidate with
      | none => .error (node.subject current)
      | some i =>
        match remaining[i]? with
        | none => .error (node.subject current)
        | some issuer => walk n issuer (remaining.eraseIdx i) (chain ++ [issuer])

/-- The first certificate whose issuer in the chain does not verify it. -/
def firstUnverified : List node.Cert → Throws (Option node.Cert)
  | cert :: issuer :: rest => do
    let key ← node.publicKey issuer
    if node.certVerify cert key then firstUnverified (issuer :: rest) else .ok (some cert)
  | _ => .ok none

/-- What follows once the chain has been collected. -/
def verifyChain (chain : List node.Cert) (root : node.Cert) (roots : List JStr)
    (intermediates : Option (List JStr)) (nowMs : ℚ) : Throws ChainVerdict := do
  let rootFingerprint := sha256HexUpper node (node.raw root)
  let fail (detail : JStr) : ChainVerdict := { ok := false, detail, rootFingerprint := some rootFingerprint }
  if !(roots.map (normaliseHex node)).contains rootFingerprint then
    .ok (fail (JStr.lit "root fingerprint not pinned: " ++ rootFingerprint))
  else do
    let selfSigned ←
      if node.subject root ≠ node.issuer root then .ok false
      else do
        let key ← node.publicKey root
        .ok (node.certVerify root key)
    if !selfSigned then .ok (fail "root certificate is not self-signed/self-verifiable")
    else do
      let unverified ← firstUnverified node chain
      match unverified with
      | some cert => .ok (fail (JStr.lit "certificate signature failed: " ++ node.subject cert))
      | none =>
        match chain.find? fun cert => !timeValid node nowMs cert with
        | some cert => .ok (fail (JStr.lit "certificate not valid at evidence time: " ++ node.subject cert))
        | none =>
          let present := (chain.drop 1).dropLast.map fun cert => sha256HexUpper node (node.raw cert)
          let pinned := (intermediates.getD []).map (normaliseHex node)
          match pinned.find? fun fp => !present.contains fp with
          | some (u :: fp) => .ok (fail (JStr.lit "pinned intermediate not present in chain: " ++ (u :: fp)))
          | _ =>
            .ok { ok := true
                  detail := JStr.lit "QingTian certificate chain verified to pinned root " ++
                    rootFingerprint.take 12 ++ "…"
                  rootFingerprint := some rootFingerprint }

def verifyCertificateChain (leaf : node.Cert) (cabundle : List node.Cert) (trust : EvidenceTrust) (nowMs : ℚ) :
    Throws ChainVerdict :=
  let unpinned : ChainVerdict :=
    { ok := false, detail := "QingTian trust config must pin platformTrust.rootFingerprintsSha256" }
  match trust.platformTrust with
  | none => .ok unpinned
  | some platform =>
    match platform.mode, platform.rootFingerprintsSha256 with
    | some .certChain, some (root :: roots) =>
      let revocation := platform.revocation.getD {}
      if revocation.required && !revocation.checkedExternally then
        .ok { ok := false
              detail := "QingTian revocation checking is required but not implemented by this verifier; set checkedExternally=true only after an external CRL/OCSP check" }
      else
        match walk node (cabundle.length + 1) leaf cabundle [leaf] with
        | .error subject => .ok { ok := false, detail := JStr.lit "issuer certificate not found for " ++ subject }
        | .ok chain =>
          verifyChain node chain (chain.getLastD leaf) (root :: roots) platform.intermediateFingerprintsSha256 nowMs
    | _, _ => .ok unpinned

def pcrHex (pcrs : List (CborValue × CborValue)) (index : Nat) : Throws JStr :=
  match mapGet pcrs (.num (some index)) with
  | .bytes b =>
    if b.length = 48 then .ok (JStr.hex b)
    else .error (JStr.lit "PCR" ++ JStr.natDigits index ++ " missing or not SHA384-sized")
  | _ => .error (JStr.lit "PCR" ++ JStr.natDigits index ++ " missing or not SHA384-sized")

def isAlgEs384 : CborValue → Bool
  | .num (some n) => n == -35
  | _ => false

def timestampOk : Option Int → Bool
  | some n => decide (0 < n) && decide (n ≤ maxSafeInteger)
  | none => false

def measurements (pcrs : List (CborValue × CborValue)) : JsVal :=
  pcrs.foldl (fun out p =>
    match p with
    | (.num n, .bytes b) => out.set (JStr.lit "sha384:" ++ valueText (.num n)) (.str (JStr.hex b))
    | _ => out) JsVal.empty

/-- `trust.expectedPcrN ?? trust.expectedPcrs?.['sha384:N']`, normalised. -/
def expectedPcr (direct : Option JStr) (trust : EvidenceTrust) (key : String) : Option JStr :=
  (direct.or (trust.expectedPcrs.bind fun pcrs => pcrs.lookup (JStr.lit key))).map (normaliseMeasurementHex node)

def pcrCheck (name : String) (good : JStr) (actual : JStr) (expected : Option JStr) : TeeCheck :=
  check (JStr.lit name ++ " 比对") (isNonempty expected && some actual == expected) good
    (JStr.lit name ++ " 不符或未配置: " ++ actual.take 12 ++ "… ≠ " ++ (shown "undefined" expected).take 12 ++ "…")

/-- The timestamp's check; writing the date may throw. -/
def timestampCheck (timestamp : Option Int) : Throws TeeCheck :=
  match timestamp with
  | some n =>
    if timestampOk timestamp then do
      let text ← node.toIsoString n
      .ok { name := "QingTian timestamp", ok := true, detail := JStr.lit "payload.timestamp = " ++ text }
    else
      .ok { name := "QingTian timestamp", ok := false,
            detail := JStr.lit "invalid payload.timestamp: " ++ intDigits n }
  | none => .ok { name := "QingTian timestamp", ok := false, detail := "invalid payload.timestamp: NaN" }

open Checking in
def evidenceChecks (evidence : ParsedQingTianEvidence) (proof : TeeProofWire) (trust : EvidenceTrust)
    (now : Option ℚ) : Checking (JStr × JStr × ChainVerdict) := do
  let alg := mapGet evidence.protectedHeader (.num (some 1))
  record (check "QingTian COSE alg" (isAlgEs384 alg) "protected.alg == ES384(-35)"
    (JStr.lit "unsupported COSE alg: " ++ valueText alg))
  let leaf ← ofThrows (node.parseCert evidence.certificate)
  let sigStructure ← ofThrows (encodeCbor (.array
    [.text "Signature1", .bytes evidence.protectedBytes, .bytes [], .bytes evidence.payloadBytes]))
  let sigOk ← ofThrows (verifyEs384 node sigStructure leaf evidence.signature)
  record (check "QingTian COSE 签名" sigOk "COSE_Sign1 signature verified by attested leaf certificate"
    "COSE_Sign1 signature verification failed")
  record (check "QingTian digest" (evidence.digest == JStr.lit "SHA384") "payload.digest == SHA384"
    (JStr.lit "unsupported payload.digest: " ++ evidence.digest))
  let time ← ofThrows (timestampCheck node evidence.timestamp)
  record time
  let evidenceTime : ℚ :=
    if timestampOk evidence.timestamp then (evidence.timestamp.getD 0 : Int) else now.getD node.dateNow
  let bundle ← ofThrows (evidence.cabundle.mapM node.parseCert)
  let chain ← ofThrows (verifyCertificateChain node leaf bundle trust evidenceTime)
  record { name := "QingTian 证书链", ok := chain.ok, detail := chain.detail }
  let pcr0 ← ofThrows (pcrHex evidence.pcrs 0)
  let pcr8 ← ofThrows (pcrHex evidence.pcrs 8)
  record (pcrCheck "PCR0" "PCR0 == QingTian trust allowlist" pcr0 (expectedPcr node trust.expectedPcr0 trust "sha384:0"))
  record (pcrCheck "PCR8" "PCR8 == QingTian signing certificate allowlist" pcr8
    (expectedPcr node trust.expectedPcr8 trust "sha384:8"))
  record (check "公钥绑定" (toBase64 evidence.publicKey == proof.publicKey)
    "签名公钥 == QingTian evidence 背书的 public_key" "签名公钥与 QingTian evidence public_key 不符")
  record (check "nonce 绑定" (toBase64 evidence.nonce == proof.nonce) "QingTian evidence nonce == proof 顶层 nonce"
    (JStr.lit "nonce 不符:proof=" ++ proof.nonce.take 10 ++ "… evidence=" ++ (toBase64 evidence.nonce).take 10 ++ "…"))
  pure (pcr0, pcr8, chain)

/-- `qingtianEvidenceVerifier.verifyEvidence`. -/
def verifyEvidence (proof : TeeProofWire) (trust : EvidenceTrust) (now : Option ℚ) : EvidenceVerdict :=
  match parseQingTianEvidence (node.fromBase64 proof.attestation) with
  | .error message =>
    { ok := false, profile := "qingtian",
      checks := [{ name := "QingTian evidence 格式", ok := false, detail := message }] }
  | .ok evidence =>
    let parsed : TeeCheck :=
      { name := "QingTian evidence 格式", ok := true, detail := "COSE_Sign1/QTSM payload 可解析" }
    match Checking.guarded "QingTian evidence 校验" (evidenceChecks node evidence proof trust now) [parsed] with
    | (none, checks) => { ok := false, profile := "qingtian", checks }
    | (some (pcr0, pcr8, chain), checks) =>
      let platformTrust : PlatformVerdict :=
        { ok := chain.ok, mode := .certChain, issuer := chain.rootFingerprint, detail := chain.detail }
      { ok := checks.all (·.ok), profile := "qingtian", checks,
        moduleId := some (.text evidence.moduleId), pcr0 := some pcr0, pcr8 := some pcr8,
        measurements := some (measurements evidence.pcrs),
        publicKey := some (toBase64 evidence.publicKey), nonce := some (toBase64 evidence.nonce),
        platformTrust := some platformTrust }

end TeeProof.Verifier.QingTian
