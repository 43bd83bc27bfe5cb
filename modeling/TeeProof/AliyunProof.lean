import TeeProof.Canonical
import TeeProof.Serde

/-! The proof generator of the vTPM helper. A string stands for its characters: what the helper
reads out of JSON is valid UTF-8. -/
namespace TeeProof.AliyunProof

/-- What `json.Unmarshal` builds in an `any`. The members of a map are listed once each. -/
inductive Any where
  | nil
  | bool (b : Bool)
  | float64 (bits : UInt64)
  | string (s : Str)
  | slice (items : List Any)
  | map (members : List (Str × Any))

/-- The standard library, as far as it is not written out here. -/
structure Go where
  sha256 : Bytes → Digest
  toLower : Str → Str
  toUpper : Str → Str
  /-- `strings.TrimSpace`. -/
  trimSpace : Str → Str
  /-- `base64.StdEncoding.DecodeString`. -/
  decodeBase64 : Str → Except Str Bytes
  /-- `json.Marshal` of a number. -/
  formatFloat : UInt64 → Str
  unmarshal : Str → Except Str Any
  /-- What `json.Marshal` makes of a `json.RawMessage`. -/
  compact : Str → Str

variable (go : Go)

def sha256Hex (b : Bytes) : Str := Str.hex (go.sha256 b).1

def base64Text (b : Bytes) : Str := (Base64.encode b).map fun c => Char.ofNat c.toNat

/-! The two JSON writers. -/

def hex4 (n : Nat) : Str :=
  ['\\', 'u', Str.hexDigit (n / 4096), Str.hexDigit (n / 256 % 16), Str.hexDigit (n / 16 % 16), Str.hexDigit (n % 16)]

/-- One character of a string, as the encoder of `encoding/json` writes it. -/
def escapeRune (escapeHtml : Bool) (c : Char) : Str :=
  if c = '"' ∨ c = '\\' then ['\\', c]
  else if c = '\x08' then ['\\', 'b']
  else if c = '\x0C' then ['\\', 'f']
  else if c = '\n' then ['\\', 'n']
  else if c = '\r' then ['\\', 'r']
  else if c = '\t' then ['\\', 't']
  else if c.toNat < 0x20 then hex4 c.toNat
  else if escapeHtml ∧ (c = '<' ∨ c = '>' ∨ c = '&') then hex4 c.toNat
  else if c.toNat = 0x2028 ∨ c.toNat = 0x2029 then hex4 c.toNat
  else [c]

def marshalString (s : Str) : Str := '"' :: s.flatMap (escapeRune true) ++ ['"']

/-- `quoteJSONString`, whose encoder leaves HTML alone. -/
def quoteJsonString (s : Str) : Str := '"' :: s.flatMap (escapeRune false) ++ ['"']

mutual

def canonicalJson : Any → Str
  | .nil => "null"
  | .bool true => "true"
  | .bool false => "false"
  | .float64 bits => go.formatFloat bits
  | .string s => marshalString s
  | .slice items => '[' :: Str.join [','] (canonicalItems items) ++ [']']
  | .map members =>
    '{' :: Str.join [','] (((canonicalMembers members).insertionSort fun p q => p.1 ≤ q.1).map
      fun p => marshalString p.1 ++ ':' :: p.2) ++ ['}']

def canonicalItems : List Any → List Str
  | [] => []
  | v :: rest => canonicalJson v :: canonicalItems rest

def canonicalMembers : List (Str × Any) → List (Str × Str)
  | [] => []
  | (k, v) :: rest => (k, canonicalJson v) :: canonicalMembers rest

end

/-! The signed statement. -/

def pathWithoutQuery (path : Str) : Str := path.takeWhile (· ≠ '?')

/-- No claims have the empty text as their digest. -/
def fieldClaimsSha256Hex (raw : Str) : Except Str Str :=
  if raw = [] then .ok []
  else
    match go.unmarshal raw with
    | .error e => .error ("field_claims JSON: ".toList ++ e)
    | .ok value => .ok (sha256Hex go (Utf8.encode (canonicalJson go value)))

structure StatementFacts where
  nonceB64 : Str
  upstreamHost : Str
  upstreamPath : Str
  httpMethod : Str
  httpStatus : Int
  responseContentType : Str
  requestBodySha256Hex : Str
  responseBodySha256Hex : Str
  fieldClaims : Str

def decimal (n : Int) : Str := if n < 0 then '-' :: Str.natDigits n.natAbs else Str.natDigits n.natAbs

def statementLines (f : StatementFacts) : List Str :=
  ["tee-exchange-v2".toList,
    "nonce=".toList ++ f.nonceB64,
    "upstream-host=".toList ++ go.toLower f.upstreamHost,
    "upstream-path=".toList ++ pathWithoutQuery f.upstreamPath,
    "http-method=".toList ++ go.toUpper f.httpMethod,
    "http-status=".toList ++ decimal f.httpStatus,
    "resp-content-type=".toList ++ f.responseContentType,
    "request-body-sha256=".toList ++ go.toLower f.requestBodySha256Hex,
    "response-body-sha256=".toList ++ go.toLower f.responseBodySha256Hex] ++
  match fieldClaimsSha256Hex go f.fieldClaims with
  | .ok (c :: digest) => ["field-claims-sha256=".toList ++ c :: digest]
  | _ => []

def buildV2Statement (f : StatementFacts) : Bytes :=
  Utf8.encode (Str.join ['\n'] (statementLines go f) ++ ['\n'])

/-! The challenge that the vTPM quotes. -/

structure ChallengeFacts where
  profile : Str
  nonceB64 : Str
  statementPublicKeySha256 : Str
  requestBodySha256Hex : Str
  responseBodySha256Hex : Str
  upstreamHost : Str
  upstreamPath : Str
  httpMethod : Str
  httpStatus : Int
  responseContentType : Str
  fieldClaims : Str

def jsonPair (key : String) (value : Str) (withLeadingComma : Bool) : Str :=
  (if withLeadingComma then [','] else []) ++ quoteJsonString key.toList ++ ':' :: quoteJsonString value

def challengePairs (f : ChallengeFacts) (claimsDigest : Option Str) : Str :=
  ((claimsDigest.map fun digest => jsonPair "field_claims_sha256" digest false).getD []) ++
  jsonPair "http_method" f.httpMethod claimsDigest.isSome ++
  ',' :: "\"http_status\":".toList ++ decimal f.httpStatus ++
  jsonPair "nonce" f.nonceB64 true ++
  jsonPair "profile" f.profile true ++
  jsonPair "request_body_sha256" f.requestBodySha256Hex true ++
  jsonPair "resp_content_type" f.responseContentType true ++
  jsonPair "response_body_sha256" f.responseBodySha256Hex true ++
  jsonPair "statement_public_key_sha256" f.statementPublicKeySha256 true ++
  jsonPair "upstream_host" f.upstreamHost true ++
  jsonPair "upstream_path" f.upstreamPath true

def buildAliyunVtpmChallengePayload (f : ChallengeFacts) : Except Str Bytes := do
  let claimsDigest ← if f.fieldClaims = [] then .ok none else some <$> fieldClaimsSha256Hex go f.fieldClaims
  .ok (Utf8.encode ('{' :: challengePairs f claimsDigest ++ ['}']))

structure ChallengeEnvelope where
  alg : Str
  payloadB64 : Str
  qualifyingDataHex : Str

def challengeEnvelopeForPayload (payload : Bytes) : ChallengeEnvelope where
  alg := "sha256"
  payloadB64 := base64Text payload
  qualifyingDataHex := sha256Hex go payload

/-! The generator. -/

structure GenerateHashedInput where
  nonceB64 : Str
  upstreamHost : Str
  upstreamPath : Str
  httpMethod : Str
  httpStatus : Int
  responseContentType : Str
  requestBodySha256Hex : Str
  responseBodySha256Hex : Str
  fieldClaims : Str

structure QuoteReport where
  quoted : Bytes
  signature : Bytes
  cert : Bytes
  pcrValues : Bytes
  pcrSelectionOut : Bytes
  pcrUpdateCounter : UInt32

structure AttesterMetadata where
  sdk : Str
  sdkCommit : Str
  quoteHandle : Str

/-- The key of the helper and its quotes. -/
structure GenerateOptions where
  /-- The public key as SubjectPublicKeyInfo. -/
  spki : Bytes
  sign : Bytes → Bytes
  getQuote : Bytes → Except Str (QuoteReport × AttesterMetadata)

structure EvidenceEnvelope where
  attester : AttesterMetadata
  quoteReport : QuoteReport
  challenge : ChallengeEnvelope

/-- `TeeProof`. -/
structure Proof where
  publicKey : Str
  nonce : Str
  upstreamHost : Str
  upstreamPath : Str
  httpMethod : Str
  httpStatus : Int
  respContentType : Str
  requestBodySha256 : Str
  responseBodySha256 : Str
  fieldClaims : Str
  signature : Str
  attestation : Str
  evidence : EvidenceEnvelope

/-- The text of a struct, from the names and texts of its fields. -/
def objectText (fields : List (String × Str)) : Str :=
  '{' :: Str.join [','] (fields.map fun p => marshalString p.1.toList ++ ':' :: p.2) ++ ['}']

def EvidenceEnvelope.text (e : EvidenceEnvelope) : Str :=
  let attester := objectText [("sdk", marshalString e.attester.sdk), ("sdk_commit", marshalString e.attester.sdkCommit),
    ("quote_handle", marshalString e.attester.quoteHandle)]
  let pcrInfo := objectText [("pcr_values_b64", marshalString (base64Text e.quoteReport.pcrValues)),
    ("pcr_selection_out_b64", marshalString (base64Text e.quoteReport.pcrSelectionOut)),
    ("pcr_update_counter", Str.natDigits e.quoteReport.pcrUpdateCounter.toNat)]
  let quoteReport := objectText [("quoted_b64", marshalString (base64Text e.quoteReport.quoted)),
    ("signature_b64", marshalString (base64Text e.quoteReport.signature)), ("pcr_info", pcrInfo),
    ("cert_b64", marshalString (base64Text e.quoteReport.cert))]
  let challenge := objectText [("alg", marshalString e.challenge.alg), ("payload_b64", marshalString e.challenge.payloadB64),
    ("qualifying_data_hex", marshalString e.challenge.qualifyingDataHex)]
  let revocation := objectText [("checked", "false"), ("method", "null")]
  let platform := objectText [("mode", marshalString "missing"), ("cert_chain_pem", "[]"), ("trust_anchor_id", "null"),
    ("revocation", revocation)]
  objectText [("profile", marshalString "aliyun-vtpm"), ("version", "1"), ("attester", attester),
    ("quote_report", quoteReport), ("challenge", challenge), ("platform_attestation", platform)]

/-- `json.Marshal` of the proof; claims that are missing are left out. -/
def Proof.text (p : Proof) : Str :=
  objectText ([("v", "2".toList), ("profile", marshalString "aliyun-vtpm".toList), ("alg", marshalString "ed25519".toList),
      ("public_key", marshalString p.publicKey), ("nonce", marshalString p.nonce),
      ("upstream_host", marshalString p.upstreamHost), ("upstream_path", marshalString p.upstreamPath),
      ("http_method", marshalString p.httpMethod), ("http_status", decimal p.httpStatus),
      ("resp_content_type", marshalString p.respContentType),
      ("request_body_sha256", marshalString p.requestBodySha256),
      ("response_body_sha256", marshalString p.responseBodySha256)] ++
    (if p.fieldClaims = [] then [] else [("field_claims", go.compact p.fieldClaims)]) ++
    [("signature", marshalString p.signature), ("attestation", marshalString p.attestation), ("evidence", p.evidence.text)])

/-- The source visits the fields in no fixed order; here the first blank one is named. -/
def validateRequiredFields (input : GenerateHashedInput) : Except Str Unit :=
  match [("nonce_b64", input.nonceB64), ("upstream_host", input.upstreamHost), ("upstream_path", input.upstreamPath),
      ("http_method", input.httpMethod), ("resp_content_type", input.responseContentType)].find?
        fun p => go.trimSpace p.2 = [] with
  | some (name, _) => .error (name.toList ++ " is required".toList)
  | none => .ok ()

def validateNoCrlf (values : List (String × Str)) : Except Str Unit :=
  match values.find? fun p => p.2.any fun c => c = '\r' || c = '\n' with
  | some (name, _) => .error (name.toList ++ " contains CR/LF".toList)
  | none => .ok ()

def isHexDigit (c : Char) : Bool := ('0' ≤ c && c ≤ '9') || ('a' ≤ c && c ≤ 'f') || ('A' ≤ c && c ≤ 'F')

def normalizeSha256Hex (value : Str) (label : String) : Except Str Str :=
  let normalized := go.toLower (go.trimSpace value)
  if (Utf8.encode normalized).length ≠ 64 then .error (label.toList ++ " must be 64 lowercase/uppercase hex characters".toList)
  else if !normalized.all isHexDigit then .error (label.toList ++ " must be hex: encoding/hex: invalid byte".toList)
  else .ok normalized

/-- What a run of the generator leaves: the proof, with the bytes that were signed and quoted. -/
structure Generated where
  proof : Proof
  statement : Bytes
  challengePayload : Bytes

def generateFromHashes (input : GenerateHashedInput) (opts : GenerateOptions) : Except Str Generated := do
  validateRequiredFields go input
  validateNoCrlf [("nonce", input.nonceB64), ("upstream_host", input.upstreamHost), ("upstream_path", input.upstreamPath),
    ("http_method", input.httpMethod), ("resp_content_type", input.responseContentType)]
  let _ ← (go.decodeBase64 input.nonceB64).mapError fun e => "nonce must be base64: ".toList ++ e
  let requestHash ← normalizeSha256Hex go input.requestBodySha256Hex "request_body_sha256"
  let responseHash ← normalizeSha256Hex go input.responseBodySha256Hex "response_body_sha256"
  let _ ← fieldClaimsSha256Hex go input.fieldClaims
  let challengePayload ← buildAliyunVtpmChallengePayload go
    { profile := "aliyun-vtpm", nonceB64 := input.nonceB64, statementPublicKeySha256 := sha256Hex go opts.spki,
      requestBodySha256Hex := requestHash, responseBodySha256Hex := responseHash, upstreamHost := input.upstreamHost,
      upstreamPath := input.upstreamPath, httpMethod := input.httpMethod, httpStatus := input.httpStatus,
      responseContentType := input.responseContentType, fieldClaims := input.fieldClaims }
  let challenge := challengeEnvelopeForPayload go challengePayload
  let (report, attester) ← (opts.getQuote (go.sha256 challengePayload).1).mapError fun e => "get vtpm quote: ".toList ++ e
  let evidence : EvidenceEnvelope := ⟨attester, report, challenge⟩
  let statement := buildV2Statement go
    { nonceB64 := input.nonceB64, upstreamHost := input.upstreamHost, upstreamPath := input.upstreamPath,
      httpMethod := input.httpMethod, httpStatus := input.httpStatus, responseContentType := input.responseContentType,
      requestBodySha256Hex := requestHash, responseBodySha256Hex := responseHash, fieldClaims := input.fieldClaims }
  .ok {
    proof := {
      publicKey := base64Text opts.spki
      nonce := input.nonceB64
      upstreamHost := input.upstreamHost
      upstreamPath := input.upstreamPath
      httpMethod := input.httpMethod
      httpStatus := input.httpStatus
      respContentType := input.responseContentType
      requestBodySha256 := requestHash
      responseBodySha256 := responseHash
      fieldClaims := input.fieldClaims
      signature := base64Text (opts.sign statement)
      attestation := base64Text (Utf8.encode evidence.text)
      evidence }
    statement
    challengePayload }

structure GenerateInput where
  nonceB64 : Str
  upstreamHost : Str
  upstreamPath : Str
  httpMethod : Str
  httpStatus : Int
  responseContentType : Str
  requestBody : Bytes
  responseBody : Bytes
  fieldClaims : Str

def GenerateInput.hashed (input : GenerateInput) : GenerateHashedInput where
  nonceB64 := input.nonceB64
  upstreamHost := input.upstreamHost
  upstreamPath := input.upstreamPath
  httpMethod := input.httpMethod
  httpStatus := input.httpStatus
  responseContentType := input.responseContentType
  requestBodySha256Hex := sha256Hex go input.requestBody
  responseBodySha256Hex := sha256Hex go input.responseBody
  fieldClaims := input.fieldClaims

def generate (input : GenerateInput) (opts : GenerateOptions) : Except Str Generated :=
  generateFromHashes go (input.hashed go) opts

end TeeProof.AliyunProof
