import TeeProof.Exchange
import TeeProof.ProofEvent
import TeeProof.Soundness
import TeeProof.Trailer

/-! An honest exchange: the verifier is given the trailer that the enclave wrote and the bodies it
was written for, and trusts its key and its evidence. -/
namespace TeeProof

open Verifier (readWire TeeProofWire TeeVerifyInput EvidenceVerdict verifyTeeExchange)

/-! The envelope check -/

/-- Every text of a proof is within the limit. -/
def Verifier.Sized (proof : JsVal) : Prop :=
  ∀ field ∈ Verifier.requiredProofStringFields, ∀ s, proof.get (JStr.lit field) = .str s →
    s.utf8.length ≤ Verifier.maxProofStringBytes

theorem stringFieldErrors_text {proof : JsVal} {field : String} {s : JStr} (text : proof.get (JStr.lit field) = .str s) :
    Verifier.stringFieldErrors proof field = [] ↔ s.utf8.length ≤ Verifier.maxProofStringBytes := by
  rw [Verifier.stringFieldErrors, text]
  dsimp only
  split
  next long => simp [long]
  next short => simp only [true_iff]; omega

/-- A proof of the right version and algorithm is checked field by field. -/
theorem verifyWireEnvelope_fields (node : Node) {proof : JsVal} (record : proof.isRecord = true)
    (version : Verifier.isTwo (proof.get (JStr.lit "v")) = true)
    (algorithm : Verifier.isText "ed25519" (proof.get (JStr.lit "alg")) = true) :
    ∃ c, Verifier.verifyWireEnvelope node proof = .ok c ∧ (c.ok = true ↔ Verifier.fieldErrors proof = []) := by
  have errors : Verifier.wireErrors node proof = .ok (Verifier.fieldErrors proof) := by
    rw [Verifier.wireErrors, version, algorithm]
    rfl
  rw [Verifier.verifyWireEnvelope, record, errors]
  simp only [Bool.not_true, Bool.false_eq_true, if_false, bind, Except.bind]
  cases found : Verifier.fieldErrors proof with
  | nil => exact ⟨_, rfl, by simp⟩
  | cons e rest => exact ⟨_, rfl, by simp⟩

section Trailer

open Enclave

variable (double : Number → JsNumber) (backend : LocalEvidenceBackend) (x : TrailerInput) (normHost normPath : Str) (signature : Bytes) (evidence : Evidence)

/-- The required texts of a trailer are texts. -/
theorem received_attested_text {field : String} (required : field ∈ Verifier.requiredProofStringFields) :
    ∃ s : Str, (received double (attestedPayload backend x normHost normPath signature evidence)).get (JStr.lit field) =
      .str (JStr.ofChars s) := by
  have text {key : String} {s : Str} (safe : key.toList ≠ protoName) (always : key ∉ optionalNames)
      (found : (attestedFields backend x normHost normPath signature evidence).lookup key = some (.string s)) :
      ∃ s : Str, (received double (attestedPayload backend x normHost normPath signature evidence)).get (JStr.lit key) =
        .str (JStr.ofChars s) :=
    ⟨s, (received_attested_get backend x normHost normPath signature evidence safe always found).trans rfl⟩
  simp only [Verifier.requiredProofStringFields, List.mem_cons, List.not_mem_nil, or_false] at required
  rcases required with rfl | rfl | rfl | rfl | rfl | rfl | rfl | rfl | rfl | rfl <;> exact text (by decide) (by decide) rfl

theorem received_profile : Verifier.isUndefined
      ((received double (attestedPayload backend x normHost normPath signature evidence)).get (JStr.lit "profile")) = true ∨
    Verifier.isString
      ((received double (attestedPayload backend x normHost normPath signature evidence)).get (JStr.lit "profile")) = true := by
  have names : (attestedFields backend x normHost normPath signature evidence).map Prod.fst = attestedNames := rfl
  have absent : (attestedFields backend x normHost normPath signature evidence).lookup "profile" = none := by
    rw [Assoc.lookup_eq_none, names]
    decide
  dsimp only [attestedPayload]
  rw [received_get double _ "profile" (by decide)]
  simp only [find_insertSome, if_true, show "profile" ≠ "measurements" by decide, show "profile" ≠ "pcr8" by decide,
    show "profile" ≠ "pcr0" by decide, show "profile" ≠ "field_claims" by decide, if_false]
  rw [find_jsonMap _ (by rw [names]; decide), absent, Option.or_none]
  split
  · exact .inr rfl
  · exact .inl rfl

theorem received_evidence :
    (received double (attestedPayload backend x normHost normPath signature evidence)).get (JStr.lit "evidence") =
      .undefined := by
  have names : (attestedFields backend x normHost normPath signature evidence).map Prod.fst = attestedNames := rfl
  have absent : (attestedFields backend x normHost normPath signature evidence).lookup "evidence" = none := by
    rw [Assoc.lookup_eq_none, names]
    decide
  dsimp only [attestedPayload]
  rw [received_get double _ "evidence" (by decide)]
  simp only [find_insertSome, show "evidence" ≠ "measurements" by decide, show "evidence" ≠ "pcr8" by decide,
    show "evidence" ≠ "pcr0" by decide, show "evidence" ≠ "field_claims" by decide, show "evidence" ≠ "profile" by decide,
    if_false]
  rw [find_jsonMap _ (by rw [names]; decide), absent]
  rfl

theorem isHttpStatus_nat (n : Nat) : Verifier.isHttpStatus (.num (.finite n)) = true ↔ 100 ≤ n ∧ n ≤ 599 := by
  have den : ((n : ℚ)).den = 1 := Rat.den_natCast n
  have num : ((n : ℚ)).num = n := Rat.num_natCast n
  rw [Verifier.isHttpStatus, den, num]
  simp only [decide_true, Bool.true_and, Bool.and_eq_true, decide_eq_true_eq]
  omega

variable {double} (exact : ∀ n : UInt64, n.toNat < 2 ^ 53 → double (.posInt n) = .finite n.toNat)

include exact

/-- The trailer of the local backend passes the envelope check if its status is one of the web's and
its texts are within the limit. -/
theorem fieldErrors_attested (reqHex : (JStr.ofChars x.reqBodyHex).isHex64 = true)
    (respHex : (JStr.ofChars x.respBodyHex).isHex64 = true) (claims : ∀ c ∈ x.fieldClaims, (received double c).isRecord = true) :
    Verifier.fieldErrors (received double (attestedPayload backend x normHost normPath signature evidence)) = [] ↔
      (100 ≤ x.status.toNat ∧ x.status.toNat ≤ 599) ∧
        Verifier.Sized (received double (attestedPayload backend x normHost normPath signature evidence)) := by
  have bound := x.status.toNat_lt
  have status : (received double (attestedPayload backend x normHost normPath signature evidence)).get
      (JStr.lit "http_status") = received double (.ofNat x.status.toNat) :=
    received_attested_get backend x normHost normPath signature evidence (by decide) (by decide) rfl
  rw [received_ofNat exact _ (by omega)] at status
  have profile := received_profile double backend x normHost normPath signature evidence
  have evidenceRead := received_evidence double backend x normHost normPath signature evidence
  have claimsRead : (received double (attestedPayload backend x normHost normPath signature evidence)).get
      (JStr.lit "field_claims") = (x.fieldClaims.map (received double)).getD .undefined :=
    received_claims backend x normHost normPath signature evidence
  have request : (received double (attestedPayload backend x normHost normPath signature evidence)).get
      (JStr.lit "request_body_sha256") = received double (.string x.reqBodyHex) :=
    received_attested_get backend x normHost normPath signature evidence (by decide) (by decide) rfl
  have response : (received double (attestedPayload backend x normHost normPath signature evidence)).get
      (JStr.lit "response_body_sha256") = received double (.string x.respBodyHex) :=
    received_attested_get backend x normHost normPath signature evidence (by decide) (by decide) rfl
  have text {field : String} (required : field ∈ Verifier.requiredProofStringFields) :=
    received_attested_text double backend x normHost normPath signature evidence required
  generalize received double (attestedPayload backend x normHost normPath signature evidence) = proof at *
  have profileOk : (Verifier.isUndefined (proof.get (JStr.lit "profile")) ||
      Verifier.isString (proof.get (JStr.lit "profile"))) = true := by
    rw [Bool.or_eq_true]
    exact profile
  have claimsOk : (Verifier.isUndefined (proof.get (JStr.lit "field_claims")) ||
      (proof.get (JStr.lit "field_claims")).isRecord) = true := by
    rw [claimsRead]
    cases given : x.fieldClaims with
    | none => rfl
    | some c =>
      rw [Option.map_some, Option.getD_some, claims c given, Bool.or_true]
  have hexes : Verifier.hexErrors proof "request_body_sha256" = [] ∧ Verifier.hexErrors proof "response_body_sha256" = [] := by
    rw [Verifier.hexErrors, Verifier.hexErrors, request, response, received, received]
    dsimp only
    rw [reqHex, respHex]
    exact ⟨rfl, rfl⟩
  rw [Verifier.fieldErrors, status, profileOk, evidenceRead, claimsOk, hexes.1, hexes.2]
  simp only [Verifier.isUndefined, Bool.true_or, if_true, List.append_nil, List.append_eq_nil_iff, List.flatMap_eq_nil_iff,
    ite_eq_left_iff, not_not, List.cons_ne_nil, imp_false, isHttpStatus_nat]
  rw [and_comm]
  refine and_congr_right fun _ => ?_
  rw [Verifier.Sized]
  refine forall₂_congr fun field required => ?_
  obtain ⟨s, found⟩ := text required
  rw [stringFieldErrors_text found, found]
  constructor
  · rintro small _ ⟨rfl⟩
    exact small
  · intro small
    exact small _ rfl

end Trailer

/-! The checks on an envelope that passed -/

namespace Verifier

theorem ok_check (name : JStr) (passed : Bool) (good bad : JStr) : (check name passed good bad).ok = passed := rfl

theorem given_eq_some {value : Option JStr} {text : JStr} : given value = some text ↔ value = some text ∧ text ≠ [] := by
  rw [given, Option.filter_eq_some_iff, decide_eq_true_eq]

theorem nonceChecks_passed (t : TeeProofWire) (expected : Option JStr) :
    (∀ c ∈ nonceChecks t expected, c.ok = true) ↔ ∀ n, given expected = some n → t.nonce = n := by
  rw [nonceChecks]
  cases given expected with
  | none => simp
  | some nonce => simp [check]

theorem hostCheck_passed (node : Node) (t : TeeProofWire) (expected : Option JStr) :
    (hostCheck node t expected).ok = true ↔
      ∀ h, given expected = some h → node.toLowerCase t.upstreamHost = node.toLowerCase h := by
  rw [hostCheck]
  cases given expected with
  | none => simp
  | some host => simp [check]

/-- A good signature over the body that was received passes. -/
theorem verifySignatureCheck_good {node : Node} {t : TeeProofWire} {body : Bytes} {key : node.Key}
    (created : node.createPublicKey (node.fromBase64 t.publicKey) = .ok key)
    (verified : node.edVerify key (buildV2Statement node t.statementFields) (node.fromBase64 t.signature) = .ok true)
    (same : t.responseBodySha256 = sha256Hex node body) (advisory : Bool) :
    (verifySignatureCheck node t body advisory).ok = true := by
  have run : ∃ c, signatureVerdict node t body advisory = .ok c ∧ c.ok = true := by
    simp only [signatureVerdict, created, verified, bind, Except.bind, same, Bool.not_true, Bool.false_eq_true, if_false,
      ne_eq, not_true_eq_false]
    exact ⟨_, rfl, rfl⟩
  obtain ⟨c, run, ok⟩ := run
  rw [verifySignatureCheck, run]
  exact ok

/-- What an exchange is accepted on when its signature holds and its bodies are the signed ones. -/
structure Reliance (node : Node) (input : TeeVerifyInput) (evidence : Option EvidenceVerdict) : Prop where
  profile : (verifyConfiguredProfile (configuredProfile input.trust (readWire input.proof)) (readWire input.proof)).ok = true
  evidence : ∀ c ∈ evidenceChecks true (configuredProfile input.trust (readWire input.proof)) evidence, c.ok = true
  nonce : ∀ n, given input.expectedNonceB64 = some n → (readWire input.proof).nonce = n
  host : ∀ h, given input.expectedHost = some h →
    node.toLowerCase (readWire input.proof).upstreamHost = node.toLowerCase h
  required : input.requireFieldClaims = true → isTruthy (readWire input.proof).fieldClaims = true
  fields : isTruthy (readWire input.proof).fieldClaims = true →
    ∀ c ∈ verifyFieldClaimChecks node (readWire input.proof) input.requestBody input.responseBody, c.ok = true

section Accepted

variable (node : Node) (input : TeeVerifyInput)
  (signed : (verifySignatureCheck node (readWire input.proof) input.responseBody
    (isTruthy (readWire input.proof).fieldClaims)).ok = true)
  (sent : ∀ body, input.requestBody = some body → sha256Hex node body = (readWire input.proof).requestBodySha256)

include signed sent

theorem bindingChecks_signed : (∀ c ∈ bindingChecks node input (readWire input.proof), c.ok = true) ↔
    (∀ n, given input.expectedNonceB64 = some n → (readWire input.proof).nonce = n) ∧
    (∀ h, given input.expectedHost = some h →
      node.toLowerCase (readWire input.proof).upstreamHost = node.toLowerCase h) ∧
    (input.requireFieldClaims = true → isTruthy (readWire input.proof).fieldClaims = true) ∧
    (isTruthy (readWire input.proof).fieldClaims = true →
      ∀ c ∈ verifyFieldClaimChecks node (readWire input.proof) input.requestBody input.responseBody, c.ok = true) := by
  simp only [bindingChecks, List.forall_mem_append, List.forall_mem_singleton, nonceChecks_passed, hostCheck_passed,
    signed, and_true]
  refine ⟨?_, ?_⟩
  · rintro ⟨⟨⟨⟨nonce, host⟩, required⟩, fields⟩, -⟩
    refine ⟨nonce, host, fun demanded => ?_, fun claimed => ?_⟩
    · by_contra plain
      rw [Bool.not_eq_true] at plain
      simp [demanded, plain] at required
    · rwa [if_pos claimed] at fields
  · rintro ⟨nonce, host, required, fields⟩
    refine ⟨⟨⟨⟨nonce, host⟩, ?_⟩, ?_⟩, ?_⟩
    · split
      next missing =>
        rw [Bool.and_eq_true, Bool.not_eq_true'] at missing
        exact absurd (required missing.1) (by simp [missing.2])
      next => exact List.forall_mem_nil _
    · split
      next claimed => exact fields claimed
      next => exact List.forall_mem_nil _
    · cases given : input.requestBody with
      | none => simp
      | some body => simp [requestCheck, sent body given]

/-- With the envelope in order and the signature good, the verdict is the reliance. -/
theorem verifyTeeExchange_signed {evidence : Option EvidenceVerdict} {c : TeeCheck}
    (wire : verifyWireEnvelope node input.proof = .ok c)
    (gathered : profileEvidence node input (configuredProfile input.trust (readWire input.proof)) (readWire input.proof) =
      .ok evidence) :
    ∃ result, verifyTeeExchange node input = .ok result ∧
      (result.ok = true ↔ c.ok = true ∧ Reliance node input evidence) := by
  rw [verifyTeeExchange, wire]
  simp only [bind, Except.bind]
  cases passed : c.ok with
  | false => exact ⟨_, rfl, by simp [failedWireResult]⟩
  | true =>
    refine ⟨_, by rw [verifyAccepted, gathered]; rfl, ?_⟩
    simp only [List.all_eq_true, List.forall_mem_append, List.forall_mem_cons, passed, true_and, List.cons_append,
      bindingChecks_signed node input signed sent]
    constructor
    · rintro ⟨profile, evidenceOk, nonce, host, required, fields⟩
      rw [profile] at evidenceOk
      exact ⟨profile, evidenceOk, nonce, host, required, fields⟩
    · rintro ⟨profile, evidenceOk, nonce, host, required, fields⟩
      rw [profile]
      exact ⟨rfl, evidenceOk, nonce, host, required, fields⟩

end Accepted

end Verifier

section Honest

variable (rust : Rust) (node : Node) (double : Number → JsNumber) (hosts : SameHosts rust node)
  (exact : ∀ n : UInt64, n.toNat < 2 ^ 53 → double (.posInt n) = .finite n.toNat)
  (backend : Enclave.LocalEvidenceBackend) (head : Enclave.ReqHead)
  (host : JStr.isAscii head.upstream.host = true) (method : JStr.isAscii head.upstream.method = true)
  (status : UInt16) (contentType : Str) (reqBody respBody : Bytes) (claims : Option Value)
  (built : ∀ c ∈ claims, ∃ protocol reqView respView streaming, Enclave.buildFieldClaimsFromViews rust head
    (rust.toUppercase head.upstream.method) status protocol reqView respView streaming = some c)
  (signature : Bytes) (evidence : Enclave.Evidence)

/-- The wire form of an exchange's trailer. -/
def honestProof : JsVal :=
  received double (Enclave.attestedPayload backend (Enclave.trailerInput rust head status contentType reqBody respBody claims)
    (rust.toLowercase head.upstream.host) (Enclave.pathNoQuery head.upstream.path) signature evidence)

/-- The bytes the enclave signs for an exchange. -/
def honestStatement : Bytes :=
  Enclave.buildV2Statement rust (Enclave.signedFields (Enclave.trailerInput rust head status contentType reqBody respBody
    claims) (rust.toLowercase head.upstream.host) (Enclave.pathNoQuery head.upstream.path))

theorem honestProof_written {statement : Bytes} {payload : Value}
    (written : Enclave.writeAttestedTrailer rust backend (Enclave.trailerInput rust head status contentType reqBody respBody
      claims) = .attested statement payload) :
    statement = honestStatement rust head status contentType reqBody respBody claims ∧
      ∃ evidence, received double payload = honestProof rust double backend head status contentType reqBody respBody claims
        (backend.sign statement) evidence := by
  obtain ⟨evidence, signed, shown⟩ := Enclave.writeAttestedTrailer_attested rust written
  exact ⟨signed, evidence, congrArg (received double) shown⟩

theorem ofChar_base64 (c : UInt8) (text : Base64.isText c = true) :
    JStr.ofChar (Char.ofNat c.toNat) = [UInt16.ofNat c.toNat] := by
  have all : ∀ n < 256, Base64.isText (UInt8.ofNat n) = true → JStr.ofChar (Char.ofNat n) = [UInt16.ofNat n] := by
    decide +kernel
  exact all c.toNat c.toNat_lt (by rwa [UInt8.ofNat_toNat])

theorem received_base64Text (b : Bytes) : received double (Enclave.base64Text b) = .str (Verifier.toBase64 b) := by
  have text := Base64.encode_text b
  rw [Enclave.base64Text, received, Verifier.toBase64]
  congr 1
  generalize Base64.encode b = chars at text ⊢
  induction chars with
  | nil => rfl
  | cons c rest ih =>
    rw [List.forall_mem_cons] at text
    rw [List.map_cons, List.map_cons, ← ih text.2]
    exact congrArg (· ++ _) (ofChar_base64 c text.1)

/-- The key and the signature of a trailer, as the verifier decodes them. -/
theorem honestProof_credentials (base64 : ∀ b, node.fromBase64 (Verifier.toBase64 b) = b) :
    node.fromBase64 (Verifier.readWire (honestProof rust double backend head status contentType reqBody respBody claims
      signature evidence)).publicKey = backend.spki ∧
    node.fromBase64 (Verifier.readWire (honestProof rust double backend head status contentType reqBody respBody claims
      signature evidence)).signature = signature := by
  have key : (honestProof rust double backend head status contentType reqBody respBody claims signature evidence).get
      (JStr.lit "public_key") = received double (Enclave.base64Text backend.spki) :=
    received_attested_get backend _ _ _ signature evidence (by decide) (by decide) rfl
  have mark : (honestProof rust double backend head status contentType reqBody respBody claims signature evidence).get
      (JStr.lit "signature") = received double (Enclave.base64Text signature) :=
    received_attested_get backend _ _ _ signature evidence (by decide) (by decide) rfl
  simp only [Verifier.readWire, key, mark, received_base64Text, Verifier.stringOr, base64, and_self]

include hosts exact

theorem honestProof_hashes :
    (Verifier.readWire (honestProof rust double backend head status contentType reqBody respBody claims signature
      evidence)).requestBodySha256 = Verifier.sha256Hex node reqBody ∧
    (Verifier.readWire (honestProof rust double backend head status contentType reqBody respBody claims signature
      evidence)).responseBodySha256 = Verifier.sha256Hex node respBody := by
  obtain ⟨-, -, -, -, -, -, request, response, -⟩ := readWire_attested exact backend
    (Enclave.trailerInput rust head status contentType reqBody respBody claims) (rust.toLowercase head.upstream.host)
    (Enclave.pathNoQuery head.upstream.path) signature evidence
  rw [honestProof, request, response]
  dsimp only [Enclave.trailerInput]
  rw [Enclave.sha256Hex, Enclave.sha256Hex, ofChars_hex, ofChars_hex, Verifier.sha256Hex, Verifier.sha256Hex,
    hosts.sha256, hosts.sha256]
  exact ⟨rfl, rfl⟩

include built

/-- The envelope check of an honest trailer. -/
theorem honestProof_envelope : ∃ c, Verifier.verifyWireEnvelope node (honestProof rust double backend head status
      contentType reqBody respBody claims signature evidence) = .ok c ∧
    (c.ok = true ↔ (100 ≤ status.toNat ∧ status.toNat ≤ 599) ∧ Verifier.Sized (honestProof rust double backend head status
      contentType reqBody respBody claims signature evidence)) := by
  have hex (body : Bytes) : (JStr.ofChars (Enclave.sha256Hex rust body)).isHex64 = true := by
    rw [Enclave.sha256Hex, ofChars_hex, ← hosts.sha256]
    exact Verifier.sha256Hex_isHex64 node body
  have version : (honestProof rust double backend head status contentType reqBody respBody claims signature evidence).get
      (JStr.lit "v") = received double (.ofNat 2) :=
    received_attested_get backend _ _ _ signature evidence (by decide) (by decide) rfl
  have algorithm : (honestProof rust double backend head status contentType reqBody respBody claims signature evidence).get
      (JStr.lit "alg") = received double (.lit "ed25519") :=
    received_attested_get backend _ _ _ signature evidence (by decide) (by decide) rfl
  rw [received_ofNat exact 2 (by decide)] at version
  have record : (honestProof rust double backend head status contentType reqBody respBody claims signature
      evidence).isRecord = true := rfl
  obtain ⟨c, checked, passed⟩ := verifyWireEnvelope_fields node record (by rw [version]; rfl) (by rw [algorithm]; rfl)
  refine ⟨c, checked, passed.trans ?_⟩
  refine fieldErrors_attested backend _ _ _ signature evidence exact (hex reqBody) (hex respBody) ?_
  intro claim member
  obtain ⟨protocol, reqView, respView, streaming, eq⟩ := built claim member
  obtain rfl := buildFieldClaimsFromViews_fields rust eq
  rfl

include host method

/-- The verifier rebuilds the signed bytes of an honest trailer. -/
theorem honestProof_statement : Verifier.buildV2Statement node (Verifier.readWire (honestProof rust double backend head
      status contentType reqBody respBody claims signature evidence)).statementFields =
    honestStatement rust head status contentType reqBody respBody claims := by
  have read := readWire_attested exact backend (Enclave.trailerInput rust head status contentType reqBody respBody claims)
    (rust.toLowercase head.upstream.host) (Enclave.pathNoQuery head.upstream.path) signature evidence
  rw [honestProof, honestStatement]
  revert read
  generalize Verifier.readWire (received double (Enclave.attestedPayload backend (Enclave.trailerInput rust head status
    contentType reqBody respBody claims) (rust.toLowercase head.upstream.host) (Enclave.pathNoQuery head.upstream.path)
    signature evidence)) = t
  dsimp only [Enclave.trailerInput, Enclave.signedFields]
  rintro ⟨nonceRead, hostRead, pathRead, methodRead, statusRead, contentRead, requestRead, responseRead, claimsRead⟩
  refine statement_of_sameFields rust node
    { nonce := by rw [nonceRead, JStr.utf8_ofChars]
      host := ?_
      path := ?_
      method := ?_
      status := statusRead
      contentType := by rw [contentRead, JStr.utf8_ofChars]
      request := by rw [requestRead, JStr.utf8_ofChars]
      response := by rw [responseRead, JStr.utf8_ofChars]
      present := ?_
      claims := ?_ }
  · rw [hostRead, (hosts.lower_twice host).2, JStr.utf8_ofChars, (hosts.lower_twice host).1]
  · rw [pathRead, Verifier.pathWithoutQuery, Verifier.before_ofChars, JStr.utf8_ofChars]
    rfl
  · rw [methodRead, (hosts.upper_twice method).2.1, JStr.utf8_ofChars, (hosts.upper_twice method).1]
  · rw [claimsRead]
    cases claims with
    | none => rfl
    | some c =>
      have defined := received_defined double c
      simp only [Option.map_some, Option.getD_some, Option.isNone_some]
      cases eq : received double c <;> first | rfl | exact absurd eq defined
  · intro c member
    obtain ⟨protocol, reqView, respView, streaming, eq⟩ := built c member
    obtain rfl : claims = some c := member
    obtain rfl := buildFieldClaimsFromViews_fields rust eq
    rw [claimsRead, Option.map_some, Option.getD_some, hosts.claims_hash (claims_portable exact _ _ _ _ _ _ _), JStr.utf8_ofChars]

end Honest

/-! One exchange without claims, attested by a document of the pinned root. -/

theorem utf8_toBase64 (b : Bytes) : (Verifier.toBase64 b).utf8 = Base64.encode b := by
  have all : ∀ n < 256, Base64.isText (UInt8.ofNat n) = true →
      String.utf8EncodeChar (Char.ofNat n) = [UInt8.ofNat n] := by
    decide +kernel
  have text := Base64.encode_text b
  have read := received_base64Text wholeDouble b
  rw [Enclave.base64Text, received, JsVal.str.injEq] at read
  rw [← read, JStr.utf8_ofChars]
  generalize Base64.encode b = chars at text ⊢
  induction chars with
  | nil => rfl
  | cons c rest ih =>
    rw [List.forall_mem_cons] at text
    rw [List.map_cons, Utf8.encode_cons, ih text.2, all c.toNat c.toNat_lt (by rw [UInt8.ofNat_toNat]; exact text.1),
      UInt8.ofNat_toNat]
    rfl

def attestedBackend : Enclave.LocalEvidenceBackend where
  spki := [3, 3, 3]
  sign _ := [7, 7, 7]
  attest _ _ := .ok ⟨"nitro", (Base64.decode (JStr.lit Verifier.sampleAttestation).utf8).getD [], none, none, []⟩

def attestedInput : Enclave.TrailerInput :=
  Enclave.trailerInput (Rust.sample [] []) postHead 200 "text/plain" [0x7B, 0x7D] [0x5B, 0x5D] none

def attestedStatement : Bytes :=
  Enclave.buildV2Statement (Rust.sample [] []) (Enclave.signedFields attestedInput
    ((Rust.sample [] []).toLowercase postHead.upstream.host) (Enclave.pathNoQuery postHead.upstream.path))

def attestedSample : Value :=
  Enclave.attestedPayload attestedBackend attestedInput ((Rust.sample [] []).toLowercase postHead.upstream.host)
    (Enclave.pathNoQuery postHead.upstream.path) [7, 7, 7]
    ⟨"nitro", (Base64.decode (JStr.lit Verifier.sampleAttestation).utf8).getD [], none, none, []⟩

def attestedText : JStr := JStr.ofChars (Enclave.toJsonString (Rust.sample [] []) attestedSample)

def attestedNode : Node :=
  Node.sample [] [(attestedText, received wholeDouble attestedSample)]
    [([3, 3, 3], attestedStatement, [7, 7, 7]), ([1], Verifier.sampleSigStructure.toOption.getD [], [9])]
    [([2], Verifier.awsNitroRootFp)] 1000

def attestedExchange : TeeVerifyInput where
  expectedPcr0 := some (JStr.lit "aa")
  responseBody := [0x5B, 0x5D]
  proof := received wholeDouble attestedSample
  requestBody := some [0x7B, 0x7D]
  expectedHost := some (JStr.lit "API.EXAMPLE")
  expectedNonceB64 := some (JStr.lit "AAAA")

theorem attestedSample_written : Enclave.writeAttestedTrailer (Rust.sample [] []) attestedBackend attestedInput =
    .attested attestedStatement attestedSample := by
  have clean : Enclave.noCrlf attestedInput.contentType = true := by decide
  rw [Enclave.writeAttestedTrailer, clean]
  rfl

theorem attestedText_reads : attestedNode.parseJson (JStr.ofChars (Enclave.toJsonString (Rust.sample [] []) attestedSample)) =
    .ok (received wholeDouble attestedSample) := by
  rw [← attestedText, attestedNode, Node.sample]
  simp [List.lookup]

theorem attestedExchange_run :
    (verifyTeeExchange attestedNode attestedExchange).map (·.ok) = .ok true := by
  decide +kernel

end TeeProof
