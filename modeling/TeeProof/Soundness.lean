import TeeProof.Exchange

/-! What an accepting verdict stands for. One inversion of the whole run, one lemma a
group of checks, and from them the guarantees of the Nitro path and of profile choice. -/
namespace TeeProof.Verifier

variable (node : Node)

/-- Everything behind an accepting verdict: the envelope, the profile, the evidence
verifier that ran and every check it and the caller pushed. -/
structure AcceptedRun (input : TeeVerifyInput) (result : TeeVerifyResult) (verdict : EvidenceVerdict) : Prop where
  wire : ∃ c, verifyWireEnvelope node input.proof = .ok c ∧ c.ok = true
  profile : result.attestation.profile = some (configuredProfile input.trust (readWire input.proof))
  named : (verifyConfiguredProfile (configuredProfile input.trust (readWire input.proof))
    (readWire input.proof)).ok = true
  evidence : verifyEvidence node (configuredProfile input.trust (readWire input.proof)) (readWire input.proof)
    (effectiveTrust input (configuredProfile input.trust (readWire input.proof))) input.now = .ok (some verdict)
  passed : ∀ c ∈ verdict.checks, c.ok = true
  bound : ∀ c ∈ bindingChecks node input (readWire input.proof), c.ok = true
  provenance : result.provenance = (readWire input.proof).provenance

theorem verifyTeeExchange_accepted (input : TeeVerifyInput) (result : TeeVerifyResult)
    (run : verifyTeeExchange node input = .ok result) (ok : result.ok = true) :
    ∃ verdict, AcceptedRun node input result verdict := by
  obtain ⟨wireCheck, wire, run⟩ := Throws.bind_ok run
  cases accepted : wireCheck.ok with
  | false =>
    simp only [accepted, Bool.not_false, if_true, Except.ok.injEq] at run
    simp [← run, failedWireResult] at ok
  | true =>
    simp only [accepted, Bool.not_true, Bool.false_eq_true, if_false, verifyAccepted] at run
    obtain ⟨evidence, found, run⟩ := Throws.bind_ok run
    simp only [Except.ok.injEq] at run
    subst run
    simp only [List.all_eq_true, List.cons_append, List.forall_mem_cons, List.forall_mem_append] at ok
    obtain ⟨_, named, passed, bound⟩ := ok
    simp only [profileEvidence, named, if_true] at found
    cases evidence with
    | none => simp [evidenceChecks, named] at passed
    | some verdict => exact ⟨verdict, ⟨wireCheck, wire, accepted⟩, rfl, named, found, passed, bound, rfl⟩

/-- A Nitro document whose signature, chain, root and validity were verified and which
names the proof's key and nonce and the given PCR0. -/
def DocumentVerified (buf : Bytes) (now : Option ℚ) (t : TeeProofWire) (pcr0 : JStr) : Prop :=
  ∃ doc leaf key bundle rootKey,
    parseAttestationDoc buf = .ok doc ∧
    node.parseCert doc.certificate = .ok leaf ∧ node.publicKey leaf = .ok key ∧
    node.verifyP1363 key (sigStructure doc.protectedRaw doc.payloadRaw) doc.signature = .ok true ∧
    doc.cabundle.mapM node.parseCert = .ok bundle ∧
    chainVerified node (bundle ++ [leaf]) = .ok true ∧
    node.publicKey (chainRoot node leaf bundle) = .ok rootKey ∧
    node.certVerify (chainRoot node leaf bundle) rootKey = true ∧
    node.fingerprint256 (chainRoot node leaf bundle) = awsNitroRootFp ∧
    (∀ cert ∈ bundle ++ [leaf], timeValid node (now.getD node.dateNow) cert = true) ∧
    doc.publicKey.map toBase64 = some t.publicKey ∧
    doc.nonce.map toBase64 = some t.nonce ∧
    JStr.hex doc.pcr0 = pcr0

/-- Every flag of the document's verdict comes from the operation it is named for. -/
theorem verifyAttestationDoc_spec (buf : Bytes) (now : Option ℚ) (att : AttestationVerdict)
    (run : verifyAttestationDoc node buf now = .ok att) :
    ∃ doc leaf key bundle rootKey,
      parseAttestationDoc buf = .ok doc ∧
      node.parseCert doc.certificate = .ok leaf ∧ node.publicKey leaf = .ok key ∧
      node.verifyP1363 key (sigStructure doc.protectedRaw doc.payloadRaw) doc.signature = .ok att.sigOk ∧
      doc.cabundle.mapM node.parseCert = .ok bundle ∧
      chainVerified node (bundle ++ [leaf]) = .ok att.chainOk ∧
      node.publicKey (chainRoot node leaf bundle) = .ok rootKey ∧
      att.rootSelf = node.certVerify (chainRoot node leaf bundle) rootKey ∧
      att.rootPinned = (node.fingerprint256 (chainRoot node leaf bundle) == awsNitroRootFp) ∧
      att.timeValid = (bundle ++ [leaf]).all (timeValid node (now.getD node.dateNow)) ∧
      att.publicKey = doc.publicKey.map toBase64 ∧ att.nonce = doc.nonce.map toBase64 ∧
      att.pcr0 = JStr.hex doc.pcr0 := by
  obtain ⟨doc, parsed, run⟩ := Throws.bind_ok run
  obtain ⟨leaf, leafRead, run⟩ := Throws.bind_ok run
  obtain ⟨key, keyRead, run⟩ := Throws.bind_ok run
  obtain ⟨sigOk, signed, run⟩ := Throws.bind_ok run
  obtain ⟨bundle, bundleRead, run⟩ := Throws.bind_ok run
  obtain ⟨chainOk, chained, run⟩ := Throws.bind_ok run
  obtain ⟨rootKey, rootRead, run⟩ := Throws.bind_ok run
  simp only [Except.ok.injEq] at run
  subst run
  exact ⟨doc, leaf, key, bundle, rootKey, parsed, leafRead, keyRead, signed, bundleRead, chained, rootRead,
    rfl, rfl, rfl, rfl, rfl, rfl⟩

theorem eq_some_of_nonempty (value : Option JStr) (h : isNonempty value = true) :
    ∃ text, value = some text ∧ text ≠ [] := by
  cases value with
  | none => simp [isNonempty] at h
  | some text => cases text <;> simp_all [isNonempty]

/-- Passing every Nitro check is having a verified document that names the key, the
nonce and a configured PCR0. -/
theorem nitroVerifyEvidence_passed (t : TeeProofWire) (trust : EvidenceTrust) (now : Option ℚ)
    (passed : ∀ c ∈ (nitroVerifyEvidence node t trust now).checks, c.ok = true) :
    ∃ pcr0, trust.expectedPcr0 = some pcr0 ∧ pcr0 ≠ [] ∧
      (nitroVerifyEvidence node t trust now).pcr0 = some pcr0 ∧
      DocumentVerified node (node.fromBase64 t.attestation) now t pcr0 := by
  unfold nitroVerifyEvidence at passed ⊢
  split at passed
  next => simp at passed
  next att run =>
    simp only [nitroChecks, List.forall_mem_cons, check, Bool.and_eq_true, beq_iff_eq,
      AttestationVerdict.chainAll] at passed
    obtain ⟨⟨⟨⟨sigOk, chainOk⟩, rootSelf⟩, rootPinned⟩, time, ⟨given, pcrEq⟩, ⟨_, keyEq⟩, nonceEq, _⟩ := passed
    obtain ⟨pcr0, configured, nonempty⟩ := eq_some_of_nonempty _ given
    obtain ⟨doc, leaf, key, bundle, rootKey, parsed, leafRead, keyRead, signed, bundleRead, chained, rootRead,
      self, pinned, valid, keyText, nonceText, pcrText⟩ := verifyAttestationDoc_spec node _ _ _ run
    rw [configured, Option.some.injEq] at pcrEq
    refine ⟨pcr0, configured, nonempty, by simp [pcrEq], doc, leaf, key, bundle, rootKey, parsed, leafRead,
      keyRead, sigOk ▸ signed, bundleRead, chainOk ▸ chained, rootRead, self ▸ rootSelf, ?_, ?_,
      keyText ▸ keyEq, nonceText ▸ nonceEq, pcrText ▸ pcrEq⟩
    · simpa [pinned] using rootPinned
    · rw [valid] at time
      exact List.all_eq_true.mp time

/-- A passing signature check verified the rebuilt statement, and compared the body
digest unless the comparison is advisory. -/
theorem verifySignatureCheck_ok (t : TeeProofWire) (responseBody : Bytes) (advisory : Bool)
    (ok : (verifySignatureCheck node t responseBody advisory).ok = true) :
    (∃ key, node.createPublicKey (node.fromBase64 t.publicKey) = .ok key ∧
      node.edVerify key (buildV2Statement node t.statementFields) (node.fromBase64 t.signature) = .ok true) ∧
    (advisory = false → sha256Hex node responseBody = t.responseBodySha256) := by
  unfold verifySignatureCheck at ok
  split at ok
  next c run =>
    obtain ⟨key, created, run⟩ := Throws.bind_ok run
    obtain ⟨sigOk, verified, run⟩ := Throws.bind_ok run
    cases sigOk with
    | false =>
      simp only [Bool.not_false, if_true, Except.ok.injEq] at run
      simp [← run] at ok
    | true =>
      refine ⟨⟨key, created, verified⟩, fun binding => ?_⟩
      by_contra different
      simp only [Bool.not_true, Bool.false_eq_true, if_false, ne_eq, different, not_false_eq_true, if_true,
        Except.ok.injEq] at run
      simp [← run, binding] at ok
  next => simp at ok

/-- What the checks after the evidence bind. -/
structure Bound (input : TeeVerifyInput) (t : TeeProofWire) : Prop where
  signature : ∃ key, node.createPublicKey (node.fromBase64 t.publicKey) = .ok key ∧
    node.edVerify key (buildV2Statement node t.statementFields) (node.fromBase64 t.signature) = .ok true
  nonce : ∀ n, input.expectedNonceB64 = some n → n ≠ [] → t.nonce = n
  host : ∀ h, input.expectedHost = some h → h ≠ [] → node.toLowerCase t.upstreamHost = node.toLowerCase h
  response : isTruthy t.fieldClaims = false → sha256Hex node input.responseBody = t.responseBodySha256
  request : isTruthy t.fieldClaims = false → ∀ body, input.requestBody = some body →
    sha256Hex node body = t.requestBodySha256

theorem given_some (text : JStr) (nonempty : text ≠ []) : given (some text) = some text := by
  simp [given, nonempty]

theorem bindingChecks_passed (input : TeeVerifyInput) (t : TeeProofWire)
    (passed : ∀ c ∈ bindingChecks node input t, c.ok = true) : Bound node input t := by
  simp only [bindingChecks, List.forall_mem_append, List.forall_mem_singleton] at passed
  obtain ⟨⟨⟨⟨⟨nonce, host⟩, _⟩, signature⟩, _⟩, request⟩ := passed
  have verified := verifySignatureCheck_ok node t input.responseBody _ signature
  refine ⟨verified.1, ?_, ?_, verified.2, ?_⟩
  · intro n expected nonempty
    rw [expected] at nonce
    simpa [nonceChecks, given_some n nonempty, check] using nonce
  · intro h expected nonempty
    rw [expected] at host
    simpa [hostCheck, given_some h nonempty, check] using host
  · intro plain body sent
    simpa [sent, requestCheck, plain] using request

/-- The guarantees of an accepting verdict on the Nitro path. -/
structure NitroSound (input : TeeVerifyInput) : Prop where
  wire : ∃ c, verifyWireEnvelope node input.proof = .ok c ∧ c.ok = true
  signature : ∃ key, node.createPublicKey (node.fromBase64 (readWire input.proof).publicKey) = .ok key ∧
    node.edVerify key (buildV2Statement node (readWire input.proof).statementFields)
      (node.fromBase64 (readWire input.proof).signature) = .ok true
  document : ∃ pcr0, (input.trust.bind EvidenceTrust.expectedPcr0).or input.expectedPcr0 = some pcr0 ∧ pcr0 ≠ [] ∧
    DocumentVerified node (node.fromBase64 (readWire input.proof).attestation) input.now
      (readWire input.proof) pcr0
  nonce : ∀ n, input.expectedNonceB64 = some n → n ≠ [] → (readWire input.proof).nonce = n
  host : ∀ h, input.expectedHost = some h → h ≠ [] →
    node.toLowerCase (readWire input.proof).upstreamHost = node.toLowerCase h
  response : isUndefined (readWire input.proof).fieldClaims = true →
    sha256Hex node input.responseBody = (readWire input.proof).responseBodySha256
  request : isUndefined (readWire input.proof).fieldClaims = true → ∀ body, input.requestBody = some body →
    sha256Hex node body = (readWire input.proof).requestBodySha256

theorem not_truthy_of_undefined (value : JsVal) (h : isUndefined value = true) : isTruthy value = false := by
  cases value <;> simp_all [isUndefined, isTruthy]

theorem verifyEvidence_nitro (t : TeeProofWire) (trust : EvidenceTrust) (now : Option ℚ) (verdict : EvidenceVerdict)
    (run : verifyEvidence node nitro t trust now = .ok (some verdict)) :
    verdict = nitroVerifyEvidence node t trust now := by
  simpa [verifyEvidence] using run.symm

theorem nitroSound_of_run (input : TeeVerifyInput) (result : TeeVerifyResult)
    (run : verifyTeeExchange node input = .ok result) (ok : result.ok = true)
    (profile : result.attestation.profile = some nitro) : NitroSound node input := by
  obtain ⟨verdict, accepted⟩ := verifyTeeExchange_accepted node input result run ok
  have bound := bindingChecks_passed node input _ accepted.bound
  have resolved : configuredProfile input.trust (readWire input.proof) = nitro :=
    Option.some.inj (accepted.profile.symm.trans profile)
  have evidence := accepted.evidence
  rw [resolved] at evidence
  have passed := accepted.passed
  rw [verifyEvidence_nitro node _ _ _ _ evidence] at passed
  obtain ⟨pcr0, configured, nonempty, _, document⟩ := nitroVerifyEvidence_passed node _ _ _ passed
  exact {
    wire := accepted.wire
    signature := bound.signature
    document := ⟨pcr0, configured, nonempty, document⟩
    nonce := bound.nonce
    host := bound.host
    response := fun absent => bound.response (not_truthy_of_undefined _ absent)
    request := fun absent => bound.request (not_truthy_of_undefined _ absent) }

/-- Soundness of the Nitro path: no check behind the verdict was skipped or made over
other values than those reported. -/
theorem verifyTeeExchange_nitro_sound (input : TeeVerifyInput) (result : TeeVerifyResult)
    (run : verifyTeeExchange node input = .ok result) (ok : result.ok = true)
    (profile : result.attestation.profile = some nitro) : NitroSound node input :=
  nitroSound_of_run node input result run ok profile

/-- A small document: one leaf, one root, PCR0 `aa`. -/
def sampleAttestation : String :=
  "hEGgoFg9pWtjZXJ0aWZpY2F0ZUEBaGNhYnVuZGxlgUECZHBjcnOhAEGqanB1YmxpY19rZXlDAwMDZW5vbmNlQwAAAEEJ"

def samplePlainProof (host path method : String) : JsVal := .ofObject
  [("v", .num 2), ("alg", .lit "ed25519"), ("public_key", .lit "AwMD"), ("nonce", .lit "AAAA"),
    ("upstream_host", .lit host), ("upstream_path", .lit path), ("http_method", .lit method),
    ("http_status", .num 200), ("resp_content_type", .lit "text/plain"),
    ("request_body_sha256", .lit "44136fa355b3678a1146ad16f7e8649e94fb4fc21fe77e8310c060f61caaff8a"),
    ("response_body_sha256", .lit "44136fa355b3678a1146ad16f7e8649e94fb4fc21fe77e8310c060f61caaff8a"),
    ("signature", .lit "BwcH"), ("attestation", .lit sampleAttestation)]

def emptyObjectText : Bytes := [0x7B, 0x7D]

/-- The statement the sample proofs rebuild to. -/
def sampleStatement : Bytes :=
  buildV2Statement (Node.sample [] [] [] [] 0) (readWire (samplePlainProof "api.example" "/v1" "POST")).statementFields

def sampleSigStructure : Throws Bytes := do
  let doc ← parseAttestationDoc ((Base64.decode (JStr.lit sampleAttestation).utf8).getD [])
  .ok (sigStructure doc.protectedRaw doc.payloadRaw)

def nitroNode : Node :=
  Node.sample [(emptyObjectText, emptyObjectDigest)] []
    [([3, 3, 3], sampleStatement, [7, 7, 7]), ([1], sampleSigStructure.toOption.getD [], [9])]
    [([2], awsNitroRootFp)] 1000

def sampleExchange (host path method : String) : TeeVerifyInput where
  expectedPcr0 := some (JStr.lit "aa")
  responseBody := emptyObjectText
  proof := samplePlainProof host path method
  requestBody := some emptyObjectText
  expectedHost := some (JStr.lit "api.example")
  expectedNonceB64 := some (JStr.lit "AAAA")

theorem sampleExchange_run (host path method : String)
    (run : (verifyTeeExchange nitroNode (sampleExchange host path method)).map
      (fun r => (r.ok, r.attestation.profile)) = .ok (true, some nitro)) :
    ∃ result, verifyTeeExchange nitroNode (sampleExchange host path method) = .ok result ∧ result.ok = true ∧
      result.attestation.profile = some nitro := by
  obtain ⟨result, run, fields⟩ := Throws.map_ok run
  exact ⟨result, run, congrArg Prod.fst fields, congrArg Prod.snd fields⟩

theorem plainExchange_run :
    ∃ result, verifyTeeExchange nitroNode (sampleExchange "api.example" "/v1" "POST") = .ok result ∧ result.ok = true ∧
      result.attestation.profile = some nitro :=
  sampleExchange_run "api.example" "/v1" "POST" (by decide +kernel)

theorem verifyTeeExchange_nitro_sound_sample :
    ∃ result, verifyTeeExchange nitroNode (sampleExchange "api.example" "/v1" "POST") = .ok result ∧
      result.ok = true ∧ NitroSound nitroNode (sampleExchange "api.example" "/v1" "POST") := by
  obtain ⟨result, run, ok, profile⟩ := plainExchange_run
  exact ⟨result, run, ok, verifyTeeExchange_nitro_sound nitroNode _ result run ok profile⟩

end TeeProof.Verifier
