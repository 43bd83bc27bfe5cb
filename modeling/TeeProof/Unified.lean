import TeeProof.Agreement
import TeeProof.Profiles
import TeeProof.Quote

/-! The unified verifier: which platform a proof is taken for, the trust completed for it,
the core verification and the summary read back from the names of its checks. Whatever
the proof says about its platform, an accepting verdict rests on verified evidence. -/
namespace TeeProof.Verifier.Unified

open JsVal

variable (node : Node)

inductive TeePlatformId where
  | aws
  | aliyun
  | huawei
  | unknown
  deriving DecidableEq

inductive DetectionSource where
  | teePlatform
  | teeProfile
  | profile
  | evidenceShape
  | measurementType
  | platformDefault
  | unsupported
  deriving DecidableEq

/-- `profile` is a text or `undefined` for a known platform; for an unknown one it is
whatever the proof has there. -/
structure PlatformDetection where
  platform : TeePlatformId
  profile : JsVal
  source : DetectionSource

structure UnifiedVerifyInput where
  proof : JsVal
  responseBody : Bytes
  requestBody : Option Bytes := none
  expectedHost : Option JStr := none
  expectedNonceB64 : Option JStr := none
  trustedMeasurement : Option JStr := none
  trust : Option EvidenceTrust := none
  defaultPlatform : Option TeePlatformId := none
  now : Option ℚ := none

def platformName : TeePlatformId → JStr
  | .aws => "aws"
  | .aliyun => "aliyun"
  | .huawei => "huawei"
  | .unknown => "unknown"

def sourceName : DetectionSource → JStr
  | .teePlatform => "tee_platform"
  | .teeProfile => "tee_profile"
  | .profile => "profile"
  | .evidenceShape => "evidence_shape"
  | .measurementType => "measurement_type"
  | .platformDefault => "platform_default"
  | .unsupported => "unsupported"

/-- `typeof value === 'string' ? value.toLowerCase() : ''`. -/
def lowered (value : JsVal) : JStr :=
  match value with
  | .str s => node.toLowerCase s
  | _ => []

def among (names : List String) (s : JStr) : Bool := (names.map JStr.lit).contains s

def platformIdFromString (value : JsVal) : TeePlatformId :=
  let s := lowered node value
  if among ["aws", "nitro", "aws-nitro", "aws_nitro"] s then .aws
  else if among ["aliyun", "alibaba", "aliyun-enclave", "aliyun-vtpm", "aliyun_vtpm"] s then .aliyun
  else if among ["huawei", "qingtian", "huawei-qingtian", "huawei_qingtian"] s then .huawei
  else .unknown

def platformIdFromProfile (value : JsVal) : TeePlatformId :=
  let s := lowered node value
  if s = JStr.lit "nitro" || s.includes "aws-nitro" then .aws
  else if s.includes "aliyun" || s.includes "vtpm" then .aliyun
  else if s.includes "qingtian" || s.includes "huawei" then .huawei
  else .unknown

def platformIdFromMeasurementType (value : JsVal) : TeePlatformId :=
  let s := lowered node value
  if s = JStr.lit "pcr0" || s.includes "nitro" then .aws
  else if s.includes "vtpm" || s.includes "aliyun" then .aliyun
  else if s.includes "qingtian" || s.includes "huawei" then .huawei
  else .unknown

/-- `a ?? b`. -/
def orElse (a b : JsVal) : JsVal := if isNullish a then b else a

def platformIdFromEvidenceShape (proof : JsVal) : TeePlatformId :=
  let evidence := if (proof.get "evidence").isRecord then proof.get "evidence" else .undefined
  let explicit := platformIdFromString node (orElse (evidence.get "tee_platform") (evidence.get "platform"))
  if explicit ≠ .unknown then explicit
  else
    let profile := platformIdFromProfile node (orElse (evidence.get "tee_profile") (evidence.get "profile"))
    if profile ≠ .unknown then profile
    else if isString (proof.get "attestation") && isTruthy (proof.get "public_key") && isTruthy (proof.get "signature") &&
        (isTruthy (proof.get "pcr0") || !isTruthy (proof.get "profile")) then .aws
    else .unknown

def canonicalProfileForPlatform : TeePlatformId → Option JStr
  | .aws => some nitro
  | .aliyun => some aliyunVtpm
  | .huawei => some qingtian
  | .unknown => none

def normaliseEvidenceProfile (value : JsVal) : Option JStr :=
  let s := lowered node value
  if among ["nitro", "aws-nitro", "aws_nitro"] s then some nitro
  else if among ["aliyun-vtpm", "aliyun_vtpm", "aliyun-enclave"] s then some aliyunVtpm
  else if among ["qingtian", "huawei-qingtian", "huawei_qingtian"] s then some qingtian
  else none

/-- An optional text as a value. -/
def ofText (value : Option JStr) : JsVal := value.elim .undefined .str

/-- The hints of a proof, the first that names a platform winning. -/
def detectProofPlatform (proof : JsVal) (defaultPlatform : Option TeePlatformId) : PlatformDetection :=
  let byPlatform := platformIdFromString node (proof.get "tee_platform")
  let byTeeProfile := platformIdFromProfile node (proof.get "tee_profile")
  let byLegacyProfile := platformIdFromProfile node (proof.get "profile")
  let byEvidenceShape := platformIdFromEvidenceShape node proof
  let byMeasurementType := platformIdFromMeasurementType node (proof.get "measurement_type")
  let canonical (platform : TeePlatformId) (source : DetectionSource) : PlatformDetection :=
    { platform, profile := ofText (canonicalProfileForPlatform platform), source }
  if byPlatform ≠ .unknown then canonical byPlatform .teePlatform
  else if byTeeProfile ≠ .unknown then
    { platform := byTeeProfile, profile := ofText (normaliseEvidenceProfile node (proof.get "tee_profile"))
      source := .teeProfile }
  else if byLegacyProfile ≠ .unknown then
    { platform := byLegacyProfile, profile := ofText (normaliseEvidenceProfile node (proof.get "profile"))
      source := .profile }
  else if byEvidenceShape ≠ .unknown then canonical byEvidenceShape .evidenceShape
  else if byMeasurementType ≠ .unknown then canonical byMeasurementType .measurementType
  else
    match defaultPlatform with
    | some .unknown | none =>
      { platform := .unknown, profile := orElse (proof.get "profile") (proof.get "tee_profile"), source := .unsupported }
    | some platform => canonical platform .platformDefault

/-- The declared profiles that are spelled as a known one, with their fields. -/
def declaredProfiles (proof : JsVal) : List (JStr × JStr) :=
  [(JStr.lit "tee_profile", normaliseEvidenceProfile node (proof.get "tee_profile")),
    (JStr.lit "profile", normaliseEvidenceProfile node (proof.get "profile"))].filterMap
      fun p => p.2.map fun value => (p.1, value)

def declaredProfileConflict (proof : JsVal) (detection : PlatformDetection) : Option JStr :=
  if detection.platform = .unknown then none
  else
    match orElse detection.profile (ofText (canonicalProfileForPlatform detection.platform)) with
    | .str (u :: rest) =>
      let expected : JStr := u :: rest
      ((declaredProfiles node proof).find? fun p => p.2 ≠ expected).map fun p =>
        p.1 ++ "=" ++ p.2 ++ " 与 " ++ sourceName detection.source ++ " 识别的平台 " ++
          platformName detection.platform ++ "/" ++ expected ++ " 冲突"
    | _ => none

def profileForPlatform (platform : TeePlatformId) (proof : JsVal) : Option JStr :=
  ((normaliseEvidenceProfile node (proof.get "tee_profile")).or
    (normaliseEvidenceProfile node (proof.get "profile"))).or (canonicalProfileForPlatform platform)

def resolveLegacyNitroPcr0 (trust : EvidenceTrust) : Option JStr :=
  let pcrs := trust.expectedPcrs.getD []
  (trust.expectedPcr0.or (pcrs.lookup (JStr.lit "sha384:0"))).or (pcrs.lookup (JStr.lit "pcr0"))

def buildTrust (input : UnifiedVerifyInput) (platform : TeePlatformId) : EvidenceTrust :=
  let trust := input.trust.getD {}
  let trust :=
    match given trust.profile, canonicalProfileForPlatform platform with
    | none, some profile => { trust with profile := some profile }
    | _, _ => trust
  if platform = .aws && (given trust.expectedPcr0).isNone then
    { trust with expectedPcr0 := (resolveLegacyNitroPcr0 trust).or input.trustedMeasurement }
  else trust

def detectionCheck (proof : JsVal) (detection : PlatformDetection) : TeeCheck :=
  if detection.platform = .unknown then
    { name := "TEE 平台识别", ok := false, detail := "无法识别 proof 所属 TEE 平台" }
  else
    match declaredProfileConflict node proof detection with
    | some conflict => { name := "TEE 平台识别", ok := false, detail := conflict }
    | none =>
      { name := "TEE 平台识别", ok := true
        detail := platformName detection.platform ++ "/" ++ stringOr (JStr.lit "<none>") detection.profile ++ " via " ++
          sourceName detection.source }

/-- `{ ...input.proof, profile: input.proof.profile ?? profile }`. -/
def completedProof (proof : JsVal) (detection : PlatformDetection) : JsVal :=
  let profile := orElse detection.profile (ofText (profileForPlatform node detection.platform proof))
  spread2 proof (.ofObject [("profile", orElse (proof.get "profile") profile)])

def failedUnknownPlatformResult (proof : JsVal) (input : UnifiedVerifyInput) (failed : TeeCheck) : TeeVerifyResult :=
  failedWireResult (readWire proof) (if input.requestBody.isSome then .full else .responseOnly) [failed]

/-! The summary. -/

def isDigitUnit (u : UInt16) : Bool := 48 ≤ u.toNat && u.toNat ≤ 57

/-- The digits and the tail of a measurement name. -/
def isMeasured (rest : JStr) : Bool :=
  !(rest.takeWhile isDigitUnit).isEmpty && rest.dropWhile isDigitUnit = JStr.lit " 比对"

/-- `/^(PCR\d+ 比对|sha(256|384):\d+ 比对)$/i`; of the units in the pattern only ASCII
letters have case. -/
def isMeasurementCheck (c : TeeCheck) : Bool :=
  let name := JStr.asciiCase 65 97 c.name
  ["pcr", "sha256:", "sha384:"].any fun start =>
    name.startsWith start && isMeasured (name.drop start.length)

def isAttestationCheck (c : TeeCheck) : Bool :=
  !isMeasurementCheck c &&
    among ["远程证明", "证书有效期", "Evidence 格式", "challenge alg", "challenge payload", "qualifying data",
      "QuoteReport 字段", "quote 结构", "quote 签名", "quote challenge", "PCRInfo", "PCR selection", "PCR digest",
      "平台证明链", "QingTian evidence 格式", "QingTian COSE alg", "QingTian COSE 签名", "QingTian digest",
      "QingTian timestamp", "QingTian 证书链"] c.name

def findOk (checks : List TeeCheck) (name : String) : Bool := checks.any fun c => c.name = JStr.lit name && c.ok

/-- `!!reported && reported === field`. -/
def repeats (reported : Option JStr) (field : JsVal) : Bool :=
  match reported, field with
  | some (u :: text), .str s => u :: text = s
  | _, _ => false

structure UnifiedPlatformResult where
  ok : Bool
  detectedTeePlatform : TeePlatformId
  detectedTeeProfile : JsVal
  detectionSource : DetectionSource
  attestationVerified : Bool
  measurementChecked : Bool
  publicKeyBound : Bool
  nonceBound : Bool
  revocationChecked : Bool
  reportedMeasurement : Option JStr
  trustedMeasurement : Option JStr
  measurementMatched : Bool
  trustAnchorId : JsVal
  platformVerifierVersion : JStr

def firstMeasurement (measurements : List (JStr × JStr)) : Option JStr := (enumerate measurements).head?.map Prod.snd

def measurementTexts (measurements : JsVal) : List (JStr × JStr) :=
  measurements.entries.map fun p => (p.1, stringOr [] p.2)

def summarisePlatform (core : TeeVerifyResult) (detection : PlatformDetection) (proof : JsVal) (trust : EvidenceTrust)
    (trustedMeasurement : Option JStr) (trustAnchorId : JsVal) : UnifiedPlatformResult :=
  let measurementChecks := core.checks.filter isMeasurementCheck
  let attestationChecks := core.checks.filter isAttestationCheck
  let attestationVerified := !attestationChecks.isEmpty && attestationChecks.all (·.ok)
  let measurementMatched := !measurementChecks.isEmpty && measurementChecks.all (·.ok)
  let publicKeyBound := findOk core.checks "公钥绑定" || repeats core.attestation.publicKey (proof.get "public_key")
  let nonceBound := findOk core.checks "nonce 绑定" || repeats core.attestation.nonce (proof.get "nonce")
  let platformTrust := core.attestation.platformTrust
  { ok := attestationVerified && measurementMatched && publicKeyBound && nonceBound &&
      (platformTrust.map PlatformVerdict.ok).getD true
    detectedTeePlatform := detection.platform
    detectedTeeProfile := orElse detection.profile (ofText core.attestation.profile)
    detectionSource := detection.source
    attestationVerified
    measurementChecked := !measurementChecks.isEmpty
    publicKeyBound
    nonceBound
    revocationChecked := ((trust.platformTrust.bind PlatformTrust.revocation).getD {}).checkedExternally
    reportedMeasurement := (core.attestation.pcr0.or core.attestation.pcr8).or
      (core.attestation.measurements.bind fun m => firstMeasurement (measurementTexts m))
    trustedMeasurement := ((trustedMeasurement.or trust.expectedPcr0).or trust.expectedPcr8).or
      (trust.expectedPcrs.bind firstMeasurement)
    measurementMatched
    trustAnchorId := orElse trustAnchorId ((platformTrust.bind PlatformVerdict.issuer).elim .null .str)
    platformVerifierVersion := "unified-verifier-router-v1" }

structure UnifiedVerifyResult where
  ok : Bool
  mode : VerifyMode
  detection : PlatformDetection
  platform : UnifiedPlatformResult
  core : TeeVerifyResult
  checks : List TeeCheck

def coreInput (input : UnifiedVerifyInput) (proof : JsVal) (trust : EvidenceTrust) : TeeVerifyInput where
  proof := proof
  responseBody := input.responseBody
  requestBody := input.requestBody
  expectedHost := input.expectedHost
  expectedNonceB64 := input.expectedNonceB64
  expectedPcr0 := trust.expectedPcr0
  requireFieldClaims := true
  trust := some trust
  now := input.now

/-- The core verification, unless the platform is unknown or contradicted. -/
def verifyCore (input : UnifiedVerifyInput) (detection : PlatformDetection) : Throws TeeVerifyResult :=
  let proof := completedProof node input.proof detection
  let detected := detectionCheck node input.proof detection
  if detection.platform = .unknown || !detected.ok then .ok (failedUnknownPlatformResult proof input detected)
  else verifyTeeExchange node (coreInput input proof (buildTrust input detection.platform))

/-- Reading a field of `null` or `undefined` throws. -/
def readable : JsVal → Throws Unit
  | .undefined => .error "Cannot read properties of undefined (reading 'tee_platform')"
  | .null => .error "Cannot read properties of null (reading 'tee_platform')"
  | _ => .ok ()

/-- `verifyUnifiedExchange` with the default dependencies. -/
def verifyUnifiedExchange (input : UnifiedVerifyInput) : Throws UnifiedVerifyResult := do
  readable input.proof
  let detection := detectProofPlatform node input.proof input.defaultPlatform
  let detected := detectionCheck node input.proof detection
  let core ← verifyCore node input detection
  let platform := summarisePlatform core detection (completedProof node input.proof detection)
    (buildTrust input detection.platform) (if detection.platform = .aws then input.trustedMeasurement else none)
    (input.proof.get "trust_anchor_id")
  .ok { ok := detected.ok && core.ok && platform.ok, mode := core.mode, detection, platform, core
        checks := detected :: core.checks }

/-! What the evidence verifiers guarantee. -/

/-- The evidence behind a verdict and how the verifier that ran tied it to the proof. -/
inductive EvidenceBound (t : TeeProofWire) (trust : EvidenceTrust) (now : Option ℚ) (verdict : EvidenceVerdict) : Prop
  | nitro (ran : verdict = nitroVerifyEvidence node t trust now) (pcr0 : JStr)
      (expected : trust.expectedPcr0 = some pcr0)
      (document : DocumentVerified node (node.fromBase64 t.attestation) now t pcr0)
  | aliyun (run : AliyunVtpm.QuoteRun node) (accepted : run.Accepted node t trust now verdict)
  | qingtian (ran : verdict = QingTian.verifyEvidence node t trust now) (evidence : QingTian.ParsedQingTianEvidence)
      (parsed : QingTian.parseQingTianEvidence (node.fromBase64 t.attestation) = .ok evidence)
      (publicKey : toBase64 evidence.publicKey = t.publicKey) (nonce : toBase64 evidence.nonce = t.nonce)

/-- The evidence verifier reported a platform it trusts, by a chain it evaluated. -/
def PlatformTrusted (verdict : EvidenceVerdict) : Prop :=
  ∃ p, verdict.platformTrust = some p ∧ p.ok = true ∧ p.mode ≠ .missing

theorem nitro_trusted (t : TeeProofWire) (trust : EvidenceTrust) (now : Option ℚ)
    (passed : ∀ c ∈ (nitroVerifyEvidence node t trust now).checks, c.ok = true) :
    PlatformTrusted (nitroVerifyEvidence node t trust now) := by
  unfold nitroVerifyEvidence at passed ⊢
  split at passed
  next => simp at passed
  next att run =>
    have chain := passed _ List.mem_cons_self
    exact ⟨_, rfl, chain, by simp⟩

theorem qingtian_passed (t : TeeProofWire) (trust : EvidenceTrust) (now : Option ℚ)
    (passed : ∀ c ∈ (QingTian.verifyEvidence node t trust now).checks, c.ok = true) :
    EvidenceBound node t trust now (QingTian.verifyEvidence node t trust now) ∧
      PlatformTrusted (QingTian.verifyEvidence node t trust now) := by
  generalize same : QingTian.verifyEvidence node t trust now = verdict at passed ⊢
  unfold QingTian.verifyEvidence at same
  split at same
  next =>
    subst same
    simp at passed
  next evidence parsed =>
    cases run : (QingTian.evidenceChecks node evidence t trust now).run
        [{ name := "QingTian evidence 格式", ok := true, detail := "COSE_Sign1/QTSM payload 可解析" }] with
    | mk result out =>
      cases result with
      | error message =>
        simp only [Checking.guarded, run] at same
        subst same
        have failed := passed _ (List.mem_append_right _ (List.mem_singleton.mpr rfl))
        simp at failed
      | ok values =>
        obtain ⟨_, _, _, _, chain, ⟨_, _, key⟩, _, _, nonce⟩ := qingtian_records node evidence t trust now _ out values run
        simp only [Checking.guarded, run] at same
        subst same
        have publicKey := passed _ key
        have nonceOk := passed _ nonce
        simp only [check, beq_iff_eq] at publicKey nonceOk
        refine ⟨.qingtian ?_ evidence parsed publicKey nonceOk, ?_⟩
        · simp only [QingTian.verifyEvidence, parsed, Checking.guarded, run]
        · exact ⟨_, rfl, passed _ chain, by simp⟩

theorem aliyun_ok (t : TeeProofWire) (trust : EvidenceTrust) (now : Option ℚ) (verdict : EvidenceVerdict)
    (run : AliyunVtpm.verifyEvidence node t trust now = .ok verdict) (passed : ∀ c ∈ verdict.checks, c.ok = true) :
    verdict.ok = true := by
  unfold AliyunVtpm.verifyEvidence at run
  split at run
  next =>
    cases run
    simp at passed
  next =>
    obtain ⟨_, _, run⟩ := Throws.bind_ok run
    obtain ⟨_, _, run⟩ := Throws.bind_ok run
    cases run
    exact List.all_eq_true.mpr passed

open AliyunVtpm in
theorem acceptChain_mode {platform : PlatformTrust} {leaf root intermediate : node.Cert} {r : PlatformResult}
    (run : acceptChain node platform leaf root intermediate = .ok r) : r.platformTrust.mode = .certChain := by
  unfold acceptChain at run
  dsimp only at run
  split at run
  next =>
    obtain ⟨named, _, run⟩ := Throws.bind_ok run
    split at run
    · cases run
      rfl
    · cases run
      rfl
  next =>
    cases run
    rfl

open AliyunVtpm in
theorem searchIntermediates_mode {platform : PlatformTrust} {at_ : ℚ} {leaf root : node.Cert}
    {certs : List node.Cert} {r : PlatformResult}
    (run : searchIntermediates node platform at_ leaf root certs = .ok (some r)) : r.platformTrust.mode = .certChain := by
  induction certs with
  | nil => cases run
  | cons intermediate rest ih =>
    unfold searchIntermediates at run
    dsimp only at run
    split at run
    · exact ih run
    · obtain ⟨issued, _, run⟩ := Throws.bind_ok run
      split at run
      · exact ih run
      · obtain ⟨issued, _, run⟩ := Throws.bind_ok run
        split at run
        · exact ih run
        · obtain ⟨result, accepted, run⟩ := Throws.bind_ok run
          cases run
          exact acceptChain_mode node accepted

open AliyunVtpm in
theorem searchRoots_mode {platform : PlatformTrust} {at_ : ℚ} {leaf : node.Cert} {intermediates certs : List node.Cert}
    {r : PlatformResult} (run : searchRoots node platform at_ leaf intermediates certs = .ok r) :
    r.platformTrust.mode = .certChain := by
  induction certs with
  | nil =>
    cases run
    rfl
  | cons root rest ih =>
    unfold searchRoots at run
    dsimp only at run
    split at run
    · exact ih run
    · obtain ⟨key, _, run⟩ := Throws.bind_ok run
      split at run
      · exact ih run
      · split at run
        · exact ih run
        · obtain ⟨found, searched, run⟩ := Throws.bind_ok run
          cases found with
          | none => exact ih run
          | some result =>
            cases run
            exact searchIntermediates_mode node searched

/-- A platform is trusted only by a chain that was evaluated. -/
theorem evaluatePlatformTrust_ok {evidence : JsVal} {trust : EvidenceTrust}
    {certInfo : Option (AliyunVtpm.CertInfo node)} {now : Option ℚ} {r : AliyunVtpm.PlatformResult}
    (run : AliyunVtpm.evaluatePlatformTrust node evidence trust certInfo now = .ok r)
    (ok : r.platformTrust.ok = true) : r.platformTrust.mode = .certChain := by
  unfold AliyunVtpm.evaluatePlatformTrust at run
  split at run
  next =>
    unfold AliyunVtpm.evaluateCertChainTrust at run
    split at run
    next =>
      cases run
      rfl
    next leaf _ =>
      dsimp only at run
      split at run
      · cases run
        rfl
      · split at run
        next =>
          cases run
          rfl
        next roots intermediates _ =>
          split at run
          · cases run
            rfl
          · split at run
            · cases run
              rfl
            · split at run
              · obtain ⟨text, _, run⟩ := Throws.bind_ok run
                cases run
                rfl
              · exact searchRoots_mode node run
  next =>
    cases run
    cases ok

/-- Evidence that passed under a platform that is reported as trusted is bound. -/
theorem evidence_bound {input : TeeVerifyInput} {profile : JStr} {verdict : EvidenceVerdict}
    (ran : RanAndPassed node input profile verdict) (platform : ∀ p, verdict.platformTrust = some p → p.ok = true) :
    EvidenceBound node (readWire input.proof) (effectiveTrust input profile) input.now verdict ∧
      PlatformTrusted verdict := by
  have passed := ran.passed
  rcases ran.ran with ⟨_, same⟩ | ⟨_, run⟩ | ⟨_, same⟩
  · rw [same] at passed ⊢
    obtain ⟨pcr0, expected, _, _, document⟩ := nitroVerifyEvidence_passed node _ _ _ passed
    exact ⟨.nitro rfl pcr0 expected document, nitro_trusted node _ _ _ passed⟩
  · obtain ⟨r, accepted⟩ := AliyunVtpm.verifyEvidence_accepted node _ _ _ verdict run
      (aliyun_ok node _ _ _ verdict run passed)
    have ok := platform _ accepted.platformTrust
    have mode := evaluatePlatformTrust_ok node accepted.trusted ok
    exact ⟨.aliyun r accepted, _, accepted.platformTrust, ok, by simp [mode]⟩
  · rw [same] at passed ⊢
    exact qingtian_passed node _ _ _ passed

theorem attestation_of_accepted {input : TeeVerifyInput} {result : TeeVerifyResult} {verdict : EvidenceVerdict}
    (run : verifyTeeExchange node input = .ok result) (accepted : AcceptedRun node input result verdict) :
    result.attestation.platformTrust = verdict.platformTrust ∧ ∀ c ∈ verdict.checks, c ∈ result.checks := by
  obtain ⟨c, wire, ok⟩ := accepted.wire
  obtain ⟨c', wire', run⟩ := Throws.bind_ok run
  obtain rfl : c = c' := Except.ok.inj (wire.symm.trans wire')
  simp only [ok, Bool.not_true, Bool.false_eq_true, if_false, verifyAccepted] at run
  obtain ⟨evidence, found, run⟩ := Throws.bind_ok run
  simp only [profileEvidence, accepted.named, if_true] at found
  obtain rfl : some verdict = evidence := Except.ok.inj (accepted.evidence.symm.trans found)
  cases run
  refine ⟨rfl, ?_⟩
  intro c member
  simp [evidenceChecks, member]

/-! The proof that is verified is the proof that was given, up to its profile. -/

theorem spread_profile (props : Props) (value : JsVal) : spread2 (.obj .undefined props) (.ofObject [("profile", value)]) =
    .obj .undefined (written props (JStr.lit "profile") value) := by
  simp only [spread2, ofObject, List.map_cons, List.map_nil, List.foldl_cons, List.foldl_nil, spread]
  exact define_plain props _ value

theorem completedProof_obj (proto : JsVal) (props : Props) (detection : PlatformDetection) :
    completedProof node (.obj proto props) detection = .obj .undefined (written props (JStr.lit "profile")
      (orElse ((JsVal.obj proto props).get "profile") (orElse detection.profile
        (ofText (profileForPlatform node detection.platform (.obj proto props)))))) :=
  spread_profile props _

theorem get_completedProof (proof : JsVal) (detection : PlatformDetection) (key : JStr) (other : key ≠ JStr.lit "profile")
    (safe : key ≠ protoKey) :
    (completedProof node proof detection).get key = .undefined ∨
      (completedProof node proof detection).get key = proof.get key := by
  cases proof with
  | obj proto props =>
    rw [completedProof_obj, get_plain _ safe, own_written, if_neg other]
    cases found : own props key with
    | none => exact .inl rfl
    | some value =>
      refine .inr ?_
      rw [JsVal.get, found]
      rfl
  | _ =>
    refine .inl ?_
    rw [completedProof]
    refine (congrArg (fun w => JsVal.get w key) (spread_profile [] _)).trans ?_
    rw [get_plain _ safe, own_written, if_neg other]
    rfl

/-- The fields every accepted proof has. -/
def acceptedFields : List String := requiredProofStringFields ++ ["http_status", "field_claims"]

theorem acceptedFields_plain :
    ∀ field ∈ acceptedFields, JStr.lit field ≠ JStr.lit "profile" ∧ JStr.lit field ≠ protoKey := by
  decide

/-- What an accepting verdict of the unified verifier stands for. -/
structure FailsClosed (input : UnifiedVerifyInput) (result : UnifiedVerifyResult) : Prop where
  core : result.core.ok = true
  fieldClaims : (input.proof.get "field_claims").isRecord = true
  measured : ∃ c ∈ result.core.checks, isMeasurementCheck c = true
  matched : ∀ c ∈ result.core.checks, isMeasurementCheck c = true → c.ok = true
  /-- The proof that was verified is the given one. -/
  read : ∀ field ∈ acceptedFields,
    (completedProof node input.proof result.detection).get field = input.proof.get field
  evidence : ∃ profile verdict,
    EvidenceBound node (readWire (completedProof node input.proof result.detection))
      (effectiveTrust (coreInput input (completedProof node input.proof result.detection)
        (buildTrust input result.detection.platform)) profile) input.now verdict ∧
    (∀ c ∈ verdict.checks, c ∈ result.core.checks) ∧ PlatformTrusted verdict

theorem claims_required {input : TeeVerifyInput} (required : input.requireFieldClaims = true) (t : TeeProofWire)
    (passed : ∀ c ∈ bindingChecks node input t, c.ok = true) : isTruthy t.fieldClaims = true := by
  simp only [bindingChecks, required, Bool.true_and, List.forall_mem_append] at passed
  obtain ⟨⟨⟨⟨_, missing⟩, _⟩, _⟩, _⟩ := passed
  by_contra absent
  rw [Bool.not_eq_true] at absent
  simp [absent] at missing

theorem record_of_truthy {value : JsVal} (valid : isUndefined value = true ∨ value.isRecord = true)
    (truthy : isTruthy value = true) : value.isRecord = true := by
  rcases valid with absent | record
  · rw [not_truthy_of_undefined _ absent] at truthy
    cases truthy
  · exact record

/-- Unified verification fails closed. -/
theorem verifyUnifiedExchange_failsClosed (input : UnifiedVerifyInput) (result : UnifiedVerifyResult)
    (run : verifyUnifiedExchange node input = .ok result) (ok : result.ok = true) : FailsClosed node input result := by
  obtain ⟨_, _, run⟩ := Throws.bind_ok run
  obtain ⟨core, verified, run⟩ := Throws.bind_ok run
  cases run
  simp only [Bool.and_eq_true] at ok
  obtain ⟨⟨_, coreOk⟩, platformOk⟩ := ok
  simp only [summarisePlatform, Bool.and_eq_true, Bool.not_eq_true', List.isEmpty_eq_false_iff_exists_mem,
    List.mem_filter, List.all_eq_true] at platformOk
  obtain ⟨⟨⟨⟨_, measured, matched⟩, _⟩, _⟩, trusted⟩ := platformOk
  unfold verifyCore at verified
  dsimp only at verified
  split at verified
  next =>
    cases verified
    cases coreOk
  next =>
    obtain ⟨verdict, accepted⟩ := verifyTeeExchange_accepted node _ core verified coreOk
    have ran := ranAndPassed_of_accepted node _ core verdict accepted
    obtain ⟨reported, listed⟩ := attestation_of_accepted node verified accepted
    have platform : ∀ p, verdict.platformTrust = some p → p.ok = true := by
      intro p eq
      simpa [reported, eq] using trusted
    obtain ⟨bound, platformTrusted⟩ := evidence_bound node ran platform
    obtain ⟨c, wire, wireOk⟩ := accepted.wire
    have wireFields := verifyWireEnvelope_accepted node _ c wire wireOk
    have claims := record_of_truthy wireFields.claims (claims_required node rfl _ accepted.bound)
    have defined : ∀ field ∈ acceptedFields, (completedProof node input.proof
        (detectProofPlatform node input.proof input.defaultPlatform)).get field ≠ .undefined := by
      intro field member absent
      rcases List.mem_append.mp member with required | other
      · obtain ⟨s, text, _⟩ := wireFields.strings field required
        exact absurd (text.symm.trans absent) (by simp)
      · simp only [List.mem_cons, List.not_mem_nil, or_false] at other
        rcases other with rfl | rfl
        · have status := wireFields.status
          rw [coreInput, absent] at status
          cases status
        · have record : (JsVal.undefined).isRecord = true := absent ▸ claims
          cases record
    have read : ∀ field ∈ acceptedFields, (completedProof node input.proof
        (detectProofPlatform node input.proof input.defaultPlatform)).get field = input.proof.get field := by
      intro field member
      obtain ⟨other, safe⟩ := acceptedFields_plain field member
      exact (get_completedProof node _ _ _ other safe).resolve_left (defined field member)
    refine ⟨coreOk, ?_, measured, ?_, read, _, verdict, bound, listed, platformTrusted⟩
    · exact read "field_claims" (by decide) ▸ claims
    · intro c member isMeasurement
      exact matched c ⟨member, isMeasurement⟩

/-- Claims on an error response of the chat protocol. -/
def sampleClaims : JsVal := .ofObject
  [("protocol_family", .str (familyName .openaiChat)), ("proof_type", .lit "field-proof"),
    ("verification_mode", .lit "field_claims"), ("request_schema_version", .str (schemaVersion .openaiChat)),
    ("response_schema_version", .str (schemaVersion .openaiChat)),
    ("field_policy_id", .str (fieldPolicyId .openaiChat)), ("assurance_level", .lit "strong"),
    ("cross_protocol", .bool false), ("semantic_equivalence_not_proven", .bool false),
    ("body_hash_policy", .lit "advisory"), ("request_body_sha256_severity", .lit "advisory"),
    ("response_body_sha256_severity", .lit "advisory"), ("nonce", .lit "AAAA"), ("upstream_host", .lit "api.example"),
    ("upstream_path", .lit "/v1"), ("http_method", .lit "POST"), ("http_status", .num 200),
    ("upstream_response_fields_sha256", .str (sha256Hex (Node.sample [] [] [] [] 0) []))]

def claimedProof : JsVal := (samplePlainProof "api.example" "/v1" "POST").set (JStr.lit "field_claims") sampleClaims

def errorBody : JStr := "{error}"

/-- The host of the Nitro sample, which also knows the error body and the signature over
the statement with claims. -/
def unifiedNode : Node :=
  Node.sample [] [(errorBody, .ofObject [("error", .bool true)])]
    [([3, 3, 3], buildV2Statement (Node.sample [] [] [] [] 0) (readWire claimedProof).statementFields, [7, 7, 7]),
      ([1], sampleSigStructure.toOption.getD [], [9])] [([2], awsNitroRootFp)] 1000

def unifiedInput : UnifiedVerifyInput where
  proof := claimedProof
  responseBody := errorBody.utf8
  trustedMeasurement := some (JStr.lit "aa")

theorem unifiedInput_run : ∃ result, verifyUnifiedExchange unifiedNode unifiedInput = .ok result ∧ result.ok = true := by
  have accepted : UnifiedVerifyResult.ok <$> verifyUnifiedExchange unifiedNode unifiedInput = .ok true := by
    decide +kernel
  exact Throws.map_ok accepted

theorem verifyUnifiedExchange_failsClosed_sample :
    ∃ result, verifyUnifiedExchange unifiedNode unifiedInput = .ok result ∧ result.ok = true ∧
      FailsClosed unifiedNode unifiedInput result := by
  obtain ⟨result, run, ok⟩ := unifiedInput_run
  exact ⟨result, run, ok, verifyUnifiedExchange_failsClosed unifiedNode unifiedInput result run ok⟩

end TeeProof.Verifier.Unified
