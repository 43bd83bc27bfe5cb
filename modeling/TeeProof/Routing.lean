import TeeProof.Unified

/-! From the hints of a proof to the evidence verifier that runs: the profile a known
platform stands for, the conflict check on declared profiles and the completed proof. -/
namespace TeeProof.Verifier.Unified

open JsVal

variable (node : Node)

theorem among_cases {names : List String} {s : JStr} (member : among names s = true) :
    ∃ name ∈ names, s = JStr.lit name := by
  simp only [among, List.contains_eq_mem, decide_eq_true_eq, List.mem_map] at member
  obtain ⟨name, inside, eq⟩ := member
  exact ⟨name, inside, eq.symm⟩

/-- The spellings of a profile, in lower case. -/
def spellings : List (JStr × List String) :=
  [(nitro, ["nitro", "aws-nitro", "aws_nitro"]),
    (aliyunVtpm, ["aliyun-vtpm", "aliyun_vtpm", "aliyun-enclave"]),
    (qingtian, ["qingtian", "huawei-qingtian", "huawei_qingtian"])]

theorem normalise_cases {value : JsVal} {profile : JStr} (normal : normaliseEvidenceProfile node value = some profile) :
    ∃ names, (profile, names) ∈ spellings ∧ ∃ name ∈ names, lowered node value = JStr.lit name := by
  simp only [normaliseEvidenceProfile] at normal
  split at normal
  next member =>
    cases normal
    exact ⟨_, by simp [spellings], among_cases member⟩
  next =>
    split at normal
    next member =>
      cases normal
      exact ⟨_, by simp [spellings], among_cases member⟩
    next =>
      split at normal
      next member =>
        cases normal
        exact ⟨_, by simp [spellings], among_cases member⟩
      next => cases normal

/-- `platformIdFromProfile` on a text in lower case. -/
def platformOfLower (s : JStr) : TeePlatformId :=
  if s = JStr.lit "nitro" || s.includes "aws-nitro" then .aws
  else if s.includes "aliyun" || s.includes "vtpm" then .aliyun
  else if s.includes "qingtian" || s.includes "huawei" then .huawei
  else .unknown

theorem platformOfLower_spellings : ∀ p ∈ spellings, ∀ name ∈ p.2, platformOfLower (JStr.lit name) ≠ .unknown →
    canonicalProfileForPlatform (platformOfLower (JStr.lit name)) = some p.1 := by
  decide

theorem nonempty_spellings : ∀ p ∈ spellings, ∀ name ∈ p.2, [] ≠ JStr.lit name := by
  decide

/-- Where both classifiers know a spelling they agree on it. -/
theorem normalise_platform {value : JsVal} {profile : JStr}
    (normal : normaliseEvidenceProfile node value = some profile)
    (known : platformIdFromProfile node value ≠ .unknown) :
    canonicalProfileForPlatform (platformIdFromProfile node value) = some profile := by
  obtain ⟨names, listed, name, inside, lower⟩ := normalise_cases node normal
  have same : platformIdFromProfile node value = platformOfLower (JStr.lit name) := by
    rw [← lower]
    rfl
  rw [same] at known ⊢
  exact platformOfLower_spellings _ listed name inside known

theorem canonical_isSome {platform : TeePlatformId} (known : platform ≠ .unknown) :
    ∃ profile, canonicalProfileForPlatform platform = some profile := by
  cases platform with
  | aws => exact ⟨_, rfl⟩
  | aliyun => exact ⟨_, rfl⟩
  | huawei => exact ⟨_, rfl⟩
  | unknown => exact absurd rfl known

theorem canonical_nonempty {platform : TeePlatformId} {profile : JStr}
    (named : canonicalProfileForPlatform platform = some profile) : profile ≠ [] := by
  cases platform <;> cases named <;> decide

/-- A detection of a known platform whose profile, if it has one, is the platform's own. -/
structure Detected (detection : PlatformDetection) (profile : JStr) : Prop where
  known : detection.platform ≠ .unknown
  canonical : canonicalProfileForPlatform detection.platform = some profile
  named : detection.profile = .undefined ∨ detection.profile = .str profile

theorem detectProofPlatform_detected (proof : JsVal) (fallback : Option TeePlatformId)
    (known : (detectProofPlatform node proof fallback).platform ≠ .unknown) :
    ∃ profile, Detected (detectProofPlatform node proof fallback) profile := by
  have own {platform : TeePlatformId} {source : DetectionSource} (h : platform ≠ .unknown) :
      ∃ profile, Detected ⟨platform, ofText (canonicalProfileForPlatform platform), source⟩ profile := by
    obtain ⟨profile, eq⟩ := canonical_isSome h
    exact ⟨profile, h, eq, .inr (by rw [eq]; rfl)⟩
  have declared {value : JsVal} {source : DetectionSource} (h : platformIdFromProfile node value ≠ .unknown) :
      ∃ profile, Detected ⟨platformIdFromProfile node value, ofText (normaliseEvidenceProfile node value), source⟩
        profile := by
    obtain ⟨profile, eq⟩ := canonical_isSome h
    refine ⟨profile, h, eq, ?_⟩
    cases normal : normaliseEvidenceProfile node value with
    | none => exact .inl rfl
    | some q =>
      obtain rfl : q = profile := Option.some.inj ((normalise_platform node normal h).symm.trans eq)
      exact .inr rfl
  unfold detectProofPlatform at known ⊢
  dsimp only at known ⊢
  split
  next h => exact own h
  next =>
    split
    next h => exact declared h
    next =>
      split
      next h => exact declared h
      next =>
        split
        next h => exact own h
        next =>
          split
          next h => exact own h
          next a b c d e =>
            simp only [a, b, c, d, e, if_false] at known
            split at known
            next => exact absurd rfl known
            next => exact absurd rfl known
            next => exact own known

theorem orElse_str (s : JStr) (b : JsVal) : orElse (.str s) b = .str s := rfl

theorem Detected.expected {detection : PlatformDetection} {profile : JStr} (detected : Detected detection profile) :
    orElse detection.profile (ofText (canonicalProfileForPlatform detection.platform)) = .str profile := by
  rcases detected.named with eq | eq
  · rw [eq, detected.canonical]
    rfl
  · rw [eq]
    rfl

/-- No declared profile is another one. -/
structure Unopposed (proof : JsVal) (profile : JStr) : Prop where
  teeProfile : ∀ q, normaliseEvidenceProfile node (proof.get "tee_profile") = some q → q = profile
  profile : ∀ q, normaliseEvidenceProfile node (proof.get "profile") = some q → q = profile

theorem declaredProfileConflict_none {proof : JsVal} {detection : PlatformDetection} {profile : JStr}
    (detected : Detected detection profile) :
    declaredProfileConflict node proof detection = none ↔ Unopposed node proof profile := by
  obtain ⟨u, rest, cons⟩ := List.exists_cons_of_ne_nil (canonical_nonempty detected.canonical)
  have expected := detected.expected
  rw [cons] at expected
  unfold declaredProfileConflict
  rw [if_neg detected.known, expected]
  simp only [Option.map_eq_none_iff, List.find?_eq_none, ← cons, declaredProfiles]
  constructor
  · intro all
    constructor
    · intro q normal
      have found := all (JStr.lit "tee_profile", q) (by simp [normal])
      simpa using found
    · intro q normal
      have found := all (JStr.lit "profile", q) (by simp [normal])
      simpa using found
  · rintro ⟨tee, own⟩ p member
    simp only [List.mem_filterMap, List.mem_cons, List.not_mem_nil, or_false, Option.map_eq_some_iff] at member
    obtain ⟨q, listed, value, normal, rfl⟩ := member
    rcases listed with rfl | rfl
    · simpa using tee value normal
    · simpa using own value normal

theorem detectionCheck_ok {proof : JsVal} {detection : PlatformDetection} (ok : (detectionCheck node proof detection).ok = true) :
    detection.platform ≠ .unknown ∧ declaredProfileConflict node proof detection = none := by
  unfold detectionCheck at ok
  split at ok
  next => cases ok
  next known =>
    split at ok
    next => cases ok
    next none => exact ⟨known, none⟩

theorem Unopposed.resolved {proof : JsVal} {profile : JStr} (unopposed : Unopposed node proof profile)
    {platform : TeePlatformId} (canonical : canonicalProfileForPlatform platform = some profile) :
    profileForPlatform node platform proof = some profile := by
  unfold profileForPlatform
  cases tee : normaliseEvidenceProfile node (proof.get "tee_profile") with
  | some q =>
    rw [unopposed.teeProfile q tee]
    rfl
  | none =>
    cases own : normaliseEvidenceProfile node (proof.get "profile") with
    | some q =>
      rw [unopposed.profile q own]
      rfl
    | none => exact canonical

/-- The profile the verified proof carries. -/
theorem completed_profile {proof : JsVal} {detection : PlatformDetection} {profile : JStr}
    (detected : Detected detection profile) (unopposed : Unopposed node proof profile) :
    (completedProof node proof detection).get "profile" = orElse (proof.get "profile") (.str profile) := by
  have filled : orElse detection.profile (ofText (profileForPlatform node detection.platform proof)) = .str profile := by
    rcases detected.named with eq | eq
    · rw [eq, unopposed.resolved node detected.canonical]
      rfl
    · rw [eq]
      rfl
  have added (props : Props) (value : JsVal) :
      (spread2 (.obj .undefined props) (.ofObject [("profile", value)])).get (JStr.lit "profile") = value := by
    simp only [spread2, ofObject, List.map_cons, List.map_nil, List.foldl_cons, List.foldl_nil, spread]
    rw [define_plain, get_plain _ (by decide), own_written, if_pos rfl]
    rfl
  unfold completedProof
  dsimp only
  rw [filled]
  cases proof with
  | obj proto props => exact added props _
  | _ => exact added [] _

/-! The verifier that runs. -/

theorem buildTrust_completed (input : UnifiedVerifyInput) (platform : TeePlatformId) :
    (buildTrust input platform).profile =
      (match given (input.trust.getD {}).profile, canonicalProfileForPlatform platform with
        | none, some profile => { input.trust.getD {} with profile := some profile }
        | _, _ => input.trust.getD {}).profile := by
  unfold buildTrust
  dsimp only
  rw [apply_ite EvidenceTrust.profile]
  exact ite_self _

theorem buildTrust_profile (input : UnifiedVerifyInput) {platform : TeePlatformId} {profile : JStr}
    (canonical : canonicalProfileForPlatform platform = some profile) :
    given (buildTrust input platform).profile = some ((configured input.trust).getD profile) := by
  have completed := buildTrust_completed input platform
  have same : given (input.trust.getD {}).profile = configured input.trust := by
    cases input.trust with
    | none => rfl
    | some trust => rfl
  rw [completed, canonical, same]
  cases chosen : configured input.trust with
  | none => exact given_some profile (canonical_nonempty canonical)
  | some other =>
    rw [← same] at chosen
    exact chosen

/-- What an accepting verdict of the unified verifier went through. -/
structure Routed (input : UnifiedVerifyInput) (result : UnifiedVerifyResult) (profile : JStr) (verdict : EvidenceVerdict) :
    Prop where
  detection : result.detection = detectProofPlatform node input.proof input.defaultPlatform
  detected : Detected result.detection profile
  unopposed : Unopposed node input.proof profile
  accepted : AcceptedRun node (coreInput input (completedProof node input.proof result.detection)
    (buildTrust input result.detection.platform)) result.core verdict
  platform : result.platform.detectedTeePlatform = result.detection.platform
  reported : result.platform.detectedTeeProfile = orElse result.detection.profile (ofText result.core.attestation.profile)

theorem verifyUnifiedExchange_routed {input : UnifiedVerifyInput} {result : UnifiedVerifyResult}
    (run : verifyUnifiedExchange node input = .ok result) (ok : result.ok = true) :
    ∃ profile verdict, Routed node input result profile verdict := by
  obtain ⟨_, _, run⟩ := Throws.bind_ok run
  obtain ⟨core, verified, run⟩ := Throws.bind_ok run
  cases run
  simp only [Bool.and_eq_true] at ok
  obtain ⟨⟨detectedOk, coreOk⟩, _⟩ := ok
  obtain ⟨known, unopposed⟩ := detectionCheck_ok node detectedOk
  obtain ⟨profile, detected⟩ := detectProofPlatform_detected node _ _ known
  unfold verifyCore at verified
  dsimp only at verified
  split at verified
  next =>
    cases verified
    cases coreOk
  next =>
    obtain ⟨verdict, accepted⟩ := verifyTeeExchange_accepted node _ core verified coreOk
    exact ⟨profile, verdict, rfl, detected, (declaredProfileConflict_none node detected).mp unopposed, accepted, rfl, rfl⟩

section Routed

variable {node} {input : UnifiedVerifyInput} {result : UnifiedVerifyResult} {profile : JStr} {verdict : EvidenceVerdict}
  (routed : Routed node input result profile verdict)

include routed

/-- The profile whose verifier ran: the caller's, or else the platform's. -/
theorem Routed.ran : RanAndPassed node (coreInput input (completedProof node input.proof result.detection)
    (buildTrust input result.detection.platform)) ((configured input.trust).getD profile) verdict ∧
    result.core.attestation.profile = some ((configured input.trust).getD profile) := by
  have chosen : configuredProfile (some (buildTrust input result.detection.platform))
      (readWire (completedProof node input.proof result.detection)) = (configured input.trust).getD profile := by
    simp [configuredProfile, buildTrust_profile input routed.detected.canonical]
  have ran := ranAndPassed_of_accepted node _ _ _ routed.accepted
  have reported := routed.accepted.profile
  simp only [coreInput, chosen] at ran reported
  exact ⟨ran, reported⟩

/-- A profile the proof names is the one that was chosen. -/
theorem Routed.named : given (readWire (completedProof node input.proof result.detection)).profile = none ∨
    given (readWire (completedProof node input.proof result.detection)).profile =
      some ((configured input.trust).getD profile) := by
  have chosen : configuredProfile (some (buildTrust input result.detection.platform))
      (readWire (completedProof node input.proof result.detection)) = (configured input.trust).getD profile := by
    simp [configuredProfile, buildTrust_profile input routed.detected.canonical]
  have named := routed.accepted.named
  simp only [coreInput, chosen] at named
  exact named_profile _ _ named

end Routed

/-- The evidence verifier that ran is the one of the reported platform, under the reported profile. -/
def PlatformVerified (input : UnifiedVerifyInput) (result : UnifiedVerifyResult) : Prop :=
  ∃ profile verdict, canonicalProfileForPlatform result.platform.detectedTeePlatform = some profile ∧
    RanAndPassed node (coreInput input (completedProof node input.proof result.detection)
      (buildTrust input result.detection.platform)) profile verdict ∧
    result.core.attestation.profile = some profile ∧ result.platform.detectedTeeProfile = .str profile

/-- The proof leaves its profile empty and the caller asks for another one than the platform's. -/
def Overridden (input : UnifiedVerifyInput) : Prop :=
  input.proof.get "profile" = .str [] ∧ ∃ profile, configured input.trust = some profile ∧
    canonicalProfileForPlatform (detectProofPlatform node input.proof input.defaultPlatform).platform ≠ some profile

theorem normalise_registered (lowers : ∀ name ∈ [nitro, aliyunVtpm, qingtian], node.toLowerCase name = name)
    {profile : JStr} (registered : profile ∈ [nitro, aliyunVtpm, qingtian]) :
    normaliseEvidenceProfile node (.str profile) = some profile := by
  have lower : lowered node (.str profile) = profile := lowers profile registered
  simp only [List.mem_cons, List.not_mem_nil, or_false] at registered
  simp only [normaliseEvidenceProfile, lower]
  rcases registered with rfl | rfl | rfl <;> decide

theorem RanAndPassed.registered {node : Node} {input : TeeVerifyInput} {profile : JStr} {verdict : EvidenceVerdict}
    (ran : RanAndPassed node input profile verdict) : profile ∈ [nitro, aliyunVtpm, qingtian] := by
  rcases ran.ran with ⟨rfl, _⟩ | ⟨rfl, _⟩ | ⟨rfl, _⟩ <;> simp

/-- Unless the proof's profile is empty, what was chosen is the profile of the platform. -/
theorem readWire_profile (proof : JsVal) : (readWire proof).profile =
    match proof.get "profile" with
    | .str s => some s
    | _ => none := rfl

theorem Routed.chosen {node : Node} {input : UnifiedVerifyInput} {result : UnifiedVerifyResult} {profile : JStr}
    {verdict : EvidenceVerdict} (routed : Routed node input result profile verdict)
    (lowers : ∀ name ∈ [nitro, aliyunVtpm, qingtian], node.toLowerCase name = name)
    (present : input.proof.get "profile" ≠ .str []) : (configured input.trust).getD profile = profile := by
  have completed := completed_profile node routed.detected routed.unopposed
  obtain ⟨c, wire, wireOk⟩ := routed.accepted.wire
  have valid := (verifyWireEnvelope_accepted node _ c wire wireOk).profile
  have read := readWire_profile (completedProof node input.proof result.detection)
  have named := routed.named
  rw [read, completed] at named
  simp only [coreInput] at valid
  rw [completed] at valid
  have nonempty := canonical_nonempty routed.detected.canonical
  cases given : input.proof.get "profile" with
  | str s =>
    rw [given, orElse_str] at named
    have some : s ≠ [] := fun empty => present (by rw [given, empty])
    rw [given_some s some] at named
    have same : s = (configured input.trust).getD profile := by simpa using named
    refine routed.unopposed.profile _ ?_
    rw [given, same]
    exact normalise_registered node lowers (RanAndPassed.registered routed.ran.1)
  | undefined =>
    rw [given] at named
    have filled : orElse .undefined (.str profile) = .str profile := rfl
    rw [filled, given_some profile nonempty] at named
    have same : profile = (configured input.trust).getD profile := by simpa using named
    exact same.symm
  | null =>
    rw [given] at named
    have filled : orElse .null (.str profile) = .str profile := rfl
    rw [filled, given_some profile nonempty] at named
    have same : profile = (configured input.trust).getD profile := by simpa using named
    exact same.symm
  | bool b =>
    rw [given] at valid
    simp [orElse, isNullish, isUndefined, isString] at valid
  | num n =>
    rw [given] at valid
    simp [orElse, isNullish, isUndefined, isString] at valid
  | arr items =>
    rw [given] at valid
    simp [orElse, isNullish, isUndefined, isString] at valid
  | obj proto props =>
    rw [given] at valid
    simp [orElse, isNullish, isUndefined, isString] at valid

/-- The platform that is named is the platform that was verified, unless the proof's profile is
empty and the caller's trust asks for another one. -/
theorem platformVerified_iff (lowers : ∀ name ∈ [nitro, aliyunVtpm, qingtian], node.toLowerCase name = name)
    (input : UnifiedVerifyInput) (result : UnifiedVerifyResult)
    (run : verifyUnifiedExchange node input = .ok result) (ok : result.ok = true) :
    PlatformVerified node input result ↔ ¬Overridden node input := by
  obtain ⟨profile, verdict, routed⟩ := verifyUnifiedExchange_routed node run ok
  obtain ⟨ran, reported⟩ := routed.ran
  constructor
  · rintro ⟨other, _, canonical, _, core, _⟩ ⟨_, trusted, set, apart⟩
    rw [reported, set, Option.getD_some, Option.some.injEq] at core
    rw [routed.platform, routed.detection, ← core] at canonical
    exact apart canonical
  · intro free
    have chosen : (configured input.trust).getD profile = profile := by
      by_cases empty : input.proof.get "profile" = .str []
      · cases set : configured input.trust with
        | none => rfl
        | some trusted =>
          by_contra apart
          refine free ⟨empty, trusted, set, ?_⟩
          rw [← routed.detection, routed.detected.canonical, Ne, Option.some.injEq]
          exact fun same => apart same.symm
      · exact routed.chosen lowers empty
    rw [chosen] at ran reported
    refine ⟨profile, verdict, ?_, ran, reported, ?_⟩
    · rw [routed.platform]
      exact routed.detected.canonical
    · rw [routed.reported, reported]
      rcases routed.detected.named with eq | eq
      · rw [eq]
        rfl
      · rw [eq]
        rfl

theorem platformVerified_iff_sample :
    (∀ name ∈ [nitro, aliyunVtpm, qingtian], unifiedNode.toLowerCase name = name) ∧
      ∃ result, verifyUnifiedExchange unifiedNode unifiedInput = .ok result ∧ result.ok = true ∧
        (PlatformVerified unifiedNode unifiedInput result ↔ ¬Overridden unifiedNode unifiedInput) := by
  have lowers : ∀ name ∈ [nitro, aliyunVtpm, qingtian], unifiedNode.toLowerCase name = name := by decide
  obtain ⟨result, run, ok⟩ := unifiedInput_run
  exact ⟨lowers, result, run, ok, platformVerified_iff unifiedNode lowers unifiedInput result run ok⟩

/-- Nitro evidence under the name of another platform, with an empty profile. -/
def disguisedInput : UnifiedVerifyInput where
  proof := (claimedProof.set (JStr.lit "tee_platform") (.lit "aliyun")).set (JStr.lit "profile") (.str [])
  responseBody := errorBody.utf8
  trust := some { profile := some nitro, expectedPcr0 := some (JStr.lit "aa") }

/-- Nitro evidence is accepted and reported as the evidence of Aliyun. -/
theorem disguised_platform : ∃ result, verifyUnifiedExchange unifiedNode disguisedInput = .ok result ∧
    result.ok = true ∧ result.platform.detectedTeePlatform = .aliyun ∧
    result.core.attestation.profile = some nitro ∧ ¬PlatformVerified unifiedNode disguisedInput result := by
  have accepted : (fun r : UnifiedVerifyResult => (r.ok, r.platform.detectedTeePlatform, r.core.attestation.profile)) <$>
      verifyUnifiedExchange unifiedNode disguisedInput = .ok (true, .aliyun, some nitro) := by
    decide +kernel
  obtain ⟨result, run, same⟩ := Throws.map_ok accepted
  simp only [Prod.mk.injEq] at same
  obtain ⟨ok, platform, core⟩ := same
  refine ⟨result, run, ok, platform, core, ?_⟩
  rintro ⟨profile, _, canonical, _, named, _⟩
  rw [platform] at canonical
  rw [core] at named
  have same : nitro = aliyunVtpm := Option.some.inj (named.trans canonical.symm)
  exact absurd same (by decide)

/-! Spellings of one profile. -/

inductive ProfileField where
  | profile
  | teeProfile

def ProfileField.key : ProfileField → JStr
  | .profile => "profile"
  | .teeProfile => "tee_profile"

/-- The exchange whose proof is the given object with one profile field spelled so. -/
def spelled (input : UnifiedVerifyInput) (proto : JsVal) (props : Props) (field : ProfileField) (spelling : JStr) :
    UnifiedVerifyInput :=
  { input with proof := .obj proto (written props field.key (.str spelling)) }

def Accepts (input : UnifiedVerifyInput) : Prop :=
  ∃ result, verifyUnifiedExchange node input = .ok result ∧ result.ok = true

/-- What the verdict on the wire envelope and the fields of the statement read. -/
def wireFields : List String :=
  requiredProofStringFields ++ ["v", "alg", "http_status", "profile", "evidence", "field_claims"]

section Congruence

variable {a b : JsVal} (record : a.isRecord = b.isRecord) (same : ∀ field ∈ wireFields, a.get field = b.get field)

include same

theorem readWire_congr : readWire a = readWire b := by
  have strings : ∀ field ∈ requiredProofStringFields, a.get field = b.get field :=
    fun field member => same field (List.mem_append_left _ member)
  simp only [readWire, strings "public_key" (by decide), strings "nonce" (by decide),
    strings "upstream_host" (by decide), strings "upstream_path" (by decide), strings "http_method" (by decide),
    strings "resp_content_type" (by decide), strings "request_body_sha256" (by decide),
    strings "response_body_sha256" (by decide), strings "signature" (by decide), strings "attestation" (by decide),
    same "http_status" (by decide), same "profile" (by decide), same "evidence" (by decide),
    same "field_claims" (by decide)]

theorem fieldErrors_congr : fieldErrors a = fieldErrors b := by
  have strings : requiredProofStringFields.flatMap (stringFieldErrors a) =
      requiredProofStringFields.flatMap (stringFieldErrors b) := by
    refine List.flatMap_congr fun field member => ?_
    simp only [stringFieldErrors, same field (List.mem_append_left _ member)]
  simp only [fieldErrors, strings, hexErrors, same "http_status" (by decide), same "profile" (by decide),
    same "evidence" (by decide), same "field_claims" (by decide), same "request_body_sha256" (by decide),
    same "response_body_sha256" (by decide)]

include record

theorem verifyWireEnvelope_congr : verifyWireEnvelope node a = verifyWireEnvelope node b := by
  simp only [verifyWireEnvelope, wireErrors, constantErrors, record, fieldErrors_congr same, same "v" (by decide),
    same "alg" (by decide)]

theorem verifyTeeExchange_congr (input : UnifiedVerifyInput) (trust : EvidenceTrust) :
    verifyTeeExchange node (coreInput input a trust) = verifyTeeExchange node (coreInput input b trust) := by
  have evidence (profile : JStr) (t : TeeProofWire) : profileEvidence node (coreInput input a trust) profile t =
      profileEvidence node (coreInput input b trust) profile t := rfl
  have bound (t : TeeProofWire) : bindingChecks node (coreInput input a trust) t =
      bindingChecks node (coreInput input b trust) t := rfl
  have wire := verifyWireEnvelope_congr node record same
  simp only [verifyTeeExchange, verifyAccepted, evidence, bound]
  simp only [coreInput, wire, readWire_congr same]
  rfl

end Congruence

/-- What acceptance rests on. -/
theorem accepts_iff (input : UnifiedVerifyInput) (proto : JsVal) (props : Props) (object : input.proof = .obj proto props)
    (detection : PlatformDetection) (detected : detection = detectProofPlatform node input.proof input.defaultPlatform)
    (completed : JsVal) (completion : completed = completedProof node input.proof detection) :
    Accepts node input ↔ ∃ profile core, Detected detection profile ∧ Unopposed node input.proof profile ∧
      verifyTeeExchange node (coreInput input completed (buildTrust input detection.platform)) = .ok core ∧
      core.ok = true ∧ (summarisePlatform core detection completed {} none .undefined).ok = true := by
  have readable : readable input.proof = .ok () := by rw [object]; rfl
  subst detected completion
  constructor
  · rintro ⟨result, run, ok⟩
    obtain ⟨_, _, run⟩ := Throws.bind_ok run
    obtain ⟨core, verified, run⟩ := Throws.bind_ok run
    cases run
    simp only [Bool.and_eq_true] at ok
    obtain ⟨⟨detectedOk, coreOk⟩, platformOk⟩ := ok
    obtain ⟨known, unopposed⟩ := detectionCheck_ok node detectedOk
    obtain ⟨profile, detected⟩ := detectProofPlatform_detected node _ _ known
    refine ⟨profile, core, detected, (declaredProfileConflict_none node detected).mp unopposed, ?_, coreOk, platformOk⟩
    simpa [verifyCore, known, detectedOk] using verified
  · rintro ⟨profile, core, detected, unopposed, verified, coreOk, platformOk⟩
    have clear := (declaredProfileConflict_none node detected).mpr unopposed
    have detectedOk : (detectionCheck node input.proof
        (detectProofPlatform node input.proof input.defaultPlatform)).ok = true := by
      simp [detectionCheck, detected.known, clear]
    have core : verifyCore node input (detectProofPlatform node input.proof input.defaultPlatform) = .ok core := by
      simpa [verifyCore, detected.known, detectedOk] using verified
    have accepted : UnifiedVerifyResult.ok <$> verifyUnifiedExchange node input = .ok true := by
      simp only [verifyUnifiedExchange, readable, core]
      refine congrArg Except.ok ?_
      simp only [Bool.and_eq_true]
      exact ⟨⟨detectedOk, coreOk⟩, platformOk⟩
    exact Throws.map_ok accepted

theorem canonical_injective {p q : TeePlatformId} {profile : JStr} (left : canonicalProfileForPlatform p = some profile)
    (right : canonicalProfileForPlatform q = some profile) : p = q := by
  have same := left.trans right.symm
  cases p <;> cases q <;> first | rfl | exact absurd same (by decide)

/-- A proof is accepted only under the canonical spelling of its own profile. -/
theorem accepts_canonical (lowers : ∀ name ∈ [[], nitro, aliyunVtpm, qingtian], node.toLowerCase name = name)
    {input : UnifiedVerifyInput} {spelling profile : JStr} (named : input.proof.get "profile" = .str spelling)
    (normal : normaliseEvidenceProfile node (.str spelling) = some profile) (accepted : Accepts node input) :
    spelling = profile := by
  obtain ⟨result, run, ok⟩ := accepted
  obtain ⟨own, verdict, routed⟩ := verifyUnifiedExchange_routed node run ok
  have present : spelling ≠ [] := by
    rintro rfl
    have empty : lowered node (.str []) = [] := lowers [] List.mem_cons_self
    obtain ⟨names, listed, name, inside, eq⟩ := normalise_cases node normal
    rw [empty] at eq
    exact absurd eq (nonempty_spellings (profile, names) listed name inside)
  have chosen := routed.chosen (fun name member => lowers name (List.mem_cons_of_mem _ member))
    (by rw [named]; simpa using present)
  have same : profile = own := routed.unopposed.profile profile (by rw [named]; exact normal)
  have completed := completed_profile node routed.detected routed.unopposed
  have read := readWire_profile (completedProof node input.proof result.detection)
  have kept := routed.named
  rw [read, completed, named, orElse_str, given_some spelling present, chosen] at kept
  rw [same]
  simpa using kept

theorem get_written (proto : JsVal) (props : Props) (key : JStr) (value : JsVal) :
    (JsVal.obj proto (written props key value)).get key = value := by
  simp only [JsVal.get, own_written, if_true]

theorem wireFields_plain :
    ∀ field ∈ wireFields, JStr.lit field ≠ JStr.lit "tee_profile" ∧ JStr.lit field ≠ protoKey := by
  decide

theorem get_spelled {proto : JsVal} {props : Props} {key field : JStr} (spelling : JStr) (other : key ≠ field) :
    (JsVal.obj proto (written props field (.str spelling))).get key = (JsVal.obj proto props).get key := by
  simp only [JsVal.get, own_written, if_neg other]

/-- Of the proof the summary reads the key and the nonce. -/
theorem summarisePlatform_ok (core : TeeVerifyResult) {d d' : PlatformDetection} {a b : JsVal}
    (key : a.get "public_key" = b.get "public_key") (nonce : a.get "nonce" = b.get "nonce") :
    (summarisePlatform core d a {} none .undefined).ok = (summarisePlatform core d' b {} none .undefined).ok := by
  simp only [summarisePlatform, key, nonce]

theorem get_teeProfile (input : UnifiedVerifyInput) (proto : JsVal) (props : Props) (spelling : JStr) :
    (spelled input proto props .teeProfile spelling).proof.get "tee_profile" = .str spelling :=
  get_written proto props _ _

section TeeProfile

variable {node} {input : UnifiedVerifyInput} {proto : JsVal} {props : Props} {a b canonical : JStr}
  (normalA : normaliseEvidenceProfile node (.str a) = some canonical)
  (normalB : normaliseEvidenceProfile node (.str b) = some canonical)

include normalA in
theorem accepts_platform (accepted : Accepts node (spelled input proto props .teeProfile a)) :
    canonicalProfileForPlatform (detectProofPlatform node (spelled input proto props .teeProfile a).proof
      input.defaultPlatform).platform = some canonical := by
  obtain ⟨profile, core, detected, unopposed, _⟩ := (accepts_iff node _ _ _ rfl _ rfl _ rfl).mp accepted
  have same : canonical = profile := by
    refine unopposed.teeProfile canonical ?_
    rw [get_teeProfile]
    exact normalA
  rw [same]
  exact detected.canonical

include normalA normalB in
/-- Two spellings that lead to one platform lead to one verdict. -/
theorem accepts_respelled
    (platform : (detectProofPlatform node (spelled input proto props .teeProfile a).proof input.defaultPlatform).platform =
      (detectProofPlatform node (spelled input proto props .teeProfile b).proof input.defaultPlatform).platform)
    (accepted : Accepts node (spelled input proto props .teeProfile a)) :
    Accepts node (spelled input proto props .teeProfile b) := by
  have other (key : JStr) (ne : key ≠ JStr.lit "tee_profile") :
      (spelled input proto props .teeProfile b).proof.get key =
        (spelled input proto props .teeProfile a).proof.get key := by
    simp only [spelled, ProfileField.key, get_spelled _ ne]
  obtain ⟨profile, core, detected, unopposed, verified, coreOk, summaryOk⟩ :=
    (accepts_iff node _ _ _ rfl _ rfl _ rfl).mp accepted
  obtain ⟨profile', detected'⟩ : ∃ profile', Detected (detectProofPlatform node
      (spelled input proto props .teeProfile b).proof (spelled input proto props .teeProfile b).defaultPlatform) profile' :=
    detectProofPlatform_detected node _ _ (fun unknown => detected.known (platform.trans unknown))
  obtain rfl : profile = profile' := by
    have named := detected.canonical
    have named' := detected'.canonical
    exact Option.some.inj (named.symm.trans ((congrArg _ platform).trans named'))
  have unopposed' : Unopposed node (spelled input proto props .teeProfile b).proof profile := by
    constructor
    · intro q normal
      refine unopposed.teeProfile q ?_
      rw [get_teeProfile] at normal ⊢
      rw [normalA, ← normalB, normal]
    · intro q normal
      refine unopposed.profile q ?_
      rw [← other _ (by decide)]
      exact normal
  have completed : ∀ field ∈ wireFields,
      (completedProof node (spelled input proto props .teeProfile a).proof (detectProofPlatform node
        (spelled input proto props .teeProfile a).proof input.defaultPlatform)).get field =
      (completedProof node (spelled input proto props .teeProfile b).proof (detectProofPlatform node
        (spelled input proto props .teeProfile b).proof input.defaultPlatform)).get field := by
    intro field member
    by_cases isProfile : JStr.lit field = JStr.lit "profile"
    · rw [isProfile]
      have left := completed_profile node detected unopposed
      have right := completed_profile node detected' unopposed'
      rw [other _ (by decide)] at right
      exact left.trans right.symm
    · obtain ⟨apart, safe⟩ := wireFields_plain field member
      simp only [spelled, completedProof_obj, get_plain _ safe, own_written, if_neg isProfile, ProfileField.key,
        if_neg apart]
  refine (accepts_iff node _ _ _ rfl _ rfl _ rfl).mpr ⟨profile, core, detected', unopposed', ?_, coreOk, ?_⟩
  · have same := verifyTeeExchange_congr node (by rw [spelled, spelled, completedProof_obj, completedProof_obj]; rfl)
      completed input (buildTrust input (detectProofPlatform node (spelled input proto props .teeProfile a).proof
        input.defaultPlatform).platform)
    rw [platform] at same
    rw [← verified]
    exact same.symm.trans (by rw [← platform]; rfl)
  · exact (summarisePlatform_ok core (completed "public_key" (by decide)) (completed "nonce" (by decide))).symm.trans
      summaryOk

end TeeProfile

/-- The two spellings take the same route: the core compares the profile of the proof as it is
spelled, the platform is detected from the spelling of `tee_profile`. -/
def SameRoute (input : UnifiedVerifyInput) (proto : JsVal) (props : Props) (canonical a b : JStr) : ProfileField → Prop
  | .profile => a = canonical ↔ b = canonical
  | .teeProfile =>
    (detectProofPlatform node (spelled input proto props .teeProfile a).proof input.defaultPlatform).platform =
      (detectProofPlatform node (spelled input proto props .teeProfile b).proof input.defaultPlatform).platform

/-- Spellings of one profile are interchangeable where they take the same route, and only there
if one of them is accepted. -/
theorem spellings_interchangeable_iff
    (lowers : ∀ name ∈ [[], nitro, aliyunVtpm, qingtian], node.toLowerCase name = name)
    (input : UnifiedVerifyInput) (proto : JsVal) (props : Props) (field : ProfileField) (canonical a b : JStr)
    (normalA : normaliseEvidenceProfile node (.str a) = some canonical)
    (normalB : normaliseEvidenceProfile node (.str b) = some canonical) :
    (SameRoute node input proto props canonical a b field →
      (Accepts node (spelled input proto props field a) ↔ Accepts node (spelled input proto props field b))) ∧
    (Accepts node (spelled input proto props field a) ∨ Accepts node (spelled input proto props field b) →
      ((Accepts node (spelled input proto props field a) ↔ Accepts node (spelled input proto props field b)) ↔
        SameRoute node input proto props canonical a b field)) := by
  have enough : SameRoute node input proto props canonical a b field →
      (Accepts node (spelled input proto props field a) ↔ Accepts node (spelled input proto props field b)) := by
    intro route
    cases field with
    | profile =>
      have spelling {s : JStr} (normal : normaliseEvidenceProfile node (.str s) = some canonical)
          (accepted : Accepts node (spelled input proto props .profile s)) : s = canonical :=
        accepts_canonical node lowers (get_written _ _ _ _) normal accepted
      constructor
      · intro accepted
        have left := spelling normalA accepted
        rwa [route.mp left, ← left]
      · intro accepted
        have right := spelling normalB accepted
        rwa [route.mpr right, ← right]
    | teeProfile =>
      exact ⟨accepts_respelled normalA normalB route, accepts_respelled normalB normalA route.symm⟩
  refine ⟨enough, fun some => ⟨fun same => ?_, enough⟩⟩
  obtain ⟨left, right⟩ : Accepts node (spelled input proto props field a) ∧
      Accepts node (spelled input proto props field b) := by
    rcases some with left | right
    · exact ⟨left, same.mp left⟩
    · exact ⟨same.mpr right, right⟩
  cases field with
  | profile =>
    have canonicalA := accepts_canonical node lowers (get_written _ _ _ _) normalA left
    have canonicalB := accepts_canonical node lowers (get_written _ _ _ _) normalB right
    exact ⟨fun _ => canonicalB, fun _ => canonicalA⟩
  | teeProfile => exact canonical_injective (accepts_platform normalA left) (accepts_platform normalB right)

def claimedProps : Props :=
  match claimedProof with
  | .obj _ props => props
  | _ => []

theorem spelled_nitro_run : UnifiedVerifyResult.ok <$> verifyUnifiedExchange unifiedNode
    (spelled unifiedInput .undefined claimedProps .profile nitro) = .ok true := by
  decide +kernel

theorem spellings_interchangeable_sample :
    Accepts unifiedNode (spelled unifiedInput .undefined claimedProps .profile nitro) ∧
      ((Accepts unifiedNode (spelled unifiedInput .undefined claimedProps .profile nitro) ↔
          Accepts unifiedNode (spelled unifiedInput .undefined claimedProps .profile (JStr.lit "aws-nitro"))) ↔
        SameRoute unifiedNode unifiedInput .undefined claimedProps nitro nitro (JStr.lit "aws-nitro") .profile) := by
  have accepts : Accepts unifiedNode (spelled unifiedInput .undefined claimedProps .profile nitro) :=
    Throws.map_ok spelled_nitro_run
  exact ⟨accepts, (spellings_interchangeable_iff unifiedNode (by decide) unifiedInput .undefined
    claimedProps .profile nitro nitro (JStr.lit "aws-nitro") (by decide) (by decide)).2
    (.inl accepts)⟩

/-- `aws-nitro` stands for `nitro` and is rejected in its place. -/
theorem alias_rejected :
    normaliseEvidenceProfile unifiedNode (.str nitro) = normaliseEvidenceProfile unifiedNode (.lit "aws-nitro") ∧
    UnifiedVerifyResult.ok <$> verifyUnifiedExchange unifiedNode
      (spelled unifiedInput .undefined claimedProps .profile nitro) = .ok true ∧
    UnifiedVerifyResult.ok <$> verifyUnifiedExchange unifiedNode
      (spelled unifiedInput .undefined claimedProps .profile (JStr.lit "aws-nitro")) = .ok false := by
  refine ⟨?_, ?_, ?_⟩
  · decide
  · exact spelled_nitro_run
  · decide +kernel

end TeeProof.Verifier.Unified
