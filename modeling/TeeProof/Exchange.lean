import TeeProof.AliyunVtpm
import TeeProof.FieldProof
import TeeProof.Nitro
import TeeProof.QingTian

/-! The verification of one exchange with the default dependencies: which profile is
used, which checks are pushed and what the verdict reports. -/
namespace TeeProof.Verifier

variable (node : Node)

structure TeeVerifyInput where
  expectedPcr0 : Option JStr := none
  trust : Option EvidenceTrust := none
  responseBody : Bytes
  proof : JsVal
  requestBody : Option Bytes := none
  expectedHost : Option JStr := none
  expectedNonceB64 : Option JStr := none
  requireFieldClaims : Bool := false
  now : Option ℚ := none

inductive VerifyMode where
  | full
  | responseOnly
  deriving DecidableEq

/-- The part of the verdict that repeats what the evidence said. -/
structure AttestationReport where
  profile : Option JStr
  moduleId : Option Cbor := none
  pcr0 : Option JStr := none
  pcr8 : Option JStr := none
  measurements : Option JsVal := none
  publicKey : Option JStr := none
  nonce : Option JStr := none
  platformTrust : Option PlatformVerdict := none

/-- The origin facts reported for display. -/
structure Provenance where
  upstreamHost : JStr
  upstreamPath : JStr
  httpMethod : JStr
  httpStatus : JsNumber
  respContentType : JStr
  deriving DecidableEq

structure TeeVerifyResult where
  ok : Bool
  mode : VerifyMode
  checks : List TeeCheck
  attestation : AttestationReport
  provenance : Provenance

def TeeProofWire.provenance (t : TeeProofWire) : Provenance :=
  ⟨t.upstreamHost, t.upstreamPath, t.httpMethod, t.httpStatus, t.respContentType⟩

def failedWireResult (t : TeeProofWire) (mode : VerifyMode) (checks : List TeeCheck) : TeeVerifyResult :=
  { ok := false, mode, checks, attestation := { profile := t.profile }, provenance := t.provenance }

def nitro : JStr := "nitro"
def aliyunVtpm : JStr := "aliyun-vtpm"
def qingtian : JStr := "qingtian"

/-- `if (x)` on an optional text. -/
def given (value : Option JStr) : Option JStr := value.filter (· ≠ [])

def configuredProfile (trust : Option EvidenceTrust) (t : TeeProofWire) : JStr :=
  match given (trust.bind EvidenceTrust.profile) with
  | some profile => profile
  | none => (given t.profile).getD nitro

/-- `{ ...trust, profile, expectedPcr0: trust?.expectedPcr0 ?? input.expectedPcr0 }`. -/
def effectiveTrust (input : TeeVerifyInput) (profile : JStr) : EvidenceTrust :=
  { input.trust.getD {} with
    profile := some profile
    expectedPcr0 := (input.trust.bind EvidenceTrust.expectedPcr0).or input.expectedPcr0 }

def verifyConfiguredProfile (profile : JStr) (t : TeeProofWire) : TeeCheck :=
  match given t.profile with
  | some named =>
    check "Evidence profile" (named == profile) (JStr.lit "profile=" ++ profile)
      (JStr.lit "proof.profile=" ++ named ++ " 与 trust.profile=" ++ profile ++ " 不一致")
  | none =>
    { name := "Evidence profile", ok := true
      detail := JStr.lit "profile=" ++ profile ++ " auto-selected by trust/verifier" }

/-- The evidence verifier of a profile, run; `none` for a profile that has none. -/
def verifyEvidence (profile : JStr) (t : TeeProofWire) (trust : EvidenceTrust) (now : Option ℚ) :
    Throws (Option EvidenceVerdict) :=
  if profile = nitro then .ok (some (nitroVerifyEvidence node t trust now))
  else if profile = aliyunVtpm then some <$> AliyunVtpm.verifyEvidence node t trust now
  else if profile = qingtian then .ok (some (QingTian.verifyEvidence node t trust now))
  else .ok none

/-- The body of `verifySignatureCheck`: the statement is verified first, then the
digest of the received body is compared. -/
def signatureVerdict (t : TeeProofWire) (responseBody : Bytes) (advisoryBodyHash : Bool) : Throws TeeCheck := do
  let statement := buildV2Statement node t.statementFields
  let pub ← node.createPublicKey (node.fromBase64 t.publicKey)
  let sigOk ← node.edVerify pub statement (node.fromBase64 t.signature)
  let name : JStr := if advisoryBodyHash then "响应 body hash(advisory)" else "响应签名"
  if !sigOk then .ok { name := "响应签名", ok := false, detail := "验签失败:声明与签名不符(被改过)" }
  else if sha256Hex node responseBody ≠ t.responseBodySha256 then
    .ok { name, ok := advisoryBodyHash
          detail := if advisoryBodyHash then
              "WARN: 签名有效但你收到的响应体哈希 != 签名覆盖值；字段级 proof 以关键字段哈希为主判定"
            else "签名有效但你收到的响应体哈希 ≠ 签名覆盖值(响应被改过)" }
  else
    .ok { name, ok := true
          detail := if advisoryBodyHash then "声明验签通过,且响应体哈希吻合" else "声明验签通过,且你收到的响应体哈希吻合" }

def verifySignatureCheck (t : TeeProofWire) (responseBody : Bytes) (advisoryBodyHash : Bool) : TeeCheck :=
  match signatureVerdict node t responseBody advisoryBodyHash with
  | .ok c => c
  | .error message => { name := "响应签名", ok := false, detail := JStr.lit "验签异常:" ++ message }

def verifyFieldClaimChecks (t : TeeProofWire) (requestBody : Option Bytes) (responseBody : Bytes) : List TeeCheck :=
  match verifyFieldClaims node t.fieldClaims requestBody responseBody t with
  | .error message => [{ name := "字段级 proof", ok := false, detail := message }]
  | .ok r =>
    [{ name := "字段级协议", ok := true, detail := JStr.lit "protocol_family=" ++ familyName r.protocolFamily },
      { name := "请求字段绑定", ok := if r.requestChecked then r.requestOk else true, skipped := !r.requestChecked
        detail := if !r.requestChecked then "response-only 模式未提供请求体；请求字段未检查"
          else if r.requestOk then "用户请求关键字段哈希 == Enclave 上游请求字段哈希"
          else JStr.lit "用户请求关键字段哈希不符: " ++ r.requestHash.take 12 ++ "..." },
      check "响应字段绑定" r.responseOk "用户收到响应关键字段哈希 == Enclave 上游响应字段哈希"
        (JStr.lit "用户收到响应关键字段哈希不符: " ++ r.responseHash.take 12 ++ "...")]

def nonceChecks (t : TeeProofWire) (expected : Option JStr) : List TeeCheck :=
  match given expected with
  | some nonce =>
    [check "nonce 新鲜性" (t.nonce == nonce) "proof.nonce == verifier/requester expectedNonce"
      "proof.nonce 与 verifier/requester expectedNonce 不一致"]
  | none => []

def hostCheck (t : TeeProofWire) (expected : Option JStr) : TeeCheck :=
  match given expected with
  | some host =>
    check "上游 host" (node.toLowerCase t.upstreamHost == node.toLowerCase host)
      (JStr.lit "签名覆盖的上游 host == " ++ host ++ "(path " ++ t.upstreamPath ++ ")")
      (JStr.lit "上游 host = " ++ t.upstreamHost ++ ",≠ 期望的 " ++ host)
  | none =>
    { name := "上游 host", ok := true
      detail := JStr.lit "签名覆盖的上游 host = " ++ t.upstreamHost ++ "(path " ++ t.upstreamPath ++
        ";请自行核对是否官方端点)" }

def requestCheck (t : TeeProofWire) (requestBody : Bytes) (fieldMode : Bool) : TeeCheck :=
  let reqOk := sha256Hex node requestBody == t.requestBodySha256
  { name := if fieldMode then "请求 body hash(advisory)" else "请求绑定"
    ok := if fieldMode then true else reqOk
    detail := if reqOk then "你发的请求体哈希 == 签名覆盖值"
      else if fieldMode then "WARN: 你的请求体哈希 != 签名覆盖值；字段级 proof 以关键字段哈希为主判定"
      else "你的请求体哈希 ≠ 签名覆盖值(请求被改 / 不是这条)" }

/-- The checks after the evidence. -/
def bindingChecks (input : TeeVerifyInput) (t : TeeProofWire) : List TeeCheck :=
  let fieldMode := isTruthy t.fieldClaims
  nonceChecks t input.expectedNonceB64 ++ [hostCheck node t input.expectedHost] ++
  (if input.requireFieldClaims && !fieldMode then
    [{ name := "字段级 proof", ok := false, detail := "缺少 field_claims；新版生产验证要求字段级 proof" }] else []) ++
  [verifySignatureCheck node t input.responseBody fieldMode] ++
  (if fieldMode then verifyFieldClaimChecks node t input.requestBody input.responseBody else []) ++
  (match input.requestBody with
    | some body => [requestCheck node t body fieldMode]
    | none => [])

def evidenceChecks (profileOk : Bool) (profile : JStr) (evidence : Option EvidenceVerdict) : List TeeCheck :=
  match evidence with
  | some verdict => verdict.checks
  | none =>
    if profileOk then
      [{ name := "远程证明", ok := false, detail := JStr.lit "unsupported evidence profile: " ++ profile }]
    else []

/-- The evidence is looked at only under a profile the proof does not contradict. -/
def profileEvidence (input : TeeVerifyInput) (profile : JStr) (t : TeeProofWire) : Throws (Option EvidenceVerdict) :=
  if (verifyConfiguredProfile profile t).ok then
    verifyEvidence node profile t (effectiveTrust input profile) input.now
  else .ok none

/-- `verifyTeeExchange` once the envelope is accepted. -/
def verifyAccepted (input : TeeVerifyInput) (mode : VerifyMode) (wireCheck : TeeCheck) :
    Throws TeeVerifyResult := do
  let t := readWire input.proof
  let profile := configuredProfile input.trust t
  let profileCheck := verifyConfiguredProfile profile t
  let evidence ← profileEvidence node input profile t
  let checks := wireCheck :: profileCheck :: evidenceChecks profileCheck.ok profile evidence ++
    bindingChecks node input t
  .ok { ok := checks.all (·.ok), mode, checks
        attestation :=
          { profile := some profile
            moduleId := evidence.bind EvidenceVerdict.moduleId
            pcr0 := evidence.bind EvidenceVerdict.pcr0
            pcr8 := evidence.bind EvidenceVerdict.pcr8
            measurements := evidence.bind EvidenceVerdict.measurements
            publicKey := evidence.bind EvidenceVerdict.publicKey
            nonce := evidence.bind EvidenceVerdict.nonce
            platformTrust := evidence.bind EvidenceVerdict.platformTrust }
        provenance := t.provenance }

def verifyTeeExchange (input : TeeVerifyInput) : Throws TeeVerifyResult := do
  let mode := if input.requestBody.isSome then VerifyMode.full else .responseOnly
  let wireCheck ← verifyWireEnvelope node input.proof
  if !wireCheck.ok then .ok (failedWireResult (readWire input.proof) mode [wireCheck])
  else verifyAccepted node input mode wireCheck

end TeeProof.Verifier
