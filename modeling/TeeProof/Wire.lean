import TeeProof.Node

/-! The proof object on the wire: the envelope check, the typed reading of an
accepted object and the statement the verifier rebuilds from it. -/
namespace TeeProof.Verifier

variable (node : Node)

structure TeeCheck where
  name : JStr
  ok : Bool
  detail : JStr
  skipped : Bool := false

def maxProofStringBytes : Nat := 1024 * 1024

def requiredProofStringFields : List String :=
  ["public_key", "nonce", "upstream_host", "upstream_path", "http_method", "resp_content_type",
    "request_body_sha256", "response_body_sha256", "signature", "attestation"]

def stringFieldErrors (proof : JsVal) (field : String) : List JStr :=
  match proof.get field with
  | .str value =>
    if value.utf8.length > maxProofStringBytes then
      [JStr.lit field ++ " exceeds " ++ JStr.natDigits maxProofStringBytes ++ " bytes"]
    else []
  | _ => [JStr.lit field ++ " must be string"]

/-- `Number.isInteger(x) && x >= 100 && x <= 599`. -/
def isHttpStatus : JsVal → Bool
  | .num (.finite q) => q.den = 1 && decide (100 ≤ q.num) && decide (q.num ≤ 599)
  | _ => false

def isUndefined : JsVal → Bool
  | .undefined => true
  | _ => false

def isString : JsVal → Bool
  | .str _ => true
  | _ => false

def isTruthy : JsVal → Bool
  | .undefined => false
  | .null => false
  | .bool b => b
  | .num n => n ≠ 0
  | .str s => !s.isEmpty
  | .arr _ => true
  | .obj _ _ => true

def hexErrors (proof : JsVal) (field : String) : List JStr :=
  match proof.get field with
  | .str value => if value.isHex64 then [] else [JStr.lit field ++ " must be lowercase hex sha256"]
  | _ => []

/-- `proof.v !== 2`. -/
def isTwo : JsVal → Bool
  | .num n => n = 2
  | _ => false

def isText (text : String) : JsVal → Bool
  | .str s => s = JStr.lit text
  | _ => false

def joinWith (sep : JStr) : List JStr → JStr
  | [] => []
  | [s] => s
  | s :: t :: rest => s ++ sep ++ joinWith sep (t :: rest)

/-- The errors of `v` and `alg`, whose texts show the value found. -/
def constantErrors (proof : JsVal) (field expected : String) (equal : Bool) : Throws (List JStr) :=
  if equal then .ok []
  else do
    let shown ← toText node (proof.get field)
    .ok [JStr.lit "unsupported proof." ++ field ++ ": " ++ shown ++ "; expected " ++ expected]

def fieldErrors (proof : JsVal) : List JStr :=
  requiredProofStringFields.flatMap (stringFieldErrors proof) ++
  (if isHttpStatus (proof.get "http_status") then []
    else [JStr.lit "http_status must be an integer HTTP status code"]) ++
  (if isUndefined (proof.get "profile") || isString (proof.get "profile") then []
    else [JStr.lit "profile must be string when present"]) ++
  (if isUndefined (proof.get "evidence") || (proof.get "evidence").isRecord then []
    else [JStr.lit "evidence must be an object when present"]) ++
  (if isUndefined (proof.get "field_claims") || (proof.get "field_claims").isRecord then []
    else [JStr.lit "field_claims must be an object when present"]) ++
  hexErrors proof "request_body_sha256" ++ hexErrors proof "response_body_sha256"

def wireErrors (proof : JsVal) : Throws (List JStr) := do
  let v ← constantErrors node proof "v" "2" (isTwo (proof.get "v"))
  let alg ← constantErrors node proof "alg" "ed25519" (isText "ed25519" (proof.get "alg"))
  .ok (v ++ alg ++ fieldErrors proof)

def verifyWireEnvelope (proof : JsVal) : Throws TeeCheck :=
  if !proof.isRecord then
    .ok { name := "proof wire", ok := false, detail := "proof must be a JSON object" }
  else do
    let errors ← wireErrors node proof
    if errors.length > 0 then
      .ok { name := "proof wire", ok := false, detail := joinWith "; " errors }
    else
      .ok { name := "proof wire", ok := true, detail := "proof.v == 2 且 proof.alg == ed25519" }

/-- What the envelope check establishes of an accepted proof. -/
structure Accepted (proof : JsVal) : Prop where
  record : proof.isRecord = true
  version : isTwo (proof.get "v") = true
  algorithm : isText "ed25519" (proof.get "alg") = true
  strings : ∀ field ∈ requiredProofStringFields, ∃ s, proof.get field = .str s ∧
    s.utf8.length ≤ maxProofStringBytes
  status : isHttpStatus (proof.get "http_status") = true
  profile : isUndefined (proof.get "profile") = true ∨ isString (proof.get "profile") = true
  evidence : isUndefined (proof.get "evidence") = true ∨ (proof.get "evidence").isRecord = true
  claims : isUndefined (proof.get "field_claims") = true ∨ (proof.get "field_claims").isRecord = true
  request : ∀ s, proof.get "request_body_sha256" = .str s → s.isHex64 = true
  response : ∀ s, proof.get "response_body_sha256" = .str s → s.isHex64 = true

theorem stringFieldErrors_nil (h : stringFieldErrors proof field = []) :
    ∃ s, proof.get field = .str s ∧ s.utf8.length ≤ maxProofStringBytes := by
  simp only [stringFieldErrors] at h
  split at h
  next s eq =>
    refine ⟨s, eq, ?_⟩
    split at h
    next => simp at h
    next small => omega
  next => simp at h

theorem hexErrors_nil (h : hexErrors proof field = []) (s : JStr) (eq : proof.get field = .str s) :
    s.isHex64 = true := by
  simp only [hexErrors, eq] at h
  split at h
  next hex => exact hex
  next => simp at h

theorem constantErrors_nil (h : constantErrors node proof field expected equal = .ok []) :
    equal = true := by
  simp only [constantErrors] at h
  split at h
  next eq => exact eq
  next =>
    obtain ⟨shown, _, h⟩ := Throws.bind_ok h
    simp at h

theorem nil_of_unless {b : Bool} {message : JStr} (h : (if b then [] else [message]) = []) :
    b = true := by
  cases b <;> simp_all

theorem wireErrors_nil (proof : JsVal) (record : proof.isRecord = true)
    (h : wireErrors node proof = .ok []) : Accepted proof := by
  obtain ⟨v, version, h⟩ := Throws.bind_ok h
  obtain ⟨alg, algorithm, h⟩ := Throws.bind_ok h
  simp only [Except.ok.injEq, List.append_eq_nil_iff, fieldErrors] at h
  obtain ⟨⟨rfl, rfl⟩, ⟨⟨⟨⟨⟨strings, status⟩, profile⟩, evidence⟩, claims⟩, request⟩, response⟩ := h
  refine ⟨record, constantErrors_nil node version, constantErrors_nil node algorithm, ?_,
    nil_of_unless status, by simpa using nil_of_unless profile, by simpa using nil_of_unless evidence,
    by simpa using nil_of_unless claims, hexErrors_nil request, hexErrors_nil response⟩
  intro field member
  exact stringFieldErrors_nil (List.flatMap_eq_nil_iff.mp strings field member)

/-- An accepting envelope check leaves no field unchecked. -/
theorem verifyWireEnvelope_accepted (proof : JsVal) (check : TeeCheck)
    (run : verifyWireEnvelope node proof = .ok check) (ok : check.ok = true) : Accepted proof := by
  cases record : proof.isRecord with
  | false =>
    simp only [verifyWireEnvelope, record, Bool.not_false, if_true, Except.ok.injEq] at run
    subst run
    simp at ok
  | true =>
    simp only [verifyWireEnvelope, record, Bool.not_true, Bool.false_eq_true, if_false] at run
    obtain ⟨errors, collected, run⟩ := Throws.bind_ok run
    split at run
    next =>
      simp only [Except.ok.injEq] at run
      subst run
      simp at ok
    next none =>
      have empty : errors = [] := List.eq_nil_of_length_eq_zero (by omega)
      exact wireErrors_nil node proof record (empty ▸ collected)

/-- The fields the verifier reads of an accepted proof. -/
structure TeeProofWire where
  publicKey : JStr
  nonce : JStr
  upstreamHost : JStr
  upstreamPath : JStr
  httpMethod : JStr
  httpStatus : JsNumber
  respContentType : JStr
  requestBodySha256 : JStr
  responseBodySha256 : JStr
  signature : JStr
  attestation : JStr
  profile : Option JStr
  evidence : JsVal
  fieldClaims : JsVal

def stringOr (fallback : JStr) : JsVal → JStr
  | .str s => s
  | _ => fallback

def numberOr (fallback : JsNumber) : JsVal → JsNumber
  | .num n => n
  | _ => fallback

/-- A checked status is a whole number, written in digits. -/
theorem status_digits (value : JsVal) (valid : isHttpStatus value = true) :
    ∃ n : Nat, numberOr 0 value = .finite n ∧ numberToString node (numberOr 0 value) = JStr.natDigits n := by
  revert valid
  fun_cases isHttpStatus
  case case2 => simp
  case case1 q =>
    intro valid
    simp only [Bool.and_eq_true, decide_eq_true_eq] at valid
    refine ⟨q.num.natAbs, ?_, ?_⟩
    · have whole : ((q.num.natAbs : Int) : ℚ) = q := by
        rw [Int.natAbs_of_nonneg (by omega)]
        exact Rat.coe_int_num_of_den_eq_one valid.1.1
      simpa [numberOr] using whole.symm
    · simp only [numberOr, numberToString, intDigits]
      rw [if_pos ⟨valid.1.1, by omega⟩, if_neg (by omega)]

/-- Reading a proof as `TeeProofWire`. The defaults are those of `failedWireResult`;
after an accepted envelope none of them is used. -/
def readWire (proof : JsVal) : TeeProofWire where
  publicKey := stringOr [] (proof.get "public_key")
  nonce := stringOr [] (proof.get "nonce")
  upstreamHost := stringOr [] (proof.get "upstream_host")
  upstreamPath := stringOr [] (proof.get "upstream_path")
  httpMethod := stringOr [] (proof.get "http_method")
  httpStatus := numberOr 0 (proof.get "http_status")
  respContentType := stringOr [] (proof.get "resp_content_type")
  requestBodySha256 := stringOr [] (proof.get "request_body_sha256")
  responseBodySha256 := stringOr [] (proof.get "response_body_sha256")
  signature := stringOr [] (proof.get "signature")
  attestation := stringOr [] (proof.get "attestation")
  profile := match proof.get "profile" with | .str s => some s | _ => none
  evidence := proof.get "evidence"
  fieldClaims := proof.get "field_claims"

def questionMark : UInt16 := 0x3F

def pathWithoutQuery (path : JStr) : JStr := JStr.before questionMark path

structure V2StatementFields where
  nonceB64 : JStr
  upstreamHost : JStr
  upstreamPath : JStr
  httpMethod : JStr
  httpStatus : JsNumber
  respContentType : JStr
  requestBodySha256Hex : JStr
  responseBodySha256Hex : JStr
  fieldClaims : JsVal

def statementLines (f : V2StatementFields) : List JStr :=
  [JStr.lit "tee-exchange-v2",
    JStr.lit "nonce=" ++ f.nonceB64,
    JStr.lit "upstream-host=" ++ node.toLowerCase f.upstreamHost,
    JStr.lit "upstream-path=" ++ pathWithoutQuery f.upstreamPath,
    JStr.lit "http-method=" ++ node.toUpperCase f.httpMethod,
    JStr.lit "http-status=" ++ numberToString node f.httpStatus,
    JStr.lit "resp-content-type=" ++ f.respContentType,
    JStr.lit "request-body-sha256=" ++ f.requestBodySha256Hex,
    JStr.lit "response-body-sha256=" ++ f.responseBodySha256Hex] ++
  if isUndefined f.fieldClaims then []
  else [JStr.lit "field-claims-sha256=" ++ fieldClaimsSha256Hex node f.fieldClaims]

def buildV2Statement (f : V2StatementFields) : Bytes :=
  JStr.utf8 ((statementLines node f).flatMap fun line => line ++ [0x0A])

/-- The fields as `verifySignatureCheck` passes them. -/
def TeeProofWire.statementFields (t : TeeProofWire) : V2StatementFields where
  nonceB64 := t.nonce
  upstreamHost := t.upstreamHost
  upstreamPath := t.upstreamPath
  httpMethod := t.httpMethod
  httpStatus := t.httpStatus
  respContentType := t.respContentType
  requestBodySha256Hex := t.requestBodySha256
  responseBodySha256Hex := t.responseBodySha256
  fieldClaims := t.fieldClaims

end TeeProof.Verifier
