import TeeProof.FieldAggregate
import TeeProof.Protocol

/-! Field-level proofs on the verifier's side: reading a body as events or JSON, the
view of each protocol, required presence and the check of the claims. -/
namespace TeeProof.Verifier

open JsVal

variable (node : Node)

def familyName (protocol : ProtocolFamily) : JStr := JStr.lit protocol.name

def schemaVersion (protocol : ProtocolFamily) : JStr := familyName protocol ++ ".v1"

def fieldPolicyId (protocol : ProtocolFamily) : JStr :=
  familyName protocol ++ "." ++ ProtocolFamily.policy ++ "@" ++ protocol.policyVersion

def parseJsonBody (body : Bytes) : JsVal :=
  let text := trim (bufferText body)
  if text = [] then .null
  else match node.parseJson text with
    | .ok value => value
    | .error _ => ofObject [("raw_sha256", .str (sha256Hex node body)), ("parse_error", lit "invalid_json")]

/-- The event of the collected data lines, if there is one. -/
def flushData (dataLines : List JStr) : List JsVal :=
  if dataLines = [] then []
  else
    let data := joinWith [0x0A] dataLines
    if trim data = [] ∨ trim data = JStr.lit "[DONE]" then []
    else match node.parseJson data with
      | .ok value => [value]
      | .error _ =>
        [ofObject [("raw_data_sha256", .str (sha256Hex node (JStr.utf8 data))),
          ("parse_error", lit "invalid_sse_json")]]

def dataPrefix : JStr := "data:"

def sseLine (state : List JsVal × List JStr) (rawLine : JStr) : List JsVal × List JStr :=
  let line := if rawLine.getLast? = some 0x0D then rawLine.dropLast else rawLine
  if line = [] then (state.1 ++ flushData node state.2, [])
  else if JStr.startsWith line dataPrefix then (state.1, state.2 ++ [trimStart (line.drop 5)])
  else state

def parseSseData (body : Bytes) : List JsVal :=
  let state := ((bufferText body).splitOn 0x0A).foldl (sseLine node) ([], [])
  state.1 ++ flushData node state.2

def isLineTerminator (u : UInt16) : Bool := u == 0x0A || u == 0x0D || u == 0x2028 || u == 0x2029

/-- `/^event:|^data:/m` on the first 512 octets. -/
def looksLikeSse (body : Bytes) : Bool :=
  let text := bufferText (body.take 512)
  let here (s : JStr) := s.startsWith "event:" || s.startsWith dataPrefix
  here text || text.tails.any fun
    | u :: rest => isLineTerminator u && here rest
    | [] => false

/-- A body as the field views read it. -/
def parseBody (body : Bytes) : JsVal :=
  if looksLikeSse body then .arr (parseSseData node body) else parseJsonBody node body

/-- The view of a protocol with no rule of its own for a missing model. -/
def plainView (requestFields responseFields : List String) (aggregate : List JsVal → JsVal) (kind : Side)
    (parsed : JsVal) : JsVal :=
  match kind with
  | .request => pick parsed requestFields
  | .response =>
    match parsed with
    | .arr events => aggregate events
    | other => pick other responseFields

/-- A request view takes a missing field from the path. -/
def withPathModel (field : JStr) (model : Option JStr) (view : JsVal) : JsVal :=
  if view.isRecord && isUndefined (view.get field) then
    match model with
    | some (u :: text) => view.set field (.str (u :: text))
    | _ => view
  else view

def slash : UInt16 := 0x2F

/-- `parts.indexOf(name)` and the parts after it. -/
def partsAfter (name : JStr) (path : JStr) : Option (List JStr) :=
  match ((pathWithoutQuery path).splitOn slash).dropWhile (· ≠ name) with
  | _ :: rest => some rest
  | [] => none

def geminiModelFromPath (path : JStr) : Option JStr :=
  match partsAfter "models" path with
  | some (raw :: _) => if raw = [] then none else (raw.splitOn 0x3A).head?
  | _ => none

def bedrockModelIdFromPath (path : JStr) : Option JStr :=
  match partsAfter "model" path with
  | some (model :: operation :: _) =>
    let operation := node.toLowerCase operation
    if operation ≠ JStr.lit "converse" ∧ operation ≠ JStr.lit "converse-stream" then none
    else if model = [] then none else some model
  | _ => none

def openaiChatView := plainView ["model", "messages"] ["model", "choices", "usage", "error"]
  aggregateOpenAIChatStream

def openaiResponsesView := plainView ["model", "input"] responsesFields aggregateOpenAIResponsesStream

def anthropicMessagesView := plainView ["model", "messages", "system"] anthropicFields
  aggregateAnthropicMessagesStream

def geminiGenerateContentView (kind : Side) (parsed : JsVal) (upstreamPath : JStr) : JsVal :=
  let view := plainView ["model", "contents", "systemInstruction"] geminiFields
    aggregateGeminiGenerateContentStream kind parsed
  match kind with
  | .request => withPathModel "model" (geminiModelFromPath upstreamPath) view
  | .response => view

def dashscopeGenerationView := plainView ["model", "input", "system", "messages"] dashscopeFields
  aggregateDashscopeGenerationStream

def bedrockConverseView (kind : Side) (parsed : JsVal) (upstreamPath : JStr) : JsVal :=
  let view := plainView ["modelId", "messages", "system"] bedrockFields aggregateBedrockConverseStream kind parsed
  match kind with
  | .request => withPathModel "modelId" (bedrockModelIdFromPath node upstreamPath) view
  | .response => view

def cohereChatView := plainView ["model", "messages", "message"] cohereFields aggregateCohereChatStream

def fieldView (protocol : ProtocolFamily) (kind : Side) (parsed : JsVal) (upstreamPath : JStr) : JsVal :=
  match protocol with
  | .openaiChat => openaiChatView kind parsed
  | .openaiResponses => openaiResponsesView kind parsed
  | .anthropicMessages => anthropicMessagesView kind parsed
  | .gemini => geminiGenerateContentView kind parsed upstreamPath
  | .dashscope => dashscopeGenerationView kind parsed
  | .bedrock => bedrockConverseView node kind parsed upstreamPath
  | .cohere => cohereChatView kind parsed

def extractFieldView (protocol : ProtocolFamily) (kind : Side) (body : Bytes) (upstreamPath : JStr) : JsVal :=
  fieldView node protocol kind (parseBody node body) upstreamPath

def hashFieldView (protocol : ProtocolFamily) (kind : Side) (body : Bytes) (upstreamPath : JStr) : JStr :=
  sha256Hex node (JStr.utf8 (canonicalJson node (extractFieldView node protocol kind body upstreamPath)))

/-- `hasPresentPath`; every path the source uses is one key. -/
def hasPresentPath (value : JsVal) (key : String) : Bool :=
  value.hasOwn key && match value.get key with
    | .null => false
    | .undefined => false
    | .arr items => !items.isEmpty
    | .str s => !s.isEmpty
    | _ => true

def isErrorResponseView (protocol : ProtocolFamily) (view : JsVal) : Bool :=
  match protocol with
  | .dashscope => hasPresentPath view "code" && hasPresentPath view "message"
  | _ => hasPresentPath view "error"

def requiredPresence : ProtocolFamily → Side → List (List String)
  | .openaiChat, .request => [["model"], ["messages"]]
  | .openaiChat, .response => [["choices"]]
  | .openaiResponses, .request => [["model"], ["input"]]
  | .openaiResponses, .response => [["output", "status"]]
  | .anthropicMessages, .request => [["model"], ["messages"]]
  | .anthropicMessages, .response => [["content"]]
  | .gemini, .request => [["model"], ["contents"]]
  | .gemini, .response => [["candidates", "promptFeedback"]]
  | .dashscope, .request => [["model"], ["input"]]
  | .dashscope, .response => [["output"]]
  | .bedrock, .request => [["modelId"], ["messages"]]
  | .bedrock, .response => [["output"]]
  | .cohere, .request => [["model"], ["messages", "message"]]
  | .cohere, .response => [["message", "text"]]

def hasRequiredPresence (protocol : ProtocolFamily) (kind : Side) (view : JsVal) : Bool :=
  (kind == .response && isErrorResponseView protocol view) ||
    (requiredPresence protocol kind).all fun alternatives => alternatives.any (hasPresentPath view)

def protocolFamilyFromValue : JsVal → Option ProtocolFamily
  | .str s => ProtocolFamily.all.find? fun protocol => familyName protocol = s
  | _ => none

def isFalse : JsVal → Bool
  | .bool b => !b
  | _ => false

def isStr (text : JStr) : JsVal → Bool
  | .str s => s = text
  | _ => false

def isNum (n : JsNumber) : JsVal → Bool
  | .num m => m = n
  | _ => false

/-- The conditions on the claims in the order of the source, each with its message. -/
def envelopeChecks (protocol : ProtocolFamily) (claims : JsVal) (proof : TeeProofWire) : List (Bool × JStr) :=
  let text (field : String) (expected : JStr) (message : JStr) : Bool × JStr :=
    (isStr expected (claims.get field), JStr.lit "field_claims." ++ field ++ " must " ++ message)
  let be (field : String) (expected : JStr) := text field expected (JStr.lit "be " ++ expected)
  [be "request_schema_version" (schemaVersion protocol),
    be "response_schema_version" (schemaVersion protocol),
    be "field_policy_id" (fieldPolicyId protocol),
    be "assurance_level" "strong",
    (isFalse (claims.get "cross_protocol"), "field_claims.cross_protocol must be false"),
    (isFalse (claims.get "semantic_equivalence_not_proven"),
      "field_claims.semantic_equivalence_not_proven must be false"),
    be "body_hash_policy" "advisory",
    be "request_body_sha256_severity" "advisory",
    be "response_body_sha256_severity" "advisory",
    text "nonce" proof.nonce "match proof.nonce",
    text "upstream_host" (node.toLowerCase proof.upstreamHost) "match proof.upstream_host",
    text "upstream_path" (pathWithoutQuery proof.upstreamPath) "match proof.upstream_path",
    text "http_method" (node.toUpperCase proof.httpMethod) "match proof.http_method",
    (isNum proof.httpStatus (claims.get "http_status"), "field_claims.http_status must match proof.http_status")]

/-- The first condition that fails is thrown. -/
def throwFirst : List (Bool × JStr) → Throws Unit
  | [] => .ok ()
  | (true, _) :: rest => throwFirst rest
  | (false, message) :: _ => .error message

def validateFieldClaimsEnvelope (protocol : ProtocolFamily) (claims : JsVal) (proof : TeeProofWire) : Throws Unit :=
  throwFirst (envelopeChecks node protocol claims proof)

structure FieldVerifyResult where
  protocolFamily : ProtocolFamily
  requestChecked : Bool
  requestOk : Bool
  responseOk : Bool
  requestHash : JStr
  responseHash : JStr

def requirePresence (protocol : ProtocolFamily) (kind : Side) (label : String) (body : Bytes) (path : JStr) :
    Throws Unit :=
  if hasRequiredPresence protocol kind (extractFieldView node protocol kind body path) then .ok ()
  else .error (JStr.lit label ++ " does not satisfy required_presence for " ++ familyName protocol)

/-- `stringField(claims, field)`, which must not be empty. -/
def requiredText (claims : JsVal) (field : String) : Throws JStr :=
  match claims.get field with
  | .str (u :: text) => .ok (u :: text)
  | _ => .error (JStr.lit "field_claims." ++ field ++ " is required")

def requireText (claims : JsVal) (field expected : String) : Throws Unit :=
  if isText expected (claims.get field) then .ok ()
  else .error (JStr.lit "field_claims." ++ field ++ " must be " ++ expected)

/-- `verifyFieldClaims` with the proof context its one caller passes. -/
def verifyFieldClaims (claims : JsVal) (requestBody : Option Bytes) (responseBody : Bytes)
    (proof : TeeProofWire) : Throws FieldVerifyResult := do
  if !claims.isRecord then .error "field_claims must be an object" else .ok ()
  let protocol ← match protocolFamilyFromValue (claims.get "protocol_family") with
    | some protocol => .ok protocol
    | none => do
      let shown ← toText node (claims.get "protocol_family")
      .error (JStr.lit "unsupported protocol_family: " ++ shown)
  requireText claims "proof_type" "field-proof"
  requireText claims "verification_mode" "field_claims"
  validateFieldClaimsEnvelope node protocol claims proof
  requirePresence node protocol .response "response" responseBody proof.upstreamPath
  let responseHash := hashFieldView node protocol .response responseBody proof.upstreamPath
  let expectedResponse ← requiredText claims "upstream_response_fields_sha256"
  match requestBody with
  | none =>
    .ok { protocolFamily := protocol, requestChecked := false, requestOk := true,
          responseOk := responseHash == expectedResponse, requestHash := [], responseHash }
  | some body => do
    requirePresence node protocol .request "request" body proof.upstreamPath
    let requestHash := hashFieldView node protocol .request body proof.upstreamPath
    let expectedRequest ← requiredText claims "upstream_request_fields_sha256"
    .ok { protocolFamily := protocol, requestChecked := true, requestOk := requestHash == expectedRequest,
          responseOk := responseHash == expectedResponse, requestHash, responseHash }

end TeeProof.Verifier
