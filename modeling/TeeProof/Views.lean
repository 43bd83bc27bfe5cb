import TeeProof.Incremental
import TeeProof.Statement

/-! The enclave's field views of a request and of a buffered response, and the field
claims built from the two. -/
namespace TeeProof.Enclave

open Value (Map)

structure Upstream where
  host : Str
  method : Str
  path : Str
  headers : List (Str × Str)
  headersOrdered : Option (List (List Str))

/-- The request head of one job; the port and the TLS template choose the connection
and say nothing about the exchange. -/
structure ReqHead where
  nonce : Str
  upstream : Upstream
  token : Option Str
  clientProtocolFamily : Option Str
  downstreamProtocolFamily : Option Str
  protocolFamily : Option Str

variable (rust : Rust)

/-- `serde_json::from_slice`: the bytes have to be UTF-8. -/
def fromSlice (body : Bytes) : Option Value :=
  if Utf8.encode (Utf8.decode body) = body then rust.fromStr (Utf8.decode body) else none

def normalizeProtocolFamily (value : Str) : Option ProtocolFamily :=
  ProtocolFamily.all.find? fun protocol => Str.toAsciiLowercase (Str.trim value) == protocol.name.toList

/-- The guess from the request's own fields. -/
def detectFromBody (parsed : Value) : Option ProtocolFamily :=
  let messages := ((parsed.get "messages").bind Value.asArray).isSome
  let model := ((parsed.get "model").bind Value.asStr).isSome
  if messages && model && (parsed.get "max_tokens").isSome then some .anthropicMessages
  else if messages && model then some .openaiChat
  else if (parsed.get "input").isSome && model then some .openaiResponses
  else if (parsed.get "contents").isSome then some .gemini
  else none

def detectProtocolFamily (host path : Str) (body : Bytes) (enhanced configured : Option Str) :
    Option ProtocolFamily :=
  let h := Str.toAsciiLowercase host
  let p := Str.toAsciiLowercase (pathNoQuery path)
  if Str.contains "/chat/completions" p then some .openaiChat
  else if Str.endsWith "/responses" p || Str.contains "/responses" p then some .openaiResponses
  else if Str.endsWith "/messages" p || Str.contains "anthropic" h then some .anthropicMessages
  else if Str.contains ":generatecontent" p || Str.contains "generatecontent" p then some .gemini
  else if Str.contains "/services/aigc/text-generation/generation" p then some .dashscope
  else if Str.contains "/converse" p then some .bedrock
  else if Str.endsWith "/chat" p || Str.contains "/v2/chat" p || Str.contains "cohere" h then some .cohere
  else
    (enhanced.bind normalizeProtocolFamily).or
      ((configured.bind normalizeProtocolFamily).or ((fromSlice rust body).bind detectFromBody))

def parseJsonBody (body : Bytes) : Value :=
  let trimmed := Str.trim (Utf8.decode body)
  if trimmed.isEmpty then .null
  else
    (rust.fromStr trimmed).getD (.ofFields [("raw_sha256", .string (sha256Hex rust body)),
      ("parse_error", .lit "invalid_json")])

def looksLikeSse (body : Bytes) : Bool :=
  (lines (Utf8.decode (body.take 512))).any fun line =>
    Str.startsWith "data:" line || Str.startsWith "event:" line

def geminiModelFromPath (path : Str) : Option Str :=
  let parts := Str.split '/' (pathNoQuery path)
  (parts.findIdx? (· == "models".toList)).bind fun modelIdx =>
    parts[modelIdx + 1]?.bind fun part =>
      let raw := ((Str.split ':' part).head?).getD []
      if raw.isEmpty then none else some raw

def bedrockModelIdFromPath (path : Str) : Option Str :=
  let parts := Str.split '/' (pathNoQuery path)
  (parts.findIdx? (· == "model".toList)).bind fun modelIdx =>
    if parts.length ≤ modelIdx + 2 then none
    else
      let operation := Str.toAsciiLowercase (parts[modelIdx + 2]?.getD [])
      if operation ≠ "converse".toList ∧ operation ≠ "converse-stream".toList then none
      else
        let modelId := parts[modelIdx + 1]?.getD []
        if modelId.isEmpty then none else some modelId

/-- A request view whose model may stand in the path instead of the body. -/
def viewWithModel (key : Str) (view : Value) (fromPath : Option Str) : Value :=
  match view with
  | .object out =>
    if OrdMap.contains key out then .object out
    else
      match fromPath with
      | some model => .object (put out key (.string model))
      | none => .object out
  | view => view

def requestView (protocol : ProtocolFamily) (parsed : Value) (upstreamPath : Option Str) : Value :=
  match protocol with
  | .openaiChat => pickValue ["model", "messages"] parsed
  | .openaiResponses => pickValue ["model", "input"] parsed
  | .anthropicMessages => pickValue ["model", "messages", "system"] parsed
  | .gemini =>
    viewWithModel "model" (pickValue ["model", "contents", "systemInstruction"] parsed)
      (upstreamPath.bind geminiModelFromPath)
  | .dashscope => pickValue ["model", "input", "system", "messages"] parsed
  | .bedrock =>
    viewWithModel "modelId" (pickValue ["modelId", "messages", "system"] parsed)
      (upstreamPath.bind bedrockModelIdFromPath)
  | .cohere => pickValue ["model", "messages", "message"] parsed

/-- The fields a response view keeps. -/
def responseKeys : ProtocolFamily → List Str
  | .openaiChat => chatKeys
  | .openaiResponses => responsesKeys
  | .anthropicMessages => anthropicKeys
  | .gemini => geminiKeys
  | .dashscope => dashscopeKeys
  | .bedrock => bedrockKeys
  | .cohere => cohereKeys

def responseView (protocol : ProtocolFamily) (parsed : Value) : Value :=
  if parsed.isArray then aggregateStream protocol parsed else pickValue (responseKeys protocol) parsed

def parseBody (body : Bytes) : Value :=
  if looksLikeSse body then parseSseData rust body else parseJsonBody rust body

def fieldView (protocol : ProtocolFamily) (kind : Side) (body : Bytes) (upstreamPath : Option Str) : Value :=
  match kind with
  | .request => requestView protocol (parseBody rust body) upstreamPath
  | .response => responseView protocol (parseBody rust body)

/-- The value at the end of a dotted path is there and is not empty. -/
def hasPresentPath (value : Value) (path : String) : Bool :=
  match (Str.split '.' path).foldl (fun cur part => cur.bind fun v => v.get part) (some value) with
  | none => false
  | some .null => false
  | some (.string s) => !s.isEmpty
  | some (.array items) => !items.isEmpty
  | some _ => true

def isErrorResponseView (protocol : ProtocolFamily) (view : Value) : Bool :=
  match protocol with
  | .dashscope => hasPresentPath view "code" && hasPresentPath view "message"
  | _ => hasPresentPath view "error"

def requiredPresence : ProtocolFamily → Side → List (List String)
  | .openaiChat, .request => [["model"], ["messages"]]
  | .openaiChat, .response => [["choices"]]
  | .openaiResponses, .request => [["model"], ["input"]]
  | .openaiResponses, .response => [["output", "status"]]
  | .anthropicMessages, .request => [["model"], ["messages"]]
  | .anthropicMessages, .response => [["content"]]
  | .gemini, .request => [["model"], ["contents"]]
  | .gemini, .response => [["candidates", "promptFeedback"]]
  | .dashscope, .request => [["model"], ["input"]]
  | .dashscope, .response => [["output"]]
  | .bedrock, .request => [["modelId"], ["messages"]]
  | .bedrock, .response => [["output"]]
  | .cohere, .request => [["model"], ["messages", "message"]]
  | .cohere, .response => [["message", "text"]]

def hasRequiredPresence (protocol : ProtocolFamily) (kind : Side) (view : Value) : Bool :=
  (kind = .response && isErrorResponseView protocol view) ||
    (requiredPresence protocol kind).all fun alternatives => alternatives.any (hasPresentPath view)

def versioned (protocol : ProtocolFamily) : Value := .lit (protocol.name ++ ".v1")

def buildFieldClaimsFromViews (head : ReqHead) (normMethod : Str) (status : UInt16)
    (protocol : ProtocolFamily) (reqView respView : Value) (streaming : Bool) : Option Value :=
  if !hasRequiredPresence protocol .request reqView then none
  else if !hasRequiredPresence protocol .response respView then none
  else
    let viewHash (view : Value) : Value := .string (sha256Hex rust (Utf8.encode (canonicalJson rust view)))
    some (.ofFields
      [("v", .ofNat 1),
        ("proof_type", .lit "field-proof"),
        ("nonce", .string head.nonce),
        ("protocol_family", .lit protocol.name),
        ("assurance_level", .lit "strong"),
        ("verification_mode", .lit "field_claims"),
        ("cross_protocol", .bool false),
        ("semantic_equivalence_not_proven", .bool false),
        ("request_schema_version", versioned protocol),
        ("response_schema_version", versioned protocol),
        ("upstream_host", .string (Str.toAsciiLowercase head.upstream.host)),
        ("upstream_path", .string (pathNoQuery head.upstream.path)),
        ("http_method", .string (Str.toAsciiUppercase normMethod)),
        ("http_status", .ofNat status.toNat),
        ("field_policy_id", .lit (protocol.name ++ "." ++ ProtocolFamily.policy ++ "@" ++ protocol.policyVersion)),
        ("upstream_request_fields_sha256", viewHash reqView),
        ("upstream_response_fields_sha256", viewHash respView),
        ("request_body_sha256_severity", .lit "advisory"),
        ("response_body_sha256_severity", .lit "advisory"),
        ("body_hash_policy", .lit "advisory"),
        ("streaming", .bool streaming)])

/-- The protocol of an exchange; `configuredEnv` is `FIELD_PROOF_PROTOCOL_FAMILY`. -/
def headProtocol (configuredEnv : Option Str) (head : ReqHead) (reqBody : Bytes) : Option ProtocolFamily :=
  detectProtocolFamily rust head.upstream.host head.upstream.path reqBody
    (head.clientProtocolFamily.or head.downstreamProtocolFamily) (head.protocolFamily.or configuredEnv)

def buildFieldClaims (configuredEnv : Option Str) (head : ReqHead) (normMethod : Str) (status : UInt16)
    (reqBody respBody : Bytes) : Option Value :=
  (headProtocol rust configuredEnv head reqBody).bind fun protocol =>
    let reqView := fieldView rust protocol .request reqBody (some head.upstream.path)
    let respView := fieldView rust protocol .response respBody (some head.upstream.path)
    buildFieldClaimsFromViews rust head normMethod status protocol reqView respView (looksLikeSse respBody)

end TeeProof.Enclave
