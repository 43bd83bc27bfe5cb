import TeeProof.EventStream
import TeeProof.Views

/-! The response collector: it reads the body while it passes through, as server-sent
events, as EventStream messages, or into a bounded buffer that it sniffs. -/
namespace TeeProof.Enclave

def maxFieldClaimsCapture : Nat := 8 * 1024 * 1024
def maxStreamSniffBytes : Nat := 4 * 1024

/-- `content_type.split(';').next()`, trimmed, names the media type. -/
def isContentType (name : String) (contentType : Str) : Bool :=
  Str.eqIgnoreAsciiCase (Str.trim (((Str.split ';' contentType).head?).getD [])) name

def isSseContentType : Str → Bool := isContentType "text/event-stream"
def isAwsEventStreamContentType : Str → Bool := isContentType "application/vnd.amazon.eventstream"

def pathIsBedrockConverseStream (path : Str) : Bool :=
  Str.contains "/converse-stream" (Str.toAsciiLowercase (pathNoQuery path))

def pathIndicatesGeminiStream (path : Str) : Bool :=
  let lower := Str.toAsciiLowercase path
  Str.contains "alt=sse" lower || Str.contains ":streamgeneratecontent" lower ||
    Str.contains "/streamgeneratecontent" lower

def requestIndicatesStreaming (rust : Rust) (protocol : ProtocolFamily) (reqBody : Bytes) (upstreamPath : Str) :
    Bool :=
  let parsed := parseJsonBody rust reqBody
  match protocol with
  | .openaiChat | .openaiResponses | .anthropicMessages | .cohere =>
    ((parsed.get "stream").bind Value.asBool).getD false
  | .dashscope =>
    ((((parsed.get "parameters").bind Value.asObject).bind fun p => field p "stream").bind Value.asBool).getD false
  | .gemini => pathIndicatesGeminiStream upstreamPath
  | .bedrock => pathIsBedrockConverseStream upstreamPath

def isSniffSpace (c : Char) : Bool := isWhitespace c || c == '\uFEFF'

def bodyPrefixIndicatesSse (body : Bytes) : Bool :=
  let trimmed := (Utf8.decode (body.take maxStreamSniffBytes)).dropWhile isSniffSpace
  Str.startsWith "data:" trimmed || Str.startsWith "event:" trimmed || Str.startsWith ":" trimmed

/-- `capture_field_body` on the buffer and its truncated flag. -/
def captureFieldBody (body : Bytes) (truncated : Bool) (chunk : Bytes) : Bytes × Bool :=
  if truncated then (body, truncated)
  else
    let remaining := maxFieldClaimsCapture - body.length
    if remaining < chunk.length then (body ++ chunk.take remaining, true) else (body ++ chunk, false)

inductive FieldResponseBody where
  | streaming (parser : SseEventParser) (state : StreamFieldState)
  | awsEventStream (parser : AwsEventStreamParser) (state : BedrockConverseStreamState)
  | sniffing (body : Bytes) (truncated : Bool) (state : Option StreamFieldState)

structure FieldResponseCollector where
  protocol : ProtocolFamily
  reqView : Value
  body : FieldResponseBody

namespace FieldResponseCollector

variable (rust : Rust) (configuredEnv : Option Str)

/-- How a response will be read, settled before any of it has arrived. -/
def initialBody (head : ReqHead) (reqBody : Bytes) (contentType : Str) (protocol : ProtocolFamily) :
    FieldResponseBody :=
  let requestStreaming := requestIndicatesStreaming rust protocol reqBody head.upstream.path
  if isSseContentType contentType then .streaming {} (.new protocol)
  else if protocol = .bedrock ∧ (isAwsEventStreamContentType contentType = true ∨ requestStreaming = true ∨
      (contentType = [] ∧ pathIsBedrockConverseStream head.upstream.path = true)) then
    .awsEventStream {} {}
  else if requestStreaming then .streaming {} (.new protocol)
  else .sniffing [] false (some (.new protocol))

def new (head : ReqHead) (reqBody : Bytes) (contentType : Str) : Option FieldResponseCollector :=
  (headProtocol rust configuredEnv head reqBody).bind fun protocol =>
    let reqView := fieldView rust protocol .request reqBody (some head.upstream.path)
    if !hasRequiredPresence protocol .request reqView then none
    else some ⟨protocol, reqView, initialBody rust head reqBody contentType protocol⟩

/-- `push` on the body; a buffer that begins like an event stream is replayed into a
parser and dropped, and with it the truncated flag. -/
def pushBody : FieldResponseBody → Bytes → FieldResponseBody
  | .streaming parser state, chunk =>
    let next := parser.push rust StreamFieldState.apply state chunk
    .streaming next.1 next.2
  | .awsEventStream parser state, chunk =>
    let next := parser.push rust BedrockConverseStreamState.apply state chunk
    .awsEventStream next.1 next.2
  | .sniffing body truncated state, chunk =>
    let (body, truncated) := captureFieldBody body truncated chunk
    match state with
    | some streamingState =>
      if bodyPrefixIndicatesSse body then
        let next := SseEventParser.push rust StreamFieldState.apply {} streamingState body
        .streaming next.1 next.2
      else .sniffing body truncated (some streamingState)
    | none => .sniffing body truncated none

def push (self : FieldResponseCollector) (chunk : Bytes) : FieldResponseCollector :=
  { self with body := pushBody rust self.body chunk }

/-- The response view a collector ends with, and whether it was streamed. -/
def finishBody (protocol : ProtocolFamily) (upstreamPath : Str) : FieldResponseBody → Option (Value × Bool)
  | .streaming parser state =>
    some ((parser.finish rust StreamFieldState.apply state).2.finish, true)
  | .awsEventStream parser state =>
    if parser.finish.failed then none else some (state.finish, true)
  | .sniffing body truncated _ =>
    if truncated then none else some (fieldView rust protocol .response body (some upstreamPath), false)

def finish (self : FieldResponseCollector) (head : ReqHead) (normMethod : Str) (status : UInt16) : Option Value :=
  (finishBody rust self.protocol head.upstream.path self.body).bind fun view =>
    buildFieldClaimsFromViews rust head normMethod status self.protocol self.reqView view.1 view.2

end FieldResponseCollector

end TeeProof.Enclave
