import TeeProof.Frames
import TeeProof.Trailer

/-! The proof helper: the request that the enclave sends over its socket, the frames in both
directions and what the enclave makes of the reply. -/
namespace TeeProof.Enclave

namespace AliyunHelper

variable (rust : Rust)

def protocolVersion : UInt8 := 1
def maxRequestPayload : Nat := 64 * 1024
def maxResponsePayload : Nat := 4 * 1024 * 1024

structure ProofRequest where
  v : UInt8 := protocolVersion
  nonceB64 : Str
  upstreamHost : Str
  upstreamPath : Str
  httpMethod : Str
  httpStatus : UInt16
  respContentType : Str
  requestBodySha256 : Str
  responseBodySha256 : Str
  fieldClaims : Option Value

/-- `ProofRequest::new` on the arguments of `write_aliyun_vtpm_trailer`. -/
def ProofRequest.new (x : TrailerInput) (normHost normPath : Str) : ProofRequest where
  nonceB64 := x.head.nonce
  upstreamHost := normHost
  upstreamPath := normPath
  httpMethod := x.normMethod
  httpStatus := x.status
  respContentType := x.contentType
  requestBodySha256 := x.reqBodyHex
  responseBodySha256 := x.respBodyHex
  fieldClaims := x.fieldClaims

/-- The members in the order of the struct; claims that are missing are left out. -/
def ProofRequest.members (req : ProofRequest) : List (String × Value) :=
  [("v", .ofNat req.v.toNat),
    ("nonce_b64", .string req.nonceB64),
    ("upstream_host", .string req.upstreamHost),
    ("upstream_path", .string req.upstreamPath),
    ("http_method", .string req.httpMethod),
    ("http_status", .ofNat req.httpStatus.toNat),
    ("resp_content_type", .string req.respContentType),
    ("request_body_sha256", .string req.requestBodySha256),
    ("response_body_sha256", .string req.responseBodySha256)] ++
    (req.fieldClaims.map fun claims => ("field_claims", claims)).toList

/-- `serde_json::to_vec`. -/
def ProofRequest.payload (req : ProofRequest) : Bytes :=
  Utf8.encode ('{' :: Str.join [','] (req.members.map fun p => quote p.1.toList ++ ':' :: toJsonString rust p.2) ++ ['}'])

/-- A reply; the proof is kept as it was written. -/
structure HelperResponse where
  v : UInt8
  ok : Bool
  proof : Option Bytes
  error : Option (Str × Str)

/-- The other end of the socket. -/
structure ProofHelper where
  connect : Except Str Unit
  outlet : Outlet
  answer : Bytes → List Piece × Ending
  /-- `serde_json::from_slice`. -/
  response : Bytes → Except Str HelperResponse

/-- What `request_proof` makes of a reply. -/
def proofOf (response : HelperResponse) : Except Str Bytes :=
  if response.v ≠ protocolVersion then
    .error ("aliyun helper response version ".toList ++ Str.natDigits response.v.toNat)
  else if !response.ok then
    match response.error with
    | some (code, message) => .error ("aliyun helper ".toList ++ code ++ ": ".toList ++ message)
    | none => .error "aliyun helper failed without error detail".toList
  else
    match response.proof with
    | some proof => .ok proof
    | none => .error "aliyun helper success response missing proof".toList

def readReply (helper : ProofHelper) (raw : Bytes) : Except Str Bytes :=
  match helper.response raw with
  | .error e => .error ("aliyun helper response JSON: ".toList ++ e)
  | .ok response => proofOf response

/-- `write_frame` of the helper's module: all that was sent, and the error. -/
def writeHelperFrame (o : Outlet) (payload : Bytes) (max : Nat) : Bytes × Option Str :=
  if max < payload.length then ([], some "helper request exceeds limit".toList)
  else o.writeFrame helperFormat [] ((), payload)

def readHelperFrame (max : Nat) (ending : Ending) (pieces : List Piece) : Except Str Bytes :=
  match helperFormat.read (fun _ => "helper response exceeds limit".toList) max ending pieces with
  | .error e => .error e
  | .ok (frame, _) => .ok frame.2

def requestProof (helper : ProofHelper) (req : ProofRequest) : Except Str Bytes :=
  match helper.connect with
  | .error e => .error ("connect aliyun proof helper: ".toList ++ e)
  | .ok () =>
    match writeHelperFrame helper.outlet (req.payload rust) maxRequestPayload with
    | (_, some e) => .error ("write aliyun proof helper request: ".toList ++ e)
    | (sent, none) =>
      match readHelperFrame maxResponsePayload (helper.answer sent).2 (helper.answer sent).1 with
      | .error e => .error ("read aliyun proof helper response: ".toList ++ e)
      | .ok raw => readReply helper raw

/-! The helper's own end of the socket. -/

/-- The server: the reply to a payload, and the reply to a frame that it could not read. -/
structure HelperServer where
  respond : Bytes → Bytes
  refuse : Str → Bytes

/-- `WriteFrame`: a payload over the limit is not sent. -/
def writeReply (payload : Bytes) : Bytes :=
  if maxResponsePayload < payload.length then [] else helperFormat.bytes ((), payload)

/-- `payload too large: %d > %d`. -/
def tooLarge (n : Nat) : Str :=
  "payload too large: ".toList ++ Str.natDigits n ++ " > ".toList ++ Str.natDigits maxRequestPayload

/-- `Server.handle`: one frame is read and one reply is written. -/
def HelperServer.serve (server : HelperServer) (ending : Ending) (pieces : List Piece) : Bytes :=
  match helperFormat.read tooLarge maxRequestPayload ending pieces with
  | .error e => writeReply (server.refuse e)
  | .ok (frame, _) => writeReply (server.respond frame.2)

/-- A socket between the two, that delivers what is written in any pieces. -/
def HelperServer.helper (server : HelperServer) (cut : Bytes → List Piece) (response : Bytes → Except Str HelperResponse) :
    ProofHelper where
  connect := .ok ()
  outlet := .accepting
  answer sent := (cut (server.serve .eof (cut sent)), .eof)
  response

theorem read_frame {pieces : List Piece} {payload : Bytes} (message : Nat → Str) {max : Nat} (small : payload.length ≤ max)
    (bound : max < 2 ^ 32) (arrives : unread pieces = helperFormat.bytes ((), payload)) :
    ∃ rest, helperFormat.read message max .eof pieces = .ok (((), payload), rest) := by
  have alone : unread pieces = helperFormat.bytes ((), payload) ++ [] := by rw [arrives, List.append_nil]
  obtain ⟨rest, read, -⟩ := FrameFormat.read_bytes helperFormat_lawful message .eof (small.trans_lt bound) small alone
  exact ⟨rest, read⟩

/-- The two ends agree on every exchange, however the socket cuts it: a request over the limit is not
sent, a reply over the limit is missed, and every other reply is the server's to exactly this request. -/
theorem requestProof_served (server : HelperServer) (cut : Bytes → List Piece) (whole : ∀ b, unread (cut b) = b)
    (response : Bytes → Except Str HelperResponse) (req : ProofRequest) :
    requestProof rust (server.helper cut response) req =
      if maxRequestPayload < (req.payload rust).length then
        .error "write aliyun proof helper request: helper request exceeds limit".toList
      else if maxResponsePayload < (server.respond (req.payload rust)).length then
        .error "read aliyun proof helper response: failed to fill whole buffer".toList
      else readReply (server.helper cut response) (server.respond (req.payload rust)) := by
  generalize payload : req.payload rust = sent
  have connected : (server.helper cut response).connect = .ok () := rfl
  have outlet : (server.helper cut response).outlet = .accepting := rfl
  have answer (b : Bytes) : (server.helper cut response).answer b = (cut (server.serve .eof (cut b)), .eof) := rfl
  rw [requestProof, connected, payload, outlet]
  dsimp only
  by_cases large : maxRequestPayload < sent.length
  · rw [writeHelperFrame, if_pos large, if_pos large]
    rfl
  · rw [writeHelperFrame, if_neg large, if_neg large, Outlet.writeFrame_accepting, List.nil_append]
    obtain ⟨rest, served⟩ := read_frame tooLarge (not_lt.mp large) (by decide) (whole (helperFormat.bytes ((), sent)))
    have reply : server.serve .eof (cut (helperFormat.bytes ((), sent))) = writeReply (server.respond sent) := by
      rw [HelperServer.serve, served]
    dsimp only
    rw [answer, reply, readHelperFrame, writeReply]
    by_cases long : maxResponsePayload < (server.respond sent).length
    · have nothing : unread (cut []) = [] := whole []
      rw [if_pos long, if_pos long, FrameFormat.read, readExact_short .eof helperFormat.width [] _ (by rw [nothing]; decide)]
      rfl
    · obtain ⟨last, read⟩ := read_frame (fun _ => "helper response exceeds limit".toList) (not_lt.mp long) (by decide)
        (whole (helperFormat.bytes ((), server.respond sent)))
      rw [if_neg long, if_neg long, read]

def sampleRequest : ProofRequest where
  nonceB64 := "AAAA"
  upstreamHost := "api"
  upstreamPath := "/v1"
  httpMethod := "POST"
  httpStatus := 200
  respContentType := ['a']
  requestBodySha256 := ['0']
  responseBodySha256 := ['1']
  fieldClaims := none

/-- Replies with a proof of one byte. -/
def sampleServer : HelperServer := ⟨fun _ => [0x7B, 0x7D], fun _ => []⟩

def sampleResponse (raw : Bytes) : Except Str HelperResponse := .ok ⟨1, true, some raw, none⟩

theorem requestProof_served_sample : (∀ b, unread (bytewise b) = b) ∧
    requestProof (.sample [] []) (sampleServer.helper bytewise sampleResponse) sampleRequest = .ok [0x7B, 0x7D] := by
  have small : ¬maxRequestPayload < (sampleRequest.payload (.sample [] [])).length := by decide +kernel
  have short : ¬maxResponsePayload < (sampleServer.respond (sampleRequest.payload (.sample [] []))).length := by decide
  refine ⟨unread_bytewise, ?_⟩
  rw [requestProof_served (.sample [] []) sampleServer bytewise unread_bytewise, if_neg small, if_neg short]
  rfl

end AliyunHelper

end TeeProof.Enclave
