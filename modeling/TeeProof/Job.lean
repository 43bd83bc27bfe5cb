import TeeProof.AliyunHelper
import TeeProof.Chunking
import TeeProof.Interim
import TeeProof.RequestHead
import TeeProof.TlsProfile

/-! One job of a worker: a request comes in on the control connection, goes to the upstream over
HTTP/1.1 or HTTP/2, and the head, the body and the trailer of the answer go back. -/
namespace TeeProof.Enclave

open AliyunHelper (ProofHelper ProofRequest requestProof)

/-! The frames. -/

def reqHeadTag : UInt8 := 0x01
def reqBodyTag : UInt8 := 0x02
def respHeadTag : UInt8 := 0x10
def respChunkTag : UInt8 := 0x11
def respTrailerTag : UInt8 := 0x12
def errTag : UInt8 := 0x1f

def maxReqHead : Nat := 1024 * 1024
def maxReqFrame : Nat := 64 * 1024 * 1024

/-- A request head, and how its upstream is reached. -/
structure JobHead extends ReqHead where
  egressPort : UInt32
  tlsSeed : Option Str
  tlsSpec : Option Str

/-- What `execute` gives to the HTTP/2 library. -/
structure H2Request where
  settings : H2Settings
  host : Str
  method : Str
  path : Str
  fields : List (Str × Str)
  body : Bytes

/-- A read of the response body, and the error of giving its capacity back. -/
structure H2Read where
  chunk : Except Str Bytes
  release : Option Str := none

structure H2Answer where
  status : UInt16
  headers : List (Str × Str)
  reads : List H2Read
  /-- How the driver of the connection ends. -/
  driver : Except Str Unit

/-- What lies outside of the job: the parsers and the connections. -/
structure World where
  /-- `serde_json::from_slice`. -/
  readHead : Bytes → Except Str JobHead
  base64Error : Bytes → Str
  connectEgress : UInt32 → Except Str Unit
  /-- The TLS session of a profile, up to its handshake. -/
  connectTls : Option TlsProfile → JobHead → Except Str Unit
  upstream : Outlet
  /-- What an HTTP/1.1 upstream answers to the bytes it was sent. -/
  answer : Bytes → List Piece × Ending
  /-- The HTTP/2 library up to the head of the response. -/
  request : H2Request → Except Str H2Answer

inductive ProofBackend where
  | localEvidence (backend : LocalEvidenceBackend)
  | aliyunVtpm (helper : ProofHelper)

section

variable (rust : Rust) (configuredEnv : Option Str) (world : World) (backend : ProofBackend)

/-! Receiving the request. -/

/-- `{:#x}`. -/
def hexTag (t : UInt8) : Str := "0x".toList ++ Nat.toDigits 16 t.toNat

/-- `read_frame`. -/
def readFrame (max : Nat) (ending : Ending) (pieces : List Piece) : Except Str ((UInt8 × Bytes) × List Piece) :=
  control.read (fun _ => "请求帧超过上限".toList) max ending pieces

/-- The checks on a head before anything is connected. -/
def admitHead (head : JobHead) : Except Str Unit :=
  if (Base64.decode (Utf8.encode head.nonce)).isNone then
    .error ("nonce base64: ".toList ++ world.base64Error (Utf8.encode head.nonce))
  else if !noCrlf head.upstream.host || !noCrlf head.upstream.method || !noCrlf head.upstream.path then
    .error "upstream host/method/path 含非法 CR/LF".toList
  else if head.upstream.headers.any fun p => !noCrlf p.1 || !noCrlf p.2 then
    .error "请求头含非法 CR/LF".toList
  else if (head.token.map fun t => !noCrlf t).getD false then
    .error "token 含非法 CR/LF".toList
  else .ok ()

/-- The part of `handle` before it connects. -/
def receive (ending : Ending) (pieces : List Piece) : Except Str (JobHead × Bytes) :=
  match readFrame maxReqHead ending pieces with
  | .error e => .error ("读 HEAD 帧: ".toList ++ e)
  | .ok ((t1, headBuf), pieces) =>
    if t1 ≠ reqHeadTag then .error ("期望 REQ_HEAD，收到 ".toList ++ hexTag t1)
    else
      match world.readHead headBuf with
      | .error e => .error ("HEAD JSON: ".toList ++ e)
      | .ok head =>
        match readFrame maxReqFrame ending pieces with
        | .error e => .error ("读 BODY 帧: ".toList ++ e)
        | .ok ((t2, body), _) =>
          if t2 ≠ reqBodyTag then .error ("期望 REQ_BODY，收到 ".toList ++ hexTag t2)
          else (admitHead world head).map fun _ => (head, body)

/-! Sending the answer. -/

/-- A write to the control connection: all that was sent, and the error under its label. -/
def send (o : Outlet) (label : String) (sent : Bytes) (frame : UInt8 × Bytes) : Except Str Unit × Bytes :=
  match o.writeFrame control sent frame with
  | (sent, some e) => (.error (label.toList ++ e), sent)
  | (sent, none) => (.ok (), sent)

/-- `json!({ "status": .., "headers": .. })`. -/
def headPayload (status : Nat) (headers : List (Str × Str)) : Bytes :=
  Utf8.encode (toJsonString rust (.ofFields
    [("status", .ofNat status), ("headers", .object (headers.map (Prod.map id .string)))]))

def headFrame (status : Nat) (headers : List (Str × Str)) : UInt8 × Bytes := (respHeadTag, headPayload rust status headers)
def chunkFrame (chunk : Bytes) : UInt8 × Bytes := (respChunkTag, chunk)
def trailerFrame (payload : Bytes) : UInt8 × Bytes := (respTrailerTag, payload)

/-- The frame that the worker sends when a job has failed. -/
def errFrame (message : Str) : UInt8 × Bytes :=
  (errTag, Utf8.encode (toJsonString rust (.ofFields [("code", .lit "enclave"), ("message", .string message)])))

/-- The payload of the trailer, and the label of its write. -/
def trailerPayload (x : TrailerInput) : Bytes × String :=
  match backend with
  | .localEvidence backend =>
    match writeAttestedTrailer rust backend x with
    | .attested _ payload => (Utf8.encode (toJsonString rust payload), "写 RESP_TRAILER: ")
    | .unavailable payload => (Utf8.encode (toJsonString rust payload), "写 proof_unavailable RESP_TRAILER: ")
  | .aliyunVtpm helper =>
    if !noCrlf x.contentType then
      (Utf8.encode (toJsonString rust
        (buildProofUnavailablePayload x "invalid_content_type" "上游 content-type 含非法 CR/LF")),
        "写 proof_unavailable RESP_TRAILER: ")
    else
      match requestProof rust helper
          (.new x (rust.toLowercase x.head.upstream.host) (pathNoQuery x.head.upstream.path)) with
      | .ok proof => (proof, "写 RESP_TRAILER: ")
      | .error e =>
        (Utf8.encode (toJsonString rust (buildProofUnavailablePayload x "attestation_failed" e)),
          "写 proof_unavailable RESP_TRAILER: ")

/-- What the trailer speaks of: the request, the head of the answer and the chunks that were handed on. -/
def answerInput (head : ReqHead) (body : Bytes) (status : UInt16) (contentType : Str) (chunks : List Bytes) : TrailerInput :=
  trailerInput rust head status contentType body chunks.flatten
    (collectedClaims rust configuredEnv head body contentType (rust.toUppercase head.upstream.method) status chunks)

/-- `write_attested_trailer` after the body. -/
def writeTrailer (o : Outlet) (sent : Bytes) (x : TrailerInput) : Except Str Unit × Bytes :=
  let payload := trailerPayload rust backend x
  send o payload.2 sent (trailerFrame payload.1)

/-- All that was sent after some chunks. -/
def sentChunks (o : Outlet) (sent : Bytes) (chunks : List Bytes) : Bytes :=
  chunks.foldl (fun sent chunk => (o.writeFrame control sent (chunkFrame chunk)).1) sent

/-- The sink of the HTTP/1.1 body. -/
def chunkSink (o : Outlet) (sent : Bytes) : Sink := fun chunks chunk =>
  (o.writeFrame control (sentChunks o sent chunks) (chunkFrame chunk)).2.map ("写 RESP_CHUNK: ".toList ++ ·)

/-! The HTTP/1.1 upstream. -/

/-- The request is written: all that was sent. -/
def sendRequest (head : JobHead) (body : Bytes) : Except Str Bytes :=
  match world.upstream.writeAll [] (Utf8.encode (requestHead rust head.toReqHead body.length)) with
  | (_, some e) => .error ("TLS 写请求头失败: ".toList ++ e)
  | (sent, none) =>
    match world.upstream.writeAll sent body with
    | (_, some e) => .error ("TLS 写请求体失败: ".toList ++ e)
    | (sent, none) => .ok sent

/-- The request is written and the head of the response is read. -/
def exchangeHead (head : JobHead) (body : Bytes) : Except Str (Headers × Bytes × List Piece × Ending) := do
  let sent ← sendRequest rust world head body
  let (headBytes, leftover, pieces) ← readUntilHeaders (world.answer sent).2 [] (world.answer sent).1
  let h ← parseHeaders rust headBytes
  .ok (h, leftover, pieces, (world.answer sent).2)

/-- The answer over HTTP/1.1. -/
def relayHttp1 (o : Outlet) (head : JobHead) (body : Bytes) : Except Str Unit × Bytes :=
  match exchangeHead rust world head body with
  | .error e => (.error e, [])
  | .ok (h, leftover, pieces, ending) =>
    match send o "写 RESP_HEAD: " [] (headFrame rust h.status h.headers) with
    | (.error e, sent) => (.error e, sent)
    | (.ok (), sent) =>
      let r := streamBody h leftover pieces ending (chunkSink o sent)
      match r.1 with
      | .error e => (.error e, sentChunks o sent r.2)
      | .ok () =>
        writeTrailer rust backend o (sentChunks o sent r.2)
          (answerInput rust configuredEnv head.toReqHead body (UInt16.ofNat h.status) (h.contentType.getD []) r.2)

/-! The HTTP/2 upstream. -/

def pseudoHeaders : List Str := [":method".toList, ":scheme".toList, ":authority".toList, ":path".toList]

/-- The checks of `execute` on a fingerprint. -/
def checkFingerprint (h2 : H2Settings) : Except Str Unit :=
  if h2.pseudoHeaderOrder ≠ pseudoHeaders then
    .error "Grok h2 pseudo-header order must be :method,:scheme,:authority,:path".toList
  else
    match h2.settings.find? fun s => !([2, 4, 5, 6].contains s.1) with
    | some s => .error ("unsupported Grok h2 setting id ".toList ++ Str.natDigits s.1.toNat)
    | none => if 2 ^ 32 ≤ 65535 + h2.windowUpdate.toNat then .error "Grok h2 connection window overflow".toList else .ok ()

/-- The loop of `execute` over the body: its result, the chunks handed on and all that was sent. -/
def relayChunks (o : Outlet) (total : Nat) (chunks : List Bytes) (sent : Bytes) :
    List H2Read → Except Str Unit × List Bytes × Bytes
  | [] => (.ok (), chunks, sent)
  | read :: rest =>
    match read.chunk with
    | .error e => (.error ("h2 response body: ".toList ++ e), chunks, sent)
    | .ok chunk =>
      if maxResp < total + chunk.length then (.error "h2 response body exceeds limit".toList, chunks, sent)
      else
        match send o "写 h2 RESP_CHUNK: " sent (chunkFrame chunk) with
        | (.error e, sent) => (.error e, chunks ++ [chunk], sent)
        | (.ok (), sent) =>
          match read.release with
          | some e => (.error ("h2 release response capacity: ".toList ++ e), chunks ++ [chunk], sent)
          | none => relayChunks o (total + chunk.length) (chunks ++ [chunk]) sent rest

/-- The request is built and sent up to the head of the response. -/
def requestH2 (head : JobHead) (body : Bytes) (profile : TlsProfile) : Except Str H2Answer :=
  match profile.h2 with
  | none => .error "Grok profile missing h2 fingerprint".toList
  | some h2 => do
    checkFingerprint h2
    world.request {
      settings := h2
      host := head.upstream.host
      method := rust.toUppercase head.upstream.method
      path := head.upstream.path
      fields := h2Fields (orderedHeaders head.toReqHead) head.token body.length
      body }

/-- The answer over HTTP/2. -/
def relayHttp2 (o : Outlet) (head : JobHead) (body : Bytes) (profile : TlsProfile) : Except Str Unit × Bytes :=
  match requestH2 rust world head body profile with
  | .error e => (.error e, [])
  | .ok answer =>
    let h := onHead answer.headers
    match send o "写 h2 RESP_HEAD: " [] (headFrame rust answer.status.toNat h.headers) with
    | (.error e, sent) => (.error e, sent)
    | (.ok (), sent) =>
      let r := relayChunks o 0 [] sent answer.reads
      match r.1, answer.driver with
      | .error e, _ => (.error e, r.2.2)
      | .ok (), .error e => (.error e, r.2.2)
      | .ok (), .ok () =>
        writeTrailer rust backend o r.2.2
          (answerInput rust configuredEnv head.toReqHead body answer.status h.contentType r.2.1)

/-! The job. -/

def decodeProfile (head : JobHead) : Option TlsProfile :=
  head.tlsSpec.bind fun spec => (Base64.decode (Utf8.encode spec)).bind fun bytes => (decode bytes).toOption

/-- The profile of a job that goes over HTTP/2. -/
def h2Profile (head : JobHead) : Option TlsProfile := (decodeProfile head).filter fun profile => profile.stack = .rustlsAwsLc

/-- The stack that reaches the upstream, before anything is asked of it. -/
def connect (head : JobHead) : Except Str Unit := do
  world.connectEgress head.egressPort
  world.connectTls (decodeProfile head) head

/-- `handle`: its result and all that it sent on the control connection. -/
def handle (o : Outlet) (ending : Ending) (pieces : List Piece) : Except Str Unit × Bytes :=
  match receive world ending pieces with
  | .error e => (.error e, [])
  | .ok (head, body) =>
    match connect world head with
    | .error e => (.error e, [])
    | .ok () =>
      match h2Profile head with
      | some profile => relayHttp2 rust configuredEnv world backend o head body profile
      | none => relayHttp1 rust configuredEnv world backend o head body

/-- A turn of the worker's loop that does not panic: the result of the job and all that was sent. -/
def work (o : Outlet) (ending : Ending) (pieces : List Piece) : Except Str Unit × Bytes :=
  let r := handle rust configuredEnv world backend o ending pieces
  match r.1 with
  | .ok () => r
  | .error e => (.error e, (o.writeFrame control r.2 (errFrame rust e)).1)

end

end TeeProof.Enclave
