import TeeProof.Job

/-! The frames of one job, on a connection that may break at any byte: what goes out is the front of
an error, of an answer that is broken off by an error, or of an answer with its trailer. -/
namespace TeeProof.Enclave

variable (rust : Rust) (configuredEnv : Option Str) (world : World) (backend : ProofBackend)

/-! The request of the parent -/

theorem admitHead_iff (head : JobHead) : admitHead world head = .ok () ↔ Admitted head.toReqHead := by
  have nonce : (Base64.decode (Utf8.encode head.nonce)).isNone = true ↔ ¬(Base64.decode (Utf8.encode head.nonce)).isSome = true := by
    rw [Option.isSome_iff_ne_none, not_not, Option.isNone_iff_eq_none]
  have upstream : (!noCrlf head.upstream.host || !noCrlf head.upstream.method || !noCrlf head.upstream.path) = true ↔
      ¬(noCrlf head.upstream.host = true ∧ noCrlf head.upstream.method = true ∧ noCrlf head.upstream.path = true) := by
    cases noCrlf head.upstream.host <;> cases noCrlf head.upstream.method <;> cases noCrlf head.upstream.path <;> decide
  have headers : (head.upstream.headers.any fun p => !noCrlf p.1 || !noCrlf p.2) = true ↔
      ¬∀ p ∈ head.upstream.headers, noCrlf p.1 = true ∧ noCrlf p.2 = true := by
    rw [List.any_eq_true]
    constructor
    · rintro ⟨p, member, broken⟩ all
      rw [(all p member).1, (all p member).2] at broken
      cases broken
    · intro some
      by_contra none
      refine some fun p member => ?_
      by_contra broken
      refine none ⟨p, member, ?_⟩
      cases first : noCrlf p.1 <;> cases second : noCrlf p.2 <;> simp [first, second] at broken ⊢
  have token : (head.token.map fun t => !noCrlf t).getD false = true ↔ ¬∀ t ∈ head.token, noCrlf t = true := by
    cases head.token with
    | none => simp
    | some t => simp
  rw [admitHead]
  constructor
  · intro ok
    split at ok
    · cases ok
    next first =>
      split at ok
      · cases ok
      next second =>
        split at ok
        · cases ok
        next third =>
          split at ok
          · cases ok
          next fourth =>
            rw [nonce, not_not] at first
            rw [upstream, not_not] at second
            rw [headers, not_not] at third
            rw [token, not_not] at fourth
            exact ⟨first, second.1, second.2.1, second.2.2, third, fourth⟩
  · intro admitted
    rw [if_neg (by rw [nonce, not_not]; exact admitted.nonce),
      if_neg (by rw [upstream, not_not]; exact ⟨admitted.host, admitted.method, admitted.path⟩),
      if_neg (by rw [headers, not_not]; exact admitted.headers), if_neg (by rw [token, not_not]; exact admitted.token)]

/-- A job takes up exactly what begins with a frame of a head and a frame of a body within their limits,
of a head that is understood and admitted, however the reads are cut and whatever follows. -/
theorem receive_iff (ending : Ending) (pieces : List Piece) (head : JobHead) (body : Bytes) :
    receive world ending pieces = .ok (head, body) ↔
      ∃ headBuf more, unread pieces = control.bytes (reqHeadTag, headBuf) ++ (control.bytes (reqBodyTag, body) ++ more) ∧
        headBuf.length ≤ maxReqHead ∧ body.length ≤ maxReqFrame ∧ world.readHead headBuf = .ok head ∧
        Admitted head.toReqHead := by
  constructor
  · intro received
    rw [receive] at received
    split at received
    · cases received
    next t1 headBuf behind first =>
      obtain ⟨front, small⟩ := FrameFormat.read_ok control_lawful _ ending first
      split at received
      · cases received
      next tag =>
        obtain rfl := not_not.mp tag
        split at received
        · cases received
        next parsed understood =>
          split at received
          · cases received
          next t2 buf last second =>
            obtain ⟨back, fits⟩ := FrameFormat.read_ok control_lawful _ ending second
            split at received
            · cases received
            next tag =>
              obtain rfl := not_not.mp tag
              cases admitted : admitHead world parsed with
              | error e =>
                rw [admitted] at received
                cases received
              | ok =>
                rw [admitted] at received
                obtain ⟨rfl, rfl⟩ := Prod.mk.inj (Except.ok.inj received)
                exact ⟨headBuf, unread last, by rw [front, back], small, fits, understood, (admitHead_iff world parsed).mp admitted⟩
  · rintro ⟨headBuf, more, arrives, small, fits, understood, admitted⟩
    have limit : maxReqHead < 2 ^ 32 := by decide
    have bound : maxReqFrame < 2 ^ 32 := by decide
    obtain ⟨behind, first, left⟩ := FrameFormat.read_bytes control_lawful (fun _ => "请求帧超过上限".toList) ending
      (small.trans_lt limit) small arrives
    obtain ⟨rest, second, -⟩ := FrameFormat.read_bytes control_lawful (fun _ => "请求帧超过上限".toList) ending
      (fits.trans_lt bound) fits left
    rw [receive, readFrame, first]
    simp only [ne_eq, not_true_eq_false, if_false, understood, readFrame, second, (admitHead_iff world head).mpr admitted]
    rfl

/-- What a job says on the control connection. -/
inductive Transcript where
  | refused (message : Str)
  | broken (status : Nat) (headers : List (Str × Str)) (chunks : List Bytes) (message : Str)
  | answered (status : Nat) (headers : List (Str × Str)) (chunks : List Bytes) (trailer : Bytes)

namespace Transcript

def opening (status : Nat) (headers : List (Str × Str)) (chunks : List Bytes) : List (UInt8 × Bytes) :=
  headFrame rust status headers :: chunks.map chunkFrame

def frames : Transcript → List (UInt8 × Bytes)
  | refused message => [errFrame rust message]
  | broken status headers chunks message => opening rust status headers chunks ++ [errFrame rust message]
  | answered status headers chunks trailer => opening rust status headers chunks ++ [trailerFrame trailer]

def bytes (t : Transcript) : Bytes := (t.frames rust).flatMap control.bytes

end Transcript

/-- The upstream's answer to a request, with a body that was read to its end. -/
inductive ReadsBody (head : JobHead) (body : Bytes) : Nat → List (Str × Str) → Str → List Bytes → Prop
  | http1 {h : Headers} {leftover : Bytes} {pieces : List Piece} {ending : Ending} {sink : Sink} {chunks : List Bytes}
      (plain : h2Profile head = none) (exchange : exchangeHead rust world head body = .ok (h, leftover, pieces, ending))
      (whole : streamBody h leftover pieces ending sink = (.ok (), chunks)) :
      ReadsBody head body h.status h.headers (h.contentType.getD []) chunks
  | http2 {profile : TlsProfile} {answer : H2Answer} {chunks : List Bytes}
      (fingerprinted : h2Profile head = some profile) (exchange : requestH2 rust world head body profile = .ok answer) (ended : answer.driver = .ok ())
      (whole : answer.reads.map H2Read.chunk = chunks.map .ok) (small : chunks.flatten.length ≤ maxResp) :
      ReadsBody head body answer.status.toNat (onHead answer.headers).headers (onHead answer.headers).contentType chunks

/-- The upstream's answer to a request, and some of its body from the front. -/
inductive ReadsFront (head : JobHead) (body : Bytes) : Nat → List (Str × Str) → List Bytes → Prop
  | http1 {h : Headers} {leftover : Bytes} {pieces : List Piece} {ending : Ending} {sink : Sink} {chunks : List Bytes}
      (plain : h2Profile head = none) (exchange : exchangeHead rust world head body = .ok (h, leftover, pieces, ending))
      (front : chunks <+: (streamBody h leftover pieces ending sink).2) : ReadsFront head body h.status h.headers chunks
  | http2 {profile : TlsProfile} {answer : H2Answer} {chunks : List Bytes}
      (fingerprinted : h2Profile head = some profile) (exchange : requestH2 rust world head body profile = .ok answer)
      (front : chunks.map .ok <+: answer.reads.map H2Read.chunk) :
      ReadsFront head body answer.status.toNat (onHead answer.headers).headers chunks

/-- What a transcript says is so: an error is the result of the job, head and chunks are an upstream's
answer to the request that was received, and a trailer speaks of the whole of it. -/
def Transcript.Honest (ending : Ending) (pieces : List Piece) (result : Except Str Unit) : Transcript → Prop
  | .refused message => result = .error message
  | .broken status headers chunks message =>
    result = .error message ∧ ∃ head body, receive world ending pieces = .ok (head, body) ∧ connect world head = .ok () ∧
      ReadsFront rust world head body status headers chunks
  | .answered status headers chunks trailer =>
    ∃ head body contentType, receive world ending pieces = .ok (head, body) ∧ connect world head = .ok () ∧
      ReadsBody rust world head body status headers contentType chunks ∧
      trailer = (trailerPayload rust backend
        (answerInput rust configuredEnv head.toReqHead body (UInt16.ofNat status) contentType chunks)).1

section

variable {o : Outlet} (sticky : o.Sticky)

include sticky

theorem send_wrote {frames : List (UInt8 × Bytes)} {sent : Bytes} (wrote : Wrote o control frames sent) (label : String)
    (frame : UInt8 × Bytes) :
    Wrote o control (frames ++ [frame]) (send o label sent frame).2 ∧
      ((send o label sent frame).1 = .ok () → (send o label sent frame).2 = (frames ++ [frame]).flatMap control.bytes) ∧
      (∀ e, (send o label sent frame).1 = .error e → o.Final (send o label sent frame).2) := by
  obtain ⟨more, whole, final⟩ := wrote.write sticky control_headed frame
  rw [send]
  cases run : o.writeFrame control sent frame with
  | mk after refused =>
    rw [run] at more whole final
    cases refused with
    | none => exact ⟨more, fun _ => whole rfl, by simp⟩
    | some e => exact ⟨more, by simp, fun _ _ => final e rfl⟩

/-- The chunks of an HTTP/1.1 body. -/
theorem sentChunks_wrote {frames : List (UInt8 × Bytes)} {sent : Bytes} (wrote : Wrote o control frames sent)
    (chunks : List Bytes) : Wrote o control (frames ++ chunks.map chunkFrame) (sentChunks o sent chunks) := by
  induction chunks generalizing frames sent with
  | nil => rwa [List.map_nil, List.append_nil]
  | cons chunk chunks ih =>
    have one := (wrote.write sticky control_headed (chunkFrame chunk)).1
    have rest := ih one
    rw [List.append_assoc] at rest
    exact rest

/-- The chunks of an HTTP/2 body are what was read of it; where its end is reached they are all of it. -/
theorem relayChunks_wrote {frames : List (UInt8 × Bytes)} {sent : Bytes} {chunks : List Bytes} {total : Nat}
    (wrote : Wrote o control (frames ++ chunks.map chunkFrame) sent) (sum : total = chunks.flatten.length)
    (small : total ≤ maxResp) (reads : List H2Read) :
    Wrote o control (frames ++ (relayChunks o total chunks sent reads).2.1.map chunkFrame) (relayChunks o total chunks sent reads).2.2 ∧
      ∃ more : List Bytes, (relayChunks o total chunks sent reads).2.1 = chunks ++ more ∧
        more.map .ok <+: reads.map H2Read.chunk ∧
        ((relayChunks o total chunks sent reads).1 = .ok () →
          reads.map H2Read.chunk = more.map .ok ∧ (chunks ++ more).flatten.length ≤ maxResp) := by
  induction reads generalizing chunks total sent with
  | nil => exact ⟨wrote, [], by simp [relayChunks], List.nil_prefix, fun _ => ⟨rfl, by rwa [List.append_nil, ← sum]⟩⟩
  | cons read reads ih =>
    rw [relayChunks]
    split
    next => exact ⟨wrote, [], by simp, List.nil_prefix, by simp⟩
    next chunk arrived =>
      have first : [chunk].map Except.ok <+: (read :: reads).map H2Read.chunk := by
        rw [List.map_cons, List.map_cons, arrived]
        exact (List.prefix_cons_inj _).mpr List.nil_prefix
      split
      next => exact ⟨wrote, [], by simp, List.nil_prefix, by simp⟩
      next fits =>
        have one := send_wrote sticky wrote "写 h2 RESP_CHUNK: " (chunkFrame chunk)
        have map : frames ++ chunks.map chunkFrame ++ [chunkFrame chunk] = frames ++ (chunks ++ [chunk]).map chunkFrame := by
          simp
        rw [map] at one
        cases run : send o "写 h2 RESP_CHUNK: " sent (chunkFrame chunk) with
        | mk result after =>
          rw [run] at one
          cases result with
          | error e => exact ⟨one.1, [chunk], rfl, first, by simp⟩
          | ok =>
            cases released : read.release with
            | some e => exact ⟨one.1, [chunk], rfl, first, by simp⟩
            | none =>
              have length : total + chunk.length = (chunks ++ [chunk]).flatten.length := by
                simp [sum]
              obtain ⟨wrote', more, taken, front, whole⟩ := ih one.1 length (Nat.not_lt.mp fits)
              refine ⟨wrote', chunk :: more, ?_, ?_, fun ok => ?_⟩
              · dsimp only at taken ⊢
                rw [taken, List.append_assoc]
                rfl
              · rw [List.map_cons, List.map_cons, arrived]
                exact (List.prefix_cons_inj _).mpr front
              · obtain ⟨every, bound⟩ := whole ok
                rw [List.append_assoc] at bound
                exact ⟨by rw [List.map_cons, List.map_cons, every, arrived], bound⟩

end

/-- What a handler has done on a connection. -/
inductive Handled (o : Outlet) (honest : Except Str Unit → Transcript → Prop) (r : Except Str Unit × Bytes) : Prop
  | refused {message : Str} : r = (.error message, []) → Handled o honest r
  | broken {message : Str} {status : Nat} {headers : List (Str × Str)} {chunks : List Bytes} :
      r.1 = .error message → honest r.1 (.broken status headers chunks message) →
      Wrote o control (Transcript.opening rust status headers chunks) r.2 → Handled o honest r
  | answered {status : Nat} {headers : List (Str × Str)} {chunks : List Bytes} {trailer : Bytes} :
      honest r.1 (.answered status headers chunks trailer) →
      Wrote o control ((Transcript.answered status headers chunks trailer).frames rust) r.2 →
      (r.1 = .ok () → r.2 = (Transcript.answered status headers chunks trailer).bytes rust) →
      (∀ e, r.1 = .error e → o.Final r.2) → Handled o honest r

section

variable {o : Outlet} (sticky : o.Sticky) {ending : Ending} {pieces : List Piece} {head : JobHead} {body : Bytes}
  (received : receive world ending pieces = .ok (head, body)) (connected : connect world head = .ok ())

include sticky received connected

theorem relayHttp1_handled (plain : h2Profile head = none) :
    Handled rust o (Transcript.Honest rust configuredEnv world backend ending pieces)
      (relayHttp1 rust configuredEnv world backend o head body) := by
  rw [relayHttp1]
  split
  next => exact .refused rfl
  next h leftover later last exchange =>
    have opened := send_wrote sticky Wrote.start "写 RESP_HEAD: " (headFrame rust h.status h.headers)
    rw [List.nil_append] at opened
    split
    next e sent run =>
      rw [run] at opened
      have none : [] <+: (streamBody h leftover later last (chunkSink o sent)).2 := List.nil_prefix
      exact .broken rfl ⟨rfl, head, body, received, connected, .http1 plain exchange none⟩ opened.1
    next sent run =>
      rw [run] at opened
      have streamed := sentChunks_wrote sticky opened.1 (streamBody h leftover later last (chunkSink o sent)).2
      dsimp only
      split
      next e failed =>
        exact .broken rfl ⟨rfl, head, body, received, connected, .http1 plain exchange (List.prefix_refl _)⟩ streamed
      next whole =>
        have trailer := send_wrote sticky streamed
          (trailerPayload rust backend (answerInput rust configuredEnv head.toReqHead body (UInt16.ofNat h.status)
            (h.contentType.getD []) (streamBody h leftover later last (chunkSink o sent)).2)).2
          (trailerFrame (trailerPayload rust backend (answerInput rust configuredEnv head.toReqHead body (UInt16.ofNat h.status)
            (h.contentType.getD []) (streamBody h leftover later last (chunkSink o sent)).2)).1)
        refine .answered ⟨head, body, h.contentType.getD [], received, connected, .http1 plain exchange (Prod.ext whole rfl), rfl⟩
          trailer.1 trailer.2.1 trailer.2.2

theorem relayHttp2_handled {profile : TlsProfile} (fingerprinted : h2Profile head = some profile) :
    Handled rust o (Transcript.Honest rust configuredEnv world backend ending pieces)
      (relayHttp2 rust configuredEnv world backend o head body profile) := by
  rw [relayHttp2]
  split
  next => exact .refused rfl
  next answer exchange =>
    dsimp only
    have opened := send_wrote sticky Wrote.start "写 h2 RESP_HEAD: "
      (headFrame rust answer.status.toNat (onHead answer.headers).headers)
    rw [List.nil_append] at opened
    split
    next e sent run =>
      rw [run] at opened
      have none : ([] : List Bytes).map .ok <+: answer.reads.map H2Read.chunk := List.nil_prefix
      exact .broken rfl ⟨rfl, head, body, received, connected, .http2 fingerprinted exchange none⟩ opened.1
    next sent run =>
      rw [run] at opened
      have start : Wrote o control
          ([headFrame rust answer.status.toNat (onHead answer.headers).headers] ++ ([] : List Bytes).map chunkFrame) sent :=
        opened.1
      have empty : 0 = ([] : List Bytes).flatten.length := rfl
      obtain ⟨streamed, more, taken, front, whole⟩ := relayChunks_wrote sticky start empty (Nat.zero_le _) answer.reads
      rw [List.nil_append] at taken
      have part : ReadsFront rust world head body answer.status.toNat (onHead answer.headers).headers
          (relayChunks o 0 [] sent answer.reads).2.1 := .http2 fingerprinted exchange (by rw [taken]; exact front)
      split
      next e failed => exact .broken rfl ⟨rfl, head, body, received, connected, part⟩ streamed
      next e ended failed => exact .broken rfl ⟨rfl, head, body, received, connected, part⟩ streamed
      next ok ended =>
        obtain ⟨every, small⟩ := whole ok
        have trailer := send_wrote sticky streamed
          (trailerPayload rust backend (answerInput rust configuredEnv head.toReqHead body answer.status
            (onHead answer.headers).contentType (relayChunks o 0 [] sent answer.reads).2.1)).2
          (trailerFrame (trailerPayload rust backend (answerInput rust configuredEnv head.toReqHead body answer.status
            (onHead answer.headers).contentType (relayChunks o 0 [] sent answer.reads).2.1)).1)
        rw [List.nil_append] at small
        refine .answered ⟨head, body, (onHead answer.headers).contentType, received, connected,
          .http2 fingerprinted exchange ended (by rw [taken]; exact every) (by rw [taken]; exact small), ?_⟩
          trailer.1 trailer.2.1 trailer.2.2
        rw [UInt16.ofNat_toNat]

end

theorem handle_handled {o : Outlet} (sticky : o.Sticky) (ending : Ending) (pieces : List Piece) :
    Handled rust o (Transcript.Honest rust configuredEnv world backend ending pieces)
      (handle rust configuredEnv world backend o ending pieces) := by
  rw [handle]
  split
  next => exact .refused rfl
  next head body received =>
    split
    next => exact .refused rfl
    next connected =>
      split
      next fingerprinted => exact relayHttp2_handled rust configuredEnv world backend sticky received connected fingerprinted
      next plain => exact relayHttp1_handled rust configuredEnv world backend sticky received connected plain

/-- A world where no request head is understood. -/
def deafWorld : World where
  readHead _ := .error []
  base64Error _ := []
  connectEgress _ := .ok ()
  connectTls _ _ := .ok ()
  upstream := .upTo 0
  answer _ := ([], .eof)
  request _ := .error []

def noBackend : ProofBackend := .localEvidence ⟨[], fun _ => [], fun _ _ => .error []⟩

theorem mem_opening {status : Nat} {headers : List (Str × Str)} {chunks : List Bytes} {frame : UInt8 × Bytes}
    (member : frame ∈ Transcript.opening rust status headers chunks) : frame.1 ≠ respTrailerTag := by
  rcases List.mem_cons.mp member with rfl | inside
  · exact (by decide : respHeadTag ≠ respTrailerTag)
  · obtain ⟨chunk, -, rfl⟩ := List.mem_map.mp inside
    exact (by decide : respChunkTag ≠ respTrailerTag)

/-- A trailer is the last frame of an answer. -/
theorem trailer_last {t : Transcript} {payload : Bytes} {got : List (UInt8 × Bytes)} (front : got <+: t.frames rust)
    (member : trailerFrame payload ∈ got) :
    ∃ status headers chunks, t = .answered status headers chunks payload ∧ got = t.frames rust := by
  have inside := front.subset member
  have other : (errTag : UInt8) ≠ respTrailerTag := by decide
  cases t with
  | refused message =>
    rw [Transcript.frames, List.mem_singleton] at inside
    exact absurd (congrArg Prod.fst inside).symm other
  | broken status headers chunks message =>
    rcases List.mem_append.mp inside with opened | last
    · exact absurd rfl (mem_opening rust opened)
    · rw [List.mem_singleton] at last
      exact absurd (congrArg Prod.fst last).symm other
  | answered status headers chunks trailer =>
    rcases List.mem_append.mp inside with opened | last
    · exact absurd rfl (mem_opening rust opened)
    · rw [List.mem_singleton] at last
      obtain rfl : payload = trailer := congrArg Prod.snd last
      refine ⟨status, headers, chunks, rfl, ?_⟩
      rw [Transcript.frames] at front ⊢
      rcases List.prefix_concat_iff.mp front with whole | early
      · exact whole
      · exact absurd rfl (mem_opening rust (early.subset member))

theorem deafWorld_receives (ending : Ending) (pieces : List Piece) (r : JobHead × Bytes) :
    receive deafWorld ending pieces ≠ .ok r := by
  intro received
  rw [receive] at received
  split at received
  · cases received
  · split at received
    · cases received
    · cases received

theorem deafWorld_fits (t : Transcript) (honest : t.Honest (.sample [] []) none deafWorld noBackend .eof []
    (work (.sample [] []) none deafWorld noBackend (.upTo 7) .eof []).1) :
    ∀ frame ∈ t.frames (.sample [] []), frame.2.length < 2 ^ 32 ∧ frame.2.length ≤ 4096 := by
  cases t with
  | refused message =>
    have error : (work (.sample [] []) none deafWorld noBackend (.upTo 7) .eof []).1 =
        .error "读 HEAD 帧: failed to fill whole buffer".toList := by decide +kernel
    obtain rfl := Except.error.inj (error.symm.trans honest)
    rw [Transcript.frames, List.forall_mem_singleton]
    decide +kernel
  | broken status headers chunks message =>
    obtain ⟨-, head, body, received, -⟩ := honest
    exact absurd received (deafWorld_receives .eof [] _)
  | answered status headers chunks trailer =>
    obtain ⟨head, body, contentType, received, -⟩ := honest
    exact absurd received (deafWorld_receives .eof [] _)

end TeeProof.Enclave
