import TeeProof.Collector

/-! The collector over whole runs: what it holds after any sequence of pushes, and
when the way the body was cut shows in the claims. -/
namespace TeeProof.Enclave

variable (rust : Rust)

/-! Sniffing is monotone: a prefix that begins an event stream is one in every
longer body. -/

/-- The three ways the trimmed text may begin; each ends in the first colon. -/
theorem startsStream_iff (text : Str) :
    (Str.startsWith "data:" text || Str.startsWith "event:" text || Str.startsWith ":" text) = true ↔
      ∃ word ∈ ["data".toList, "event".toList, []], ∃ after, text = word ++ ':' :: after := by
  simp only [Str.startsWith, Bool.or_eq_true, List.isPrefixOf_iff_prefix, List.prefix_iff_eq_append,
    List.mem_cons, List.not_mem_nil, or_false, exists_eq_or_imp, exists_eq_left]
  constructor
  · rintro ((h | h) | h)
    · exact .inl ⟨_, h.symm⟩
    · exact .inr (.inl ⟨_, h.symm⟩)
    · exact .inr (.inr ⟨_, h.symm⟩)
  · rintro (⟨after, rfl⟩ | ⟨after, rfl⟩ | ⟨after, rfl⟩) <;> simp

theorem dropWhile_prefix (p : Char → Bool) (spaces rest : Str) (all : ∀ c ∈ spaces, p c = true)
    (stop : ∀ c ∈ rest.head?, p c = false) : (spaces ++ rest).dropWhile p = rest := by
  rw [List.dropWhile_append_of_pos all]
  cases rest with
  | nil => rfl
  | cons c rest => exact List.dropWhile_cons_of_neg (by simp [stop c (by simp)])

/-- What the sniffer has seen stands at the start of every longer body. -/
theorem prefix_text (body more : Bytes) (stream : bodyPrefixIndicatesSse body = true) :
    ∃ spaces, (∀ c ∈ spaces, isSniffSpace c = true) ∧ ∃ word ∈ ["data".toList, "event".toList, []],
      ∃ after, Utf8.decode (body.take maxStreamSniffBytes ++ more) = spaces ++ (word ++ ':' :: after) := by
  simp only [bodyPrefixIndicatesSse] at stream
  rw [startsStream_iff] at stream
  obtain ⟨word, known, after, trimmed⟩ := stream
  have whole := List.takeWhile_append_dropWhile (p := isSniffSpace)
    (l := Utf8.decode (body.take maxStreamSniffBytes))
  rw [trimmed, ← List.append_assoc] at whole
  obtain ⟨first, second, split, text⟩ :=
    Utf8.decode_split _ 58 (by decide) (by decide) _ after whole.symm
  refine ⟨(Utf8.decode (body.take maxStreamSniffBytes)).takeWhile isSniffSpace,
    fun c member => List.mem_takeWhile_imp member, word, known, Utf8.decode (second ++ more), ?_⟩
  have glued : body.take maxStreamSniffBytes ++ more = first ++ 58 :: (second ++ more) := by
    rw [split, List.append_assoc, List.cons_append]
  rw [glued, Utf8.decode_ascii first 58 _ (by decide), text, List.append_assoc]
  rfl

theorem dropWhile_stream (spaces word after : Str) (space : ∀ c ∈ spaces, isSniffSpace c = true)
    (known : word ∈ ["data".toList, "event".toList, []]) :
    (spaces ++ (word ++ ':' :: after)).dropWhile isSniffSpace = word ++ ':' :: after := by
  refine dropWhile_prefix _ _ _ space ?_
  simp only [List.mem_cons, List.not_mem_nil, or_false] at known
  rcases known with rfl | rfl | rfl <;> simp <;> decide

theorem prefix_append (body more : Bytes) (stream : bodyPrefixIndicatesSse body = true) :
    bodyPrefixIndicatesSse (body ++ more) = true := by
  obtain ⟨spaces, space, word, known, after, text⟩ :=
    prefix_text body (more.take (maxStreamSniffBytes - body.length)) stream
  simp only [bodyPrefixIndicatesSse]
  rw [startsStream_iff, List.take_append, text, dropWhile_stream spaces word after space known]
  exact ⟨word, known, after, rfl⟩

theorem prefix_take (body : Bytes) :
    bodyPrefixIndicatesSse (body.take maxFieldClaimsCapture) = bodyPrefixIndicatesSse body := by
  simp [bodyPrefixIndicatesSse, List.take_take, maxFieldClaimsCapture, maxStreamSniffBytes]

theorem prefix_nil : bodyPrefixIndicatesSse [] = false := by decide

/-! What a body holds after some pushes, as a function of the octets pushed. -/

/-- The incremental event parser after the octets `seen`. -/
def streamed (protocol : ProtocolFamily) (seen : Bytes) : FieldResponseBody :=
  let next := SseEventParser.push rust StreamFieldState.apply {} (.new protocol) seen
  .streaming next.1 next.2

/-- The EventStream decoder after the octets `seen`. -/
def framed (seen : Bytes) : FieldResponseBody :=
  let next := AwsEventStreamParser.push rust BedrockConverseStreamState.apply {} {} seen
  .awsEventStream next.1 next.2

/-- A sniffing collector after the octets `seen`, when no push lost any of a stream. -/
def sniffed (protocol : ProtocolFamily) (seen : Bytes) : FieldResponseBody :=
  if bodyPrefixIndicatesSse seen then streamed rust protocol seen
  else .sniffing (seen.take maxFieldClaimsCapture) (maxFieldClaimsCapture < seen.length) (some (.new protocol))

open FieldResponseCollector

theorem streamed_push (protocol : ProtocolFamily) (seen chunk : Bytes) :
    pushBody rust (streamed rust protocol seen) chunk = streamed rust protocol (seen ++ chunk) := by
  simp only [pushBody, streamed, sse_push_push]

theorem framed_push (seen chunk : Bytes) :
    pushBody rust (framed rust seen) chunk = framed rust (seen ++ chunk) := by
  simp only [pushBody, framed, push_push]

theorem capture_take (seen chunk : Bytes) :
    captureFieldBody (seen.take maxFieldClaimsCapture) (maxFieldClaimsCapture < seen.length) chunk =
      ((seen ++ chunk).take maxFieldClaimsCapture, decide (maxFieldClaimsCapture < (seen ++ chunk).length)) := by
  unfold captureFieldBody
  by_cases full : maxFieldClaimsCapture < seen.length
  · have longer : maxFieldClaimsCapture < (seen ++ chunk).length := by rw [List.length_append]; omega
    simp only [full, longer, decide_true, if_true, List.take_append_of_le_length (le_of_lt full)]
  · have short : seen.take maxFieldClaimsCapture = seen := List.take_of_length_le (by omega)
    simp only [full, decide_false, Bool.false_eq_true, if_false, short]
    split
    next exceeds =>
      have longer : maxFieldClaimsCapture < (seen ++ chunk).length := by rw [List.length_append]; omega
      rw [List.take_append, short, decide_eq_true longer]
    next within =>
      have shorter : (seen ++ chunk).length ≤ maxFieldClaimsCapture := by rw [List.length_append]; omega
      rw [List.take_of_length_le shorter, decide_eq_false (not_lt.mpr shorter)]

/-- The push of `chunk` first shows the stream and overflows the buffer at once. -/
def clips (seen chunk : Bytes) : Bool :=
  !bodyPrefixIndicatesSse seen && bodyPrefixIndicatesSse (seen ++ chunk) &&
    maxFieldClaimsCapture < (seen ++ chunk).length

/-- Some push of a run does so. -/
def clipsRun : Bytes → List Bytes → Bool
  | _, [] => false
  | seen, chunk :: rest => clips seen chunk || clipsRun (seen ++ chunk) rest

/-- One push: only a chunk that clips the stream is not accounted for. -/
theorem sniffed_push (protocol : ProtocolFamily) (seen chunk : Bytes) (kept : clips seen chunk = false) :
    pushBody rust (sniffed rust protocol seen) chunk = sniffed rust protocol (seen ++ chunk) := by
  by_cases stream : bodyPrefixIndicatesSse seen = true
  · rw [sniffed, if_pos stream, streamed_push, sniffed, if_pos (prefix_append seen chunk stream)]
  · rw [sniffed, if_neg stream]
    simp only [pushBody, capture_take, prefix_take]
    by_cases shown : bodyPrefixIndicatesSse (seen ++ chunk) = true
    · have within : (seen ++ chunk).length ≤ maxFieldClaimsCapture := by
        simpa [clips, stream, shown] using kept
      rw [if_pos shown, List.take_of_length_le within, sniffed, if_pos shown]
      rfl
    · rw [if_neg shown, sniffed, if_neg shown]

theorem sniffed_run (protocol : ProtocolFamily) (seen : Bytes) (chunks : List Bytes)
    (kept : clipsRun seen chunks = false) :
    chunks.foldl (pushBody rust) (sniffed rust protocol seen) =
      sniffed rust protocol (seen ++ chunks.flatten) := by
  induction chunks generalizing seen with
  | nil => simp
  | cons chunk rest ih =>
    simp only [clipsRun, Bool.or_eq_false_iff] at kept
    rw [List.foldl_cons, sniffed_push rust protocol seen chunk kept.1, ih _ kept.2, List.flatten_cons,
      List.append_assoc]

/-- A parser takes every push. -/
theorem parsed_run (describe : Bytes → FieldResponseBody)
    (push : ∀ seen chunk, pushBody rust (describe seen) chunk = describe (seen ++ chunk)) (seen : Bytes)
    (chunks : List Bytes) :
    chunks.foldl (pushBody rust) (describe seen) = describe (seen ++ chunks.flatten) := by
  induction chunks generalizing seen with
  | nil => simp
  | cons chunk rest ih => rw [List.foldl_cons, push, ih, List.flatten_cons, List.append_assoc]

section Exchange

variable (configuredEnv : Option Str) (head : ReqHead) (reqBody : Bytes) (contentType : Str)
  (normMethod : Str) (status : UInt16)

/-- The claims of one exchange whose response arrived in these chunks. -/
def collectedClaims (chunks : List Bytes) : Option Value :=
  (FieldResponseCollector.new rust configuredEnv head reqBody contentType).bind fun collector =>
    (chunks.foldl (FieldResponseCollector.push rust) collector).finish rust head normMethod status

/-- The push of a chunk drops some of it for the capture limit. -/
def dropsBytes : FieldResponseBody → Bytes → Bool
  | .sniffing body truncated _, chunk =>
    (truncated && !chunk.isEmpty) || maxFieldClaimsCapture - body.length < chunk.length
  | _, _ => false

/-- Some octet of the chunks does not reach the aggregation. -/
def losesBytes : FieldResponseBody → List Bytes → Bool
  | _, [] => false
  | body, chunk :: rest => dropsBytes body chunk || losesBytes (pushBody rust body chunk) rest

/-- The exchange starts in sniffing mode. -/
def Sniffs : Prop :=
  ∃ protocol, headProtocol rust configuredEnv head reqBody = some protocol ∧
    initialBody rust head reqBody contentType protocol = .sniffing [] false (some (.new protocol))

theorem foldl_push (collector : FieldResponseCollector) (chunks : List Bytes) :
    chunks.foldl (FieldResponseCollector.push rust) collector =
      { collector with body := chunks.foldl (pushBody rust) collector.body } := by
  induction chunks generalizing collector with
  | nil => rfl
  | cons chunk rest ih => rw [List.foldl_cons, ih]; rfl

/-- Before the first push the three modes are the three descriptions of nothing. -/
theorem streamed_nil (protocol : ProtocolFamily) :
    streamed rust protocol [] = .streaming {} (.new protocol) := by
  have empty := push_chunks rust StreamFieldState.apply (.new protocol) [[]]
  simp only [List.foldl_cons, List.foldl_nil, List.flatten_singleton] at empty
  simp only [streamed, empty]
  rfl

theorem framed_nil : framed rust [] = .awsEventStream {} {} := by
  have empty : ({} : AwsEventStreamParser).push rust BedrockConverseStreamState.apply {} [] = ({}, {}) := by
    rw [AwsEventStreamParser.push, if_neg (by simp), List.append_nil, AwsEventStreamParser.drain, if_pos (by simp)]
  simp only [framed, empty]

theorem sniffed_nil (protocol : ProtocolFamily) :
    sniffed rust protocol [] = .sniffing [] false (some (.new protocol)) := by
  rw [sniffed, if_neg (by simp [prefix_nil])]
  simp

theorem initialBody_cases (protocol : ProtocolFamily) :
    initialBody rust head reqBody contentType protocol = streamed rust protocol [] ∨
      initialBody rust head reqBody contentType protocol = framed rust [] ∨
      initialBody rust head reqBody contentType protocol = sniffed rust protocol [] := by
  rw [streamed_nil, framed_nil, sniffed_nil]
  unfold initialBody
  dsimp only
  split
  · exact .inl rfl
  · split
    · exact .inr (.inl rfl)
    · split
      · exact .inl rfl
      · exact .inr (.inr rfl)

/-- No parser drops anything. -/
theorem losesBytes_parsed (describe : Bytes → FieldResponseBody)
    (push : ∀ seen chunk, pushBody rust (describe seen) chunk = describe (seen ++ chunk))
    (keeps : ∀ seen chunk, dropsBytes (describe seen) chunk = false) (seen : Bytes) (chunks : List Bytes) :
    losesBytes rust (describe seen) chunks = false := by
  induction chunks generalizing seen with
  | nil => rfl
  | cons chunk rest ih => rw [losesBytes, keeps, push, ih]; rfl

/-- Past the sniffed octets nothing changes the verdict. -/
theorem prefix_settled (seen more : Bytes) (long : maxFieldClaimsCapture < seen.length) :
    bodyPrefixIndicatesSse (seen ++ more) = bodyPrefixIndicatesSse seen := by
  have enough : maxStreamSniffBytes ≤ seen.length := by
    simp only [maxFieldClaimsCapture, maxStreamSniffBytes] at *
    omega
  rw [bodyPrefixIndicatesSse, bodyPrefixIndicatesSse, List.take_append_of_le_length enough]

/-- What is lost without a clip is lost from a long body that is no stream. -/
theorem losesBytes_sniffed (protocol : ProtocolFamily) (seen : Bytes) (chunks : List Bytes)
    (kept : clipsRun seen chunks = false) (lost : losesBytes rust (sniffed rust protocol seen) chunks = true) :
    maxFieldClaimsCapture < (seen ++ chunks.flatten).length ∧
      bodyPrefixIndicatesSse (seen ++ chunks.flatten) = false := by
  induction chunks generalizing seen with
  | nil => cases lost
  | cons chunk rest ih =>
    simp only [clipsRun, Bool.or_eq_false_iff] at kept
    simp only [List.flatten_cons, ← List.append_assoc]
    rw [losesBytes, Bool.or_eq_true] at lost
    rcases lost with now | later
    · by_cases stream : bodyPrefixIndicatesSse seen = true
      · rw [sniffed, if_pos stream] at now
        cases now
      · rw [sniffed, if_neg stream] at now
        have long : maxFieldClaimsCapture < (seen ++ chunk).length := by
          simp only [dropsBytes, Bool.or_eq_true, Bool.and_eq_true, decide_eq_true_eq, List.length_take] at now
          rw [List.length_append]
          rcases now with ⟨full, -⟩ | exceeds <;> omega
        have plain : bodyPrefixIndicatesSse (seen ++ chunk) = false := by
          simpa [clips, stream, List.length_append ▸ long] using kept.1
        refine ⟨?_, by rw [prefix_settled _ _ long, plain]⟩
        rw [List.length_append]
        omega
    · rw [sniffed_push rust protocol seen chunk kept.1] at later
      exact ih (seen ++ chunk) kept.2 later

/-- The cut reaches the loss: the collector sniffs, and the push that first shows an
event stream is longer than what the capture buffer has left. -/
def Clips (chunks : List Bytes) : Prop :=
  Sniffs rust configuredEnv head reqBody contentType ∧ clipsRun [] chunks = true

/-- What every cut of a body leads to that does not clip. -/
theorem run_initialBody (protocol : ProtocolFamily)
    (known : headProtocol rust configuredEnv head reqBody = some protocol) (body : Bytes) :
    ∃ final, ∀ chunks : List Bytes, chunks.flatten = body →
      ¬Clips rust configuredEnv head reqBody contentType chunks →
      chunks.foldl (pushBody rust) (initialBody rust head reqBody contentType protocol) = final ∧
        (losesBytes rust (initialBody rust head reqBody contentType protocol) chunks = true →
          finishBody rust protocol head.upstream.path final = none) := by
  rcases initialBody_cases rust head reqBody contentType protocol with mode | mode | mode
  · refine ⟨streamed rust protocol body, fun chunks cut _ => ?_⟩
    rw [mode, ← cut, losesBytes_parsed rust (streamed rust protocol) (streamed_push rust protocol) fun _ _ => rfl]
    exact ⟨parsed_run rust _ (streamed_push rust protocol) [] chunks, nofun⟩
  · refine ⟨framed rust body, fun chunks cut _ => ?_⟩
    rw [mode, ← cut, losesBytes_parsed rust (framed rust) (framed_push rust) fun _ _ => rfl]
    exact ⟨parsed_run rust _ (framed_push rust) [] chunks, nofun⟩
  · refine ⟨sniffed rust protocol body, fun chunks cut kept => ?_⟩
    have sniffs : Sniffs rust configuredEnv head reqBody contentType :=
      ⟨protocol, known, by rw [mode, sniffed_nil]⟩
    have whole : clipsRun [] chunks = false := by
      rw [Bool.eq_false_iff]
      exact fun bad => kept ⟨sniffs, bad⟩
    rw [mode]
    subst cut
    refine ⟨sniffed_run rust protocol [] chunks whole, fun lost => ?_⟩
    obtain ⟨long, plain⟩ := losesBytes_sniffed rust protocol [] chunks whole lost
    rw [List.nil_append] at long plain
    rw [sniffed, if_neg (by simp [plain])]
    simp only [finishBody, long, decide_true, if_true]

/-- Octets of these chunks are dropped for the capture limit. -/
def Loses (chunks : List Bytes) : Prop :=
  ∃ collector, FieldResponseCollector.new rust configuredEnv head reqBody contentType = some collector ∧
    losesBytes rust collector.body chunks = true

/-- Two cuts of one body give the same claims, and none when either lost octets. -/
def CutsAgree (a b : List Bytes) : Prop :=
  collectedClaims rust configuredEnv head reqBody contentType normMethod status a =
      collectedClaims rust configuredEnv head reqBody contentType normMethod status b ∧
    (Loses rust configuredEnv head reqBody contentType a →
      collectedClaims rust configuredEnv head reqBody contentType normMethod status b = none)

/-- A collector as its three parts. -/
theorem new_some {collector : FieldResponseCollector}
    (made : FieldResponseCollector.new rust configuredEnv head reqBody contentType = some collector) :
    ∃ protocol, headProtocol rust configuredEnv head reqBody = some protocol ∧
      hasRequiredPresence protocol .request
        (fieldView rust protocol .request reqBody (some head.upstream.path)) = true ∧
      collector = ⟨protocol, fieldView rust protocol .request reqBody (some head.upstream.path),
        initialBody rust head reqBody contentType protocol⟩ := by
  obtain ⟨protocol, known, made⟩ := Option.bind_eq_some_iff.mp made
  dsimp only at made
  split at made
  · cases made
  next present =>
    exact ⟨protocol, known, by simpa using present, (Option.some.inj made).symm⟩

theorem new_eq (protocol : ProtocolFamily)
    (known : headProtocol rust configuredEnv head reqBody = some protocol)
    (present : hasRequiredPresence protocol .request
      (fieldView rust protocol .request reqBody (some head.upstream.path)) = true) :
    FieldResponseCollector.new rust configuredEnv head reqBody contentType =
      some ⟨protocol, fieldView rust protocol .request reqBody (some head.upstream.path),
        initialBody rust head reqBody contentType protocol⟩ := by
  simp [FieldResponseCollector.new, known, present]

theorem collectedClaims_eq (protocol : ProtocolFamily)
    (known : headProtocol rust configuredEnv head reqBody = some protocol)
    (present : hasRequiredPresence protocol .request
      (fieldView rust protocol .request reqBody (some head.upstream.path)) = true) (chunks : List Bytes) :
    collectedClaims rust configuredEnv head reqBody contentType normMethod status chunks =
      (finishBody rust protocol head.upstream.path (chunks.foldl (pushBody rust)
        (initialBody rust head reqBody contentType protocol))).bind fun view =>
          buildFieldClaimsFromViews rust head normMethod status protocol
            (fieldView rust protocol .request reqBody (some head.upstream.path)) view.1 view.2 := by
  rw [collectedClaims, new_eq rust configuredEnv head reqBody contentType protocol known present,
    Option.bind_some, foldl_push]
  rfl

theorem cutsAgree_of_kept (a b : List Bytes) (same : a.flatten = b.flatten)
    (first : ¬Clips rust configuredEnv head reqBody contentType a)
    (second : ¬Clips rust configuredEnv head reqBody contentType b) :
    CutsAgree rust configuredEnv head reqBody contentType normMethod status a b := by
  cases made : FieldResponseCollector.new rust configuredEnv head reqBody contentType with
  | none =>
    refine ⟨by simp [collectedClaims, made], ?_⟩
    rintro ⟨collector, exists_, -⟩
    simp [made] at exists_
  | some collector =>
    obtain ⟨protocol, known, present, rfl⟩ := new_some rust configuredEnv head reqBody contentType made
    obtain ⟨final, run⟩ := run_initialBody rust configuredEnv head reqBody contentType protocol known a.flatten
    have claims := collectedClaims_eq rust configuredEnv head reqBody contentType normMethod status protocol
      known present
    refine ⟨by rw [claims, claims, (run a rfl first).1, (run b same.symm second).1], ?_⟩
    rintro ⟨collector, exists_, lost⟩
    rw [made] at exists_
    obtain rfl := Option.some.inj exists_
    rw [claims, (run b same.symm second).1, (run a rfl first).2 lost]
    rfl

/-! A sniffing collector does lose what is behind the limit: the same body, pushed
whole or with its first octet apart, with an event at the end. -/

/-- An event that gives an error view under each protocol. -/
def lateEvent : Value :=
  .ofFields [("type", .lit "error"), ("error", .ofNat 1), ("code", .ofNat 1), ("message", .ofNat 1),
    ("response", .ofFields [("error", .ofNat 1)])]

def lateText : Str :=
  "\x7b\"type\":\"error\",\"error\":1,\"code\":1,\"message\":1,\"response\":\x7b\"error\":1\x7d\x7d".toList

def lateTail : Bytes := 10 :: Utf8.encode ("data:".toList ++ lateText)

/-- Colons up to the limit and one more, then the event. -/
def lateBody : Bytes := List.replicate (maxFieldClaimsCapture + 1) 58 ++ lateTail

theorem finishBody_streamed (protocol : ProtocolFamily) (upstreamPath : Str) (seen : Bytes) :
    finishBody rust protocol upstreamPath (streamed rust protocol seen) =
      some (aggregateStream protocol (.array (sseEvents rust seen)), true) := by
  have replayed := sse_pipeline rust StreamFieldState.apply (.new protocol) [seen]
  simp only [List.foldl_cons, List.foldl_nil, List.flatten_singleton] at replayed
  simp only [streamed, finishBody, replayed, StreamFieldState.finish_foldl]

/-- A line of colons is a comment. -/
theorem feedLine_colons {σ : Type} (onEvent : σ → Value → σ) (state : List Str × σ) (n : Nat) :
    feedLine rust onEvent state (Utf8.decode (List.replicate (n + 1) 58)) = state := by
  rw [List.replicate_succ, Utf8.decode_cons_ascii _ _ (by decide)]
  rfl

theorem feedBytes_colons {σ : Type} (onEvent : σ → Value → σ) (state : List Str × σ) (n : Nat) :
    feedBytes rust onEvent state (List.replicate (n + 1) 58) = state := by
  have unmarked : Lines.stripMark 13 (List.replicate (n + 1) (58 : UInt8)) = List.replicate (n + 1) 58 := by
    rw [Lines.stripMark, if_neg (by simp [List.getLast?_replicate])]
  rw [feedBytes, unmarked, feedLine_colons]

theorem newline_colons (n : Nat) : (10 : UInt8) ∉ List.replicate n (58 : UInt8) := by
  simp [List.mem_replicate]

theorem sseEvents_colons (n : Nat) (positive : 0 < n) : sseEvents rust (List.replicate n 58) = [] := by
  obtain ⟨n, rfl⟩ := Nat.exists_eq_succ_of_ne_zero positive.ne'
  have clean := newline_colons (n + 1)
  rw [sseEvents, Lines.ended_free _ _ clean, Lines.rest_free _ _ clean, List.foldl_nil, settle]
  rw [if_neg (by simp), feedLine_colons]
  rfl

theorem sseEvents_late (reads : rust.fromStr lateText = some lateEvent) (n : Nat) :
    sseEvents rust (List.replicate (n + 1) 58 ++ lateTail) = [lateEvent] := by
  have clean := newline_colons (n + 1)
  have last : (10 : UInt8) ∉ Utf8.encode ("data:".toList ++ lateText) := by decide
  have text : Utf8.decode (Utf8.encode ("data:".toList ++ lateText)) = "data:".toList ++ lateText := by
    decide
  have read (items : List Value) : feedLine rust (fun items v => items ++ [v]) ([], items)
      ("data:".toList ++ lateText) = ([lateText], items) := by
    rfl
  have flushed : feedLine rust (fun items v => items ++ [v]) ([lateText], []) [] = ([], [lateEvent]) := by
    have shown : ((Str.trim lateText).isEmpty || Str.trim lateText == "[DONE]".toList) = false := by decide
    simp only [feedLine, List.isEmpty_nil, List.isEmpty_cons, Bool.false_eq_true, if_true, if_false, Str.join,
      shown, sseValue, reads, Option.getD_some, List.nil_append]
  rw [sseEvents, lateTail, Lines.ended_line _ _ _ clean, Lines.rest_line _ _ _ clean,
    Lines.ended_free _ _ last, Lines.rest_free _ _ last, List.foldl_cons, List.foldl_nil, feedBytes_colons, settle]
  have pending : (Utf8.encode ("data:".toList ++ lateText)).isEmpty = false := by decide
  simp only [text, read, flushed, ite_cond_eq_false, pending, Bool.false_eq_true]

theorem presence_late (protocol : ProtocolFamily) :
    hasRequiredPresence protocol .response (aggregateStream protocol (.array [lateEvent])) = true := by
  cases protocol <;> decide

theorem presence_none (protocol : ProtocolFamily) :
    hasRequiredPresence protocol .response (aggregateStream protocol (.array [])) = false := by
  cases protocol <;> decide

theorem capture_large : 1 < maxFieldClaimsCapture := by decide

attribute [local irreducible] maxFieldClaimsCapture

theorem colons_append (n : Nat) (positive : 0 < n) (after : Bytes) :
    bodyPrefixIndicatesSse (List.replicate n 58 ++ after) = true := by
  obtain ⟨n, rfl⟩ := Nat.exists_eq_succ_of_ne_zero positive.ne'
  rw [List.replicate_succ, List.cons_append]
  exact prefix_append [58] _ (by decide)

theorem lateBody_eq : lateBody = [58] ++ (List.replicate maxFieldClaimsCapture 58 ++ lateTail) := by
  rw [lateBody, List.replicate_succ, List.singleton_append, List.cons_append]

/-- Pushed whole, the body is cut at the limit and then taken for a stream. -/
theorem pushBody_late (protocol : ProtocolFamily) :
    pushBody rust (.sniffing [] false (some (.new protocol))) lateBody =
      streamed rust protocol (List.replicate maxFieldClaimsCapture 58) := by
  have exceeds : maxFieldClaimsCapture < lateBody.length := by
    rw [lateBody, List.length_append, List.length_replicate]
    omega
  have captured : lateBody.take maxFieldClaimsCapture = List.replicate maxFieldClaimsCapture 58 := by
    rw [lateBody, List.take_append_of_le_length (by simp), List.take_replicate, Nat.min_eq_left (by omega)]
  have stream : bodyPrefixIndicatesSse (List.replicate maxFieldClaimsCapture 58) = true := by
    simpa using colons_append maxFieldClaimsCapture (by have := capture_large; omega) []
  have capture := capture_take [] lateBody
  rw [List.nil_append, captured, decide_eq_true exceeds, List.take_nil, List.length_nil,
    decide_eq_false (Nat.not_lt_zero _)] at capture
  rw [pushBody, capture]
  exact if_pos stream

theorem clips_first : clips [] [58] = false := by
  have within : decide (maxFieldClaimsCapture < (([] : Bytes) ++ [58]).length) = false :=
    decide_eq_false (not_lt.mpr (le_of_lt capture_large))
  rw [clips, within, Bool.and_false]

/-- With its first octet apart, all of the body reaches the parser. -/
theorem pushBody_apart (protocol : ProtocolFamily) :
    pushBody rust (pushBody rust (.sniffing [] false (some (.new protocol))) [58])
        (List.replicate maxFieldClaimsCapture 58 ++ lateTail) =
      streamed rust protocol lateBody := by
  have first : sniffed rust protocol [58] = streamed rust protocol [58] := if_pos (by decide)
  rw [← sniffed_nil rust, sniffed_push rust protocol [] [58] clips_first, List.nil_append, first, streamed_push,
    ← lateBody_eq]

theorem apart_flatten :
    [[58], List.replicate maxFieldClaimsCapture 58 ++ lateTail].flatten = [lateBody].flatten := by
  rw [List.flatten_singleton, lateBody_eq, List.flatten_cons, List.flatten_singleton]

theorem cuts_differ (reads : rust.fromStr lateText = some lateEvent) (protocol : ProtocolFamily)
    (known : headProtocol rust configuredEnv head reqBody = some protocol)
    (present : hasRequiredPresence protocol .request
      (fieldView rust protocol .request reqBody (some head.upstream.path)) = true)
    (mode : initialBody rust head reqBody contentType protocol = .sniffing [] false (some (.new protocol))) :
    ¬CutsAgree rust configuredEnv head reqBody contentType normMethod status
      [[58], List.replicate maxFieldClaimsCapture 58 ++ lateTail] [lateBody] := by
  have claims := collectedClaims_eq rust configuredEnv head reqBody contentType normMethod status protocol
    known present
  have comment : sseEvents rust (List.replicate maxFieldClaimsCapture 58) = [] :=
    sseEvents_colons rust maxFieldClaimsCapture (by have := capture_large; omega)
  have event : sseEvents rust lateBody = [lateEvent] := sseEvents_late rust reads maxFieldClaimsCapture
  rintro ⟨same, -⟩
  rw [claims, claims, mode, List.foldl_cons, List.foldl_cons, List.foldl_nil, List.foldl_cons, List.foldl_nil,
    pushBody_late, pushBody_apart, finishBody_streamed, finishBody_streamed, event, comment] at same
  simp [buildFieldClaimsFromViews, present, presence_late, presence_none] at same

/-- Two cuts that do not clip agree, and every sniffing collector meets a body on
which a cut that clips and one that does not disagree. -/
theorem cutsAgree_unless_clips (reads : rust.fromStr lateText = some lateEvent) :
    (∀ a b : List Bytes, a.flatten = b.flatten →
      ¬Clips rust configuredEnv head reqBody contentType a →
      ¬Clips rust configuredEnv head reqBody contentType b →
        CutsAgree rust configuredEnv head reqBody contentType normMethod status a b) ∧
      ((FieldResponseCollector.new rust configuredEnv head reqBody contentType).isSome →
        Sniffs rust configuredEnv head reqBody contentType →
        ∃ a b : List Bytes, a.flatten = b.flatten ∧
          ¬Clips rust configuredEnv head reqBody contentType a ∧
          Clips rust configuredEnv head reqBody contentType b ∧
          ¬CutsAgree rust configuredEnv head reqBody contentType normMethod status a b) := by
  refine ⟨cutsAgree_of_kept rust configuredEnv head reqBody contentType normMethod status, fun made sniffs => ?_⟩
  obtain ⟨collector, made⟩ := Option.isSome_iff_exists.mp made
  obtain ⟨protocol, known, present, -⟩ := new_some rust configuredEnv head reqBody contentType made
  have sniffed := sniffs
  obtain ⟨other, again, mode⟩ := sniffs
  obtain rfl : protocol = other := Option.some.inj (known.symm.trans again)
  refine ⟨_, _, apart_flatten, ?_, ⟨sniffed, ?_⟩,
    cuts_differ rust configuredEnv head reqBody contentType normMethod status reads protocol known present mode⟩
  · rintro ⟨-, clipped⟩
    have shown : bodyPrefixIndicatesSse [58] = true := by decide
    have second (chunk : Bytes) : clips [58] chunk = false := by
      rw [clips, shown, Bool.not_true, Bool.false_and, Bool.false_and]
    rw [clipsRun, clips_first, clipsRun, List.nil_append, second, clipsRun] at clipped
    cases clipped
  · have long : maxFieldClaimsCapture < lateBody.length := by
      rw [lateBody, List.length_append, List.length_replicate]
      omega
    have shown : bodyPrefixIndicatesSse lateBody = true := by
      rw [lateBody]
      exact colons_append _ (Nat.succ_pos _) lateTail
    rw [clipsRun, clips, List.nil_append, prefix_nil, shown, decide_eq_true long]
    rfl

end Exchange

/-! A chat request whose answer is announced as plain JSON. -/

def chatRequestText : Str := "\x7b\"model\":\"m\",\"messages\":[1]\x7d".toList

def chatRequest : Value := .ofFields [("model", .lit "m"), ("messages", .array [.ofNat 1])]

def chatRust : Rust := .sample [] [(chatRequestText, chatRequest), (lateText, lateEvent)]

def chatHead : ReqHead where
  nonce := "AAAA"
  upstream := ⟨"api.example", "POST", "/v1/chat/completions", [], none⟩
  token := none
  clientProtocolFamily := none
  downstreamProtocolFamily := none
  protocolFamily := none

theorem chatHead_protocol :
    headProtocol chatRust none chatHead (Utf8.encode chatRequestText) = some .openaiChat := by decide

theorem chatHead_present :
    hasRequiredPresence .openaiChat .request (fieldView chatRust .openaiChat .request
      (Utf8.encode chatRequestText) (some chatHead.upstream.path)) = true := by decide

theorem chatHead_sniffs :
    initialBody chatRust chatHead (Utf8.encode chatRequestText) "application/json" .openaiChat =
      .sniffing [] false (some (.new .openaiChat)) := by
  rw [initialBody, if_neg (by decide), if_neg (by decide), if_neg (by decide)]

theorem cutsAgree_unless_clips_chat :
    chatRust.fromStr lateText = some lateEvent ∧
      ∃ a b : List Bytes, a.flatten = b.flatten ∧
        ¬Clips chatRust none chatHead (Utf8.encode chatRequestText) "application/json" a ∧
        Clips chatRust none chatHead (Utf8.encode chatRequestText) "application/json" b ∧
        ¬CutsAgree chatRust none chatHead (Utf8.encode chatRequestText) "application/json" "POST" 200 a b := by
  have reads : chatRust.fromStr lateText = some lateEvent := by rfl
  have made : (FieldResponseCollector.new chatRust none chatHead (Utf8.encode chatRequestText)
      "application/json").isSome := by
    rw [new_eq _ _ _ _ _ .openaiChat chatHead_protocol chatHead_present]
    rfl
  exact ⟨reads, (cutsAgree_unless_clips chatRust none chatHead (Utf8.encode chatRequestText)
    "application/json" "POST" 200 reads).2 made ⟨.openaiChat, chatHead_protocol, chatHead_sniffs⟩⟩

/-- The same answer, cut in two ways, gives claims once and none the other time. -/
theorem cuts_differ_chat :
    ¬CutsAgree chatRust none chatHead (Utf8.encode chatRequestText) "application/json" "POST" 200
      [[58], List.replicate maxFieldClaimsCapture 58 ++ lateTail] [lateBody] :=
  cuts_differ chatRust none chatHead (Utf8.encode chatRequestText) "application/json" "POST" 200 rfl
    .openaiChat chatHead_protocol chatHead_present chatHead_sniffs

end TeeProof.Enclave
