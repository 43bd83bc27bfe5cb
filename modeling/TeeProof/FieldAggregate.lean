import TeeProof.FieldMerge

/-! The verifier's stream aggregation, one fold for each protocol: a state, the step
of one event and the value built at the end. -/
namespace TeeProof.Verifier

open JsVal

/-- `if (source[field] !== undefined) target[field] = source[field]`. -/
def copyDefined (field : JStr) (target source : JsVal) : JsVal :=
  if isUndefined (source.get field) then target else target.set field (source.get field)

/-- The text of `event.type`, empty when it is no string. -/
def eventType (event : JsVal) : JStr := stringOr [] (event.get "type")

/-- `Array.from(map.entries()).sort(([a], [b]) => a - b).map(([, v]) => v)`; sorting
the values by their own `index` gives the same list, since each holds its key there. -/
def sortedValues (map : NumMap) : JsVal := .arr map.sorted.values

structure Indexed where
  out : JsVal
  map : NumMap

def Indexed.init : Indexed := ⟨empty, []⟩

/-! OpenAI Chat Completions. -/

def chatChoiceStep (choices : NumMap) (rawChoice : JsVal) (i : Nat) : NumMap :=
  if !rawChoice.isRecord then choices
  else
    let index := numberElse (rawChoice.get "index") i
    let choice := (choices.get index).getD (ofObject [("index", .num index), ("message", empty)])
    let message := recordOr empty (choice.get "message")
    let message :=
      if (rawChoice.get "delta").isRecord then mergeOpenAIChatDelta message (rawChoice.get "delta") else message
    let message :=
      if (rawChoice.get "message").isRecord then mergeObject message (rawChoice.get "message") else message
    let choice := choice.set "message" message
    let choice :=
      if isNullish (rawChoice.get "finish_reason") then choice
      else choice.set "finish_reason" (rawChoice.get "finish_reason")
    choices.set index (copyDefined "logprobs" choice rawChoice)

def chatStep (s : Indexed) (chunk : JsVal) : Indexed :=
  if !chunk.isRecord then s
  else
    let out :=
      if isUndefined (s.out.get "model") && isString (chunk.get "model") then s.out.set "model" (chunk.get "model")
      else s.out
    let out := copyDefined "error" (copyDefined "usage" out chunk) chunk
    ⟨out, (chunk.get "choices").items.zipIdx.foldl (fun m p => chatChoiceStep m p.1 p.2) s.map⟩

def chatFinish (s : Indexed) : JsVal :=
  if s.map.length > 0 then s.out.set "choices" (sortedValues s.map) else s.out

def aggregateOpenAIChatStream (chunks : List JsVal) : JsVal := chatFinish (chunks.foldl chatStep .init)

/-! OpenAI Responses. -/

def responsesFields : List String := ["model", "status", "output", "output_text", "usage", "error"]

/-- The field a delta event fills, and where its text stands in a done event. -/
structure TextKind where
  type : String
  partType : String
  field : String

def textKinds : List TextKind :=
  [⟨"response.output_text", "output_text", "text"⟩, ⟨"response.refusal", "refusal", "refusal"⟩,
    ⟨"response.reasoning_text", "reasoning_text", "text"⟩]

/-- One of the three families `response.*.delta` and `response.*.done`. -/
def textEventStep (kind : TextKind) (items : NumMap) (event : JsVal) (done : Bool) : NumMap :=
  ensureIndexedObject items (event.get "output_index") fun item =>
    mergeOpenAIResponseContentPart item (event.get "content_index")
      (ofObject [("type", lit kind.partType)]) fun part =>
        if done then setStringField kind.field (event.get kind.field) part
        else appendStringField kind.field (event.get "delta") part

def argumentsStep (items : NumMap) (event : JsVal) (done : Bool) : NumMap :=
  ensureIndexedObject items (event.get "output_index") fun item =>
    if done then setStringField "arguments" (event.get "arguments") item
    else appendStringField "arguments" (event.get "delta") item

def isDelta (kind : TextKind) (type : JStr) : Bool := type = JStr.lit kind.type ++ JStr.lit ".delta"
def isDone (kind : TextKind) (type : JStr) : Bool := type = JStr.lit kind.type ++ JStr.lit ".done"

def responsesEvent (s : Indexed) (type : JStr) (event : JsVal) : Indexed :=
  if type = JStr.lit "response.output_item.added" ∨ type = JStr.lit "response.output_item.done" then
    let index := numberOrDefault (event.get "output_index") s.map.length
    let item := (s.map.get index).getD empty
    let item := if (event.get "item").isRecord then mergeObject item (event.get "item") else item
    { s with map := s.map.set index item }
  else if type = JStr.lit "response.content_part.added" ∨ type = JStr.lit "response.content_part.done" then
    let map := ensureIndexedObject s.map (event.get "output_index") fun item =>
      mergeOpenAIResponseContentPart item (event.get "content_index") (event.get "part") id
    { s with map }
  else match textKinds.find? fun kind => isDelta kind type || isDone kind type with
  | some kind => { s with map := textEventStep kind s.map event (isDone kind type) }
  | none =>
    if type = JStr.lit "response.function_call_arguments.delta" ∨
        type = JStr.lit "response.function_call_arguments.done" then
      { s with map := argumentsStep s.map event (type = JStr.lit "response.function_call_arguments.done") }
    else if type = JStr.lit "response.completed" ∧ isUndefined (s.out.get "status") then
      { s with out := s.out.set "status" (lit "completed") }
    else if type = JStr.lit "response.failed" ∧ !isUndefined (event.get "error") then
      { s with out := s.out.set "error" (event.get "error") }
    else s

def responsesStep (s : Indexed) (event : JsVal) : Indexed :=
  if !event.isRecord then s
  else
    let out :=
      if (event.get "response").isRecord then mergeObject s.out (pick (event.get "response") responsesFields)
      else s.out
    responsesEvent { s with out } (eventType event) event

def responsesFinish (s : Indexed) : JsVal :=
  let out :=
    if s.map.length > 0 ∧ (s.out.get "output").items = [] then s.out.set "output" (sortedValues s.map)
    else s.out
  pick out responsesFields

def aggregateOpenAIResponsesStream (events : List JsVal) : JsVal :=
  responsesFinish (events.foldl responsesStep .init)

/-! Anthropic Messages. -/

def anthropicFields : List String := ["type", "role", "model", "content", "stop_reason", "usage", "error"]

def seedAnthropicContentBlocks (blocks : NumMap) (content : JsVal) : NumMap :=
  content.items.zipIdx.foldl (fun m p =>
    if p.1.isRecord && (m.get (.finite p.2)).isNone then m.set (.finite p.2) p.1.spread else m) blocks

def anthropicStep (s : Indexed) (event : JsVal) : Indexed :=
  if !event.isRecord then s
  else
    let type := eventType event
    if type = JStr.lit "message_start" ∧ (event.get "message").isRecord then
      ⟨mergeObject s.out (pick (event.get "message") ["type", "role", "model", "stop_reason", "usage"]),
        seedAnthropicContentBlocks s.map ((event.get "message").get "content")⟩
    else if type = JStr.lit "content_block_start" ∧ (event.get "content_block").isRecord then
      { s with map := s.map.set (numberElse (event.get "index") s.map.length) (event.get "content_block").spread }
    else if type = JStr.lit "content_block_delta" ∧ (event.get "delta").isRecord then
      let index := numberElse (event.get "index") s.map.length
      let block := mergeAnthropicContentDelta ((s.map.get index).getD empty) (event.get "delta")
      { s with map := s.map.set index block }
    else if type = JStr.lit "message_delta" ∧ (event.get "delta").isRecord then
      let out := mergeObject s.out (pick (event.get "delta") ["stop_reason", "stop_sequence"])
      { s with out := mergeNestedObject out "usage" (event.get "usage") }
    else if type = JStr.lit "error" then
      { s with out := s.out.set "error" (if isNullish (event.get "error") then event else event.get "error") }
    else s

/-- `if (map.size > 0) out[field] = sorted values`. -/
def withValues (field : JStr) (map : NumMap) (out : JsVal) : JsVal :=
  if map.length > 0 then out.set field (sortedValues map) else out

def anthropicFinish (s : Indexed) : JsVal := pick (withValues "content" s.map s.out) anthropicFields

def aggregateAnthropicMessagesStream (events : List JsVal) : JsVal :=
  anthropicFinish (events.foldl anthropicStep .init)

/-! Gemini. -/

def geminiFields : List String := ["candidates", "promptFeedback", "usageMetadata", "error", "modelVersion"]

def geminiCandidateStep (candidates : NumMap) (rawCandidate : JsVal) (i : Nat) : NumMap :=
  if !rawCandidate.isRecord then candidates
  else
    let index := numberOrDefault (rawCandidate.get "index") i
    let candidate := (candidates.get index).getD (ofObject [("index", .num index)])
    candidates.set index (mergeGeminiCandidate candidate rawCandidate)

def geminiStep (s : Indexed) (chunk : JsVal) : Indexed :=
  if !chunk.isRecord then s
  else
    let out := ["promptFeedback", "usageMetadata", "error", "modelVersion"].foldl
      (fun out field => copyDefined (JStr.lit field) out chunk) s.out
    ⟨out, (chunk.get "candidates").items.zipIdx.foldl (fun m p => geminiCandidateStep m p.1 p.2) s.map⟩

def geminiFinish (s : Indexed) : JsVal := pick (withValues "candidates" s.map s.out) geminiFields

def aggregateGeminiGenerateContentStream (chunks : List JsVal) : JsVal :=
  geminiFinish (chunks.foldl geminiStep .init)

/-! DashScope, Bedrock and Cohere keep a second object beside the result. -/

structure Nested where
  out : JsVal
  inner : JsVal
  map : NumMap
  text : JStr

def Nested.init : Nested := ⟨empty, empty, [], []⟩

def dashscopeFields : List String := ["output", "usage", "request_id", "code", "message"]

def dashscopeChoiceStep (choices : NumMap) (rawChoice : JsVal) (i : Nat) : NumMap :=
  if !rawChoice.isRecord then choices
  else
    let index := numberOrDefault (rawChoice.get "index") i
    let choice := (choices.get index).getD (ofObject [("index", .num index), ("message", empty)])
    let message := recordOr empty (choice.get "message")
    let message :=
      if (rawChoice.get "message").isRecord then mergeDashscopeMessage message (rawChoice.get "message") else message
    let message :=
      if (rawChoice.get "delta").isRecord then mergeDashscopeMessage message (rawChoice.get "delta") else message
    let choice := choice.set "message" message
    choices.set index
      (copyEntries [JStr.lit "index", JStr.lit "message", JStr.lit "delta"] choice rawChoice)

def dashscopeStep (s : Nested) (chunk : JsVal) : Nested :=
  if !chunk.isRecord then s
  else
    let out := ["usage", "request_id", "code", "message"].foldl
      (fun out field => copyDefined (JStr.lit field) out chunk) s.out
    if !(chunk.get "output").isRecord then { s with out }
    else
      let output := chunk.get "output"
      { s with
        out
        inner := output.entries.foldl (fun o p => if p.1 ≠ JStr.lit "choices" then o.set p.1 p.2 else o) s.inner
        map := (output.get "choices").items.zipIdx.foldl (fun m p => dashscopeChoiceStep m p.1 p.2) s.map }

def dashscopeFinish (s : Nested) : JsVal :=
  let output := withValues "choices" s.map s.inner
  pick (if output.entries.length > 0 then s.out.set "output" output else s.out) dashscopeFields

def aggregateDashscopeGenerationStream (chunks : List JsVal) : JsVal :=
  dashscopeFinish (chunks.foldl dashscopeStep .init)

def bedrockFields : List String := ["output", "stopReason", "usage", "error"]

/-- The blocks after `contentBlockStart` or `contentBlockDelta`. -/
def bedrockBlock (map : NumMap) (part : JsVal) (field : String) (merge : JsVal → JsVal → JsVal) : NumMap :=
  if part.isRecord then
    let index := numberOrDefault (part.get "contentBlockIndex") map.length
    let block := (map.get index).getD empty
    map.set index (if (part.get field).isRecord then merge block (part.get field) else block)
  else map

def bedrockStep (s : Nested) (event : JsVal) : Nested :=
  if !event.isRecord then s
  else
    let message := if (event.get "messageStart").isRecord then copyDefined "role" s.inner (event.get "messageStart")
      else s.inner
    let map := bedrockBlock s.map (event.get "contentBlockStart") "start" mergeObject
    let map := bedrockBlock map (event.get "contentBlockDelta") "delta" mergeBedrockContentDelta
    let stop := event.get "messageStop"
    let out := if stop.isRecord then
        copyDefined "additionalModelResponseFields" (copyDefined "stopReason" s.out stop) stop
      else s.out
    let out := if (event.get "metadata").isRecord then copyDefined "usage" out (event.get "metadata") else out
    let out := if (event.get "output").isRecord then mergeObject out (pick event bedrockFields) else out
    { s with out := copyDefined "error" out event, inner := message, map }

def bedrockFinish (s : Nested) : JsVal :=
  let message := withValues "content" s.map s.inner
  pick (if message.entries.length > 0 ∧ isUndefined (s.out.get "output") then
      s.out.set "output" (ofObject [("message", message)]) else s.out) bedrockFields

def aggregateBedrockConverseStream (events : List JsVal) : JsVal := bedrockFinish (events.foldl bedrockStep .init)

def cohereFields : List String := ["message", "text", "finish_reason", "usage", "error"]

def cohereType (event : JsVal) : JStr :=
  match event.get "type", event.get "event_type", event.get "eventType" with
  | .str s, _, _ => s
  | _, .str s, _ => s
  | _, _, .str s => s
  | _, _, _ => []

/-- A finish reason is kept both on the result and on the message. -/
def cohereFinishReason (s : Nested) (source : JsVal) : Nested :=
  { s with out := copyDefined "finish_reason" s.out source, inner := copyDefined "finish_reason" s.inner source }

def cohereStep (s : Nested) (event : JsVal) : Nested :=
  if !event.isRecord then s
  else
    let type := cohereType event
    let delta := event.get "delta"
    let out := if (event.get "response").isRecord then mergeObject s.out (pick (event.get "response") cohereFields)
      else s.out
    let merged := if delta.isRecord then mergeCohereMessageDelta s.inner s.map (delta.get "message")
      else (s.inner, s.map)
    let text := if type = JStr.lit "text-generation" then s.text ++ stringOr [] (event.get "text") else s.text
    let s : Nested := ⟨out, merged.1, merged.2, text⟩
    let s := if type = JStr.lit "message-end" ∧ delta.isRecord then
        let s := cohereFinishReason s delta
        { s with out := copyDefined "usage" s.out delta }
      else s
    let s := cohereFinishReason s event
    { s with out := copyDefined "error" s.out event }

def cohereFinish (s : Nested) : JsVal :=
  let message :=
    if s.map.length > 0 then s.inner.set "content" (sortedValues s.map)
    else if s.text ≠ [] then s.inner.set "content" (.arr [ofObject [("type", lit "text"), ("text", .str s.text)]])
    else s.inner
  let out := if s.map.length = 0 ∧ s.text ≠ [] then s.out.set "text" (.str s.text) else s.out
  pick (if message.entries.length > 0 ∧ isUndefined (out.get "message") then out.set "message" message else out)
    cohereFields

def aggregateCohereChatStream (events : List JsVal) : JsVal := cohereFinish (events.foldl cohereStep .init)

end TeeProof.Verifier
