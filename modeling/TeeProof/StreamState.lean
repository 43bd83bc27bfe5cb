import TeeProof.Aggregate
import TeeProof.Protocol

/-! The stateful aggregators: the same seven protocols, fed one event at a time while
the response is still arriving. -/
namespace TeeProof.Enclave

open Value (Map)

structure OpenAiChatStreamState where
  out : Map := []
  choices : IndexMap := []

namespace OpenAiChatStreamState

def applyChoice (self : OpenAiChatStreamState) (rawChoice : Value) : OpenAiChatStreamState :=
  match rawChoice.asObject with
  | none => self
  | some choiceObj =>
    let index := indexOr choiceObj "index" self.choices.length
    let default : Map := [("index".toList, .ofInt index), ("message".toList, .object [])]
    let choice := (OrdMap.find index self.choices).getD default
    let message := (objectField choice "message").getD []
    let message :=
      match objectField choiceObj "delta" with
      | some delta => mergeOpenAiChatDelta message delta
      | none => message
    let message :=
      match objectField choiceObj "message" with
      | some fullMessage => extend message fullMessage
      | none => message
    let choice := put choice "message" (.object message)
    let choice :=
      match field choiceObj "finish_reason" with
      | some finishReason => if finishReason.isNull then choice else put choice "finish_reason" finishReason
      | none => choice
    let choice := copyField choice choiceObj "logprobs"
    { self with choices := OrdMap.insert index choice self.choices }

def apply (self : OpenAiChatStreamState) (item : Value) : OpenAiChatStreamState :=
  match item.asObject with
  | none => self
  | some chunk =>
    let self :=
      if OrdMap.contains "model".toList self.out then self
      else
        match strField chunk "model" with
        | some model => { self with out := put self.out "model" (.string model) }
        | none => self
    let self := { self with out := copyField self.out chunk "usage" }
    let self := { self with out := copyField self.out chunk "error" }
    match arrayField chunk "choices" with
    | none => self
    | some rawChoices => rawChoices.foldl applyChoice self

def finish (self : OpenAiChatStreamState) : Value :=
  if !self.choices.isEmpty then .object (put self.out "choices" (objects self.choices)) else .object self.out

end OpenAiChatStreamState

structure OpenAiResponsesStreamState where
  out : Map := []
  outputItems : IndexMap := []

namespace OpenAiResponsesStreamState

/-- `self.output_items.entry(index).or_default()`, at the event's output index. -/
def atItem (self : OpenAiResponsesStreamState) (event : Map) (change : Map → Map) :
    OpenAiResponsesStreamState :=
  let index := indexOr event "output_index" self.outputItems.length
  { self with outputItems := entry self.outputItems index [] change }

/-- One of the arms `response.*.delta | response.*.done` that fill a content part. -/
def applyText (self : OpenAiResponsesStreamState) (event : Map) (type : Str) (partType name : String) :
    OpenAiResponsesStreamState :=
  self.atItem event fun itemOut =>
    let part := Value.ofFields [("type", .lit partType)]
    if Str.endsWith ".done" type then
      mergeOpenAiResponseContentPart itemOut (field event "content_index") (some part)
        none none (some name) (field event name)
    else
      mergeOpenAiResponseContentPart itemOut (field event "content_index") (some part)
        (some name) (field event "delta") none none

def apply (self : OpenAiResponsesStreamState) (item : Value) : OpenAiResponsesStreamState :=
  match item.asObject with
  | none => self
  | some event =>
    let type := typeOf event
    let self :=
      match field event "response" with
      | some response => { self with out := mergeValueObject self.out (pickValue responsesKeys response) }
      | none => self
    if type = "response.output_item.added".toList ∨ type = "response.output_item.done".toList then
      self.atItem event fun itemOut =>
        match objectField event "item" with
        | some rawItem => extend itemOut rawItem
        | none => itemOut
    else if type = "response.content_part.added".toList ∨ type = "response.content_part.done".toList then
      self.atItem event fun itemOut =>
        mergeOpenAiResponseContentPart itemOut (field event "content_index") (field event "part")
          none none none none
    else if type = "response.output_text.delta".toList ∨ type = "response.output_text.done".toList then
      self.applyText event type "output_text" "text"
    else if type = "response.refusal.delta".toList ∨ type = "response.refusal.done".toList then
      self.applyText event type "refusal" "refusal"
    else if type = "response.reasoning_text.delta".toList ∨ type = "response.reasoning_text.done".toList then
      self.applyText event type "reasoning_text" "text"
    else if type = "response.function_call_arguments.delta".toList ∨
        type = "response.function_call_arguments.done".toList then
      self.atItem event fun itemOut =>
        if Str.endsWith ".done" type then setStringField itemOut "arguments" (field event "arguments")
        else appendStringField itemOut "arguments" (field event "delta")
    else if type = "response.completed".toList then
      if OrdMap.contains "status".toList self.out then self
      else { self with out := put self.out "status" (.lit "completed") }
    else if type = "response.failed".toList then { self with out := copyField self.out event "error" }
    else self

def finish (self : OpenAiResponsesStreamState) : Value :=
  let outputIsEmpty :=
    match arrayField self.out "output" with
    | some output => output.isEmpty
    | none => true
  if outputIsEmpty && !self.outputItems.isEmpty then
    pickValue responsesKeys (.object (put self.out "output" (objects self.outputItems)))
  else pickValue responsesKeys (.object self.out)

end OpenAiResponsesStreamState

structure AnthropicMessagesStreamState where
  out : Map := []
  contentBlocks : IndexMap := []

namespace AnthropicMessagesStreamState

def apply (self : AnthropicMessagesStreamState) (item : Value) : AnthropicMessagesStreamState :=
  match item.asObject with
  | none => self
  | some event =>
    let type := typeOf event
    if type = "message_start".toList then
      match field event "message" with
      | none => self
      | some message =>
        { out := mergeValueObject self.out
            (pickValue ["type", "role", "model", "stop_reason", "usage"] message),
          contentBlocks := seedAnthropicContentBlocks self.contentBlocks (message.get "content") }
    else if type = "content_block_start".toList then
      match objectField event "content_block" with
      | none => self
      | some block =>
        let index := indexOr event "index" self.contentBlocks.length
        { self with contentBlocks := OrdMap.insert index block self.contentBlocks }
    else if type = "content_block_delta".toList then
      match objectField event "delta" with
      | none => self
      | some delta =>
        let index := indexOr event "index" self.contentBlocks.length
        let block := mergeAnthropicContentDelta ((OrdMap.find index self.contentBlocks).getD []) delta
        { self with contentBlocks := OrdMap.insert index block (OrdMap.erase index self.contentBlocks) }
    else if type = "message_delta".toList then
      let self :=
        match field event "delta" with
        | some delta => { self with out := mergeValueObject self.out (pickValue ["stop_reason"] delta) }
        | none => self
      { self with out := mergeNestedObject self.out "usage" (field event "usage") }
    else if type = "error".toList then
      { self with out := put self.out "error" ((field event "error").getD item) }
    else self

def finish (self : AnthropicMessagesStreamState) : Value :=
  if !self.contentBlocks.isEmpty then
    pickValue anthropicKeys (.object (put self.out "content" (objects self.contentBlocks)))
  else pickValue anthropicKeys (.object self.out)

end AnthropicMessagesStreamState

structure GeminiGenerateContentStreamState where
  out : Map := []
  candidates : IndexMap := []

namespace GeminiGenerateContentStreamState

def applyCandidate (self : GeminiGenerateContentStreamState) (rawCandidate : Value × Nat) :
    GeminiGenerateContentStreamState :=
  match rawCandidate.1.asObject with
  | none => self
  | some candidateObj =>
    let index := indexOr candidateObj "index" rawCandidate.2
    let candidate := (OrdMap.find index self.candidates).getD [("index".toList, .ofInt index)]
    { self with candidates := OrdMap.insert index (mergeGeminiCandidate candidate candidateObj) self.candidates }

def apply (self : GeminiGenerateContentStreamState) (item : Value) : GeminiGenerateContentStreamState :=
  match item.asObject with
  | none => self
  | some chunk =>
    let keys : List Str := ["promptFeedback", "usageMetadata", "error", "modelVersion"]
    let self := keys.foldl (fun self key => { self with out := copyField self.out chunk key }) self
    match arrayField chunk "candidates" with
    | none => self
    | some rawCandidates => rawCandidates.zipIdx.foldl applyCandidate self

def finish (self : GeminiGenerateContentStreamState) : Value :=
  if !self.candidates.isEmpty then
    pickValue geminiKeys (.object (put self.out "candidates" (objects self.candidates)))
  else pickValue geminiKeys (.object self.out)

end GeminiGenerateContentStreamState

structure DashscopeGenerationStreamState where
  out : Map := []
  output : Map := []
  choices : IndexMap := []

namespace DashscopeGenerationStreamState

def applyChoice (self : DashscopeGenerationStreamState) (rawChoice : Value × Nat) :
    DashscopeGenerationStreamState :=
  match rawChoice.1.asObject with
  | none => self
  | some choiceObj =>
    let index := indexOr choiceObj "index" rawChoice.2
    let default : Map := [("index".toList, .ofInt index), ("message".toList, .object [])]
    let choice := (OrdMap.find index self.choices).getD default
    let message := (objectField choice "message").getD []
    let message :=
      match objectField choiceObj "message" with
      | some rawMessage => mergeDashscopeMessage message rawMessage
      | none => message
    let message :=
      match objectField choiceObj "delta" with
      | some rawDelta => mergeDashscopeMessage message rawDelta
      | none => message
    let choice := put choice "message" (.object message)
    let choice := extendExcept ["index".toList, "message".toList, "delta".toList] choice choiceObj
    { self with choices := OrdMap.insert index choice self.choices }

def apply (self : DashscopeGenerationStreamState) (item : Value) : DashscopeGenerationStreamState :=
  match item.asObject with
  | none => self
  | some chunk =>
    let keys : List Str := ["usage", "request_id", "code", "message"]
    let self := keys.foldl (fun self key => { self with out := copyField self.out chunk key }) self
    match objectField chunk "output" with
    | none => self
    | some rawOutput =>
      let self := rawOutput.foldl (fun self p =>
        if p.1 ≠ "choices".toList then { self with output := put self.output p.1 p.2 } else self) self
      match arrayField rawOutput "choices" with
      | none => self
      | some rawChoices => rawChoices.zipIdx.foldl applyChoice self

def finish (self : DashscopeGenerationStreamState) : Value :=
  let self :=
    if !self.choices.isEmpty then { self with output := put self.output "choices" (objects self.choices) }
    else self
  let self :=
    if !self.output.isEmpty then { self with out := put self.out "output" (.object self.output) } else self
  pickValue dashscopeKeys (.object self.out)

end DashscopeGenerationStreamState

structure BedrockConverseStreamState where
  out : Map := []
  message : Map := []
  contentBlocks : IndexMap := []

namespace BedrockConverseStreamState

/-- `self.content_blocks.entry(index).or_default()`, at the block index of `source`. -/
def atBlock (self : BedrockConverseStreamState) (source : Map) (change : Map → Map) :
    BedrockConverseStreamState :=
  let index := indexOr source "contentBlockIndex" self.contentBlocks.length
  { self with contentBlocks := entry self.contentBlocks index [] change }

def apply (self : BedrockConverseStreamState) (item : Value) : BedrockConverseStreamState :=
  match item.asObject with
  | none => self
  | some event =>
    let self :=
      match objectField event "messageStart" with
      | some messageStart => { self with message := copyField self.message messageStart "role" }
      | none => self
    let self :=
      match objectField event "contentBlockStart" with
      | some blockStart => self.atBlock blockStart fun block =>
          match objectField blockStart "start" with
          | some start => extend block start
          | none => block
      | none => self
    let self :=
      match objectField event "contentBlockDelta" with
      | some blockDelta => self.atBlock blockDelta fun block =>
          match objectField blockDelta "delta" with
          | some delta => mergeBedrockContentDelta block delta
          | none => block
      | none => self
    let self :=
      match objectField event "messageStop" with
      | some messageStop => { self with out := copyField self.out messageStop "stopReason" }
      | none => self
    let self :=
      match objectField event "metadata" with
      | some metadata => { self with out := copyField self.out metadata "usage" }
      | none => self
    let self :=
      match field event "output" with
      | some _ => { self with out := mergeValueObject self.out (pickValue bedrockKeys item) }
      | none => self
    { self with out := copyField self.out event "error" }

def finish (self : BedrockConverseStreamState) : Value :=
  let self :=
    if !self.contentBlocks.isEmpty then
      { self with message := put self.message "content" (objects self.contentBlocks) }
    else self
  let self :=
    if !self.message.isEmpty && !OrdMap.contains "output".toList self.out then
      { self with out := put self.out "output" (.ofFields [("message", .object self.message)]) }
    else self
  pickValue bedrockKeys (.object self.out)

end BedrockConverseStreamState

structure CohereChatStreamState where
  out : Map := []
  message : Map := []
  contentBlocks : IndexMap := []
  text : Str := []

namespace CohereChatStreamState

def applyFinishReason (self : CohereChatStreamState) (source : Map) : CohereChatStreamState :=
  match field source "finish_reason" with
  | some finishReason =>
    { self with out := put self.out "finish_reason" finishReason,
                message := put self.message "finish_reason" finishReason }
  | none => self

def applyDelta (self : CohereChatStreamState) (delta : Map) (type : Str) : CohereChatStreamState :=
  let self :=
    match field delta "message" with
    | some rawMessage =>
      let merged := mergeCohereMessageDelta self.message self.contentBlocks rawMessage
      { self with message := merged.1, contentBlocks := merged.2 }
    | none => self
  if type = "message-end".toList then
    let self := self.applyFinishReason delta
    { self with out := copyField self.out delta "usage" }
  else self

def apply (self : CohereChatStreamState) (item : Value) : CohereChatStreamState :=
  match item.asObject with
  | none => self
  | some event =>
    let type := (((field event "type").or ((field event "event_type").or (field event "eventType"))).bind
      Value.asStr).getD []
    let self :=
      match field event "response" with
      | some response => { self with out := mergeValueObject self.out (pickValue cohereKeys response) }
      | none => self
    let self :=
      match objectField event "delta" with
      | some delta => self.applyDelta delta type
      | none => self
    let self :=
      if type = "text-generation".toList then
        match strField event "text" with
        | some piece => { self with text := self.text ++ piece }
        | none => self
      else self
    let self := self.applyFinishReason event
    { self with out := copyField self.out event "error" }

def finish (self : CohereChatStreamState) : Value :=
  let self :=
    if !self.contentBlocks.isEmpty then
      { self with message := put self.message "content" (objects self.contentBlocks) }
    else if !self.text.isEmpty then
      let block := Value.ofFields [("type", .lit "text"), ("text", .string self.text)]
      { self with message := put self.message "content" (.array [block]),
                  out := put self.out "text" (.string self.text) }
    else self
  let self :=
    if !self.message.isEmpty && !OrdMap.contains "message".toList self.out then
      { self with out := put self.out "message" (.object self.message) }
    else self
  pickValue cohereKeys (.object self.out)

end CohereChatStreamState

inductive StreamFieldState where
  | openAiChat (state : OpenAiChatStreamState)
  | openAiResponses (state : OpenAiResponsesStreamState)
  | anthropicMessages (state : AnthropicMessagesStreamState)
  | geminiGenerateContent (state : GeminiGenerateContentStreamState)
  | dashscopeGeneration (state : DashscopeGenerationStreamState)
  | bedrockConverse (state : BedrockConverseStreamState)
  | cohereChat (state : CohereChatStreamState)

namespace StreamFieldState

/-- `StreamFieldState::new`, which knows each of the seven protocols. -/
def new : ProtocolFamily → StreamFieldState
  | .openaiChat => openAiChat {}
  | .openaiResponses => openAiResponses {}
  | .anthropicMessages => anthropicMessages {}
  | .gemini => geminiGenerateContent {}
  | .dashscope => dashscopeGeneration {}
  | .bedrock => bedrockConverse {}
  | .cohere => cohereChat {}

def apply : StreamFieldState → Value → StreamFieldState
  | openAiChat state, event => openAiChat (state.apply event)
  | openAiResponses state, event => openAiResponses (state.apply event)
  | anthropicMessages state, event => anthropicMessages (state.apply event)
  | geminiGenerateContent state, event => geminiGenerateContent (state.apply event)
  | dashscopeGeneration state, event => dashscopeGeneration (state.apply event)
  | bedrockConverse state, event => bedrockConverse (state.apply event)
  | cohereChat state, event => cohereChat (state.apply event)

def finish : StreamFieldState → Value
  | openAiChat state => state.finish
  | openAiResponses state => state.finish
  | anthropicMessages state => state.finish
  | geminiGenerateContent state => state.finish
  | dashscopeGeneration state => state.finish
  | bedrockConverse state => state.finish
  | cohereChat state => state.finish

end StreamFieldState

end TeeProof.Enclave
