import TeeProof.Sse
import TeeProof.StreamState

/-! The incremental pipeline against the buffered one. Each stateful aggregator is the
loop body of its buffered copy, read off the fields of its state. -/
namespace TeeProof.Enclave

open Value (Map)

namespace OpenAiChatStreamState

def locals (self : OpenAiChatStreamState) : Map × IndexMap := (self.out, self.choices)

theorem applyChoice_eq (self : OpenAiChatStreamState) (rawChoice : Value) :
    self.applyChoice rawChoice =
      { self with choices := aggregateOpenAiChatStream.choice self.choices rawChoice } := by
  cases h : rawChoice.asObject with
  | none => simp [applyChoice, aggregateOpenAiChatStream.choice, h]
  | some choiceObj => simp only [applyChoice, aggregateOpenAiChatStream.choice, h, entry] <;> rfl

theorem applyChoices_eq (self : OpenAiChatStreamState) (rawChoices : List Value) :
    rawChoices.foldl applyChoice self =
      { self with choices := rawChoices.foldl aggregateOpenAiChatStream.choice self.choices } := by
  induction rawChoices generalizing self with
  | nil => rfl
  | cons rawChoice rest ih => simp [applyChoice_eq, ih]

theorem locals_apply (self : OpenAiChatStreamState) (item : Value) :
    aggregateOpenAiChatStream.item self.locals item = (self.apply item).locals := by
  cases object : item.asObject with
  | none => simp [apply, aggregateOpenAiChatStream.item, object, locals]
  | some chunk =>
    simp only [apply, aggregateOpenAiChatStream.item, object, locals, applyChoices_eq]
    cases arrayField chunk "choices" <;> cases strField chunk "model" <;>
      by_cases known : OrdMap.contains "model".toList self.out = true <;>
      simp only [known, if_true, if_false, Bool.false_eq_true]

theorem finish_eq (events : List Value) :
    (events.foldl apply {}).finish = aggregateOpenAiChatStream (.array events) := by
  simp only [aggregateOpenAiChatStream, Value.asArray]
  rw [show (([], []) : Map × IndexMap) = locals {} from rfl, List.foldl_hom locals locals_apply]
  generalize events.foldl apply {} = self
  obtain ⟨out, choices⟩ := self
  cases choices <;> rfl

end OpenAiChatStreamState

namespace OpenAiResponsesStreamState

def locals (self : OpenAiResponsesStreamState) : Map × IndexMap := (self.out, self.outputItems)

theorem locals_applyText (self : OpenAiResponsesStreamState) (event : Map) (type : Str)
    (partType name : String) :
    (self.applyText event type partType name).locals =
      (self.out, aggregateOpenAiResponsesStream.text self.outputItems event type partType name) := by
  simp only [applyText, atItem, locals, aggregateOpenAiResponsesStream.text]
  cases Str.endsWith ".done" type <;> rfl

theorem locals_apply (self : OpenAiResponsesStreamState) (item : Value) :
    aggregateOpenAiResponsesStream.item self.locals item = (self.apply item).locals := by
  unfold aggregateOpenAiResponsesStream.item apply
  cases item.asObject with
  | none => rfl
  | some event =>
    -- the arms of the two copies agree one by one, so the projection moves under each test
    simp only [apply_ite locals, locals_applyText]
    cases field event "response" <;> cases Str.endsWith ".done" (typeOf event) <;> rfl

theorem finish_eq (events : List Value) :
    (events.foldl apply {}).finish = aggregateOpenAiResponsesStream (.array events) := by
  simp only [aggregateOpenAiResponsesStream, Value.asArray]
  rw [show (([], []) : Map × IndexMap) = locals {} from rfl, List.foldl_hom locals locals_apply]
  generalize events.foldl apply {} = self
  obtain ⟨out, outputItems⟩ := self
  cases output : arrayField out "output" with
  | none => cases outputItems <;> simp only [finish, locals, output] <;> rfl
  | some items => cases outputItems <;> cases items <;> simp only [finish, locals, output] <;> rfl

end OpenAiResponsesStreamState

namespace AnthropicMessagesStreamState

def locals (self : AnthropicMessagesStreamState) : Map × IndexMap := (self.out, self.contentBlocks)

theorem locals_apply (self : AnthropicMessagesStreamState) (item : Value) :
    aggregateAnthropicMessagesStream.item self.locals item = (self.apply item).locals := by
  unfold aggregateAnthropicMessagesStream.item apply
  cases item.asObject with
  | none => rfl
  | some event =>
    simp only [apply_ite locals]
    cases field event "message" <;> cases objectField event "content_block" <;>
      cases objectField event "delta" <;> cases field event "delta" <;> rfl

theorem finish_eq (events : List Value) :
    (events.foldl apply {}).finish = aggregateAnthropicMessagesStream (.array events) := by
  simp only [aggregateAnthropicMessagesStream, Value.asArray]
  rw [show (([], []) : Map × IndexMap) = locals {} from rfl, List.foldl_hom locals locals_apply]
  generalize events.foldl apply {} = self
  obtain ⟨out, contentBlocks⟩ := self
  cases contentBlocks <;> rfl

end AnthropicMessagesStreamState

namespace GeminiGenerateContentStreamState

def locals (self : GeminiGenerateContentStreamState) : Map × IndexMap := (self.out, self.candidates)

theorem applyCandidate_eq (self : GeminiGenerateContentStreamState) (raw : Value × Nat) :
    self.applyCandidate raw =
      { self with candidates := aggregateGeminiGenerateContentStream.candidate self.candidates raw } := by
  unfold applyCandidate aggregateGeminiGenerateContentStream.candidate
  cases raw.1.asObject <;> rfl

theorem applyCandidates_eq (self : GeminiGenerateContentStreamState) (raws : List (Value × Nat)) :
    raws.foldl applyCandidate self =
      { self with candidates := raws.foldl aggregateGeminiGenerateContentStream.candidate self.candidates } := by
  induction raws generalizing self with
  | nil => rfl
  | cons raw rest ih => simp [applyCandidate_eq, ih]

theorem locals_apply (self : GeminiGenerateContentStreamState) (item : Value) :
    aggregateGeminiGenerateContentStream.item self.locals item = (self.apply item).locals := by
  unfold aggregateGeminiGenerateContentStream.item apply
  cases item.asObject with
  | none => rfl
  | some chunk =>
    simp only [applyCandidates_eq]
    cases arrayField chunk "candidates" <;> rfl

theorem finish_eq (events : List Value) :
    (events.foldl apply {}).finish = aggregateGeminiGenerateContentStream (.array events) := by
  simp only [aggregateGeminiGenerateContentStream, Value.asArray]
  rw [show (([], []) : Map × IndexMap) = locals {} from rfl, List.foldl_hom locals locals_apply]
  generalize events.foldl apply {} = self
  obtain ⟨out, candidates⟩ := self
  cases candidates <;> rfl

end GeminiGenerateContentStreamState

namespace DashscopeGenerationStreamState

def locals (self : DashscopeGenerationStreamState) : Map × Map × IndexMap :=
  (self.out, self.output, self.choices)

theorem applyChoice_eq (self : DashscopeGenerationStreamState) (raw : Value × Nat) :
    self.applyChoice raw =
      { self with choices := aggregateDashscopeGenerationStream.choice self.choices raw } := by
  unfold applyChoice aggregateDashscopeGenerationStream.choice
  cases raw.1.asObject <;> rfl

theorem applyChoices_eq (self : DashscopeGenerationStreamState) (raws : List (Value × Nat)) :
    raws.foldl applyChoice self =
      { self with choices := raws.foldl aggregateDashscopeGenerationStream.choice self.choices } := by
  induction raws generalizing self with
  | nil => rfl
  | cons raw rest ih => simp [applyChoice_eq, ih]

theorem copyOutput_eq (self : DashscopeGenerationStreamState) (rawOutput : Map) :
    rawOutput.foldl (fun self p =>
        if p.1 ≠ "choices".toList then { self with output := put self.output p.1 p.2 } else self) self =
      { self with output := rawOutput.foldl (fun output p =>
          if p.1 = "choices".toList then output else put output p.1 p.2) self.output } := by
  induction rawOutput generalizing self with
  | nil => rfl
  | cons p rest ih =>
    rw [List.foldl_cons, List.foldl_cons, ih]
    by_cases h : p.1 = "choices".toList <;> simp only [h, ne_eq, not_true, not_false_iff, if_true, if_false]

theorem locals_apply (self : DashscopeGenerationStreamState) (item : Value) :
    aggregateDashscopeGenerationStream.item self.locals item = (self.apply item).locals := by
  unfold aggregateDashscopeGenerationStream.item apply
  cases item.asObject with
  | none => rfl
  | some chunk =>
    simp only [applyChoices_eq, copyOutput_eq]
    cases objectField chunk "output" with
    | none => rfl
    | some rawOutput =>
      dsimp only
      cases arrayField rawOutput "choices" <;> rfl

theorem finish_eq (events : List Value) :
    (events.foldl apply {}).finish = aggregateDashscopeGenerationStream (.array events) := by
  simp only [aggregateDashscopeGenerationStream, Value.asArray]
  rw [show (([], [], []) : Map × Map × IndexMap) = locals {} from rfl, List.foldl_hom locals locals_apply]
  generalize events.foldl apply {} = self
  obtain ⟨out, output, choices⟩ := self
  cases choices with
  | nil => cases output <;> rfl
  | cons choice rest =>
    simp only [finish, locals, List.isEmpty_cons, Bool.not_false, if_true, Bool.false_eq_true, if_false]
    generalize put output "choices" (objects (choice :: rest)) = output
    cases output <;> rfl

end DashscopeGenerationStreamState

namespace BedrockConverseStreamState

def locals (self : BedrockConverseStreamState) : Map × Map × IndexMap :=
  (self.out, self.message, self.contentBlocks)

theorem locals_apply (self : BedrockConverseStreamState) (item : Value) :
    aggregateBedrockConverseStream.item self.locals item = (self.apply item).locals := by
  unfold aggregateBedrockConverseStream.item apply
  cases item.asObject with
  | none => rfl
  | some event =>
    dsimp only
    cases objectField event "messageStart" <;> cases objectField event "contentBlockStart" <;>
      cases objectField event "contentBlockDelta" <;> cases objectField event "messageStop" <;>
      cases objectField event "metadata" <;> cases field event "output" <;> rfl

theorem finish_eq (events : List Value) :
    (events.foldl apply {}).finish = aggregateBedrockConverseStream (.array events) := by
  simp only [aggregateBedrockConverseStream, Value.asArray]
  rw [show (([], [], []) : Map × Map × IndexMap) = locals {} from rfl, List.foldl_hom locals locals_apply]
  generalize events.foldl apply {} = self
  obtain ⟨out, message, contentBlocks⟩ := self
  cases contentBlocks with
  | nil =>
    simp only [finish, locals, List.isEmpty_nil, Bool.not_true, Bool.false_eq_true, if_true, if_false]
    split <;> rfl
  | cons block rest =>
    simp only [finish, locals, List.isEmpty_cons, Bool.not_false, if_true, Bool.false_eq_true, if_false]
    split <;> rfl

end BedrockConverseStreamState

namespace CohereChatStreamState

def locals (self : CohereChatStreamState) : Map × Map × IndexMap × Str :=
  (self.out, self.message, self.contentBlocks, self.text)

theorem applyFinishReason_eq (self : CohereChatStreamState) (source : Map) :
    self.applyFinishReason source =
      { self with out := copyField self.out source "finish_reason",
                  message := copyField self.message source "finish_reason" } := by
  unfold applyFinishReason copyField
  cases field source "finish_reason" <;> rfl

theorem applyDelta_eq (self : CohereChatStreamState) (delta : Map) (type : Str) :
    self.applyDelta delta type =
      let r := aggregateCohereChatStream.applyDelta self.out self.message self.contentBlocks delta type
      { self with out := r.1, message := r.2.1, contentBlocks := r.2.2 } := by
  simp only [applyDelta, aggregateCohereChatStream.applyDelta, applyFinishReason_eq]
  cases field delta "message" <;> dsimp only <;> split <;> rfl

theorem locals_apply (self : CohereChatStreamState) (item : Value) :
    aggregateCohereChatStream.item self.locals item = (self.apply item).locals := by
  unfold aggregateCohereChatStream.item apply
  cases item.asObject with
  | none => rfl
  | some event =>
    simp only [applyDelta_eq, applyFinishReason_eq]
    cases field event "response" <;> cases objectField event "delta" <;> cases strField event "text" <;>
      dsimp only <;> split <;> rfl

theorem finish_eq (events : List Value) :
    (events.foldl apply {}).finish = aggregateCohereChatStream (.array events) := by
  simp only [aggregateCohereChatStream, Value.asArray]
  rw [show (([], [], [], []) : Map × Map × IndexMap × Str) = locals {} from rfl,
    List.foldl_hom locals locals_apply]
  generalize events.foldl apply {} = self
  obtain ⟨out, message, contentBlocks, text⟩ := self
  cases contentBlocks with
  | nil =>
    cases text with
    | nil =>
      simp only [finish, locals, List.isEmpty_nil, Bool.not_true, Bool.false_eq_true, if_false]
      split <;> rfl
    | cons c rest =>
      simp only [finish, locals, List.isEmpty_nil, List.isEmpty_cons, Bool.not_true, Bool.not_false,
        Bool.false_eq_true, if_true, if_false]
      split <;> rfl
  | cons block rest =>
    simp only [finish, locals, List.isEmpty_cons, Bool.not_false, if_true]
    split <;> rfl

end CohereChatStreamState

/-- The `aggregate_*_stream` of a protocol. -/
def aggregateStream : ProtocolFamily → Value → Value
  | .openaiChat => aggregateOpenAiChatStream
  | .openaiResponses => aggregateOpenAiResponsesStream
  | .anthropicMessages => aggregateAnthropicMessagesStream
  | .gemini => aggregateGeminiGenerateContentStream
  | .dashscope => aggregateDashscopeGenerationStream
  | .bedrock => aggregateBedrockConverseStream
  | .cohere => aggregateCohereChatStream

namespace StreamFieldState

/-- A run stays in the protocol's own variant. -/
theorem foldl_apply {τ : Type} (wrap : τ → StreamFieldState) (step : τ → Value → τ)
    (same : ∀ state event, (wrap state).apply event = wrap (step state event)) (state : τ)
    (events : List Value) : events.foldl apply (wrap state) = wrap (events.foldl step state) :=
  List.foldl_hom wrap same

theorem finish_foldl (protocol : ProtocolFamily) (events : List Value) :
    (events.foldl apply (new protocol)).finish = aggregateStream protocol (.array events) := by
  cases protocol with
  | openaiChat =>
    rw [new, foldl_apply openAiChat _ fun _ _ => rfl]
    exact OpenAiChatStreamState.finish_eq events
  | openaiResponses =>
    rw [new, foldl_apply openAiResponses _ fun _ _ => rfl]
    exact OpenAiResponsesStreamState.finish_eq events
  | anthropicMessages =>
    rw [new, foldl_apply anthropicMessages _ fun _ _ => rfl]
    exact AnthropicMessagesStreamState.finish_eq events
  | gemini =>
    rw [new, foldl_apply geminiGenerateContent _ fun _ _ => rfl]
    exact GeminiGenerateContentStreamState.finish_eq events
  | dashscope =>
    rw [new, foldl_apply dashscopeGeneration _ fun _ _ => rfl]
    exact DashscopeGenerationStreamState.finish_eq events
  | bedrock =>
    rw [new, foldl_apply bedrockConverse _ fun _ _ => rfl]
    exact BedrockConverseStreamState.finish_eq events
  | cohere =>
    rw [new, foldl_apply cohereChat _ fun _ _ => rfl]
    exact CohereChatStreamState.finish_eq events

end StreamFieldState

variable (rust : Rust)

/-- The events that `push` for each chunk and then `finish` hand to their callback. -/
def emitted (chunks : List Bytes) : List Value :=
  let collect := fun (items : List Value) event => items ++ [event]
  let fed := chunks.foldl (fun state chunk => state.1.push rust collect state.2 chunk)
    (({} : SseEventParser), [])
  (fed.1.finish rust collect fed.2).2

theorem emitted_eq (chunks : List Bytes) : emitted rust chunks = sseEvents rust chunks.flatten := by
  have replayed := sse_pipeline rust (fun (items : List Value) event => items ++ [event]) [] chunks
  have collected : ∀ (items start : List Value),
      items.foldl (fun items event => items ++ [event]) start = start ++ items := by
    intro items
    induction items with
    | nil => simp
    | cons event rest ih => simp [ih]
  rw [collected] at replayed
  exact replayed

/-- The incremental pipeline is the buffered one, for every cut of every body. -/
theorem incremental_eq_buffered (protocol : ProtocolFamily) (chunks : List Bytes) :
    parseSseData rust chunks.flatten = .array (emitted rust chunks) ∧
      ((emitted rust chunks).foldl StreamFieldState.apply (.new protocol)).finish =
        aggregateStream protocol (parseSseData rust chunks.flatten) := by
  rw [emitted_eq, parseSseData_eq]
  exact ⟨rfl, StreamFieldState.finish_foldl protocol _⟩

end TeeProof.Enclave
