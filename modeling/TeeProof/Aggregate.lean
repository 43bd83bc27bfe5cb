import TeeProof.Merge

/-! The buffered aggregators, one for each protocol: a loop over the whole event list
with its local variables in the accumulator. -/
namespace TeeProof.Enclave

open Value (Map)

def typeOf (event : Map) : Str := (strField event "type").getD []

def chatKeys : List Str := ["model", "choices", "usage", "error"]

def aggregateOpenAiChatStream (value : Value) : Value :=
  match value.asArray with
  | none => pickValue chatKeys value
  | some items =>
    let (out, choices) := items.foldl item ([], [])
    let out := if choices.isEmpty then out else put out "choices" (objects choices)
    .object out
where
  choice (choices : IndexMap) (rawChoice : Value) : IndexMap :=
    match rawChoice.asObject with
    | none => choices
    | some choiceObj =>
      let index := indexOr choiceObj "index" choices.length
      entry choices index [("index".toList, .ofInt index), ("message".toList, .object [])] fun choice =>
        let message := (objectField choice "message").getD []
        let message :=
          match objectField choiceObj "delta" with
          | some delta => mergeOpenAiChatDelta message delta
          | none => message
        let message :=
          match objectField choiceObj "message" with
          | some fullMessage => extend message fullMessage
          | none => message
        let choice := put choice "message" (.object message)
        let choice :=
          match field choiceObj "finish_reason" with
          | some finishReason => if finishReason.isNull then choice else put choice "finish_reason" finishReason
          | none => choice
        copyField choice choiceObj "logprobs"
  item (locals : Map × IndexMap) (item : Value) : Map × IndexMap :=
    let (out, choices) := locals
    match item.asObject with
    | none => (out, choices)
    | some chunk =>
      let out :=
        if OrdMap.contains "model".toList out then out
        else
          match strField chunk "model" with
          | some model => put out "model" (.string model)
          | none => out
      let out := copyField out chunk "usage"
      let out := copyField out chunk "error"
      match arrayField chunk "choices" with
      | none => (out, choices)
      | some rawChoices => (out, rawChoices.foldl choice choices)

def responsesKeys : List Str := ["model", "status", "output", "output_text", "usage", "error"]

def aggregateOpenAiResponsesStream (value : Value) : Value :=
  match value.asArray with
  | none => pickValue responsesKeys value
  | some items =>
    let (out, outputItems) := items.foldl item ([], [])
    let outputIsEmpty := ((arrayField out "output").map List.isEmpty).getD true
    let out :=
      if outputIsEmpty && !outputItems.isEmpty then put out "output" (objects outputItems) else out
    pickValue responsesKeys (.object out)
where
  /-- The arms of the three families of text events differ in these two names. -/
  text (outputItems : IndexMap) (event : Map) (type : Str) (partType name : String) : IndexMap :=
    let part := Value.ofFields [("type", .lit partType)]
    let done := Str.endsWith ".done" type
    let value := if done then field event name else field event "delta"
    entry outputItems (indexOr event "output_index" outputItems.length) [] fun itemOut =>
      if done then
        mergeOpenAiResponseContentPart itemOut (field event "content_index") (some part) none none
          (some name) value
      else
        mergeOpenAiResponseContentPart itemOut (field event "content_index") (some part)
          (some name) value none none
  item (locals : Map × IndexMap) (item : Value) : Map × IndexMap :=
    let (out, outputItems) := locals
    match item.asObject with
    | none => (out, outputItems)
    | some event =>
      let type := typeOf event
      let out :=
        match field event "response" with
        | some response => mergeValueObject out (pickValue responsesKeys response)
        | none => out
      if type = "response.output_item.added".toList ∨ type = "response.output_item.done".toList then
        (out, entry outputItems (indexOr event "output_index" outputItems.length) [] fun itemOut =>
          match objectField event "item" with
          | some rawItem => extend itemOut rawItem
          | none => itemOut)
      else if type = "response.content_part.added".toList ∨ type = "response.content_part.done".toList then
        (out, entry outputItems (indexOr event "output_index" outputItems.length) [] fun itemOut =>
          mergeOpenAiResponseContentPart itemOut (field event "content_index") (field event "part")
            none none none none)
      else if type = "response.output_text.delta".toList ∨ type = "response.output_text.done".toList then
        (out, text outputItems event type "output_text" "text")
      else if type = "response.refusal.delta".toList ∨ type = "response.refusal.done".toList then
        (out, text outputItems event type "refusal" "refusal")
      else if type = "response.reasoning_text.delta".toList ∨ type = "response.reasoning_text.done".toList then
        (out, text outputItems event type "reasoning_text" "text")
      else if type = "response.function_call_arguments.delta".toList ∨
          type = "response.function_call_arguments.done".toList then
        let done := Str.endsWith ".done" type
        let value := if done then field event "arguments" else field event "delta"
        (out, entry outputItems (indexOr event "output_index" outputItems.length) [] fun itemOut =>
          if done then setStringField itemOut "arguments" value
          else appendStringField itemOut "arguments" value)
      else if type = "response.completed".toList then
        if OrdMap.contains "status".toList out then (out, outputItems)
        else (put out "status" (.lit "completed"), outputItems)
      else if type = "response.failed".toList then (copyField out event "error", outputItems)
      else (out, outputItems)

def anthropicKeys : List Str := ["type", "role", "model", "content", "stop_reason", "usage", "error"]

def aggregateAnthropicMessagesStream (value : Value) : Value :=
  match value.asArray with
  | none => pickValue anthropicKeys value
  | some items =>
    let (out, contentBlocks) := items.foldl item ([], [])
    let out := if contentBlocks.isEmpty then out else put out "content" (objects contentBlocks)
    pickValue anthropicKeys (.object out)
where
  item (locals : Map × IndexMap) (item : Value) : Map × IndexMap :=
    let (out, contentBlocks) := locals
    match item.asObject with
    | none => (out, contentBlocks)
    | some event =>
      let type := typeOf event
      if type = "message_start".toList then
        match field event "message" with
        | none => (out, contentBlocks)
        | some message =>
          (mergeValueObject out (pickValue ["type", "role", "model", "stop_reason", "usage"] message),
            seedAnthropicContentBlocks contentBlocks (message.get "content"))
      else if type = "content_block_start".toList then
        match objectField event "content_block" with
        | none => (out, contentBlocks)
        | some block => (out, OrdMap.insert (indexOr event "index" contentBlocks.length) block contentBlocks)
      else if type = "content_block_delta".toList then
        match objectField event "delta" with
        | none => (out, contentBlocks)
        | some delta =>
          let index := indexOr event "index" contentBlocks.length
          let block := (OrdMap.find index contentBlocks).getD []
          let contentBlocks := OrdMap.erase index contentBlocks
          (out, OrdMap.insert index (mergeAnthropicContentDelta block delta) contentBlocks)
      else if type = "message_delta".toList then
        let out :=
          match field event "delta" with
          | some delta => mergeValueObject out (pickValue ["stop_reason"] delta)
          | none => out
        (mergeNestedObject out "usage" (field event "usage"), contentBlocks)
      else if type = "error".toList then
        (put out "error" ((field event "error").getD item), contentBlocks)
      else (out, contentBlocks)

def geminiKeys : List Str := ["candidates", "promptFeedback", "usageMetadata", "error", "modelVersion"]

def aggregateGeminiGenerateContentStream (value : Value) : Value :=
  match value.asArray with
  | none => pickValue geminiKeys value
  | some items =>
    let (out, candidates) := items.foldl item ([], [])
    let out := if candidates.isEmpty then out else put out "candidates" (objects candidates)
    pickValue geminiKeys (.object out)
where
  candidate (candidates : IndexMap) (rawCandidate : Value × Nat) : IndexMap :=
    match rawCandidate.1.asObject with
    | none => candidates
    | some candidateObj =>
      let index := indexOr candidateObj "index" rawCandidate.2
      entry candidates index [("index".toList, .ofInt index)] fun candidate =>
        mergeGeminiCandidate candidate candidateObj
  item (locals : Map × IndexMap) (item : Value) : Map × IndexMap :=
    let (out, candidates) := locals
    match item.asObject with
    | none => (out, candidates)
    | some chunk =>
      let keys : List Str := ["promptFeedback", "usageMetadata", "error", "modelVersion"]
      let out := keys.foldl (fun out key => copyField out chunk key) out
      match arrayField chunk "candidates" with
      | none => (out, candidates)
      | some rawCandidates => (out, rawCandidates.zipIdx.foldl candidate candidates)

def dashscopeKeys : List Str := ["output", "usage", "request_id", "code", "message"]

def aggregateDashscopeGenerationStream (value : Value) : Value :=
  match value.asArray with
  | none => pickValue dashscopeKeys value
  | some items =>
    let (out, output, choices) := items.foldl item ([], [], [])
    let output := if choices.isEmpty then output else put output "choices" (objects choices)
    let out := if output.isEmpty then out else put out "output" (.object output)
    pickValue dashscopeKeys (.object out)
where
  choice (choices : IndexMap) (rawChoice : Value × Nat) : IndexMap :=
    match rawChoice.1.asObject with
    | none => choices
    | some choiceObj =>
      let index := indexOr choiceObj "index" rawChoice.2
      entry choices index [("index".toList, .ofInt index), ("message".toList, .object [])] fun choice =>
        let message := (objectField choice "message").getD []
        let message :=
          match objectField choiceObj "message" with
          | some rawMessage => mergeDashscopeMessage message rawMessage
          | none => message
        let message :=
          match objectField choiceObj "delta" with
          | some rawDelta => mergeDashscopeMessage message rawDelta
          | none => message
        extendExcept ["index".toList, "message".toList, "delta".toList]
          (put choice "message" (.object message)) choiceObj
  item (locals : Map × Map × IndexMap) (item : Value) : Map × Map × IndexMap :=
    let (out, output, choices) := locals
    match item.asObject with
    | none => (out, output, choices)
    | some chunk =>
      let keys : List Str := ["usage", "request_id", "code", "message"]
      let out := keys.foldl (fun out key => copyField out chunk key) out
      match objectField chunk "output" with
      | none => (out, output, choices)
      | some rawOutput =>
        let output := rawOutput.foldl (fun output p =>
          if p.1 = "choices".toList then output else put output p.1 p.2) output
        match arrayField rawOutput "choices" with
        | none => (out, output, choices)
        | some rawChoices => (out, output, rawChoices.zipIdx.foldl choice choices)

def bedrockKeys : List Str := ["output", "stopReason", "usage", "error"]

def aggregateBedrockConverseStream (value : Value) : Value :=
  match value.asArray with
  | none => pickValue bedrockKeys value
  | some items =>
    let (out, message, contentBlocks) := items.foldl item ([], [], [])
    let message := if contentBlocks.isEmpty then message else put message "content" (objects contentBlocks)
    let out :=
      if !message.isEmpty && !OrdMap.contains "output".toList out then
        put out "output" (.ofFields [("message", .object message)])
      else out
    pickValue bedrockKeys (.object out)
where
  item (locals : Map × Map × IndexMap) (item : Value) : Map × Map × IndexMap :=
    let (out, message, contentBlocks) := locals
    match item.asObject with
    | none => (out, message, contentBlocks)
    | some event =>
      let message :=
        match objectField event "messageStart" with
        | some messageStart => copyField message messageStart "role"
        | none => message
      let contentBlocks :=
        match objectField event "contentBlockStart" with
        | some blockStart =>
          entry contentBlocks (indexOr blockStart "contentBlockIndex" contentBlocks.length) [] fun block =>
            match objectField blockStart "start" with
            | some start => extend block start
            | none => block
        | none => contentBlocks
      let contentBlocks :=
        match objectField event "contentBlockDelta" with
        | some blockDelta =>
          entry contentBlocks (indexOr blockDelta "contentBlockIndex" contentBlocks.length) [] fun block =>
            match objectField blockDelta "delta" with
            | some delta => mergeBedrockContentDelta block delta
            | none => block
        | none => contentBlocks
      let out :=
        match objectField event "messageStop" with
        | some messageStop => copyField out messageStop "stopReason"
        | none => out
      let out :=
        match objectField event "metadata" with
        | some metadata => copyField out metadata "usage"
        | none => out
      let out :=
        if (field event "output").isSome then mergeValueObject out (pickValue bedrockKeys item) else out
      (copyField out event "error", message, contentBlocks)

def cohereKeys : List Str := ["message", "text", "finish_reason", "usage", "error"]

def aggregateCohereChatStream (value : Value) : Value :=
  match value.asArray with
  | none => pickValue cohereKeys value
  | some items =>
    let (out, message, contentBlocks, text) := items.foldl item ([], [], [], [])
    let (out, message) :=
      if !contentBlocks.isEmpty then (out, put message "content" (objects contentBlocks))
      else if !text.isEmpty then
        (put out "text" (.string text),
          put message "content" (.array [.ofFields [("type", .lit "text"), ("text", .string text)]]))
      else (out, message)
    let out :=
      if !message.isEmpty && !OrdMap.contains "message".toList out then put out "message" (.object message)
      else out
    pickValue cohereKeys (.object out)
where
  applyDelta (out message : Map) (contentBlocks : IndexMap) (delta : Map) (type : Str) :
      Map × Map × IndexMap :=
    let (message, contentBlocks) :=
      match field delta "message" with
      | some rawMessage => mergeCohereMessageDelta message contentBlocks rawMessage
      | none => (message, contentBlocks)
    if type = "message-end".toList then
      (copyField (copyField out delta "finish_reason") delta "usage",
        copyField message delta "finish_reason", contentBlocks)
    else (out, message, contentBlocks)
  item (locals : Map × Map × IndexMap × Str) (item : Value) : Map × Map × IndexMap × Str :=
    let (out, message, contentBlocks, text) := locals
    match item.asObject with
    | none => (out, message, contentBlocks, text)
    | some event =>
      let type := (((field event "type").or ((field event "event_type").or (field event "eventType"))).bind
        Value.asStr).getD []
      let out :=
        match field event "response" with
        | some response => mergeValueObject out (pickValue cohereKeys response)
        | none => out
      let (out, message, contentBlocks) :=
        match objectField event "delta" with
        | none => (out, message, contentBlocks)
        | some delta => applyDelta out message contentBlocks delta type
      let text :=
        if type = "text-generation".toList then
          match strField event "text" with
          | some piece => text ++ piece
          | none => text
        else text
      let out := copyField out event "finish_reason"
      let message := copyField message event "finish_reason"
      (copyField out event "error", message, contentBlocks, text)

end TeeProof.Enclave
