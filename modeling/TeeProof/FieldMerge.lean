import TeeProof.Wire

/-! The merge helpers of the verifier's stream aggregation. A helper that changes its
target in the source returns the changed target here. -/
namespace TeeProof.Verifier

open JsVal

def isNullish : JsVal → Bool
  | .undefined => true
  | .null => true
  | _ => false

def recordOr (fallback : JsVal) (value : JsVal) : JsVal :=
  if value.isRecord then value else fallback

/-- `numberOrDefault`: a finite number, or the fallback. -/
def numberOrDefault (value : JsVal) (fallback : Nat) : JsNumber :=
  match value with
  | .num (.finite q) => .finite q
  | _ => .finite fallback

/-- `typeof value === 'number' ? value : fallback`. -/
def numberElse (value : JsVal) (fallback : Nat) : JsNumber :=
  match value with
  | .num n => n
  | _ => .finite fallback

def appendStringField (field : JStr) (value target : JsVal) : JsVal :=
  match value with
  | .str text =>
    match target.get field with
    | .str old => target.set field (.str (old ++ text))
    | _ => target.set field (.str text)
  | _ => target

def setStringField (field : JStr) (value target : JsVal) : JsVal :=
  match value with
  | .str text => target.set field (.str text)
  | _ => target

def mergeObject (target source : JsVal) : JsVal :=
  source.entries.foldl (fun out p => out.set p.1 p.2) target

/-- `{ ...a, ...b }`. -/
def spread2 (a b : JsVal) : JsVal :=
  match b with
  | .obj _ props => props.foldl (fun out p => define out p.1 p.2) a.spread
  | _ => a.spread
where
  /-- Definition of an own property, which no setter intercepts. -/
  define (target : JsVal) (key : JStr) (value : JsVal) : JsVal :=
    match target with
    | .obj proto props =>
      if (own props key).isSome then .obj proto (replace key value props)
      else .obj proto (props ++ [(key, value)])
    | other => other

def mergeNestedObject (target : JsVal) (field : JStr) (value : JsVal) : JsVal :=
  if isUndefined value then target
  else if (target.get field).isRecord && value.isRecord then
    target.set field (spread2 (target.get field) value)
  else target.set field value

/-- `pick` of a record; the source maps it over arrays and returns other values as
they are. -/
def pickRecord (value : JsVal) (keys : List String) : JsVal :=
  keys.foldl (fun out key => if value.hasOwn key then out.set key (value.get key) else out) empty

mutual

def pick (value : JsVal) (keys : List String) : JsVal :=
  match value with
  | .arr items => .arr (pickItems items keys)
  | .obj proto props => pickRecord (.obj proto props) keys
  | other => other

def pickItems (items : List JsVal) (keys : List String) : List JsVal :=
  match items with
  | [] => []
  | v :: rest => pick v keys :: pickItems rest keys

end

/-- `array.map((item) => isRecord(item) ? { ...item } : item)`. -/
def copyItems (items : List JsVal) : List JsVal :=
  items.map fun item => if item.isRecord then item.spread else item

def mergeToolCallField (current : JsVal) (key : JStr) (value : JsVal) : JsVal :=
  if key = JStr.lit "function" && value.isRecord then
    let fn := if (current.get "function").isRecord then (current.get "function").spread else empty
    let fn := appendStringField "name" (value.get "name") fn
    let fn := appendStringField "arguments" (value.get "arguments") fn
    current.set "function" fn
  else if key ≠ JStr.lit "index" then current.set key value
  else current

def mergeToolCall (out : List JsVal) (raw : JsVal) : List JsVal :=
  if !raw.isRecord then out
  else
    let index := numberElse (raw.get "index") out.length
    let current := if (nth out index).isRecord then (nth out index).spread else empty
    setAt out index (raw.entries.foldl (fun c p => mergeToolCallField c p.1 p.2) current)

def mergeToolCalls (existing : List JsVal) (deltaValue : JsVal) : List JsVal :=
  match deltaValue with
  | .arr deltas => deltas.foldl mergeToolCall (copyItems existing)
  | _ => existing

/-- `if (delta.tool_calls !== undefined) target.tool_calls = mergeToolCalls(…)`. -/
def mergeToolCallsField (target delta : JsVal) : JsVal :=
  if isUndefined (delta.get "tool_calls") then target
  else target.set "tool_calls" (.arr (mergeToolCalls (target.get "tool_calls").items (delta.get "tool_calls")))

def mergeOpenAIChatDelta (message delta : JsVal) : JsVal :=
  let message :=
    if isString (delta.get "role") && isUndefined (message.get "role") then message.set "role" (delta.get "role")
    else message
  let message := appendStringField "content" (delta.get "content") message
  let message := appendStringField "reasoning_content" (delta.get "reasoning_content") message
  mergeToolCallsField message delta

def deltaSuffix : JStr := "_delta"

/-- `text.replace(/_delta$/, '')`. -/
def withoutDelta (text : JStr) : JStr :=
  if text.endsWith deltaSuffix then text.take (text.length - deltaSuffix.length) else text

def mergeAnthropicContentDelta (block delta : JsVal) : JsVal :=
  let block :=
    match delta.get "type" with
    | .str type => if isUndefined (block.get "type") then block.set "type" (.str (withoutDelta type)) else block
    | _ => block
  let block := appendStringField "text" (delta.get "text") block
  let block := appendStringField "thinking" (delta.get "thinking") block
  let block := appendStringField "signature" (delta.get "signature") block
  appendStringField "input_json" (delta.get "partial_json") block

/-- `mergeOpenAIResponseContentPart`, with the change its caller then makes to the
part it returned. -/
def mergeOpenAIResponseContentPart (item rawIndex rawPart : JsVal) (change : JsVal → JsVal) : JsVal :=
  let content := (item.get "content").items
  let index := numberOrDefault rawIndex content.length
  let part := if (nth content index).isRecord then (nth content index).spread else empty
  let part := if rawPart.isRecord then mergeObject part rawPart else part
  item.set "content" (.arr (setAt content index (change part)))

/-- `ensureIndexedObject`, with the change its caller then makes to the item. -/
def ensureIndexedObject (map : NumMap) (rawIndex : JsVal) (change : JsVal → JsVal) : NumMap :=
  let index := numberOrDefault rawIndex map.length
  map.set index (change ((map.get index).getD empty))

def semanticFields : List JStr := [JStr.lit "text", JStr.lit "thinking", JStr.lit "signature"]

/-- The two sibling loops that append some fields, join records and copy the rest. -/
def mergeSemanticField (appendFields : List JStr) (target : JsVal) (key : JStr) (value : JsVal) : JsVal :=
  if appendFields.contains key then appendStringField key value target
  else if (target.get key).isRecord && value.isRecord then target.set key (spread2 (target.get key) value)
  else if isNullish value then target
  else target.set key value

def mergeSemanticPart (target source : JsVal) : JsVal :=
  source.entries.foldl (fun out p => mergeSemanticField semanticFields out p.1 p.2) target

def mergeNestedSemanticObject (existing incoming : JsVal) (appendFields : List JStr) : JsVal :=
  incoming.entries.foldl (fun out p => mergeSemanticField appendFields out p.1 p.2)
    (if existing.isRecord then existing.spread else empty)

def mergeIndexedPart (out : List JsVal) (i : Nat) (incoming : JsVal) : List JsVal :=
  if incoming.isRecord then
    let current := if (nth out (.finite i)).isRecord then (nth out (.finite i)).spread else empty
    setAt out (.finite i) (mergeSemanticPart current incoming)
  else setAt out (.finite i) incoming

def mergeIndexedParts (existing incoming : List JsVal) : List JsVal :=
  incoming.zipIdx.foldl (fun out p => mergeIndexedPart out p.2 p.1) (copyItems existing)

/-- Copying entries except those named, null and undefined ones left out. -/
def copyEntries (except : List JStr) (target source : JsVal) : JsVal :=
  source.entries.foldl (fun out p =>
    if !except.contains p.1 && !isNullish p.2 then out.set p.1 p.2 else out) target

def mergeGeminiContentField (content : JsVal) (key : JStr) (value : JsVal) : JsVal :=
  match value with
  | .arr incoming =>
    if key = JStr.lit "parts" then
      content.set "parts" (.arr (mergeIndexedParts (content.get "parts").items incoming))
    else content.set key value
  | _ => if isNullish value then content else content.set key value

def mergeGeminiField (target : JsVal) (key : JStr) (value : JsVal) : JsVal :=
  if key = JStr.lit "index" then target
  else if key = JStr.lit "content" && value.isRecord then
    let content := if (target.get "content").isRecord then (target.get "content").spread else empty
    target.set "content" (value.entries.foldl (fun c p => mergeGeminiContentField c p.1 p.2) content)
  else if isNullish value then target
  else target.set key value

def mergeGeminiCandidate (target source : JsVal) : JsVal :=
  source.entries.foldl (fun out p => mergeGeminiField out p.1 p.2) target

def mergeDashscopeMessage (target source : JsVal) : JsVal :=
  let target := appendStringField "content" (source.get "content") target
  let target := appendStringField "reasoning_content" (source.get "reasoning_content") target
  let target := mergeToolCallsField target source
  copyEntries [JStr.lit "content", JStr.lit "reasoning_content", JStr.lit "tool_calls"] target source

/-- One of the nested objects of a Bedrock delta. -/
def mergeBedrockNested (field : String) (appendFields : List JStr) (block delta : JsVal) : JsVal :=
  if (delta.get field).isRecord then
    block.set field (mergeNestedSemanticObject (block.get field) (delta.get field) appendFields)
  else block

def mergeBedrockContentDelta (block delta : JsVal) : JsVal :=
  let block := appendStringField "text" (delta.get "text") block
  let block :=
    if !isUndefined (delta.get "text") && isUndefined (block.get "type") then block.set "type" (lit "text")
    else block
  let block := mergeBedrockNested "reasoningContent" [JStr.lit "text", JStr.lit "signature"] block delta
  let block := mergeBedrockNested "toolUse" [JStr.lit "input"] block delta
  let block := mergeBedrockNested "citationsContent" [JStr.lit "text"] block delta
  copyEntries [JStr.lit "text", JStr.lit "reasoningContent", JStr.lit "toolUse", JStr.lit "citationsContent"]
    block delta

def mergeCohereContentBlock (blocks : NumMap) (index : JsNumber) (rawBlock : JsVal) : NumMap :=
  if rawBlock.isRecord then blocks.set index (mergeSemanticPart ((blocks.get index).getD empty) rawBlock)
  else blocks

def mergeCohereContent (blocks : NumMap) (rawContent : JsVal) : NumMap :=
  match rawContent with
  | .arr items => items.zipIdx.foldl (fun m p => mergeCohereContentBlock m (.finite p.2) p.1) blocks
  | .obj proto props =>
    mergeCohereContentBlock blocks
      (numberOrDefault ((JsVal.obj proto props).get "index") (blocks.length - 1)) (.obj proto props)
  | .str text =>
    blocks.set 0 (appendStringField "text" (.str text)
      ((blocks.get 0).getD (ofObject [("type", lit "text")])))
  | _ => blocks

def mergeCohereMessageDelta (message : JsVal) (blocks : NumMap) (rawMessage : JsVal) : JsVal × NumMap :=
  if rawMessage.isRecord then
    (copyEntries [JStr.lit "content"] message rawMessage, mergeCohereContent blocks (rawMessage.get "content"))
  else (message, blocks)

end TeeProof.Verifier
