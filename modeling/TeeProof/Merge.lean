import TeeProof.Serde

/-! The merge helpers of the enclave's stream aggregation. A helper that changes its
target in the source returns the changed target here. -/
namespace TeeProof.Enclave

open Value (Map)

/-- `BTreeMap<i64, serde_json::Map>`. -/
abbrev IndexMap := List (Int × Map)

def put (target : Map) (key : Str) (value : Value) : Map := OrdMap.insert key value target

def field (map : Map) (key : Str) : Option Value := OrdMap.find key map
def strField (map : Map) (key : Str) : Option Str := (field map key).bind Value.asStr
def arrayField (map : Map) (key : Str) : Option (List Value) := (field map key).bind Value.asArray
def objectField (map : Map) (key : Str) : Option Map := (field map key).bind Value.asObject

/-- `if let Some(v) = source.get(key) { target.insert(key, v) }`. -/
def copyField (target source : Map) (key : Str) : Map :=
  match field source key with
  | some v => put target key v
  | none => target

/-- `for (k, v) in source { target.insert(k, v) }`. -/
def extend (target source : Map) : Map := source.foldl (fun out p => put out p.1 p.2) target

/-- The same loop with some keys left out, and null values. -/
def extendExcept (except : List Str) (target source : Map) : Map :=
  source.foldl (fun out p => if !except.contains p.1 && !p.2.isNull then put out p.1 p.2 else out) target

/-- `map.entry(index).or_insert_with(default)`, changed in place. -/
def entry (map : IndexMap) (index : Int) (default : Map) (change : Map → Map) : IndexMap :=
  OrdMap.insert index (change ((OrdMap.find index map).getD default)) map

/-- `Value::Array(map.into_values().map(Value::Object).collect())`. -/
def objects (map : IndexMap) : Value := .array ((OrdMap.values map).map .object)

/-- `source.get(key).and_then(Value::as_i64).unwrap_or(fallback)`. -/
def indexOr (source : Map) (key : Str) (fallback : Nat) : Int :=
  ((field source key).bind Value.asI64).getD fallback

/-- `while items.len() <= index { items.push({}) }`. -/
def padTo (items : List Value) (index : Nat) : List Value :=
  items ++ List.replicate (index + 1 - items.length) (.object [])

/-- `items[index].as_object().cloned().unwrap_or_default()`. -/
def objectAt (items : List Value) (index : Nat) : Map := (items[index]?.bind Value.asObject).getD []

mutual

def pickValue (keys : List Str) : Value → Value
  | .array items => .array (pickItems keys items)
  | .object map => .object (keys.foldl (fun out key => copyField out map key) [])
  | value => value

def pickItems (keys : List Str) : List Value → List Value
  | [] => []
  | v :: rest => pickValue keys v :: pickItems keys rest

end

def appendStringField (target : Map) (key : Str) (value : Option Value) : Map :=
  match value.bind Value.asStr with
  | none => target
  | some s =>
    match strField target key with
    | some existing => put target key (.string (existing ++ s))
    | none => put target key (.string s)

def setStringField (target : Map) (key : Str) (value : Option Value) : Map :=
  match value.bind Value.asStr with
  | none => target
  | some s => put target key (.string s)

def mergeValueObject (target : Map) : Value → Map
  | .object source => extend target source
  | _ => target

def mergeNestedObject (target : Map) (key : Str) (value : Option Value) : Map :=
  match value with
  | none => target
  | some value =>
    match objectField target key, value.asObject with
    | some existing, some incoming => put target key (.object (extend existing incoming))
    | _, _ => put target key value

def mergeToolCallField (item : Map) (key : Str) (value : Value) : Map :=
  if key = "index".toList then item
  else if key = "function".toList then
    match value.asObject with
    | none => item
    | some delta =>
      let fn := (objectField item "function").getD []
      let fn := appendStringField fn "name" (field delta "name")
      let fn := appendStringField fn "arguments" (field delta "arguments")
      put item "function" (.object fn)
  else put item key value

def mergeToolCall (current : List Value) (raw : Value) : List Value :=
  match raw.asObject with
  | none => current
  | some raw =>
    let index := ((field raw "index").bind Value.asU64).getD current.length
    let current := padTo current index
    let item := raw.foldl (fun item p => mergeToolCallField item p.1 p.2) (objectAt current index)
    current.set index (.object item)

def mergeToolCalls (current delta : List Value) : List Value := delta.foldl mergeToolCall current

/-- The `tool_calls` part of a delta or of a message. -/
def mergeToolCallsField (target source : Map) : Map :=
  match arrayField source "tool_calls" with
  | none => target
  | some delta =>
    put target "tool_calls" (.array (mergeToolCalls ((arrayField target "tool_calls").getD []) delta))

def mergeOpenAiChatDelta (message delta : Map) : Map :=
  let message :=
    if OrdMap.contains "role".toList message then message
    else
      match strField delta "role" with
      | some role => put message "role" (.string role)
      | none => message
  let message := appendStringField message "content" (field delta "content")
  let message := appendStringField message "reasoning_content" (field delta "reasoning_content")
  mergeToolCallsField message delta

def mergeOpenAiResponseContentPart (item : Map) (rawIndex rawPart : Option Value)
    (appendField : Option Str) (appendValue : Option Value)
    (setField : Option Str) (setValue : Option Value) : Map :=
  let content := (arrayField item "content").getD []
  let index := (rawIndex.bind Value.asU64).getD content.length
  let content := padTo content index
  let part := objectAt content index
  let part := extend part ((rawPart.bind Value.asObject).getD [])
  let part :=
    match appendField with
    | some key => appendStringField part key appendValue
    | none => part
  let part :=
    match setField with
    | some key => setStringField part key setValue
    | none => part
  put item "content" (.array (content.set index (.object part)))

/-- `text.trim_end_matches("_delta")`: the ending is cut as often as it stands there. -/
def trimEndDelta (text : Str) : Str := go text.length text
where
  go : Nat → Str → Str
    | 0, text => text
    | fuel + 1, text =>
      if Str.endsWith "_delta" text then go fuel (text.take (text.length - 6)) else text

def mergeAnthropicContentDelta (block delta : Map) : Map :=
  let block :=
    if OrdMap.contains "type".toList block then block
    else
      match strField delta "type" with
      | some type => put block "type" (.string (trimEndDelta type))
      | none => block
  let block := appendStringField block "text" (field delta "text")
  let block := appendStringField block "thinking" (field delta "thinking")
  let block := appendStringField block "signature" (field delta "signature")
  appendStringField block "input_json" (field delta "partial_json")

def seedAnthropicContentBlocks (blocks : IndexMap) (content : Option Value) : IndexMap :=
  match content.bind Value.asArray with
  | none => blocks
  | some items =>
    items.zipIdx.foldl (fun blocks p =>
      match p.1.asObject with
      | some block => entry blocks p.2 block id
      | none => blocks) blocks

/-- The two sibling loops that append some fields, join objects and copy the rest. -/
def mergeSemanticField (appendFields : List Str) (target : Map) (key : Str) (value : Value) : Map :=
  if appendFields.contains key then appendStringField target key (some value)
  else
    match objectField target key, value.asObject with
    | some existing, some incoming => put target key (.object (extend existing incoming))
    | _, _ => if value.isNull then target else put target key value

def mergeSemanticPart (target source : Map) : Map :=
  source.foldl (fun out p =>
    mergeSemanticField ["text".toList, "thinking".toList, "signature".toList] out p.1 p.2) target

def mergeNestedSemanticObject (existing : Option Value) (incoming : Map) (appendFields : List Str) : Value :=
  .object (incoming.foldl (fun out p => mergeSemanticField appendFields out p.1 p.2)
    ((existing.bind Value.asObject).getD []))

def mergeIndexedPart (out : List Value) (i : Nat) (raw : Value) : List Value :=
  let out := padTo out i
  match raw.asObject with
  | none => out.set i raw
  | some source => out.set i (.object (mergeSemanticPart (objectAt out i) source))

def mergeIndexedParts (existing : Option Value) (incoming : List Value) : Value :=
  .array (incoming.zipIdx.foldl (fun out p => mergeIndexedPart out p.2 p.1)
    ((existing.bind Value.asArray).getD []))

def mergeGeminiContentField (content : Map) (key : Str) (value : Value) : Map :=
  if key = "parts".toList then
    match value.asArray with
    | some parts => put content "parts" (mergeIndexedParts (field content "parts") parts)
    | none => content
  else if value.isNull then content
  else put content key value

def mergeGeminiField (target : Map) (key : Str) (value : Value) : Map :=
  if key = "index".toList then target
  else if key = "content".toList then
    match value.asObject with
    | none => target
    | some source =>
      put target "content" (.object (source.foldl (fun out p => mergeGeminiContentField out p.1 p.2)
        ((objectField target "content").getD [])))
  else if value.isNull then target
  else put target key value

def mergeGeminiCandidate (target source : Map) : Map :=
  source.foldl (fun out p => mergeGeminiField out p.1 p.2) target

def mergeDashscopeMessage (target source : Map) : Map :=
  let target := appendStringField target "content" (field source "content")
  let target := appendStringField target "reasoning_content" (field source "reasoning_content")
  let target := mergeToolCallsField target source
  extendExcept ["content".toList, "reasoning_content".toList, "tool_calls".toList] target source

/-- One of the nested objects of a Bedrock delta. -/
def mergeBedrockNested (key : Str) (appendFields : List Str) (block delta : Map) : Map :=
  match objectField delta key with
  | some incoming => put block key (mergeNestedSemanticObject (field block key) incoming appendFields)
  | none => block

def mergeBedrockContentDelta (block delta : Map) : Map :=
  let block := appendStringField block "text" (field delta "text")
  let block :=
    if (field delta "text").isSome && !OrdMap.contains "type".toList block then put block "type" (.lit "text")
    else block
  let block := mergeBedrockNested "reasoningContent" ["text".toList, "signature".toList] block delta
  let block := mergeBedrockNested "toolUse" ["input".toList] block delta
  let block := mergeBedrockNested "citationsContent" ["text".toList] block delta
  extendExcept ["text".toList, "reasoningContent".toList, "toolUse".toList, "citationsContent".toList]
    block delta

def mergeCohereContentBlock (blocks : IndexMap) (index : Int) (rawBlock : Value) : IndexMap :=
  match rawBlock.asObject with
  | some source => entry blocks index [] fun block => mergeSemanticPart block source
  | none => blocks

def mergeCohereContent (blocks : IndexMap) : Value → IndexMap
  | .array items => items.zipIdx.foldl (fun m p => mergeCohereContentBlock m p.2 p.1) blocks
  | .object map => mergeCohereContentBlock blocks (indexOr map "index" (blocks.length - 1)) (.object map)
  | .string s =>
    entry blocks 0 [("type".toList, .lit "text")] fun block => appendStringField block "text" (some (.string s))
  | _ => blocks

def mergeCohereMessageDelta (message : Map) (blocks : IndexMap) (rawMessage : Value) : Map × IndexMap :=
  match rawMessage.asObject with
  | none => (message, blocks)
  | some source =>
    let message := extendExcept ["content".toList] message source
    match field source "content" with
    | none => (message, blocks)
    | some content => (message, mergeCohereContent blocks content)

end TeeProof.Enclave
