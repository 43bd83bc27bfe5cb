import TeeProof.Cell
import TeeProof.Incremental
import TeeProof.ToolAgreement

/-! A text delta cut in two: the enclave's aggregation of the first half followed by the rest
is the one of the whole. Each aggregator appends to one place of its state and does the rest
of an event elsewhere. -/
namespace TeeProof.Enclave

open Value (Map)

/-! The places. -/

/-- A field of an object. -/
def fieldCell (key : Str) : Cell Map Value where
  read m := (field m key).getD .null
  write v m := put m key v
  keeps _ := True
  write_write v w m := OrdMap.insert_insert key v w m
  read_write v m _ := .inl (by rw [field, put, OrdMap.find_insert_self, Option.getD_some])

/-- A text field, empty where there is no text. -/
def textCell (key : Str) : Cell Map Str := (fieldCell key).through (fun v => v.asStr.getD []) .string

/-- A field that holds an object, empty where there is none. -/
def objectCell (key : Str) : Cell Map Map := (fieldCell key).through (fun v => v.asObject.getD []) .object

def arrayCell (key : Str) : Cell Map (List Value) := (fieldCell key).through (fun v => v.asArray.getD []) .array

theorem padTo_long {items : List Value} {index : Nat} (long : index < items.length) : padTo items index = items := by
  rw [padTo, Nat.sub_eq_zero_of_le (by omega), List.replicate_zero, List.append_nil]

theorem length_padTo (items : List Value) (index : Nat) : index < (padTo items index).length := by
  rw [padTo, List.length_append, List.length_replicate]
  omega

/-- An object of an array that is filled up to it. -/
def itemCell (index : Nat) : Cell (List Value) Map where
  read items := objectAt (padTo items index) index
  write m items := (padTo items index).set index (.object m)
  keeps _ := True
  write_write m n items := by
    rw [padTo_long (by rw [List.length_set]; exact length_padTo items index), List.set_set]
  read_write m items _ := .inl (by
    rw [padTo_long (by rw [List.length_set]; exact length_padTo items index), objectAt,
      List.getElem?_set_self (length_padTo items index)]
    rfl)

/-- An entry of an indexed map, made from the default. -/
def entryCell (index : Int) (default : Map) : Cell IndexMap Map where
  read map := (OrdMap.find index map).getD default
  write m map := OrdMap.insert index m map
  keeps _ := True
  write_write m n map := OrdMap.insert_insert index m n map
  read_write m map _ := .inl (by rw [OrdMap.find_insert_self, Option.getD_some])

theorem entry_eq (map : IndexMap) (index : Int) (default : Map) (change : Map → Map) :
    entry map index default change = (entryCell index default).update change map := rfl

theorem read_textCell (key : Str) (m : Map) : (textCell key).read m = (strField m key).getD [] := by
  change (((field m key).getD .null).asStr).getD [] = _
  rw [strField]
  cases field m key <;> rfl

theorem append_eq (m : Map) (key s : Str) :
    appendStringField m key (some (.string s)) = (textCell key).update (· ++ s) m := by
  unfold Cell.update
  rw [read_textCell]
  simp only [appendStringField, Option.bind_some, Value.asStr]
  cases strField m key <;> rfl

theorem read_objectCell (key : Str) (m : Map) : (objectCell key).read m = (objectField m key).getD [] := by
  change (((field m key).getD .null).asObject).getD [] = _
  rw [objectField]
  cases field m key <;> rfl

theorem read_arrayCell (key : Str) (m : Map) : (arrayCell key).read m = (arrayField m key).getD [] := by
  change (((field m key).getD .null).asArray).getD [] = _
  rw [arrayField]
  cases field m key <;> rfl

theorem field_put_self (m : Map) (key : Str) (value : Value) : field (put m key value) key = some value :=
  OrdMap.find_insert_self key value m

/-! A field of a source that is not the one written. -/

section
variable (source : Map) {key other : Str} (apart : other ≠ key) (value : Value)
include apart

theorem strField_put_ne : strField (put source key value) other = strField source other := by
  rw [strField, field_put_ne _ apart, strField]

theorem objectField_put_ne : objectField (put source key value) other = objectField source other := by
  rw [objectField, field_put_ne _ apart, objectField]

theorem copyField_put_ne (target : Map) : copyField target (put source key value) other = copyField target source other := by
  rw [copyField, field_put_ne _ apart, copyField]

end

theorem objectField_put_self (source : Map) (key : Str) (map : Map) :
    objectField (put source key (.object map)) key = some map := by
  rw [objectField, field_put_self]
  rfl

theorem arrayField_put_self (source : Map) (key : Str) (items : List Value) :
    arrayField (put source key (.array items)) key = some items := by
  rw [arrayField, field_put_self]
  rfl

/-! The operations on other fields. -/

/-- A field revised from what it holds. -/
def alter (key : Str) (change : Option Value → Option Value) (m : Map) : Map :=
  match change (field m key) with
  | some v => put m key v
  | none => m

section
variable {key other : Str} (apart : other ≠ key)
include apart

theorem alter_frames (change : Option Value → Option Value) : (fieldCell key).Frames (alter other change) := by
  refine .of_comm fun v w m => ?_
  change alter other change (put (put m key v) key w) = put (alter other change (put m key v)) key w
  unfold alter
  rw [field_put_ne _ apart]
  cases change (field (put m key v) other) with
  | some x => exact OrdMap.insert_comm apart x w _
  | none => rfl

theorem revise_frames (f : Str → Option Value → Value → Option Value) (value : Value) :
    (fieldCell key).Frames fun m => revise f m other value :=
  alter_frames apart fun old => f other old value

theorem put_frames (value : Value) : (fieldCell key).Frames fun m => put m other value :=
  alter_frames apart fun _ => some value

theorem append_frames (value : Option Value) : (fieldCell key).Frames fun m => appendStringField m other value := by
  cases text : value.bind Value.asStr with
  | none =>
    simp only [appendStringField, text]
    exact .id
  | some s =>
    have same : (fun m => appendStringField m other value) =
        alter other fun old => some (.string ((old.bind Value.asStr).getD [] ++ s)) := by
      funext m
      simp only [appendStringField, text, alter, strField]
      cases (field m other).bind Value.asStr <;> rfl
    rw [same]
    exact alter_frames apart _

theorem copyField_frames (source : Map) : (fieldCell key).Frames fun m => copyField m source other := by
  unfold copyField
  cases field source other with
  | some v => exact put_frames apart v
  | none => exact .id

theorem nested_frames (appendFields : List Str) (delta : Map) :
    (fieldCell key).Frames fun m => mergeBedrockNested other appendFields m delta := by
  unfold mergeBedrockNested
  cases objectField delta other with
  | none => exact .id
  | some incoming => exact alter_frames apart fun old => some (mergeNestedSemanticObject old incoming appendFields)

end

theorem tools_frames {key : Str} (source : Map) (apart : "tool_calls".toList ≠ key) :
    (fieldCell key).Frames fun m => mergeToolCallsField m source := by
  unfold mergeToolCallsField
  cases arrayField source "tool_calls" with
  | none => exact .id
  | some delta =>
    exact alter_frames apart fun old =>
      some (.array (mergeToolCalls ((old.bind Value.asArray).getD []) delta))

theorem extendExcept_frames {key : Str} (except : List Str) (excepted : key ∈ except) (source : Map) :
    (fieldCell key).Frames fun m => extendExcept except m source := by
  refine .foldl fun p _ => ?_
  by_cases apart : p.1 = key
  · have kept : except.contains p.1 = true := by rw [apart]; simpa using excepted
    simp only [kept, Bool.not_true, Bool.false_and, Bool.false_eq_true, if_false]
    exact .id
  · split
    · exact put_frames apart p.2
    · exact .id

/-! The merges: what stands before the append, the append, what follows. -/

/-- A merge that appends a text and leaves the text alone otherwise. -/
structure Appends (key : Str) (merge : Str → Map → Map) : Prop where
  split : ∃ before after : Map → Map, (fieldCell key).Frames after ∧
    ∀ s m, merge s m = after ((textCell key).update (· ++ s) (before m))

/-- The second half appended to the merge of the first. -/
theorem Appends.rejoin {key : Str} {merge : Str → Map → Map} (appends : Appends key merge) (s t : Str) (m : Map) :
    appendStringField (merge s m) key (some (.string t)) = merge (s ++ t) m := by
  obtain ⟨before, after, frames, split⟩ := appends.split
  have alone : (textCell key).Frames after := frames.through _ _
  rw [append_eq, split, split, Cell.update_frame alone (· ++ s) (· ++ t) (before m) ⟨trivial, rfl⟩]
  simp only [List.append_assoc]

/-- The role of a delta, where the message has none. -/
def roleOnce (delta message : Map) : Map :=
  if OrdMap.contains "role".toList message then message else
    match strField delta "role" with
    | some role => put message "role" (.string role)
    | none => message

theorem mergeOpenAiChatDelta_appends (delta : Map) :
    Appends "content" fun s message => mergeOpenAiChatDelta message (put delta "content" (.string s)) := by
  refine ⟨roleOnce delta, fun message => mergeToolCallsField
      (appendStringField message "reasoning_content" (field delta "reasoning_content")) delta,
    (tools_frames delta (by decide)).comp (append_frames (by decide) _), fun s message => ?_⟩
  unfold mergeOpenAiChatDelta mergeToolCallsField roleOnce
  simp (disch := decide) only [← append_eq, strField, arrayField, field_put_self, field_put_ne] <;> rfl

theorem mergeOpenAiChatDelta_text (message : Map) (t : Str) :
    mergeOpenAiChatDelta message (put [] "content" (.string t)) =
      appendStringField message "content" (some (.string t)) := by
  have role : (if OrdMap.contains "role".toList message then message else message) = message := ite_self _
  exact congrArg (fun m => appendStringField m "content" (some (.string t))) role

/-! OpenAI Chat. -/

/-- An integer of a JSON document, as it is read. -/
structure Index where
  number : Number
  integer : ∀ bits, number ≠ .float bits

def Index.value (index : Index) : Value := .number index.number

theorem indexOr_of_read {source : Map} {key : Str} {index : Index} (there : field source key = some index.value)
    {i : Int} (read : index.value.asI64 = some i) (fallback : Nat) : indexOr source key fallback = i := by
  rw [indexOr, there, Option.bind_some, read, Option.getD_some]

/-- A chunk with a text delta for one choice: what it holds beside the text. -/
structure ChatDelta where
  chunk : Map
  before : List Value
  choice : Map
  delta : Map
  after : List Value
  index : Index
  alone : ∀ v ∈ before ++ after, v.asObject = none
  addressed : field choice "index" = some index.value
  noMessage : objectField choice "message" = none

namespace ChatDelta

variable (d : ChatDelta)

def choiceObj (text : Str) : Map := put d.choice "delta" (.object (put d.delta "content" (.string text)))

def event (text : Str) : Value :=
  .object (put d.chunk "choices" (.array (d.before ++ .object (d.choiceObj text) :: d.after)))

/-- The same address and nothing else. -/
def bare : ChatDelta where
  chunk := []
  before := []
  choice := put [] "index" d.index.value
  delta := []
  after := []
  index := d.index
  alone := by simp
  addressed := field_put_self _ _ _
  noMessage := rfl

/-- The result after the event: the text plays no part in it. -/
def result (out : Map) : Map :=
  let out :=
    if OrdMap.contains "model".toList out then out
    else
      match strField d.chunk "model" with
      | some model => put out "model" (.string model)
      | none => out
  copyField (copyField out d.chunk "usage") d.chunk "error"

def ending (choice : Map) : Map :=
  let choice :=
    match field d.choice "finish_reason" with
    | some finishReason => if finishReason.isNull then choice else put choice "finish_reason" finishReason
    | none => choice
  copyField choice d.choice "logprobs"

def merge (text : Str) (message : Map) : Map := mergeOpenAiChatDelta message (put d.delta "content" (.string text))

def change (text : Str) (choice : Map) : Map := d.ending ((objectCell "message").update (d.merge text) choice)

theorem ending_frames : (fieldCell "message").Frames d.ending := by
  refine (copyField_frames (by decide) d.choice).comp ?_
  cases field d.choice "finish_reason" with
  | none => exact .id
  | some finishReason =>
    dsimp only
    split
    · exact .id
    · exact put_frames (by decide) finishReason

theorem rejoin (s t : Str) (choice : Map) : d.bare.change t (d.change s choice) = d.change (s ++ t) choice := by
  have frames : (objectCell "message").Frames d.ending := d.ending_frames.through _ _
  have tail : d.bare.change t =
      (objectCell "message").update fun m => mergeOpenAiChatDelta m (put [] "content" (.string t)) := rfl
  rw [tail, change, Cell.update_frame frames (d.merge s) _ choice ⟨trivial, rfl⟩]
  simp only [merge, mergeOpenAiChatDelta_text, (mergeOpenAiChatDelta_appends d.delta).rejoin s t]
  rfl

theorem choice_skips {values : List Value} (alone : ∀ v ∈ values, v.asObject = none) (choices : IndexMap) :
    values.foldl aggregateOpenAiChatStream.choice choices = choices := by
  induction values with
  | nil => rfl
  | cons v rest ih =>
    rw [List.foldl_cons, aggregateOpenAiChatStream.choice, alone v List.mem_cons_self]
    exact ih fun w member => alone w (List.mem_cons_of_mem _ member)

theorem choice_event (text : Str) {i : Int} (read : d.index.value.asI64 = some i) (choices : IndexMap) :
    aggregateOpenAiChatStream.choice choices (.object (d.choiceObj text)) =
      (entryCell i [("index".toList, .ofInt i), ("message".toList, .object [])]).update (d.change text) choices := by
  have index : indexOr (d.choiceObj text) "index" choices.length = i :=
    indexOr_of_read ((field_put_ne _ (by decide) _).trans d.addressed) read _
  rw [← entry_eq]
  simp only [aggregateOpenAiChatStream.choice, Value.asObject, index]
  congr 1
  funext choice
  unfold change ending Cell.update choiceObj
  rw [read_objectCell]
  simp (disch := decide) only [objectField_put_ne, objectField_put_self, copyField_put_ne, field_put_ne, d.noMessage]
  rfl

theorem item_event (text : Str) {i : Int} (read : d.index.value.asI64 = some i) (out : Map) (choices : IndexMap) :
    aggregateOpenAiChatStream.item (out, choices) (d.event text) = (d.result out,
      (entryCell i [("index".toList, .ofInt i), ("message".toList, .object [])]).update (d.change text) choices) := by
  have before := choice_skips fun v member => d.alone v (List.mem_append_left _ member)
  have after := choice_skips fun v member => d.alone v (List.mem_append_right _ member)
  unfold aggregateOpenAiChatStream.item event result
  simp (disch := decide) only [Value.asObject, strField_put_ne, copyField_put_ne, arrayField_put_self,
    List.foldl_append, List.foldl_cons, before, after, d.choice_event text read] <;> rfl

theorem item_rejoin (s t : Str) (read : d.index.value.asI64.isSome) (locals : Map × IndexMap) :
    aggregateOpenAiChatStream.item (aggregateOpenAiChatStream.item locals (d.event s)) (d.bare.event t) =
      aggregateOpenAiChatStream.item locals (d.event (s ++ t)) := by
  obtain ⟨i, read⟩ := Option.isSome_iff_exists.mp read
  obtain ⟨out, choices⟩ := locals
  have unchanged (out : Map) : d.bare.result out = out := ite_self _
  rw [d.item_event s read, d.item_event (s ++ t) read, d.bare.item_event t read, unchanged,
    Cell.update_update _ _ _ trivial]
  simp only [d.rejoin s t]

end ChatDelta

/-! OpenAI Responses. -/

/-- The three families of text events append to a part of this type. -/
def outputText : Map := put [] "type" (.lit "output_text")

structure ResponsesDelta where
  members : Map
  outputIndex : Index
  contentIndex : Index
  typed : strField members "type" = some "response.output_text.delta".toList
  addressed : field members "output_index" = some outputIndex.value
  placed : field members "content_index" = some contentIndex.value

namespace ResponsesDelta

variable (d : ResponsesDelta)

def event (text : Str) : Value := .object (put d.members "delta" (.string text))

def bare : ResponsesDelta where
  members := put (put (put [] "type" (.lit "response.output_text.delta")) "output_index" d.outputIndex.value)
    "content_index" d.contentIndex.value
  outputIndex := d.outputIndex
  contentIndex := d.contentIndex
  typed := rfl
  addressed := rfl
  placed := rfl

def result (out : Map) : Map :=
  match field d.members "response" with
  | some response => mergeValueObject out (pickValue responsesKeys response)
  | none => out

def merge (text : Str) (part : Map) : Map :=
  appendStringField (extend part outputText) "text" (some (.string text))

def change (n : Nat) (text : Str) (item : Map) : Map :=
  (arrayCell "content").update ((itemCell n).update (merge text)) item

theorem merge_rejoin (s t : Str) (part : Map) : merge t (merge s part) = merge (s ++ t) part := by
  have appends : Appends "text" merge :=
    ⟨fun part => extend part outputText, fun part => part, .id, fun s part => append_eq _ _ _⟩
  have typed (part : Map) : extend part outputText = put part "type" (.lit "output_text") := rfl
  have again : extend (merge s part) outputText = merge s part := by
    simp only [merge, append_eq, Cell.update, typed]
    exact (OrdMap.insert_comm (by decide) _ _ _).trans (congrArg _ (OrdMap.insert_insert _ _ _ _))
  calc merge t (merge s part) = appendStringField (merge s part) "text" (some (.string t)) := by rw [merge, again]
    _ = merge (s ++ t) part := appends.rejoin s t part

theorem rejoin (n : Nat) (s t : Str) (item : Map) : change n t (change n s item) = change n (s ++ t) item := by
  rw [change, change, Cell.update_update (c := arrayCell "content") _ _ item ⟨trivial, rfl⟩, change]
  congr 1
  funext content
  rw [Cell.update_update _ _ _ trivial]
  simp only [merge_rejoin]

theorem item_event (text : Str) {i : Int} (read : d.outputIndex.value.asI64 = some i) {n : Nat}
    (position : d.contentIndex.value.asU64 = some n) (out : Map) (items : IndexMap) :
    aggregateOpenAiResponsesStream.item (out, items) (d.event text) =
      (d.result out, (entryCell i []).update (change n text) items) := by
  have type : typeOf (put d.members "delta" (.string text)) = "response.output_text.delta".toList := by
    rw [typeOf, strField_put_ne _ (by decide), d.typed]
    rfl
  have index : indexOr (put d.members "delta" (.string text)) "output_index" items.length = i :=
    indexOr_of_read ((field_put_ne _ (by decide) _).trans d.addressed) read _
  have done : Str.endsWith ".done" "response.output_text.delta".toList = false := by decide
  unfold aggregateOpenAiResponsesStream.item event result
  simp only [Value.asObject, type]
  rw [if_neg (by decide), if_neg (by decide), if_pos (by decide), ← entry_eq]
  simp (disch := decide) only [aggregateOpenAiResponsesStream.text, done, index, field_put_self, field_put_ne, d.placed]
  congr 2
  funext item
  unfold change Cell.update
  rw [read_arrayCell]
  simp only [mergeOpenAiResponseContentPart, Option.bind_some, position]
  rfl

theorem item_rejoin (s t : Str) (read : d.outputIndex.value.asI64.isSome) (position : d.contentIndex.value.asU64.isSome)
    (locals : Map × IndexMap) :
    aggregateOpenAiResponsesStream.item (aggregateOpenAiResponsesStream.item locals (d.event s)) (d.bare.event t) =
      aggregateOpenAiResponsesStream.item locals (d.event (s ++ t)) := by
  obtain ⟨i, read⟩ := Option.isSome_iff_exists.mp read
  obtain ⟨n, position⟩ := Option.isSome_iff_exists.mp position
  obtain ⟨out, items⟩ := locals
  have unchanged (out : Map) : d.bare.result out = out := rfl
  rw [d.item_event s read position, d.item_event (s ++ t) read position, d.bare.item_event t read position, unchanged,
    Cell.update_update _ _ _ trivial]
  simp only [rejoin]

end ResponsesDelta

/-! Anthropic Messages. -/

/-- The text a delta of a content block carries. -/
inductive AnthropicText where
  | text
  | thinking
  | partialJson

namespace AnthropicText

def source : AnthropicText → Str
  | text => "text"
  | thinking => "thinking"
  | partialJson => "partial_json"

/-- The field of the block it is appended to. -/
def target : AnthropicText → Str
  | text => "text"
  | thinking => "thinking"
  | partialJson => "input_json"

end AnthropicText

structure AnthropicDelta where
  members : Map
  delta : Map
  kind : AnthropicText
  index : Index
  typed : strField members "type" = some "content_block_delta".toList
  addressed : field members "index" = some index.value

namespace AnthropicDelta

variable (d : AnthropicDelta)

def event (text : Str) : Value :=
  .object (put d.members "delta" (.object (put d.delta d.kind.source (.string text))))

def bare : AnthropicDelta where
  members := put (put [] "type" (.lit "content_block_delta")) "index" d.index.value
  delta := []
  kind := d.kind
  index := d.index
  typed := rfl
  addressed := rfl

def merge (text : Str) (block : Map) : Map :=
  mergeAnthropicContentDelta block (put d.delta d.kind.source (.string text))

/-- The two kinds of steps of the merge: the type of a fresh block, and each text. -/
def blockType (delta block : Map) : Map :=
  if OrdMap.contains "type".toList block then block
  else
    match strField delta "type" with
    | some type => put block "type" (.string (trimEndDelta type))
    | none => block

def fill (target source : String) (delta block : Map) : Map := appendStringField block target (field delta source)

theorem merge_appends : Appends d.kind.target d.merge := by
  have merged (block delta : Map) : mergeAnthropicContentDelta block delta = fill "input_json" "partial_json" delta
      (fill "signature" "signature" delta (fill "thinking" "thinking" delta (fill "text" "text" delta
        (blockType delta block)))) := rfl
  have typed (source s : Str) (apart : "type".toList ≠ source) :
      blockType (put d.delta source (.string s)) = blockType d.delta := by
    funext block
    simp only [blockType, strField_put_ne _ apart]
  have other (target : String) {source : String} {key : Str} (apart : source.toList ≠ key) (s : Str) :
      fill target source (put d.delta key (.string s)) = fill target source d.delta := by
    funext block
    rw [fill, field_put_ne _ apart, fill]
  have self (target source : String) (s : Str) (block : Map) :
      fill target source (put d.delta source (.string s)) block = (textCell target).update (· ++ s) block := by
    rw [fill, field_put_self, append_eq]
  have frames (key target source : String) (apart : target.toList ≠ key.toList) :
      (fieldCell key).Frames (fill target source d.delta) := append_frames apart _
  unfold merge
  simp only [merged]
  -- what the delta does before and after the append depends on where its text stands
  cases d.kind with
  | text =>
    have thinking := frames "text" "thinking" "thinking" (by decide)
    have signature := frames "text" "signature" "signature" (by decide)
    have json := frames "text" "input_json" "partial_json" (by decide)
    refine ⟨blockType d.delta, _, json.comp (signature.comp thinking), fun s block => ?_⟩
    dsimp only [AnthropicText.source, AnthropicText.target]
    rw [typed _ _ (by decide), other "input_json" (by decide), other "signature" (by decide),
      other "thinking" (by decide), self "text" "text"]
  | thinking =>
    have signature := frames "thinking" "signature" "signature" (by decide)
    have json := frames "thinking" "input_json" "partial_json" (by decide)
    refine ⟨fun block => fill "text" "text" d.delta (blockType d.delta block), _, json.comp signature, fun s block => ?_⟩
    dsimp only [AnthropicText.source, AnthropicText.target]
    rw [typed _ _ (by decide), other "input_json" (by decide), other "signature" (by decide), other "text" (by decide),
      self "thinking" "thinking"]
  | partialJson =>
    refine ⟨fun block => fill "signature" "signature" d.delta (fill "thinking" "thinking" d.delta
      (fill "text" "text" d.delta (blockType d.delta block))), fun block => block, .id, fun s block => ?_⟩
    dsimp only [AnthropicText.source, AnthropicText.target]
    rw [typed _ _ (by decide), other "signature" (by decide), other "thinking" (by decide), other "text" (by decide),
      self "input_json" "partial_json"]

theorem bare_merge (t : Str) (block : Map) :
    d.bare.merge t block = appendStringField block d.kind.target (some (.string t)) := by
  have typed : (if OrdMap.contains "type".toList block then block else block) = block := ite_self _
  unfold merge bare
  cases d.kind with
  | text => exact congrArg (fun m => appendStringField m "text" (some (.string t))) typed
  | thinking => exact congrArg (fun m => appendStringField m "thinking" (some (.string t))) typed
  | partialJson => exact congrArg (fun m => appendStringField m "input_json" (some (.string t))) typed

theorem item_event (text : Str) {i : Int} (read : d.index.value.asI64 = some i) (out : Map) (blocks : IndexMap)
    (sorted : OrdMap.Sorted blocks) :
    aggregateAnthropicMessagesStream.item (out, blocks) (d.event text) =
      (out, (entryCell i []).update (d.merge text) blocks) := by
  have type : typeOf (put d.members "delta" (.object (put d.delta d.kind.source (.string text)))) =
      "content_block_delta".toList := by
    rw [typeOf, strField_put_ne _ (by decide), d.typed]
    rfl
  have index : indexOr (put d.members "delta" (.object (put d.delta d.kind.source (.string text)))) "index"
      blocks.length = i :=
    indexOr_of_read ((field_put_ne _ (by decide) _).trans d.addressed) read _
  unfold aggregateAnthropicMessagesStream.item event
  simp only [Value.asObject, type]
  rw [if_neg (by decide), if_neg (by decide), if_pos trivial]
  simp only [objectField_put_self, index, OrdMap.insert_erase sorted]
  rfl

theorem item_rejoin (s t : Str) (read : d.index.value.asI64.isSome) (locals : Map × IndexMap)
    (sorted : OrdMap.Sorted locals.2) :
    aggregateAnthropicMessagesStream.item (aggregateAnthropicMessagesStream.item locals (d.event s)) (d.bare.event t) =
      aggregateAnthropicMessagesStream.item locals (d.event (s ++ t)) := by
  obtain ⟨i, read⟩ := Option.isSome_iff_exists.mp read
  obtain ⟨out, blocks⟩ := locals
  have kept : OrdMap.Sorted ((entryCell i []).update (d.merge s) blocks) := sorted.insert _ _
  rw [d.item_event s read out blocks sorted, d.item_event (s ++ t) read out blocks sorted,
    d.bare.item_event t read out _ kept, Cell.update_update _ _ _ trivial]
  simp only [d.bare_merge, d.merge_appends.rejoin s t]

end AnthropicDelta

/-- The blocks stay in order, so that taking one out and writing it back changes nothing else. -/
theorem anthropic_sorted (locals : Map × IndexMap) (item : Value) (sorted : OrdMap.Sorted locals.2) :
    OrdMap.Sorted (aggregateAnthropicMessagesStream.item locals item).2 := by
  have seeds (content : Option Value) : OrdMap.Sorted (seedAnthropicContentBlocks locals.2 content) := by
    unfold seedAnthropicContentBlocks
    split
    · exact sorted
    next items _ =>
      refine List.foldlRecOn items.zipIdx _ sorted fun blocks kept p _ => ?_
      split
      · exact kept.insert _ _
      · exact kept
  obtain ⟨out, blocks⟩ := locals
  unfold aggregateAnthropicMessagesStream.item
  dsimp only
  split
  · exact sorted
  next event _ =>
    split
    · split
      · exact sorted
      · exact seeds _
    · split
      · split
        · exact sorted
        · exact sorted.insert _ _
      · split
        · split
          · exact sorted
          · dsimp only
            rw [OrdMap.insert_erase sorted]
            exact sorted.insert _ _
        · split
          · exact sorted
          · split
            · exact sorted
            · exact sorted

end TeeProof.Enclave
