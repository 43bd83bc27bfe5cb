import TeeProof.FieldRechunk
import TeeProof.RechunkNested

/-! The text deltas of each protocol in the verifier's aggregation, and the cut of one in any
stream of events on both sides. -/
namespace TeeProof.Verifier

open JsVal

theorem foldl_alone {σ : Type} (step : σ → JsVal × Nat → σ) (skips : ∀ s v i, v.isRecord = false → step s (v, i) = s)
    (before : List JsVal) (v : JsVal) (after : List JsVal) (alone : ∀ w ∈ before ++ after, w.isRecord = false) (s : σ) :
    (before ++ v :: after).zipIdx.foldl step s = step s (v, before.length) := by
  have unchanged (l : List JsVal) (others : ∀ w ∈ l, w.isRecord = false) (n : Nat) (s : σ) :
      (l.zipIdx n).foldl step s = s := by
    induction l generalizing n with
    | nil => rfl
    | cons w rest ih =>
      rw [List.zipIdx_cons, List.foldl_cons, skips s w n (others w List.mem_cons_self)]
      exact ih (fun x member => others x (List.mem_cons_of_mem _ member)) (n + 1)
  rw [List.zipIdx_append, List.foldl_append, unchanged before fun w member => alone w (List.mem_append_left _ member)]
  rw [List.zipIdx_cons, List.foldl_cons, unchanged after fun w member => alone w (List.mem_append_right _ member),
    Nat.zero_add]

/-- A record that names its index and nothing else. -/
def indexOnly (name field : String) (apart : field ≠ name) (index : JsNumber) : Hole name where
  front := [(JStr.lit field, .num index)]
  back := []
  distinct := by
    have other := lit_ne apart
    simp [other]

theorem get_indexOnly {name field : String} (apart : field ≠ name) (index : JsNumber) :
    (indexOnly name field apart index).rest.get (JStr.lit field) = .num index := by
  simp [indexOnly, Hole.rest, JsVal.get, own]

theorem isRecord_recordOr (v : JsVal) : (recordOr empty v).isRecord = true := by
  unfold recordOr
  split
  next there => exact there
  next => rfl

theorem recordOr_record {v : JsVal} (record : v.isRecord = true) : recordOr empty v = v := if_pos record

/-! OpenAI Chat. -/

structure ChatDelta where
  chunk : Hole "choices"
  before : List JsVal
  choice : Hole "delta"
  delta : Hole "content"
  after : List JsVal
  index : JsNumber
  alone : ∀ v ∈ before ++ after, v.isRecord = false
  addressed : choice.rest.get "index" = .num index
  noMessage : (choice.rest.get "message").isRecord = false

namespace ChatDelta

variable (d : ChatDelta)

def choiceOf (text : JStr) : JsVal := d.choice.fill (d.delta.fill (.str text))

def event (text : JStr) : JsVal := d.chunk.fill (.arr (d.before ++ d.choiceOf text :: d.after))

def bare : ChatDelta where
  chunk := .only _
  before := []
  choice := indexOnly _ "index" (by decide) d.index
  delta := .only _
  after := []
  index := d.index
  alone := by simp
  addressed := get_indexOnly _ _
  noMessage := rfl

def result (out : JsVal) : JsVal :=
  let out :=
    if isUndefined (out.get "model") && isString (d.chunk.rest.get "model") then out.set "model" (d.chunk.rest.get "model")
    else out
  copyDefined "error" (copyDefined "usage" out d.chunk.rest) d.chunk.rest

def merge (text : JStr) (message : JsVal) : JsVal := mergeOpenAIChatDelta message (d.delta.fill (.str text))

def ending (choice : JsVal) : JsVal :=
  let choice :=
    if isNullish (d.choice.rest.get "finish_reason") then choice
    else choice.set "finish_reason" (d.choice.rest.get "finish_reason")
  copyDefined "logprobs" choice d.choice.rest

def change (text : JStr) (choice : JsVal) : JsVal :=
  d.ending ((recordCell "message" (safe_lit (by decide))).update (d.merge text) choice)

def chatRole (delta message : JsVal) : JsVal :=
  if isString (delta.get "role") && isUndefined (message.get "role") then message.set "role" (delta.get "role")
  else message

theorem merge_eq (text : JStr) (message : JsVal) : d.merge text message =
    mergeToolCallsField (appendStringField "reasoning_content" (d.delta.rest.get "reasoning_content")
      (appendStringField "content" (.str text) (chatRole d.delta.rest message))) d.delta.rest := by
  unfold merge mergeOpenAIChatDelta chatRole mergeToolCallsField
  simp (disch := decide) only [Hole.get_fill_ne, Hole.get_fill]

theorem merge_appends : Appends "content" (safe_lit (by decide)) d.merge := by
  have tools : (fieldCell "content" (safe_lit (by decide))).Frames fun m => mergeToolCallsField m d.delta.rest :=
    tools_frames (lit_ne (by decide)) _
  have reasoning : (fieldCell "content" (safe_lit (by decide))).Frames
      fun m => appendStringField "reasoning_content" (d.delta.rest.get "reasoning_content") m :=
    append_frames (lit_ne (by decide)) _
  refine ⟨chatRole d.delta.rest, _, tools.comp reasoning, fun s message => ?_⟩
  rw [merge_eq, append_eq (safe_lit (by decide))]

theorem isRecord_merge (text : JStr) (message : JsVal) : (d.merge text message).isRecord = message.isRecord := by
  rw [merge_eq, mergeToolCallsField]
  have role : (chatRole d.delta.rest message).isRecord = message.isRecord := by
    unfold chatRole
    split
    · exact isRecord_set _ _ _
    · rfl
  split
  · rw [isRecord_append, isRecord_append, role]
  · rw [isRecord_set, isRecord_append, isRecord_append, role]

theorem rejoin (s t : JStr) (choice : JsVal) : d.bare.change t (d.change s choice) = d.change (s ++ t) choice := by
  have finish : (fieldCell "message" (safe_lit (by decide))).Frames fun choice =>
      if isNullish (d.choice.rest.get "finish_reason") then choice
      else choice.set "finish_reason" (d.choice.rest.get "finish_reason") := by
    split
    · exact .id
    · exact set_frames (lit_ne (by decide)) _
  have logprobs : (fieldCell "message" (safe_lit (by decide))).Frames fun choice =>
      copyDefined "logprobs" choice d.choice.rest := copyDefined_frames (lit_ne (by decide)) _
  have frames : (recordCell "message" (safe_lit (by decide))).Frames d.ending := (logprobs.comp finish).through _ _
  have tail : d.bare.change t =
      (recordCell "message" (safe_lit (by decide))).update (appendStringField "content" (.str t)) := by
    have merged (m : JsVal) : d.bare.merge t m = appendStringField "content" (.str t) m := by
      rw [merge_eq]
      rfl
    rw [← funext merged]
    rfl
  have record : (d.merge s (recordOr empty (choice.get "message"))).isRecord = true := by
    rw [d.isRecord_merge, isRecord_recordOr]
  rw [tail, change, Cell.update_frame frames (d.merge s) _ choice ⟨trivial, recordOr_record record⟩]
  simp only [d.merge_appends.rejoin s t]
  rfl

theorem choice_event (text : JStr) (choices : NumMap) (i : Nat) :
    chatChoiceStep choices (d.choiceOf text) i =
      (entryCell d.index (ofObject [("index", .num d.index), ("message", empty)])).update (d.change text) choices := by
  have index : numberElse ((d.choiceOf text).get "index") i = d.index := by
    rw [choiceOf, Hole.get_fill_ne _ (by decide), d.addressed]
    rfl
  unfold chatChoiceStep
  rw [index]
  unfold choiceOf
  simp (disch := decide) only [Hole.isRecord_fill, Hole.get_fill_ne, Hole.get_fill, Hole.copyDefined_fill, Bool.not_true,
    Bool.false_eq_true, if_false, if_true, d.noMessage]
  rfl

theorem step_event (text : JStr) (s : Indexed) : chatStep s (d.event text) = ⟨d.result s.out,
    (entryCell d.index (ofObject [("index", .num d.index), ("message", empty)])).update (d.change text) s.map⟩ := by
  have skips (m : NumMap) (v : JsVal) (i : Nat) (other : v.isRecord = false) : chatChoiceStep m v i = m := by
    rw [chatChoiceStep, other]
    rfl
  unfold chatStep event result
  simp (disch := decide) only [Hole.isRecord_fill, Hole.get_fill_ne, Hole.get_fill, Hole.copyDefined_fill, Bool.not_true,
    Bool.false_eq_true, if_false, items,
    foldl_alone (fun m p => chatChoiceStep m p.1 p.2) skips d.before _ d.after d.alone, d.choice_event text]

theorem step_rejoin (s t : JStr) (st : Indexed) :
    chatStep (chatStep st (d.event s)) (d.bare.event t) = chatStep st (d.event (s ++ t)) := by
  have unchanged (out : JsVal) : d.bare.result out = out := by
    unfold result
    rw [show d.bare.chunk.rest.get "model" = .undefined from rfl]
    simp only [isString, Bool.and_false, Bool.false_eq_true, if_false]
    rfl
  rw [d.step_event s, d.step_event (s ++ t), d.bare.step_event t, unchanged]
  have joined := Cell.update_update (c := entryCell d.index (ofObject [("index", .num d.index), ("message", empty)]))
    (d.change s) (d.bare.change t) st.map trivial
  simp only [d.rejoin s t] at joined
  exact congrArg (Indexed.mk _) joined

end ChatDelta

/-! OpenAI Responses. -/

/-- The place a number that is finite names. -/
def finiteOf (index : JsNumber) : Prop := ∃ q, index = .finite q

theorem numberOrDefault_finite {index : JsNumber} (finite : finiteOf index) (fallback : Nat) :
    numberOrDefault (.num index) fallback = index := by
  obtain ⟨q, rfl⟩ := finite
  rfl

structure ResponsesDelta where
  members : Hole "delta"
  outputIndex : JsNumber
  contentIndex : JsNumber
  typed : members.rest.get "type" = lit "response.output_text.delta"
  addressed : members.rest.get "output_index" = .num outputIndex
  placed : members.rest.get "content_index" = .num contentIndex

namespace ResponsesDelta

variable (d : ResponsesDelta)

def event (text : JStr) : JsVal := d.members.fill (.str text)

def bare : ResponsesDelta where
  members :=
    { front := [(JStr.lit "type", lit "response.output_text.delta"), (JStr.lit "output_index", .num d.outputIndex),
        (JStr.lit "content_index", .num d.contentIndex)]
      back := []
      distinct := show [JStr.lit "type", JStr.lit "output_index", JStr.lit "content_index", JStr.lit "delta"].Nodup by
        decide }
  outputIndex := d.outputIndex
  contentIndex := d.contentIndex
  typed := rfl
  addressed := rfl
  placed := rfl

def result (out : JsVal) : JsVal :=
  if (d.members.rest.get "response").isRecord then mergeObject out (pick (d.members.rest.get "response") responsesFields)
  else out

def typedPart (part : JsVal) : JsVal := part.set "type" (lit "output_text")

def merge (text : JStr) (part : JsVal) : JsVal := appendStringField "text" (.str text) (typedPart part)

def change (index : JsNumber) (text : JStr) (item : JsVal) : JsVal :=
  (arrayCell "content" (safe_lit (by decide))).update ((itemCell index).update (merge text)) item

theorem merge_rejoin (s t : JStr) (part : JsVal) : merge t (merge s part) = merge (s ++ t) part := by
  have appends : Appends "text" (safe_lit (by decide)) merge :=
    ⟨typedPart, fun part => part, .id, fun s part => append_eq _ _ _⟩
  have frames : (fieldCell "type" (safe_lit (by decide))).Frames (appendStringField "text" (.str s)) :=
    append_frames (lit_ne (by decide)) _
  have again : typedPart (merge s part) = merge s part := (frames (lit "output_text") (lit "output_text") part).symm
  calc merge t (merge s part) = appendStringField "text" (.str t) (merge s part) := by rw [merge, again]
    _ = merge (s ++ t) part := appends.rejoin s t part

theorem merge_copied (s : JStr) {part : JsVal} (copied : Copied part) : Copied (merge s part) := by
  rw [merge, append_eq (safe_lit (by decide))]
  exact (copied.set (safe_lit (by decide)) _).set (safe_lit (by decide)) _

theorem rejoin (index : JsNumber) (s t : JStr) (item : JsVal) :
    change index t (change index s item) = change index (s ++ t) item := by
  rw [change, change, Cell.update_update (c := arrayCell "content" _) _ _ item ⟨trivial, rfl⟩, change]
  congr 1
  funext content
  rw [Cell.update_update (c := itemCell index) _ _ content (merge_copied s (copied_copiedRecord _))]
  simp only [merge_rejoin]

theorem step_event (text : JStr) (finite : finiteOf d.outputIndex) (placed : finiteOf d.contentIndex) (s : Indexed) :
    responsesStep s (d.event text) =
      ⟨d.result s.out, (entryCell d.outputIndex empty).update (change d.contentIndex text) s.map⟩ := by
  have type : eventType (d.event text) = JStr.lit "response.output_text.delta" := by
    rw [eventType, event, Hole.get_fill_ne _ (by decide), d.typed]
    rfl
  have kind : (textKinds.find? fun kind => isDelta kind (JStr.lit "response.output_text.delta") ||
      isDone kind (JStr.lit "response.output_text.delta")) = some ⟨"response.output_text", "output_text", "text"⟩ := by
    rfl
  have done : isDone ⟨"response.output_text", "output_text", "text"⟩ (JStr.lit "response.output_text.delta") = false := by
    decide
  have record : (d.event text).isRecord = true := rfl
  simp only [responsesStep, record, type, Bool.not_true, Bool.false_eq_true, if_false]
  rw [responsesEvent, if_neg (by decide), if_neg (by decide), kind]
  unfold event result
  simp (disch := decide) only [Hole.get_fill_ne, Hole.get_fill, Bool.false_eq_true, if_false, done, textEventStep, d.addressed, d.placed, ensureIndexedObject, mergeOpenAIResponseContentPart,
    numberOrDefault_finite finite, numberOrDefault_finite placed]
  rfl

theorem step_rejoin (s t : JStr) (finite : finiteOf d.outputIndex) (placed : finiteOf d.contentIndex) (st : Indexed) :
    responsesStep (responsesStep st (d.event s)) (d.bare.event t) = responsesStep st (d.event (s ++ t)) := by
  have unchanged (out : JsVal) : d.bare.result out = out := rfl
  rw [d.step_event s finite placed, d.step_event (s ++ t) finite placed, d.bare.step_event t finite placed, unchanged]
  have joined := Cell.update_update (c := entryCell d.outputIndex empty) (change d.contentIndex s)
    (change d.contentIndex t) st.map trivial
  simp only [rejoin] at joined
  exact congrArg (Indexed.mk _) joined

end ResponsesDelta

/-! Anthropic Messages. -/

def sourceName : Enclave.AnthropicText → String
  | .text => "text"
  | .thinking => "thinking"
  | .partialJson => "partial_json"

def targetName : Enclave.AnthropicText → String
  | .text => "text"
  | .thinking => "thinking"
  | .partialJson => "input_json"

theorem targetName_safe (kind : Enclave.AnthropicText) : JStr.lit (targetName kind) ≠ protoKey := by
  cases kind <;> exact safe_lit (by decide)

structure AnthropicDelta where
  members : Hole "delta"
  kind : Enclave.AnthropicText
  delta : Hole (sourceName kind)
  index : JsNumber
  typed : members.rest.get "type" = lit "content_block_delta"
  addressed : members.rest.get "index" = .num index

namespace AnthropicDelta

variable (d : AnthropicDelta)

def event (text : JStr) : JsVal := d.members.fill (d.delta.fill (.str text))

def bare : AnthropicDelta where
  members :=
    { front := [(JStr.lit "type", lit "content_block_delta"), (JStr.lit "index", .num d.index)]
      back := []
      distinct := show [JStr.lit "type", JStr.lit "index", JStr.lit "delta"].Nodup by decide }
  kind := d.kind
  delta := .only _
  index := d.index
  typed := rfl
  addressed := rfl

def merge (text : JStr) (block : JsVal) : JsVal := mergeAnthropicContentDelta block (d.delta.fill (.str text))

/-- The two kinds of steps of the merge: the type of a fresh block, and each text. -/
def blockType (type block : JsVal) : JsVal :=
  match type with
  | .str type => if isUndefined (block.get "type") then block.set "type" (.str (withoutDelta type)) else block
  | _ => block

def fill (target source : String) (delta block : JsVal) : JsVal := appendStringField target (delta.get source) block

theorem merged (block delta : JsVal) : mergeAnthropicContentDelta block delta = fill "input_json" "partial_json" delta
    (fill "signature" "signature" delta (fill "thinking" "thinking" delta (fill "text" "text" delta
      (blockType (delta.get "type") block)))) := rfl

theorem fill_other {name : String} (h : Hole name) (target : String) {source : String} (apart : source ≠ name)
    (v block : JsVal) : fill target source (h.fill v) block = fill target source h.rest block := by
  rw [fill, h.get_fill_ne apart, fill]

theorem fill_self {name : String} (h : Hole name) {target : String} (safe : JStr.lit target ≠ protoKey) (s : JStr)
    (block : JsVal) : fill target name (h.fill (.str s)) block = (textCell target safe).update (· ++ s) block := by
  rw [fill, h.get_fill, append_eq safe]

theorem fill_frames {key : String} (safe : JStr.lit key ≠ protoKey) {target : String} (apart : target ≠ key)
    (source : String) (delta : JsVal) : (fieldCell (JStr.lit key) safe).Frames (fill target source delta) :=
  append_frames (lit_ne apart) _

/-! What the delta does before and after the append depends on where its text stands. -/

theorem text_appends (delta : Hole "text") : Appends "text" (safe_lit (by decide)) fun s block =>
    mergeAnthropicContentDelta block (delta.fill (.str s)) := by
  have thinking : (fieldCell "text" (safe_lit (by decide))).Frames (fill "thinking" "thinking" delta.rest) :=
    fill_frames _ (by decide) _ _
  have signature : (fieldCell "text" (safe_lit (by decide))).Frames (fill "signature" "signature" delta.rest) :=
    fill_frames _ (by decide) _ _
  have json : (fieldCell "text" (safe_lit (by decide))).Frames (fill "input_json" "partial_json" delta.rest) :=
    fill_frames _ (by decide) _ _
  refine ⟨blockType (delta.rest.get "type"), _, json.comp (signature.comp thinking), fun s block => ?_⟩
  rw [merged, delta.get_fill_ne (by decide), fill_other delta "input_json" (by decide),
    fill_other delta "signature" (by decide), fill_other delta "thinking" (by decide),
    fill_self delta (safe_lit (by decide))]

theorem thinking_appends (delta : Hole "thinking") : Appends "thinking" (safe_lit (by decide)) fun s block =>
    mergeAnthropicContentDelta block (delta.fill (.str s)) := by
  have signature : (fieldCell "thinking" (safe_lit (by decide))).Frames (fill "signature" "signature" delta.rest) :=
    fill_frames _ (by decide) _ _
  have json : (fieldCell "thinking" (safe_lit (by decide))).Frames (fill "input_json" "partial_json" delta.rest) :=
    fill_frames _ (by decide) _ _
  refine ⟨fun block => fill "text" "text" delta.rest (blockType (delta.rest.get "type") block), _,
    json.comp signature, fun s block => ?_⟩
  rw [merged, delta.get_fill_ne (by decide), fill_other delta "input_json" (by decide),
    fill_other delta "signature" (by decide), fill_other delta "text" (by decide),
    fill_self delta (safe_lit (by decide))]

theorem json_appends (delta : Hole "partial_json") : Appends "input_json" (safe_lit (by decide)) fun s block =>
    mergeAnthropicContentDelta block (delta.fill (.str s)) := by
  refine ⟨fun block => fill "signature" "signature" delta.rest (fill "thinking" "thinking" delta.rest
    (fill "text" "text" delta.rest (blockType (delta.rest.get "type") block))), fun block => block, .id,
    fun s block => ?_⟩
  rw [merged, delta.get_fill_ne (by decide), fill_other delta "signature" (by decide),
    fill_other delta "thinking" (by decide), fill_other delta "text" (by decide),
    fill_self delta (safe_lit (by decide))]

theorem merge_appends : Appends (JStr.lit (targetName d.kind)) (targetName_safe d.kind) d.merge := by
  obtain ⟨members, kind, delta, index, typed, addressed⟩ := d
  cases kind with
  | text => exact text_appends delta
  | thinking => exact thinking_appends delta
  | partialJson => exact json_appends delta

theorem bare_merge (t : JStr) (block : JsVal) :
    d.bare.merge t block = appendStringField (JStr.lit (targetName d.kind)) (.str t) block := by
  unfold merge bare
  cases d.kind <;> rfl

theorem step_event (text : JStr) (s : Indexed) :
    anthropicStep s (d.event text) = { s with map := (entryCell d.index empty).update (d.merge text) s.map } := by
  have type : eventType (d.event text) = JStr.lit "content_block_delta" := by
    rw [eventType, event, Hole.get_fill_ne _ (by decide), d.typed]
    rfl
  have delta : (d.event text).get "delta" = d.delta.fill (.str text) := d.members.get_fill _
  have index : numberElse ((d.event text).get "index") s.map.length = d.index := by
    rw [event, Hole.get_fill_ne _ (by decide), d.addressed]
    rfl
  have record : (d.event text).isRecord = true := rfl
  simp only [anthropicStep, record, type, delta, index, Bool.not_true, Bool.false_eq_true, if_false]
  rw [if_neg fun both => absurd both.1 (by decide), if_neg fun both => absurd both.1 (by decide),
    if_pos ⟨trivial, rfl⟩]
  rfl

theorem step_rejoin (s t : JStr) (st : Indexed) :
    anthropicStep (anthropicStep st (d.event s)) (d.bare.event t) = anthropicStep st (d.event (s ++ t)) := by
  rw [d.step_event s, d.step_event (s ++ t), d.bare.step_event t]
  have joined := Cell.update_update (c := entryCell d.index empty) (d.merge s) (d.bare.merge t) st.map trivial
  simp only [d.bare_merge, d.merge_appends.rejoin s t] at joined
  exact congrArg (Indexed.mk st.out) joined

end AnthropicDelta

end TeeProof.Verifier
