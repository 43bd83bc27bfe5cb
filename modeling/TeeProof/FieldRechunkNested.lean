import TeeProof.FieldRechunkEvents

/-! The verifier's aggregators with a second object beside the result, and the cut of a text
delta in any stream of events, on both sides. -/
namespace TeeProof.Verifier

open JsVal

theorem entries_indexOnly {name field : String} (word : indexOfKey (JStr.lit field) = none) (apart : field ≠ name)
    (index : JsNumber) : (indexOnly name field apart index).rest.entries = [(JStr.lit field, .num index)] := by
  simp [indexOnly, Hole.rest, JsVal.entries, enumerate, word]

/-! DashScope. -/

structure DashscopeDelta where
  chunk : Hole "output"
  output : Hole "choices"
  before : List JsVal
  choice : Hole "delta"
  delta : Hole "content"
  after : List JsVal
  index : JsNumber
  alone : ∀ v ∈ before ++ after, v.isRecord = false
  addressed : choice.rest.get "index" = .num index
  noMessage : (choice.rest.get "message").isRecord = false

namespace DashscopeDelta

variable (d : DashscopeDelta)

def choiceOf (text : JStr) : JsVal := d.choice.fill (d.delta.fill (.str text))

def event (text : JStr) : JsVal := d.chunk.fill (d.output.fill (.arr (d.before ++ d.choiceOf text :: d.after)))

theorem alone_nil : ∀ v ∈ ([] ++ [] : List JsVal), v.isRecord = false := List.forall_mem_nil _

theorem index_ne_delta : "index" ≠ "delta" := by decide

theorem message_ne_proto : "message" ≠ "__proto__" := by decide

def bare : DashscopeDelta where
  chunk := .only _
  output := .only _
  before := []
  choice := indexOnly _ "index" index_ne_delta d.index
  delta := .only _
  after := []
  index := d.index
  alone := alone_nil
  addressed := get_indexOnly _ _
  noMessage := rfl

def result (out : JsVal) : JsVal :=
  ["usage", "request_id", "code", "message"].foldl (fun out field => copyDefined (JStr.lit field) out d.chunk.rest) out

def outputOf (output : JsVal) : JsVal :=
  d.output.rest.entries.foldl (fun o p => if p.1 ≠ JStr.lit "choices" then o.set p.1 p.2 else o) output

def messageExcept : List JStr := [JStr.lit "content", JStr.lit "reasoning_content", JStr.lit "tool_calls"]

def choiceExcept : List JStr := [JStr.lit "index", JStr.lit "message", JStr.lit "delta"]

def merge (text : JStr) (message : JsVal) : JsVal := mergeDashscopeMessage message (d.delta.fill (.str text))

def ending (choice : JsVal) : JsVal := copyEntries choiceExcept choice d.choice.rest

def change (text : JStr) (choice : JsVal) : JsVal :=
  d.ending ((recordCell "message" (safe_lit message_ne_proto)).update (d.merge text) choice)

theorem merge_eq (text : JStr) (message : JsVal) : d.merge text message =
    copyEntries messageExcept (mergeToolCallsField (appendStringField "reasoning_content"
      (d.delta.rest.get "reasoning_content") (appendStringField "content" (.str text) message)) d.delta.rest)
      d.delta.rest := by
  have copied (target : JsVal) : copyEntries messageExcept target (d.delta.fill (.str text)) =
      copyEntries messageExcept target d.delta.rest :=
    d.delta.copyEntries_fill (by decide) _ List.mem_cons_self target _
  unfold merge mergeDashscopeMessage mergeToolCallsField
  simp (disch := decide) only [Hole.get_fill_ne, Hole.get_fill]
  exact copied _

theorem merge_appends : Appends "content" (safe_lit (by decide)) d.merge := by
  have others : (fieldCell "content" (safe_lit (by decide))).Frames fun m => copyEntries messageExcept m d.delta.rest :=
    copyEntries_frames _ List.mem_cons_self _
  have tools : (fieldCell "content" (safe_lit (by decide))).Frames fun m => mergeToolCallsField m d.delta.rest :=
    tools_frames (lit_ne (by decide)) _
  have reasoning : (fieldCell "content" (safe_lit (by decide))).Frames
      fun m => appendStringField "reasoning_content" (d.delta.rest.get "reasoning_content") m :=
    append_frames (lit_ne (by decide)) _
  refine ⟨fun message => message, _, others.comp (tools.comp reasoning), fun s message => ?_⟩
  rw [merge_eq, append_eq (safe_lit (by decide))]

theorem isRecord_merge (text : JStr) (message : JsVal) : (d.merge text message).isRecord = message.isRecord := by
  rw [merge_eq, copyEntries_eq, isRecord_foldl, mergeToolCallsField]
  split
  · rw [isRecord_append, isRecord_append]
  · rw [isRecord_set, isRecord_append, isRecord_append]

theorem rejoin (s t : JStr) (choice : JsVal) : d.bare.change t (d.change s choice) = d.change (s ++ t) choice := by
  have raw : (fieldCell "message" (safe_lit (by decide))).Frames d.ending :=
    copyEntries_frames _ (by simp [choiceExcept]) _
  have frames : (recordCell "message" (safe_lit (by decide))).Frames d.ending := raw.through _ _
  have tail : d.bare.change t =
      (recordCell "message" (safe_lit (by decide))).update (appendStringField "content" (.str t)) := by
    have merged (m : JsVal) : d.bare.merge t m = appendStringField "content" (.str t) m := by
      rw [merge_eq]
      rfl
    have ended : d.bare.ending = fun choice => choice := by
      funext choice
      rw [ending, copyEntries, bare, entries_indexOnly (by decide) (by decide)]
      rfl
    rw [← funext merged]
    unfold change
    rw [ended]
  have record : (d.merge s (recordOr empty (choice.get "message"))).isRecord = true := by
    rw [d.isRecord_merge, isRecord_recordOr]
  rw [tail, change, Cell.update_frame frames (d.merge s) _ choice ⟨trivial, recordOr_record record⟩]
  simp only [d.merge_appends.rejoin s t]
  rfl

theorem choice_event (text : JStr) (finite : finiteOf d.index) (choices : NumMap) (i : Nat) :
    dashscopeChoiceStep choices (d.choiceOf text) i =
      (entryCell d.index (ofObject [("index", .num d.index), ("message", empty)])).update (d.change text) choices := by
  have index : numberOrDefault ((d.choiceOf text).get "index") i = d.index := by
    rw [choiceOf, Hole.get_fill_ne _ (by decide), d.addressed, numberOrDefault_finite finite]
  have copied (target : JsVal) : copyEntries choiceExcept target (d.choiceOf text) =
      copyEntries choiceExcept target d.choice.rest :=
    d.choice.copyEntries_fill (by decide) _ (by simp [choiceExcept]) target _
  have message : ((d.choiceOf text).get "message").isRecord = false := by
    rw [choiceOf, Hole.get_fill_ne _ (by decide)]
    exact d.noMessage
  have delta : (d.choiceOf text).get "delta" = d.delta.fill (.str text) := d.choice.get_fill _
  have record : (d.choiceOf text).isRecord = true := rfl
  unfold dashscopeChoiceStep
  simp only [index, message, delta, record, Hole.isRecord_fill, Bool.not_true, Bool.false_eq_true, if_false, if_true]
  exact congrArg (fun choice => choices.set d.index choice) (copied _)

theorem step_event (text : JStr) (finite : finiteOf d.index) (s : Nested) :
    dashscopeStep s (d.event text) = ⟨d.result s.out, d.outputOf s.inner,
      (entryCell d.index (ofObject [("index", .num d.index), ("message", empty)])).update (d.change text) s.map,
      s.text⟩ := by
  have skips (m : NumMap) (v : JsVal) (i : Nat) (other : v.isRecord = false) : dashscopeChoiceStep m v i = m := by
    rw [dashscopeChoiceStep, other]
    rfl
  have copied := d.output.foldl_fill (by decide)
    (fun o p => if p.1 ≠ JStr.lit "choices" then o.set p.1 p.2 else o) (fun _ _ => if_neg (by simp))
    (.arr (d.before ++ d.choiceOf text :: d.after)) s.inner
  unfold dashscopeStep event result outputOf
  simp (disch := decide) only [Hole.isRecord_fill, Hole.get_fill, Hole.copyDefined_fill, Bool.not_true,
    Bool.false_eq_true, if_false, items, List.foldl_cons, List.foldl_nil, copied,
    foldl_alone (fun m p => dashscopeChoiceStep m p.1 p.2) skips d.before _ d.after d.alone, d.choice_event text finite]

theorem step_rejoin (s t : JStr) (finite : finiteOf d.index) (st : Nested) :
    dashscopeStep (dashscopeStep st (d.event s)) (d.bare.event t) = dashscopeStep st (d.event (s ++ t)) := by
  have unchanged (out : JsVal) : d.bare.result out = out := rfl
  have kept (output : JsVal) : d.bare.outputOf output = output := rfl
  rw [d.step_event s finite, d.step_event (s ++ t) finite, d.bare.step_event t finite, unchanged, kept]
  have joined := Cell.update_update (c := entryCell d.index (ofObject [("index", .num d.index), ("message", empty)]))
    (d.change s) (d.bare.change t) st.map trivial
  simp only [d.rejoin s t] at joined
  exact congrArg (fun map => Nested.mk _ _ map st.text) joined

end DashscopeDelta

/-! Bedrock. -/

/-- A loop over distinct members appends the text of one of them and leaves it alone otherwise. -/
theorem semantic_appends (fields : List JStr) {name : String} (safe : JStr.lit name ≠ protoKey)
    (word : indexOfKey (JStr.lit name) = none) (listed : JStr.lit name ∈ fields) (h : Hole name) :
    Appends (JStr.lit name) safe fun s m =>
      (h.fill (.str s)).entries.foldl (fun out p => mergeSemanticField fields out p.1 p.2) m := by
  refine ⟨fun m => h.ahead.foldl (fun out p => mergeSemanticField fields out p.1 p.2) m,
    fun m => h.behind.foldl (fun out p => mergeSemanticField fields out p.1 p.2) m, .foldl fun p member => ?_,
    fun s m => ?_⟩
  · rw [mergeSemanticFieldJs_eq]
    exact reviseJs_frames (h.behind_ne member) _ _
  · have appended (m : JsVal) : mergeSemanticField fields m (JStr.lit name) (.str s) =
        (textCell (JStr.lit name) safe).update (· ++ s) m := by
      rw [mergeSemanticField, if_pos (by simpa using listed), append_eq safe]
    rw [h.entries_fill word, List.foldl_append, List.foldl_cons, appended]

/-- The text a delta of a block carries, with the other members beside it. -/
inductive BedrockText where
  | text (delta : Hole "text")
  | toolInput (delta : Hole "toolUse") (toolUse : Hole "input")

structure BedrockDelta where
  members : Hole "contentBlockDelta"
  blockDelta : Hole "delta"
  kind : BedrockText
  index : JsNumber
  addressed : blockDelta.rest.get "contentBlockIndex" = .num index

namespace BedrockDelta

variable (d : BedrockDelta)

def deltaOf (text : JStr) : JsVal :=
  match d.kind with
  | .text delta => delta.fill (.str text)
  | .toolInput delta toolUse => delta.fill (toolUse.fill (.str text))

def event (text : JStr) : JsVal := d.members.fill (d.blockDelta.fill (d.deltaOf text))

def bare : BedrockDelta where
  members := .only _
  blockDelta := indexOnly _ "contentBlockIndex" (by decide) d.index
  kind :=
    match d.kind with
    | .text _ => .text (.only _)
    | .toolInput _ _ => .toolInput (.only _) (.only _)
  index := d.index
  addressed := get_indexOnly _ _

def merge (text : JStr) (block : JsVal) : JsVal := mergeBedrockContentDelta block (d.deltaOf text)

/-- The type that a text gives a block without one. -/
def textType (block : JsVal) : JsVal :=
  if isUndefined (block.get "type") then block.set "type" (lit "text") else block

/-- A block whose type is settled. -/
def Typed (block : JsVal) : Prop := block.isRecord = false ∨ isUndefined (block.get "type") = false

theorem Typed.textType {block : JsVal} (typed : Typed block) : textType block = block := by
  unfold BedrockDelta.textType
  rcases typed with other | there
  · rw [set_of_not_record other]
    exact ite_self _
  · rw [there]
    rfl

theorem typed_textType (block : JsVal) : Typed (textType block) := by
  unfold textType
  split
  next missing =>
    cases record : block.isRecord with
    | false => exact .inl ((isRecord_set _ _ _).trans record)
    | true =>
      refine .inr ?_
      rw [get_set_self (safe_lit (by decide)) _ record]
      rfl
  next there => exact .inr (by simpa using there)

theorem get_set_ne {key other : JStr} (safe : key ≠ protoKey) (apart : other ≠ key) (v m : JsVal) :
    (m.set key v).get other = m.get other := by
  cases m with
  | obj proto props => rw [set_own proto props safe, JsVal.get, JsVal.get, own_written, if_neg apart]
  | _ => rfl

/-- A write that is no write of the prototype keeps the type, or settles it. -/
theorem Typed.set {block : JsVal} (typed : Typed block) {key : JStr} (safe : key ≠ protoKey) {value : JsVal}
    (defined : isUndefined value = false) : Typed (block.set key value) := by
  cases record : block.isRecord with
  | false => exact .inl ((isRecord_set _ _ _).trans record)
  | true =>
    refine .inr ?_
    by_cases same : JStr.lit "type" = key
    · subst same
      rw [get_set_self safe _ record]
      exact defined
    · rw [get_set_ne safe same]
      rcases typed with other | there
      · rw [record] at other
        cases other
      · exact there

theorem isUndefined_of_record {v : JsVal} (record : v.isRecord = true) : isUndefined v = false := by
  cases v with
  | obj proto props => rfl
  | _ => cases record

theorem isRecord_nestedObject (existing incoming : JsVal) (fields : List JStr) :
    (mergeNestedSemanticObject existing incoming fields).isRecord = true := by
  rw [mergeNestedSemanticObject, mergeSemanticFieldJs_eq, isRecord_foldl]
  obtain ⟨props, copied⟩ := copied_copiedRecord existing
  exact congrArg JsVal.isRecord copied

theorem Typed.nested {block : JsVal} (typed : Typed block) {field : String} (safe : field ≠ "__proto__")
    (fields : List JStr) (delta : JsVal) : Typed (mergeBedrockNested field fields block delta) := by
  unfold mergeBedrockNested
  split
  · exact typed.set (safe_lit safe) (isUndefined_of_record (isRecord_nestedObject _ _ _))
  · exact typed

theorem Typed.copyEntries {block : JsVal} (typed : Typed block) (except : List JStr) {source : JsVal}
    (safe : ∀ p ∈ source.entries, p.1 ≠ protoKey) : Typed (copyEntries except block source) := by
  refine List.foldlRecOn (motive := Typed) source.entries _ typed fun block kept p member => ?_
  split
  next copied =>
    refine kept.set (safe p member) ?_
    have present : isNullish p.2 = false := by simpa using (Bool.and_eq_true_iff.mp copied).2
    cases value : p.2 with
    | undefined =>
      rw [value] at present
      cases present
    | _ => rfl
  next => exact kept

def deltaExcept : List JStr :=
  [JStr.lit "text", JStr.lit "reasoningContent", JStr.lit "toolUse", JStr.lit "citationsContent"]

/-- What follows the text: the nested objects and the other members. -/
def rest (delta block : JsVal) : JsVal :=
  let block := mergeBedrockNested "reasoningContent" [JStr.lit "text", JStr.lit "signature"] block delta
  let block := mergeBedrockNested "toolUse" [JStr.lit "input"] block delta
  let block := mergeBedrockNested "citationsContent" [JStr.lit "text"] block delta
  copyEntries deltaExcept block delta

theorem merge_text (delta : Hole "text") (s : JStr) (block : JsVal) :
    mergeBedrockContentDelta block (delta.fill (.str s)) =
      rest delta.rest (textType (appendStringField "text" (.str s) block)) := by
  have copied (target : JsVal) : copyEntries deltaExcept target (delta.fill (.str s)) =
      copyEntries deltaExcept target delta.rest :=
    delta.copyEntries_fill (by decide) _ List.mem_cons_self target _
  unfold rest textType mergeBedrockContentDelta mergeBedrockNested
  simp (disch := decide) only [Hole.get_fill_ne, Hole.get_fill]
  exact copied _

theorem text_appends (delta : Hole "text") : Appends "text" (safe_lit (by decide)) fun s block =>
    mergeBedrockContentDelta block (delta.fill (.str s)) := by
  have typed : (fieldCell "text" (safe_lit (by decide))).Frames textType := by
    have same : textType = fun block => reviseJs (fun _ old value => if isUndefined old then some value else none) block
        "type" (lit "text") := by
      funext block
      unfold textType reviseJs
      dsimp only
      cases isUndefined (block.get "type") <;> rfl
    rw [same]
    exact reviseJs_frames (lit_ne (by decide)) _ _
  have nested (field : String) (fields : List JStr) (apart : field ≠ "text") :
      (fieldCell "text" (safe_lit (by decide))).Frames fun m => mergeBedrockNested field fields m delta.rest :=
    nested_frames (lit_ne apart) _ _
  have others : (fieldCell "text" (safe_lit (by decide))).Frames (rest delta.rest) := by
    have citations := nested "citationsContent" [JStr.lit "text"] (by decide)
    have toolUse := nested "toolUse" [JStr.lit "input"] (by decide)
    have reasoning := nested "reasoningContent" [JStr.lit "text", JStr.lit "signature"] (by decide)
    exact (copyEntries_frames _ List.mem_cons_self _).comp (citations.comp (toolUse.comp reasoning))
  refine ⟨fun block => block, _, others.comp typed, fun s block => ?_⟩
  rw [merge_text, append_eq (safe_lit (by decide))]

/-- The members that are assigned are no prototypes. -/
def NoProto {name : String} (h : Hole name) : Prop := ∀ p ∈ h.front ++ h.back, p.1 ≠ protoKey

theorem NoProto.entries {name : String} {h : Hole name} (safe : NoProto h) : ∀ p ∈ h.rest.entries, p.1 ≠ protoKey :=
  fun p member => safe p ((enumerate_perm _).mem_iff.mp member)

theorem text_rejoin (delta : Hole "text") (safe : NoProto delta) (s t : JStr) (block : JsVal) :
    mergeBedrockContentDelta (mergeBedrockContentDelta block (delta.fill (.str s))) ((Hole.only "text").fill (.str t)) =
      mergeBedrockContentDelta block (delta.fill (.str (s ++ t))) := by
  have typed (x : JsVal) : Typed (rest delta.rest (textType x)) :=
    (((typed_textType x).nested (by decide) _ _).nested (by decide) _ _ |>.nested (by decide) _ _).copyEntries _
      safe.entries
  have bare (x : JsVal) : rest (Hole.only "text").rest x = x := rfl
  rw [merge_text (.only _), bare, (text_appends delta).rejoin s t, merge_text, (typed _).textType]

/-- The merge of a tool use, and what the delta does before and after it. -/
def mergeToolUse (toolUse : Hole "input") (s : JStr) (existing : JsVal) : JsVal :=
  (toolUse.fill (.str s)).entries.foldl (fun out p => mergeSemanticField [JStr.lit "input"] out p.1 p.2) existing

def beforeTool (delta block : JsVal) : JsVal :=
  let block := appendStringField "text" (delta.get "text") block
  let block :=
    if !isUndefined (delta.get "text") && isUndefined (block.get "type") then block.set "type" (lit "text")
    else block
  mergeBedrockNested "reasoningContent" [JStr.lit "text", JStr.lit "signature"] block delta

def afterTool (delta block : JsVal) : JsVal :=
  copyEntries deltaExcept (mergeBedrockNested "citationsContent" [JStr.lit "text"] block delta) delta

theorem merge_tool (delta : Hole "toolUse") (toolUse : Hole "input") (s : JStr) (block : JsVal) :
    mergeBedrockContentDelta block (delta.fill (toolUse.fill (.str s))) =
      afterTool delta.rest ((spreadCell "toolUse" (safe_lit (by decide))).update (mergeToolUse toolUse s)
        (beforeTool delta.rest block)) := by
  have copied (target : JsVal) : copyEntries deltaExcept target (delta.fill (toolUse.fill (.str s))) =
      copyEntries deltaExcept target delta.rest :=
    delta.copyEntries_fill (by decide) _ (by simp [deltaExcept]) target _
  have nested (block : JsVal) : mergeBedrockNested "toolUse" [JStr.lit "input"] block
      (delta.fill (toolUse.fill (.str s))) =
        (spreadCell "toolUse" (safe_lit (by decide))).update (mergeToolUse toolUse s) block := by
    rw [mergeBedrockNested, delta.get_fill, Hole.isRecord_fill, if_pos rfl]
    rfl
  unfold mergeBedrockContentDelta
  simp only [nested]
  unfold afterTool beforeTool mergeBedrockNested
  simp (disch := decide) only [Hole.get_fill_ne]
  exact copied _

theorem mergeToolUse_copied (toolUse : Hole "input") (safe : NoProto toolUse) (s : JStr) {existing : JsVal}
    (copied : Copied existing) : Copied (mergeToolUse toolUse s existing) := by
  rw [mergeToolUse, mergeSemanticFieldJs_eq]
  refine List.foldlRecOn (motive := Copied) _ _ copied fun out kept p member => ?_
  have apart : p.1 ≠ protoKey := by
    rcases List.mem_append.mp ((toolUse.entries_perm _).mem_iff.mp member) with early | late
    · exact safe p (List.mem_append_left _ early)
    · rcases List.mem_cons.mp late with rfl | later
      · exact safe_lit (by decide)
      · exact safe p (List.mem_append_right _ later)
  unfold reviseJs
  split
  · exact kept.set apart _
  · exact kept

theorem tool_rejoin (delta : Hole "toolUse") (toolUse : Hole "input") (safe : NoProto toolUse) (s t : JStr)
    (block : JsVal) :
    mergeBedrockContentDelta (mergeBedrockContentDelta block (delta.fill (toolUse.fill (.str s))))
        ((Hole.only "toolUse").fill ((Hole.only "input").fill (.str t))) =
      mergeBedrockContentDelta block (delta.fill (toolUse.fill (.str (s ++ t)))) := by
  have raw : (fieldCell "toolUse" (safe_lit (by decide))).Frames (afterTool delta.rest) :=
    (copyEntries_frames deltaExcept (by simp [deltaExcept]) _).comp (nested_frames (lit_ne (by decide)) _ delta.rest)
  have frames : (spreadCell "toolUse" (safe_lit (by decide))).Frames (afterTool delta.rest) := raw.through _ _
  have input : Appends "input" (safe_lit (by decide)) (mergeToolUse toolUse) :=
    semantic_appends _ _ (by decide) List.mem_cons_self toolUse
  have only (m : JsVal) : mergeToolUse (.only _) t m = appendStringField "input" (.str t) m := by
    rw [mergeToolUse, Hole.entries_fill _ (by decide)]
    rfl
  have bare (x : JsVal) : afterTool (Hole.only "toolUse").rest
      ((spreadCell "toolUse" (safe_lit (by decide))).update (mergeToolUse (.only _) t)
        (beforeTool (Hole.only "toolUse").rest x)) =
      (spreadCell "toolUse" (safe_lit (by decide))).update (appendStringField "input" (.str t)) x := by
    rw [funext only]
    rfl
  have kept := (mergeToolUse_copied toolUse safe s
    (copied_copiedRecord ((beforeTool delta.rest block).get "toolUse"))).copiedRecord
  rw [merge_tool (.only _) (.only _), bare, merge_tool, merge_tool,
    Cell.update_frame frames (mergeToolUse toolUse s) _ _ ⟨trivial, kept⟩]
  simp only [input.rejoin s t]

/-- No member that the merge assigns is a prototype. -/
def Assigns : Prop :=
  match d.kind with
  | .text delta => NoProto delta
  | .toolInput _ toolUse => NoProto toolUse

theorem rejoin (assigns : d.Assigns) (s t : JStr) (block : JsVal) :
    d.bare.merge t (d.merge s block) = d.merge (s ++ t) block := by
  unfold Assigns at assigns
  unfold merge deltaOf bare
  cases kind : d.kind with
  | text delta =>
    rw [kind] at assigns
    exact text_rejoin delta assigns s t block
  | toolInput delta toolUse =>
    rw [kind] at assigns
    exact tool_rejoin delta toolUse assigns s t block

def result (out : JsVal) : JsVal :=
  let stop := d.members.rest.get "messageStop"
  let out := if stop.isRecord then
      copyDefined "additionalModelResponseFields" (copyDefined "stopReason" out stop) stop
    else out
  let metadata := d.members.rest.get "metadata"
  let out := if metadata.isRecord then copyDefined "usage" out metadata else out
  let out := if (d.members.rest.get "output").isRecord then mergeObject out (pick d.members.rest bedrockFields) else out
  copyDefined "error" out d.members.rest

def messageOf (message : JsVal) : JsVal :=
  if (d.members.rest.get "messageStart").isRecord then copyDefined "role" message (d.members.rest.get "messageStart")
  else message

def started (blocks : NumMap) : NumMap := bedrockBlock blocks (d.members.rest.get "contentBlockStart") "start" mergeObject

theorem step_event (text : JStr) (finite : finiteOf d.index) (s : Nested) : bedrockStep s (d.event text) =
    ⟨d.result s.out, d.messageOf s.inner, (entryCell d.index empty).update (d.merge text) (d.started s.map), s.text⟩ := by
  have delta (map : NumMap) : bedrockBlock map (d.blockDelta.fill (d.deltaOf text)) "delta" mergeBedrockContentDelta =
      (entryCell d.index empty).update (d.merge text) map := by
    have record : (d.deltaOf text).isRecord = true := by
      unfold deltaOf
      cases d.kind <;> rfl
    rw [bedrockBlock]
    simp (disch := decide) only [Hole.isRecord_fill, if_true, Hole.get_fill_ne, Hole.get_fill, d.addressed,
      numberOrDefault_finite finite, record]
    rfl
  unfold bedrockStep event result messageOf started
  simp (disch := decide) only [Hole.isRecord_fill, Hole.get_fill_ne, Hole.get_fill, Hole.copyDefined_fill, Hole.pick_fill,
    Bool.not_true, Bool.false_eq_true, if_false, delta]

theorem step_rejoin (s t : JStr) (finite : finiteOf d.index) (assigns : d.Assigns) (st : Nested) :
    bedrockStep (bedrockStep st (d.event s)) (d.bare.event t) = bedrockStep st (d.event (s ++ t)) := by
  have unchanged (out : JsVal) : d.bare.result out = out := rfl
  have kept (message : JsVal) : d.bare.messageOf message = message := rfl
  have none (blocks : NumMap) : d.bare.started blocks = blocks := rfl
  rw [d.step_event s finite, d.step_event (s ++ t) finite, d.bare.step_event t finite, unchanged, kept, none]
  have joined := Cell.update_update (c := entryCell d.index empty) (d.merge s) (d.bare.merge t) (d.started st.map) trivial
  simp only [d.rejoin assigns s t] at joined
  exact congrArg (fun map => Nested.mk _ _ map st.text) joined

end BedrockDelta

/-! Cohere. -/

structure CohereDelta where
  members : Hole "delta"
  delta : Hole "message"
  message : Hole "content"
  content : Hole "text"
  index : JsNumber
  addressed : content.rest.get "index" = .num index

namespace CohereDelta

variable (d : CohereDelta)

def contentOf (text : JStr) : JsVal := d.content.fill (.str text)

def deltaOf (text : JStr) : JsVal := d.delta.fill (d.message.fill (d.contentOf text))

def event (text : JStr) : JsVal := d.members.fill (d.deltaOf text)

def typeNames : List JStr := [JStr.lit "type", JStr.lit "event_type", JStr.lit "eventType"]

/-- The members that name the event's type. -/
def typeMembers : Hole "delta" where
  front := []
  back := (d.members.front ++ d.members.back).filter fun p => typeNames.contains p.1
  distinct := by
    have distinct := d.members.distinct
    have moved : ((JStr.lit "delta", JsVal.undefined) :: (d.members.front ++ d.members.back)).Perm
        (d.members.front ++ (JStr.lit "delta", JsVal.undefined) :: d.members.back) := List.perm_middle.symm
    have all := ((moved.map Prod.fst).nodup_iff).mpr distinct
    refine all.sublist (List.Sublist.map _ ?_)
    exact List.Sublist.cons_cons _ List.filter_sublist

def bare : CohereDelta where
  members := d.typeMembers
  delta := .only _
  message := .only _
  content := indexOnly _ "index" (by decide) d.index
  index := d.index
  addressed := get_indexOnly _ _

def result (out : JsVal) : JsVal :=
  let out := if (d.members.rest.get "response").isRecord then
      mergeObject out (pick (d.members.rest.get "response") cohereFields)
    else out
  let out := if cohereType d.members.rest = JStr.lit "message-end" then
      copyDefined "usage" (copyDefined "finish_reason" out d.delta.rest) d.delta.rest
    else out
  copyDefined "error" (copyDefined "finish_reason" out d.members.rest) d.members.rest

def messageOf (message : JsVal) : JsVal :=
  let message := copyEntries [JStr.lit "content"] message d.message.rest
  let message := if cohereType d.members.rest = JStr.lit "message-end" then
      copyDefined "finish_reason" message d.delta.rest
    else message
  copyDefined "finish_reason" message d.members.rest

def textOf (text : JStr) : JStr :=
  if cohereType d.members.rest = JStr.lit "text-generation" then text ++ stringOr [] (d.members.rest.get "text") else text

def merge (text : JStr) (block : JsVal) : JsVal := mergeSemanticPart block (d.contentOf text)

theorem index_written (index : JsNumber) (m : JsVal) :
    mergeSemanticField semanticFields m (JStr.lit "index") (.num index) = m.set "index" (.num index) := by
  rw [mergeSemanticField, if_neg (by decide)]
  simp only [JsVal.isRecord, Bool.and_false, Bool.false_eq_true, if_false, isNullish]

/-- The block keeps the index it is addressed by: written once more, it stays. -/
theorem merge_indexed (text : JStr) (block : JsVal) :
    (d.merge text block).set "index" (.num d.index) = d.merge text block := by
  have there : (JStr.lit "index", .num d.index) ∈ (d.contentOf text).entries :=
    d.content.mem_entries (by decide) (by simp) d.addressed _
  have distinct := d.content.entries_nodup (.str text)
  obtain ⟨front, back, split⟩ := List.append_of_mem there
  change ((d.contentOf text).entries.map Prod.fst).Nodup at distinct
  rw [split, List.map_append, List.map_cons] at distinct
  have apart : ∀ p ∈ back, p.1 ≠ JStr.lit "index" := by
    intro p member same
    refine (List.nodup_cons.mp (List.nodup_append.mp distinct).2.1).1 ?_
    exact List.mem_map.mpr ⟨p, member, same⟩
  have later : (fieldCell "index" (safe_lit (by decide))).Frames fun m => back.foldl (fun out p =>
      mergeSemanticField semanticFields out p.1 p.2) m := by
    refine .foldl fun p member => ?_
    rw [mergeSemanticFieldJs_eq]
    exact reviseJs_frames (apart p member) _ _
  rw [merge, mergeSemanticPart, split, List.foldl_append, List.foldl_cons, index_written]
  exact (later (.num d.index) (.num d.index) _).symm

theorem rejoin (s t : JStr) (block : JsVal) : d.bare.merge t (d.merge s block) = d.merge (s ++ t) block := by
  have tail (block : JsVal) : d.bare.merge t block =
      appendStringField "text" (.str t) (block.set "index" (.num d.index)) := by
    have ahead : d.bare.content.ahead = [(JStr.lit "index", .num d.index)] := by
      have word : indexOfKey (JStr.lit "index") = none := by decide
      simp [bare, indexOnly, Hole.ahead, word]
    rw [← index_written, merge, mergeSemanticPart, contentOf, Hole.entries_fill _ (by decide), ahead]
    rfl
  have appends : Appends "text" (safe_lit (by decide)) d.merge :=
    semantic_appends _ _ (by decide) List.mem_cons_self d.content
  rw [tail, merge_indexed, appends.rejoin s t]

theorem step_event (words : JStr) (finite : finiteOf d.index) (s : Nested) : cohereStep s (d.event words) =
    ⟨d.result s.out, d.messageOf s.inner, (entryCell d.index empty).update (d.merge words) s.map, d.textOf s.text⟩ := by
  have index (n : Nat) : numberOrDefault ((d.contentOf words).get "index") n = d.index := by
    rw [contentOf, Hole.get_fill_ne _ (by decide), d.addressed, numberOrDefault_finite finite]
  have copied := d.message.copyEntries_fill (by decide) [JStr.lit "content"] List.mem_cons_self s.inner
    (d.contentOf words)
  have content : mergeCohereContent s.map (d.contentOf words) =
      (entryCell d.index empty).update (d.merge words) s.map := by
    change mergeCohereContentBlock s.map (numberOrDefault ((d.contentOf words).get "index") (s.map.length - 1))
      (d.contentOf words) = _
    rw [index]
    rfl
  have merged : mergeCohereMessageDelta s.inner s.map (d.message.fill (d.contentOf words)) =
      (copyEntries [JStr.lit "content"] s.inner d.message.rest,
        (entryCell d.index empty).update (d.merge words) s.map) := by
    rw [mergeCohereMessageDelta, Hole.isRecord_fill, if_pos rfl, copied, Hole.get_fill, content]
  have type : cohereType (d.event words) = cohereType d.members.rest := by
    unfold cohereType event
    simp (disch := decide) only [Hole.get_fill_ne]
  unfold cohereStep
  rw [type]
  unfold event deltaOf result messageOf textOf
  simp (disch := decide) only [Hole.isRecord_fill, Hole.get_fill_ne, Hole.get_fill, Hole.copyDefined_fill, merged,
    cohereFinishReason, Bool.not_true, Bool.false_eq_true, if_false, if_true, and_true]
  by_cases ended : cohereType d.members.rest = JStr.lit "message-end"
  · simp only [if_pos ended]
  · simp only [if_neg ended]

theorem step_rejoin (s t : JStr) (finite : finiteOf d.index) (st : Nested) :
    cohereStep (cohereStep st (d.event s)) (d.bare.event t) = cohereStep st (d.event (s ++ t)) := by
  have absent (key : String) (safe : key ≠ "__proto__") (other : JStr.lit key ∉ typeNames) :
      d.bare.members.rest.get (JStr.lit key) = .undefined := by
    change (JsVal.obj .undefined (d.typeMembers.front ++ d.typeMembers.back)).get (JStr.lit key) = .undefined
    rw [get_plain _ (safe_lit safe)]
    have none : own (d.typeMembers.front ++ d.typeMembers.back) (JStr.lit key) = none := by
      refine Assoc.lookup_eq_none.mpr fun member => ?_
      obtain ⟨p, inside, same⟩ := List.mem_map.mp member
      have named := (List.mem_filter.mp inside).2
      exact other (by rw [← same]; simpa using named)
    rw [none]
    rfl
  have response := absent "response" (by decide) (by decide)
  have finish := absent "finish_reason" (by decide) (by decide)
  have error := absent "error" (by decide) (by decide)
  have words := absent "text" (by decide) (by decide)
  have unchanged (out : JsVal) : d.bare.result out = out := by
    simp only [result, copyDefined, response, finish, error]
    exact ite_self _
  have kept (message : JsVal) : d.bare.messageOf message = message := by
    simp only [messageOf, copyDefined, finish]
    exact ite_self _
  have same (text : JStr) : d.bare.textOf text = text := by
    simp only [textOf, words, stringOr, List.append_nil, ite_self]
  rw [d.step_event s finite, d.step_event (s ++ t) finite, d.bare.step_event t finite, unchanged, kept, same]
  have joined := Cell.update_update (c := entryCell d.index empty) (d.merge s) (d.bare.merge t) st.map trivial
  simp only [d.rejoin s t] at joined
  exact congrArg (fun map => Nested.mk _ _ map _) joined

end CohereDelta

/-! A cut in any stream. -/

/-- A text delta of one of the protocols: an event but for its text. -/
inductive TextDelta where
  | chat (d : ChatDelta)
  | responses (d : ResponsesDelta)
  | anthropic (d : AnthropicDelta)
  | dashscope (d : DashscopeDelta)
  | bedrock (d : BedrockDelta)
  | cohere (d : CohereDelta)

namespace TextDelta

def aggregate : TextDelta → List JsVal → JsVal
  | chat _ => aggregateOpenAIChatStream
  | responses _ => aggregateOpenAIResponsesStream
  | anthropic _ => aggregateAnthropicMessagesStream
  | dashscope _ => aggregateDashscopeGenerationStream
  | bedrock _ => aggregateBedrockConverseStream
  | cohere _ => aggregateCohereChatStream

def event : TextDelta → JStr → JsVal
  | chat d => d.event
  | responses d => d.event
  | anthropic d => d.event
  | dashscope d => d.event
  | bedrock d => d.event
  | cohere d => d.event

/-- The event of the same type with the same address and the text only. -/
def bare : TextDelta → JStr → JsVal
  | chat d => d.bare.event
  | responses d => d.bare.event
  | anthropic d => d.bare.event
  | dashscope d => d.bare.event
  | bedrock d => d.bare.event
  | cohere d => d.bare.event

/-- The address is one the aggregator reads, and a Bedrock delta assigns no prototype. -/
def Addressed : TextDelta → Prop
  | chat _ => True
  | responses d => finiteOf d.outputIndex ∧ finiteOf d.contentIndex
  | anthropic _ => True
  | dashscope d => finiteOf d.index
  | bedrock d => finiteOf d.index ∧ d.Assigns
  | cohere d => finiteOf d.index

end TextDelta

theorem foldl_rejoin {σ : Type} (step : σ → JsVal → σ) (start : σ) (before after : List JsVal) (whole first rest : JsVal)
    (rejoin : ∀ st, step (step st first) rest = step st whole) :
    (before ++ first :: rest :: after).foldl step start = (before ++ whole :: after).foldl step start := by
  rw [List.foldl_append, List.foldl_append, List.foldl_cons, List.foldl_cons, List.foldl_cons, rejoin]

theorem aggregate_rejoin (d : TextDelta) (addressed : d.Addressed) (before after : List JsVal) (s t : JStr) :
    d.aggregate (before ++ d.event s :: d.bare t :: after) = d.aggregate (before ++ d.event (s ++ t) :: after) := by
  cases d with
  | chat d => exact congrArg chatFinish (foldl_rejoin _ _ before after _ _ _ (d.step_rejoin s t))
  | responses d =>
    exact congrArg responsesFinish (foldl_rejoin _ _ before after _ _ _ (d.step_rejoin s t addressed.1 addressed.2))
  | anthropic d => exact congrArg anthropicFinish (foldl_rejoin _ _ before after _ _ _ (d.step_rejoin s t))
  | dashscope d => exact congrArg dashscopeFinish (foldl_rejoin _ _ before after _ _ _ (d.step_rejoin s t addressed))
  | bedrock d =>
    exact congrArg bedrockFinish (foldl_rejoin _ _ before after _ _ _ (d.step_rejoin s t addressed.1 addressed.2))
  | cohere d => exact congrArg cohereFinish (foldl_rejoin _ _ before after _ _ _ (d.step_rejoin s t addressed))

end TeeProof.Verifier

namespace TeeProof

open JsVal

/-- A text delta cut in two changes no view, in any stream of events: neither the enclave's, over
the whole stream or event by event, nor the verifier's. -/
theorem textDelta_rechunked (d : Enclave.TextDelta) (addressed : d.Addressed) (e : Verifier.TextDelta)
    (read : e.Addressed) :
    (∀ (before after : List Value) (s t : Str),
      Enclave.aggregateStream d.protocol (.array (before ++ d.event s :: d.bare t :: after)) =
        Enclave.aggregateStream d.protocol (.array (before ++ d.event (s ++ t) :: after)) ∧
      ((before ++ d.event s :: d.bare t :: after).foldl Enclave.StreamFieldState.apply (.new d.protocol)).finish =
        ((before ++ d.event (s ++ t) :: after).foldl Enclave.StreamFieldState.apply (.new d.protocol)).finish) ∧
    ∀ (before after : List JsVal) (s t : JStr),
      e.aggregate (before ++ e.event s :: e.bare t :: after) = e.aggregate (before ++ e.event (s ++ t) :: after) := by
  refine ⟨fun before after s t => ⟨?_, ?_⟩, fun before after s t => ?_⟩
  · exact Enclave.aggregateStream_rejoin d addressed before after s t
  · rw [Enclave.StreamFieldState.finish_foldl, Enclave.StreamFieldState.finish_foldl]
    exact Enclave.aggregateStream_rejoin d addressed before after s t
  · exact Verifier.aggregate_rejoin e read before after s t

/-- A text of the Responses protocol whose part is addressed by a number. -/
def partDelta (part : Number) (integer : ∀ bits, part ≠ .float bits) : Enclave.TextDelta :=
  let index : Enclave.Index := ⟨.posInt 0, nofun⟩
  let position : Enclave.Index := ⟨part, integer⟩
  .responses
    { members := [("content_index".toList, position.value), ("output_index".toList, index.value),
        ("type".toList, .lit "response.output_text.delta")]
      outputIndex := index
      contentIndex := position
      typed := rfl
      addressed := rfl
      placed := rfl }

/-- A text of the Bedrock protocol with other members beside it. -/
def blockDelta (delta : Verifier.Hole "text") : Verifier.TextDelta :=
  .bedrock
    { members := .only _
      blockDelta := Verifier.indexOnly _ "contentBlockIndex" (by decide) 0
      kind := .text delta
      index := 0
      addressed := Verifier.get_indexOnly _ _ }

theorem textDelta_rechunked_sample :
    Enclave.aggregateStream .openaiResponses (.array ([] ++ (partDelta (.posInt 0) nofun).event "a".toList ::
        (partDelta (.posInt 0) nofun).bare "b".toList :: [])) =
      Enclave.aggregateStream .openaiResponses (.array ([] ++ (partDelta (.posInt 0) nofun).event "ab".toList :: [])) ∧
    (blockDelta (.only _)).aggregate ([] ++ (blockDelta (.only _)).event (JStr.lit "a") ::
        (blockDelta (.only _)).bare (JStr.lit "b") :: []) =
      (blockDelta (.only _)).aggregate ([] ++ (blockDelta (.only _)).event (JStr.lit "a" ++ JStr.lit "b") :: []) := by
  have both := textDelta_rechunked (partDelta (.posInt 0) nofun) ⟨rfl, rfl⟩ (blockDelta (.only _))
    ⟨⟨0, rfl⟩, fun _ member => absurd member (by simp [Verifier.Hole.only])⟩
  exact ⟨(both.1 [] [] "a".toList "b".toList).1, both.2 [] [] _ _⟩

/-- A member that becomes the prototype of the block. -/
def protoHole : Verifier.Hole "text" where
  front := []
  back := [(protoKey, empty)]
  distinct := show [JStr.lit "text", protoKey].Nodup by decide

/-- A block that inherits its type. -/
def inheritingStart : JsVal :=
  ofObject [("contentBlockStart", ofObject [("contentBlockIndex", .num 0), ("start",
    .obj .undefined [(protoKey, ofObject [("type", lit "x")])])])]

/-- The view of one block. -/
def blockView (props : Props) : JsVal :=
  ofObject [("output", ofObject [("message", ofObject [("content", .arr [.obj empty props])])])]

/-- The view of the parts of one item. -/
def partsView (parts : List String) : Value :=
  .object [("output".toList, .array [.object [("content".toList, .array (parts.map fun text =>
    .object [("text".toList, .lit text), ("type".toList, .lit "output_text")]))]])]

/-- A part whose number is no `u64` is a new part for each half; a block whose inherited type a
delta takes away gets one with the second half. -/
theorem cut_visible :
    Enclave.aggregateStream .openaiResponses (.array [(partDelta (.negInt (-1)) nofun).event "a".toList,
      (partDelta (.negInt (-1)) nofun).bare "b".toList]) = partsView ["a", "b"] ∧
    Enclave.aggregateStream .openaiResponses (.array [(partDelta (.negInt (-1)) nofun).event "ab".toList]) =
      partsView ["ab"] ∧
    partsView ["a", "b"] ≠ partsView ["ab"] ∧
    (blockDelta protoHole).aggregate [inheritingStart, (blockDelta protoHole).event (JStr.lit "a"),
      (blockDelta protoHole).bare (JStr.lit "b")] =
        blockView [(JStr.lit "text", lit "ab"), (JStr.lit "type", lit "text")] ∧
    (blockDelta protoHole).aggregate [inheritingStart, (blockDelta protoHole).event (JStr.lit "ab")] =
      blockView [(JStr.lit "text", lit "ab")] ∧
    blockView [(JStr.lit "text", lit "ab"), (JStr.lit "type", lit "text")] ≠ blockView [(JStr.lit "text", lit "ab")] := by
  refine ⟨rfl, rfl, fun same => ?_, rfl, rfl, fun same => ?_⟩
  · simp [partsView] at same
  · simp [blockView, ofObject] at same

end TeeProof
