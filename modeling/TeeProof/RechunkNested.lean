import TeeProof.Rechunk

/-! The same for the aggregators that keep a second object beside the result, and the cut of a
text delta in any stream of events. -/
namespace TeeProof.Enclave

open Value (Map)

/-! DashScope. -/

theorem foldl_alone {σ : Type} (step : σ → Value × Nat → σ) (skips : ∀ s v i, v.asObject = none → step s (v, i) = s)
    (before : List Value) (v : Value) (after : List Value) (alone : ∀ w ∈ before ++ after, w.asObject = none) (s : σ) :
    (before ++ v :: after).zipIdx.foldl step s = step s (v, before.length) := by
  have unchanged (l : List Value) (others : ∀ w ∈ l, w.asObject = none) (n : Nat) (s : σ) :
      (l.zipIdx n).foldl step s = s := by
    induction l generalizing n with
    | nil => rfl
    | cons w rest ih =>
      rw [List.zipIdx_cons, List.foldl_cons, skips s w n (others w List.mem_cons_self)]
      exact ih (fun x member => others x (List.mem_cons_of_mem _ member)) (n + 1)
  rw [List.zipIdx_append, List.foldl_append, unchanged before fun w member => alone w (List.mem_append_left _ member)]
  rw [List.zipIdx_cons, List.foldl_cons, unchanged after fun w member => alone w (List.mem_append_right _ member),
    Nat.zero_add]

/-- A loop that leaves a key out does not see what stands under it. -/
theorem foldl_put_except {σ : Type} (step : σ → Str × Value → σ) (key : Str) (skips : ∀ s v, step s (key, v) = s)
    (source : Map) (v w : Value) (s : σ) : (put source key v).foldl step s = (put source key w).foldl step s := by
  obtain ⟨front, back, split⟩ := OrdMap.insert_split key source
  rw [put, split, put, split, List.foldl_append, List.foldl_append, List.foldl_cons, List.foldl_cons, skips, skips]

theorem extendExcept_put {key : Str} (except : List Str) (excepted : key ∈ except) (target source : Map) (v w : Value) :
    extendExcept except target (put source key v) = extendExcept except target (put source key w) := by
  refine foldl_put_except _ key (fun out v => ?_) source v w target
  have kept : except.contains key = true := by simpa using excepted
  simp only [kept, Bool.not_true, Bool.false_and, Bool.false_eq_true, if_false]

theorem arrayField_put_ne (source : Map) {key other : Str} (apart : other ≠ key) (value : Value) :
    arrayField (put source key value) other = arrayField source other := by
  rw [arrayField, field_put_ne _ apart, arrayField]

structure DashscopeDelta where
  chunk : Map
  output : Map
  before : List Value
  choice : Map
  delta : Map
  after : List Value
  index : Index
  alone : ∀ v ∈ before ++ after, v.asObject = none
  addressed : field choice "index" = some index.value
  noMessage : objectField choice "message" = none

namespace DashscopeDelta

variable (d : DashscopeDelta)

def choiceObj (text : Str) : Map := put d.choice "delta" (.object (put d.delta "content" (.string text)))

def event (text : Str) : Value :=
  .object (put d.chunk "output" (.object
    (put d.output "choices" (.array (d.before ++ .object (d.choiceObj text) :: d.after)))))

theorem alone_nil : ∀ v ∈ ([] ++ [] : List Value), v.asObject = none := List.forall_mem_nil _

def bare : DashscopeDelta where
  chunk := []
  output := []
  before := []
  choice := put [] "index" d.index.value
  delta := []
  after := []
  index := d.index
  alone := alone_nil
  addressed := field_put_self _ _ _
  noMessage := rfl

def result (out : Map) : Map :=
  let keys : List Str := ["usage", "request_id", "code", "message"]
  keys.foldl (fun out key => copyField out d.chunk key) out

/-- The other fields of the output; `choices` is left out, whatever it holds. -/
def outputOf (output : Map) : Map :=
  (put d.output "choices" .null).foldl (fun output p =>
    if p.1 = "choices".toList then output else put output p.1 p.2) output

def merge (text : Str) (message : Map) : Map := mergeDashscopeMessage message (put d.delta "content" (.string text))

def ending (choice : Map) : Map :=
  extendExcept ["index".toList, "message".toList, "delta".toList] choice (put d.choice "delta" .null)

def change (text : Str) (choice : Map) : Map := d.ending ((objectCell "message").update (d.merge text) choice)

theorem merge_appends : Appends "content" d.merge := by
  refine ⟨fun message => message, fun message => extendExcept ["content".toList, "reasoning_content".toList,
      "tool_calls".toList] (mergeToolCallsField (appendStringField message "reasoning_content"
        (field d.delta "reasoning_content")) d.delta) (put d.delta "content" .null),
    (extendExcept_frames _ (by decide) _).comp ((tools_frames d.delta (by decide)).comp (append_frames (by decide) _)),
    fun s message => ?_⟩
  rw [← append_eq]
  unfold merge mergeDashscopeMessage mergeToolCallsField
  simp (disch := decide) only [field_put_ne, field_put_self, arrayField_put_ne]
  exact extendExcept_put _ (by decide) _ _ _ _

theorem merge_text (message : Map) (t : Str) :
    d.bare.merge t message = appendStringField message "content" (some (.string t)) := rfl

theorem rejoin (s t : Str) (choice : Map) : d.bare.change t (d.change s choice) = d.change (s ++ t) choice := by
  have frames : (objectCell "message").Frames d.ending :=
    (extendExcept_frames _ (by decide) (put d.choice "delta" .null)).through _ _
  have tail : d.bare.change t = (objectCell "message").update (d.bare.merge t) := rfl
  rw [tail, change, Cell.update_frame frames (d.merge s) _ choice ⟨trivial, rfl⟩]
  simp only [merge_text, d.merge_appends.rejoin s t]
  rfl

theorem choice_event (text : Str) {i : Int} (read : d.index.value.asI64 = some i) (choices : IndexMap) (n : Nat) :
    aggregateDashscopeGenerationStream.choice choices (.object (d.choiceObj text), n) =
      (entryCell i [("index".toList, .ofInt i), ("message".toList, .object [])]).update (d.change text) choices := by
  have index : indexOr (d.choiceObj text) "index" n = i :=
    indexOr_of_read ((field_put_ne _ (by decide) _).trans d.addressed) read _
  rw [← entry_eq]
  simp only [aggregateDashscopeGenerationStream.choice, Value.asObject, index]
  congr 1
  funext choice
  unfold change ending Cell.update choiceObj
  rw [read_objectCell]
  simp (disch := decide) only [objectField_put_ne, objectField_put_self, d.noMessage]
  exact extendExcept_put _ (by decide) _ _ _ _

theorem item_event (text : Str) {i : Int} (read : d.index.value.asI64 = some i) (out output : Map)
    (choices : IndexMap) :
    aggregateDashscopeGenerationStream.item (out, output, choices) (d.event text) = (d.result out, d.outputOf output,
      (entryCell i [("index".toList, .ofInt i), ("message".toList, .object [])]).update (d.change text) choices) := by
  have skips (choices : IndexMap) (v : Value) (n : Nat) (other : v.asObject = none) :
      aggregateDashscopeGenerationStream.choice choices (v, n) = choices := by
    simp only [aggregateDashscopeGenerationStream.choice, other]
  have copied := foldl_put_except (fun output p => if p.1 = "choices".toList then output else put output p.1 p.2)
    "choices" (fun _ _ => rfl) d.output (.array (d.before ++ .object (d.choiceObj text) :: d.after)) .null output
  unfold aggregateDashscopeGenerationStream.item event result outputOf
  simp (disch := decide) only [Value.asObject, List.foldl_cons, List.foldl_nil, copyField_put_ne, objectField_put_self,
    arrayField_put_self, copied, foldl_alone _ skips d.before _ d.after d.alone, d.choice_event text read]

theorem item_rejoin (s t : Str) (read : d.index.value.asI64.isSome) (locals : Map × Map × IndexMap) :
    aggregateDashscopeGenerationStream.item (aggregateDashscopeGenerationStream.item locals (d.event s))
        (d.bare.event t) =
      aggregateDashscopeGenerationStream.item locals (d.event (s ++ t)) := by
  obtain ⟨i, read⟩ := Option.isSome_iff_exists.mp read
  obtain ⟨out, output, choices⟩ := locals
  have unchanged (out : Map) : d.bare.result out = out := rfl
  have kept (output : Map) : d.bare.outputOf output = output := rfl
  rw [d.item_event s read, d.item_event (s ++ t) read, d.bare.item_event t read, unchanged, kept,
    Cell.update_update _ _ _ trivial]
  simp only [d.rejoin s t]

end DashscopeDelta

/-! Bedrock. -/

/-- A loop over distinct keys appends the text of one of them and leaves it alone otherwise. -/
theorem semantic_appends (fields : List Str) {key : Str} (listed : key ∈ fields) {source : Map}
    (sorted : OrdMap.Sorted source) :
    Appends key fun s m => (put source key (.string s)).foldl (fun out p => mergeSemanticField fields out p.1 p.2) m := by
  obtain ⟨front, back, split⟩ := OrdMap.insert_split key source
  have nodup := (sorted.insert key .null).nodup
  rw [split, List.map_append, List.map_cons] at nodup
  have apart : ∀ p ∈ back, p.1 ≠ key := by
    intro p member same
    refine (List.nodup_cons.mp (List.nodup_append.mp nodup).2.1).1 ?_
    exact List.mem_map.mpr ⟨p, member, same⟩
  refine ⟨fun m => front.foldl (fun out p => mergeSemanticField fields out p.1 p.2) m,
    fun m => back.foldl (fun out p => mergeSemanticField fields out p.1 p.2) m, .foldl fun p member => ?_,
    fun s m => ?_⟩
  · rw [mergeSemanticField_eq]
    exact revise_frames (apart p member) _ _
  · have appended (m : Map) : mergeSemanticField fields m key (.string s) = (textCell key).update (· ++ s) m := by
      rw [mergeSemanticField, if_pos (by simpa using listed), append_eq]
    rw [put, split, List.foldl_append, List.foldl_cons, appended]

/-- The text a delta of a block carries, with the other members of its tool use. -/
inductive BedrockText where
  | text
  | toolInput (toolUse : Map) (sorted : OrdMap.Sorted toolUse)

structure BedrockDelta where
  members : Map
  blockDelta : Map
  delta : Map
  kind : BedrockText
  index : Index
  addressed : field blockDelta "contentBlockIndex" = some index.value

namespace BedrockDelta

variable (d : BedrockDelta)

def deltaObj (text : Str) : Map :=
  match d.kind with
  | .text => put d.delta "text" (.string text)
  | .toolInput toolUse _ => put d.delta "toolUse" (.object (put toolUse "input" (.string text)))

def event (text : Str) : Value :=
  .object (put d.members "contentBlockDelta" (.object (put d.blockDelta "delta" (.object (d.deltaObj text)))))

def bare : BedrockDelta where
  members := []
  blockDelta := put [] "contentBlockIndex" d.index.value
  delta := []
  kind :=
    match d.kind with
    | .text => .text
    | .toolInput _ _ => .toolInput [] OrdMap.sorted_nil
  index := d.index
  addressed := field_put_self _ _ _

def merge (text : Str) (block : Map) : Map := mergeBedrockContentDelta block (d.deltaObj text)

/-- The type that a text gives a block without one. -/
def textType (block : Map) : Map :=
  if OrdMap.contains "type".toList block then block else put block "type" (.lit "text")

theorem contains_alter (key other : Str) (change : Option Value → Option Value) {m : Map}
    (there : OrdMap.contains key m = true) : OrdMap.contains key (alter other change m) = true := by
  unfold alter
  split
  · rw [OrdMap.contains, put, OrdMap.find_insert]
    split
    · rfl
    · exact there
  · exact there

theorem textType_typed (block : Map) : OrdMap.contains "type".toList (textType block) = true := by
  unfold textType
  split
  next there => exact there
  next =>
    rw [OrdMap.contains, put, OrdMap.find_insert_self]
    rfl

theorem nested_typed (key : Str) (appendFields : List Str) (delta : Map) {block : Map}
    (typed : OrdMap.contains "type".toList block = true) :
    OrdMap.contains "type".toList (mergeBedrockNested key appendFields block delta) = true := by
  unfold mergeBedrockNested
  split
  · exact contains_alter _ key (fun old => some (mergeNestedSemanticObject old _ appendFields)) typed
  · exact typed

theorem extendExcept_typed (except : List Str) (source : Map) {block : Map}
    (typed : OrdMap.contains "type".toList block = true) :
    OrdMap.contains "type".toList (extendExcept except block source) = true := by
  refine List.foldlRecOn (motive := fun m => OrdMap.contains "type".toList m = true) source _ typed
    fun block kept p _ => ?_
  split
  · exact contains_alter _ p.1 (fun _ => some p.2) kept
  · exact kept

/-- What follows the text: the nested objects and the other members. -/
def rest (delta block : Map) : Map :=
  let block := mergeBedrockNested "reasoningContent" ["text".toList, "signature".toList] block delta
  let block := mergeBedrockNested "toolUse" ["input".toList] block delta
  let block := mergeBedrockNested "citationsContent" ["text".toList] block delta
  extendExcept ["text".toList, "reasoningContent".toList, "toolUse".toList, "citationsContent".toList] block
    (put delta "text" .null)

theorem merge_text (delta : Map) (s : Str) (block : Map) :
    mergeBedrockContentDelta block (put delta "text" (.string s)) =
      rest delta (textType (appendStringField block "text" (some (.string s)))) := by
  unfold rest textType mergeBedrockContentDelta mergeBedrockNested
  simp (disch := decide) only [field_put_self, objectField_put_ne, Option.isSome_some, Bool.true_and,
    Bool.not_eq_true', ← Bool.not_eq_true, ite_not]
  exact extendExcept_put _ (by decide) _ _ _ _

theorem text_appends (delta : Map) :
    Appends "text" fun s block => mergeBedrockContentDelta block (put delta "text" (.string s)) := by
  have typed : (fieldCell "text").Frames textType := by
    have same : textType = alter "type" fun old => if old.isSome then none else some (.lit "text") := by
      funext block
      unfold textType alter OrdMap.contains field
      cases OrdMap.find "type".toList block <;> rfl
    rw [same]
    exact alter_frames (by decide) _
  have nested (key : String) (fields : List Str) (apart : key.toList ≠ "text".toList) :
      (fieldCell "text").Frames fun block => mergeBedrockNested key fields block delta := nested_frames apart _ _
  have others : (fieldCell "text").Frames (rest delta) := by
    have citations := nested "citationsContent" ["text".toList] (by decide)
    have toolUse := nested "toolUse" ["input".toList] (by decide)
    have reasoning := nested "reasoningContent" ["text".toList, "signature".toList] (by decide)
    exact (extendExcept_frames _ (by decide) _).comp (citations.comp (toolUse.comp reasoning))
  refine ⟨fun block => block, _, others.comp typed, fun s block => ?_⟩
  rw [merge_text, append_eq]

theorem text_rejoin (delta : Map) (s t : Str) (block : Map) :
    mergeBedrockContentDelta (mergeBedrockContentDelta block (put delta "text" (.string s)))
        (put [] "text" (.string t)) =
      mergeBedrockContentDelta block (put delta "text" (.string (s ++ t))) := by
  have typed (x : Map) : OrdMap.contains "type".toList (rest delta (textType x)) = true :=
    extendExcept_typed _ _ (nested_typed _ _ _ (nested_typed _ _ _ (nested_typed _ _ _ (textType_typed x))))
  have bare (x : Map) : rest [] x = x := rfl
  rw [merge_text [], bare, (text_appends delta).rejoin s t, merge_text, textType, if_pos (typed _)]

/-- The merge of a tool use, and what the delta does before and after it. -/
def mergeToolUse (toolUse : Map) (s : Str) (existing : Map) : Map :=
  (put toolUse "input" (.string s)).foldl (fun out p => mergeSemanticField ["input".toList] out p.1 p.2) existing

def beforeTool (delta block : Map) : Map :=
  let block := appendStringField block "text" (field delta "text")
  let block :=
    if (field delta "text").isSome && !OrdMap.contains "type".toList block then put block "type" (.lit "text")
    else block
  mergeBedrockNested "reasoningContent" ["text".toList, "signature".toList] block delta

def afterTool (delta block : Map) : Map :=
  extendExcept ["text".toList, "reasoningContent".toList, "toolUse".toList, "citationsContent".toList]
    (mergeBedrockNested "citationsContent" ["text".toList] block delta) (put delta "toolUse" .null)

theorem merge_tool (delta toolUse : Map) (s : Str) (block : Map) :
    mergeBedrockContentDelta block (put delta "toolUse" (.object (put toolUse "input" (.string s)))) =
      afterTool delta ((objectCell "toolUse").update (mergeToolUse toolUse s) (beforeTool delta block)) := by
  have nested (block : Map) : mergeBedrockNested "toolUse" ["input".toList] block
      (put delta "toolUse" (.object (put toolUse "input" (.string s)))) =
        (objectCell "toolUse").update (mergeToolUse toolUse s) block := by
    unfold Cell.update
    rw [read_objectCell, mergeBedrockNested, objectField_put_self]
    rfl
  unfold mergeBedrockContentDelta
  simp only [nested]
  unfold afterTool beforeTool mergeBedrockNested
  simp (disch := decide) only [field_put_ne, objectField_put_ne]
  exact extendExcept_put _ (by decide) _ _ _ _

theorem tool_rejoin (delta toolUse : Map) (sorted : OrdMap.Sorted toolUse) (s t : Str) (block : Map) :
    mergeBedrockContentDelta
        (mergeBedrockContentDelta block (put delta "toolUse" (.object (put toolUse "input" (.string s)))))
        (put [] "toolUse" (.object (put [] "input" (.string t)))) =
      mergeBedrockContentDelta block (put delta "toolUse" (.object (put toolUse "input" (.string (s ++ t))))) := by
  have raw : (fieldCell "toolUse").Frames (afterTool delta) :=
    (extendExcept_frames _ (by decide) _).comp (nested_frames (by decide) _ delta)
  have frames : (objectCell "toolUse").Frames (afterTool delta) := raw.through _ _
  have bare (x : Map) : afterTool [] ((objectCell "toolUse").update (mergeToolUse [] t) (beforeTool [] x)) =
      (objectCell "toolUse").update (fun m => appendStringField m "input" (some (.string t))) x := rfl
  have input : Appends "input" (mergeToolUse toolUse) := semantic_appends _ (by decide) sorted
  rw [merge_tool [] [], bare, merge_tool, merge_tool,
    Cell.update_frame frames (mergeToolUse toolUse s) _ _ ⟨trivial, rfl⟩]
  simp only [input.rejoin s t]

theorem rejoin (s t : Str) (block : Map) : d.bare.merge t (d.merge s block) = d.merge (s ++ t) block := by
  unfold merge deltaObj bare
  cases d.kind with
  | text => exact text_rejoin d.delta s t block
  | toolInput toolUse sorted => exact tool_rejoin d.delta toolUse sorted s t block

def result (out : Map) : Map :=
  let out :=
    match objectField d.members "messageStop" with
    | some messageStop => copyField out messageStop "stopReason"
    | none => out
  let out :=
    match objectField d.members "metadata" with
    | some metadata => copyField out metadata "usage"
    | none => out
  let out :=
    if (field d.members "output").isSome then mergeValueObject out (pickValue bedrockKeys (.object d.members)) else out
  copyField out d.members "error"

def messageOf (message : Map) : Map :=
  match objectField d.members "messageStart" with
  | some messageStart => copyField message messageStart "role"
  | none => message

def started (blocks : IndexMap) : IndexMap :=
  match objectField d.members "contentBlockStart" with
  | some blockStart =>
    entry blocks (indexOr blockStart "contentBlockIndex" blocks.length) [] fun block =>
      match objectField blockStart "start" with
      | some start => extend block start
      | none => block
  | none => blocks

theorem item_event (text : Str) {i : Int} (read : d.index.value.asI64 = some i) (out message : Map)
    (blocks : IndexMap) :
    aggregateBedrockConverseStream.item (out, message, blocks) (d.event text) =
      (d.result out, d.messageOf message, (entryCell i []).update (d.merge text) (d.started blocks)) := by
  have index (n : Nat) :
      indexOr (put d.blockDelta "delta" (.object (d.deltaObj text))) "contentBlockIndex" n = i :=
    indexOr_of_read ((field_put_ne _ (by decide) _).trans d.addressed) read _
  unfold aggregateBedrockConverseStream.item event result messageOf started
  simp (disch := decide) only [Value.asObject, objectField_put_ne, objectField_put_self, field_put_ne, copyField_put_ne,
    index, pickValue, bedrockKeys, List.foldl_cons, List.foldl_nil]
  rfl

theorem item_rejoin (s t : Str) (read : d.index.value.asI64.isSome) (locals : Map × Map × IndexMap) :
    aggregateBedrockConverseStream.item (aggregateBedrockConverseStream.item locals (d.event s)) (d.bare.event t) =
      aggregateBedrockConverseStream.item locals (d.event (s ++ t)) := by
  obtain ⟨i, read⟩ := Option.isSome_iff_exists.mp read
  obtain ⟨out, message, blocks⟩ := locals
  have unchanged (out : Map) : d.bare.result out = out := rfl
  have kept (message : Map) : d.bare.messageOf message = message := rfl
  have none (blocks : IndexMap) : d.bare.started blocks = blocks := rfl
  rw [d.item_event s read, d.item_event (s ++ t) read, d.bare.item_event t read, unchanged, kept, none,
    Cell.update_update _ _ _ trivial]
  simp only [d.rejoin s t]

end BedrockDelta

/-! Cohere. -/

structure CohereDelta where
  members : Map
  delta : Map
  message : Map
  content : Map
  index : Index
  sorted : OrdMap.Sorted content
  addressed : field content "index" = some index.value

namespace CohereDelta

variable (d : CohereDelta)

def contentObj (text : Str) : Map := put d.content "text" (.string text)

def deltaObj (text : Str) : Map :=
  put d.delta "message" (.object (put d.message "content" (.object (d.contentObj text))))

def event (text : Str) : Value := .object (put d.members "delta" (.object (d.deltaObj text)))

/-- The members that name the event's type. -/
def typeMembers : Map :=
  let keys : List Str := ["type", "event_type", "eventType"]
  keys.foldl (fun kept key => copyField kept d.members key) []

def bare : CohereDelta where
  members := d.typeMembers
  delta := []
  message := []
  content := put [] "index" d.index.value
  index := d.index
  sorted := OrdMap.sorted_nil.insert _ _
  addressed := field_put_self _ _ _

def type : Str :=
  (((field d.members "type").or ((field d.members "event_type").or (field d.members "eventType"))).bind
    Value.asStr).getD []

def result (out : Map) : Map :=
  let out :=
    match field d.members "response" with
    | some response => mergeValueObject out (pickValue cohereKeys response)
    | none => out
  let out :=
    if d.type = "message-end".toList then copyField (copyField out d.delta "finish_reason") d.delta "usage" else out
  copyField (copyField out d.members "finish_reason") d.members "error"

def messageOf (message : Map) : Map :=
  let message := extendExcept ["content".toList] message (put d.message "content" .null)
  let message := if d.type = "message-end".toList then copyField message d.delta "finish_reason" else message
  copyField message d.members "finish_reason"

def textOf (text : Str) : Str :=
  if d.type = "text-generation".toList then
    match strField d.members "text" with
    | some piece => text ++ piece
    | none => text
  else text

def merge (text : Str) (block : Map) : Map := mergeSemanticPart block (d.contentObj text)

theorem index_written (index : Index) (m : Map) :
    mergeSemanticField ["text".toList, "thinking".toList, "signature".toList] m "index" index.value =
      put m "index" index.value := by
  rw [mergeSemanticField, if_neg (by decide)]
  cases objectField m "index" <;> rfl

/-- The block keeps the index it is addressed by: written once more, it stays. -/
theorem merge_indexed (text : Str) (block : Map) : put (d.merge text block) "index" d.index.value = d.merge text block := by
  have there : field (d.contentObj text) "index" = some d.index.value := (field_put_ne _ (by decide) _).trans d.addressed
  have distinct := (d.sorted.insert "text".toList (.string text)).nodup
  obtain ⟨front, back, split⟩ := List.append_of_mem (OrdMap.mem_of_find there)
  change ((d.contentObj text).map Prod.fst).Nodup at distinct
  rw [split, List.map_append, List.map_cons] at distinct
  have apart : ∀ p ∈ back, p.1 ≠ "index".toList := by
    intro p member same
    refine (List.nodup_cons.mp (List.nodup_append.mp distinct).2.1).1 ?_
    exact List.mem_map.mpr ⟨p, member, same⟩
  have later : (fieldCell "index").Frames fun m => back.foldl (fun out p =>
      mergeSemanticField ["text".toList, "thinking".toList, "signature".toList] out p.1 p.2) m := by
    refine .foldl fun p member => ?_
    rw [mergeSemanticField_eq]
    exact revise_frames (apart p member) _ _
  rw [merge, mergeSemanticPart, split, List.foldl_append, List.foldl_cons, index_written]
  exact (later d.index.value d.index.value _).symm

theorem rejoin (s t : Str) (block : Map) : d.bare.merge t (d.merge s block) = d.merge (s ++ t) block := by
  have tail (block : Map) : d.bare.merge t block =
      appendStringField (put block "index" d.index.value) "text" (some (.string t)) := by
    rw [← index_written]
    rfl
  have appends : Appends "text" d.merge := semantic_appends _ (by decide) d.sorted
  rw [tail, merge_indexed, appends.rejoin s t]

theorem item_event (words : Str) {i : Int} (read : d.index.value.asI64 = some i) (out message : Map)
    (blocks : IndexMap) (text : Str) :
    aggregateCohereChatStream.item (out, message, blocks, text) (d.event words) =
      (d.result out, d.messageOf message, (entryCell i []).update (d.merge words) blocks, d.textOf text) := by
  have index (n : Nat) : indexOr (d.contentObj words) "index" n = i :=
    indexOr_of_read ((field_put_ne _ (by decide) _).trans d.addressed) read _
  have merged : mergeCohereMessageDelta message blocks
      (.object (put d.message "content" (.object (d.contentObj words)))) =
        (extendExcept ["content".toList] message (put d.message "content" .null),
          (entryCell i []).update (d.merge words) blocks) := by
    simp only [mergeCohereMessageDelta, Value.asObject, field_put_self, mergeCohereContent, mergeCohereContentBlock,
      index, entry_eq, extendExcept_put ["content".toList] List.mem_cons_self message d.message
        (.object (d.contentObj words)) .null]
    rfl
  unfold aggregateCohereChatStream.item event result messageOf textOf
  simp (disch := decide) only [Value.asObject, field_put_ne, strField_put_ne, copyField_put_ne, objectField_put_self]
  rw [aggregateCohereChatStream.applyDelta, deltaObj]
  simp (disch := decide) only [field_put_self, merged, copyField_put_ne]
  have type : (((field d.members "type").or ((field d.members "event_type").or (field d.members "eventType"))).bind
      fun v => v.asStr).getD [] = d.type := rfl
  rw [type]
  by_cases ended : d.type = "message-end".toList
  · simp only [if_pos ended] <;> rfl
  · simp only [if_neg ended] <;> rfl

theorem field_copyField_ne (kept source : Map) {key other : Str} (apart : other ≠ key) :
    field (copyField kept source key) other = field kept other := by
  unfold copyField
  split
  · exact field_put_ne _ apart _
  · rfl

theorem item_rejoin (s t : Str) (read : d.index.value.asI64.isSome) (locals : Map × Map × IndexMap × Str) :
    aggregateCohereChatStream.item (aggregateCohereChatStream.item locals (d.event s)) (d.bare.event t) =
      aggregateCohereChatStream.item locals (d.event (s ++ t)) := by
  obtain ⟨i, read⟩ := Option.isSome_iff_exists.mp read
  obtain ⟨out, message, blocks, text⟩ := locals
  have absent (key : Str) (first : key ≠ "type".toList) (second : key ≠ "event_type".toList)
      (third : key ≠ "eventType".toList) : field d.bare.members key = none := by
    change field (copyField (copyField (copyField [] d.members "type") d.members "event_type") d.members "eventType")
      key = none
    rw [field_copyField_ne _ _ third, field_copyField_ne _ _ second, field_copyField_ne _ _ first]
    rfl
  have response := absent "response" (by decide) (by decide) (by decide)
  have finish := absent "finish_reason" (by decide) (by decide) (by decide)
  have error := absent "error" (by decide) (by decide) (by decide)
  have words := absent "text" (by decide) (by decide) (by decide)
  have unchanged (out : Map) : d.bare.result out = out := by
    simp only [result, copyField, response, finish, error]
    exact ite_self _
  have kept (message : Map) : d.bare.messageOf message = message := by
    simp only [messageOf, copyField, finish]
    exact ite_self _
  have same (text : Str) : d.bare.textOf text = text := by
    simp only [textOf, strField, words, Option.bind_none, ite_self]
  rw [d.item_event s read, d.item_event (s ++ t) read, d.bare.item_event t read, unchanged, kept, same,
    Cell.update_update _ _ _ trivial]
  simp only [d.rejoin s t]

end CohereDelta

/-! A cut in any stream. -/

/-- A text delta of one of the protocols: an event but for its text. -/
inductive TextDelta where
  | chat (d : ChatDelta)
  | responses (d : ResponsesDelta)
  | anthropic (d : AnthropicDelta)
  | dashscope (d : DashscopeDelta)
  | bedrock (d : BedrockDelta)
  | cohere (d : CohereDelta)

namespace TextDelta

def protocol : TextDelta → ProtocolFamily
  | chat _ => .openaiChat
  | responses _ => .openaiResponses
  | anthropic _ => .anthropicMessages
  | dashscope _ => .dashscope
  | bedrock _ => .bedrock
  | cohere _ => .cohere

def event : TextDelta → Str → Value
  | chat d => d.event
  | responses d => d.event
  | anthropic d => d.event
  | dashscope d => d.event
  | bedrock d => d.event
  | cohere d => d.event

/-- The event of the same type with the same address and the text only. -/
def bare : TextDelta → Str → Value
  | chat d => d.bare.event
  | responses d => d.bare.event
  | anthropic d => d.bare.event
  | dashscope d => d.bare.event
  | bedrock d => d.bare.event
  | cohere d => d.bare.event

/-- The address is one the aggregator reads: a choice, an item or a block is an `i64`, a part of
an item a `u64`. -/
def Addressed : TextDelta → Prop
  | chat d => d.index.value.asI64.isSome
  | responses d => d.outputIndex.value.asI64.isSome ∧ d.contentIndex.value.asU64.isSome
  | anthropic d => d.index.value.asI64.isSome
  | dashscope d => d.index.value.asI64.isSome
  | bedrock d => d.index.value.asI64.isSome
  | cohere d => d.index.value.asI64.isSome

end TextDelta

/-- What holds between one step of two halves and one of the whole holds between the runs. -/
theorem foldl_rejoin {σ : Type} (step : σ → Value → σ) (start : σ) (before after : List Value) (whole first rest : Value)
    (rejoin : step (step (before.foldl step start) first) rest = step (before.foldl step start) whole) :
    (before ++ first :: rest :: after).foldl step start = (before ++ whole :: after).foldl step start := by
  rw [List.foldl_append, List.foldl_append, List.foldl_cons, List.foldl_cons, List.foldl_cons, rejoin]

theorem aggregateStream_rejoin (d : TextDelta) (addressed : d.Addressed) (before after : List Value) (s t : Str) :
    aggregateStream d.protocol (.array (before ++ d.event s :: d.bare t :: after)) =
      aggregateStream d.protocol (.array (before ++ d.event (s ++ t) :: after)) := by
  cases d with
  | chat d =>
    have run := foldl_rejoin aggregateOpenAiChatStream.item ([], []) before after (d.event (s ++ t)) (d.event s)
      (d.bare.event t) (d.item_rejoin s t addressed _)
    simp only [aggregateStream, TextDelta.protocol, TextDelta.event, TextDelta.bare, aggregateOpenAiChatStream,
      Value.asArray, run]
  | responses d =>
    have run := foldl_rejoin aggregateOpenAiResponsesStream.item ([], []) before after (d.event (s ++ t)) (d.event s)
      (d.bare.event t) (d.item_rejoin s t addressed.1 addressed.2 _)
    simp only [aggregateStream, TextDelta.protocol, TextDelta.event, TextDelta.bare, aggregateOpenAiResponsesStream,
      Value.asArray, run]
  | anthropic d =>
    have sorted : OrdMap.Sorted (before.foldl aggregateAnthropicMessagesStream.item ([], [])).2 :=
      List.foldlRecOn (motive := fun locals => OrdMap.Sorted locals.2) before _ OrdMap.sorted_nil
        fun locals kept item _ => anthropic_sorted locals item kept
    have run := foldl_rejoin aggregateAnthropicMessagesStream.item ([], []) before after (d.event (s ++ t)) (d.event s)
      (d.bare.event t) (d.item_rejoin s t addressed _ sorted)
    simp only [aggregateStream, TextDelta.protocol, TextDelta.event, TextDelta.bare, aggregateAnthropicMessagesStream,
      Value.asArray, run]
  | dashscope d =>
    have run := foldl_rejoin aggregateDashscopeGenerationStream.item ([], [], []) before after (d.event (s ++ t))
      (d.event s) (d.bare.event t) (d.item_rejoin s t addressed _)
    simp only [aggregateStream, TextDelta.protocol, TextDelta.event, TextDelta.bare, aggregateDashscopeGenerationStream,
      Value.asArray, run]
  | bedrock d =>
    have run := foldl_rejoin aggregateBedrockConverseStream.item ([], [], []) before after (d.event (s ++ t))
      (d.event s) (d.bare.event t) (d.item_rejoin s t addressed _)
    simp only [aggregateStream, TextDelta.protocol, TextDelta.event, TextDelta.bare, aggregateBedrockConverseStream,
      Value.asArray, run]
  | cohere d =>
    have run := foldl_rejoin aggregateCohereChatStream.item ([], [], [], []) before after (d.event (s ++ t))
      (d.event s) (d.bare.event t) (d.item_rejoin s t addressed _)
    simp only [aggregateStream, TextDelta.protocol, TextDelta.event, TextDelta.bare, aggregateCohereChatStream,
      Value.asArray, run]

end TeeProof.Enclave
