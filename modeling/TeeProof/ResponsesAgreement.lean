import TeeProof.IndexAgreement

/-! OpenAI Responses streams on the two sides, and the events on which the two
aggregations agree. -/
namespace TeeProof

open JsVal Verifier
open Value (Map)
open Enclave (put field strField arrayField objectField IndexMap indexOr padTo objectAt typeOf)

variable {numbers : Numbers}

/-! Content parts. -/

/-- The parts of an item. -/
def contentOf (item : Map) : List Value := (arrayField item "content").getD []

/-- The position the enclave takes for a part. -/
def partIndex (item event : Map) : Nat :=
  ((field event "content_index").bind Value.asU64).getD (contentOf item).length

/-- Both sides take the same array position for the part, next to the ones there. -/
structure PartAgrees (item event : Map) (w : JsVal) : Prop where
  index : numberOrDefault (w.get "content_index") (contentOf item).length = .finite (partIndex item event)
  near : partIndex item event ≤ (contentOf item).length
  fits : partIndex item event < maxArray

/-- What a text event does to its part. -/
def partChange (appendField : Option Str) (appendValue : Option Value) (setField : Option Str)
    (setValue : Option Value) (part : Map) : Map :=
  let part :=
    match appendField with
    | some key => Enclave.appendStringField part key appendValue
    | none => part
  match setField with
  | some key => Enclave.setStringField part key setValue
  | none => part

theorem same_contentOf {item : Map} {w : JsVal} (same : Same numbers (.object item) w) :
    List.Forall₂ (Same numbers) (contentOf item) (w.get "content").items := by
  rcases (same.read "content" (by decide)).array with ⟨items, items', held, eq, pairs⟩ | ⟨none, empty, -⟩
  · rw [contentOf, arrayField, held, eq]
    exact pairs
  · rw [contentOf, arrayField, none, empty]
    exact .nil

theorem same_contentPart {item event : Map} {w u : JsVal} (same : Same numbers (.object item) w)
    (agrees : PartAgrees item event u) {rawPart : Option Value} {x : JsVal} (raw : SameField numbers rawPart x)
    {appendField : Option Str} {appendValue : Option Value} {setField : Option Str} {setValue : Option Value}
    {change : JsVal → JsVal}
    (changes : ∀ part y, Same numbers (.object part) y →
      Same numbers (.object (partChange appendField appendValue setField setValue part)) (change y)) :
    Same numbers
      (.object (Enclave.mergeOpenAiResponseContentPart item (field event "content_index") rawPart appendField
        appendValue setField setValue))
      (mergeOpenAIResponseContentPart w (u.get "content_index") x change) := by
  have pairs := same_contentOf same
  have part := same_objectAt pairs _ agrees.fits
  have merged : Same numbers
      (.object (Enclave.extend (objectAt (padTo (contentOf item) (partIndex item event)) (partIndex item event))
        ((rawPart.bind Value.asObject).getD [])))
      (if x.isRecord then
        mergeObject (if (nth (w.get "content").items (.finite (partIndex item event))).isRecord then
          (nth (w.get "content").items (.finite (partIndex item event))).spread else JsVal.empty) x
      else (if (nth (w.get "content").items (.finite (partIndex item event))).isRecord then
          (nth (w.get "content").items (.finite (partIndex item event))).spread else JsVal.empty)) := by
    rcases raw.object with ⟨source, found, record, members⟩ | ⟨missing, noRecord⟩
    · rw [found, if_pos record]
      exact part.extend members
    · rw [missing, noRecord, Option.getD_none, if_neg Bool.false_ne_true]
      exact part
  have index := agrees.index
  rw [pairs.length_eq] at index
  unfold Verifier.mergeOpenAIResponseContentPart
  dsimp only
  rw [index]
  have items := same_setAt pairs (partIndex item event) agrees.near agrees.fits (changes _ _ merged)
  exact same.set "content" (by decide) (.array items) nofun

/-! The types of events, as the enclave spells them. -/

def outputText : TextKind := ⟨"response.output_text", "output_text", "text"⟩
def refusal : TextKind := ⟨"response.refusal", "refusal", "refusal"⟩
def reasoningText : TextKind := ⟨"response.reasoning_text", "reasoning_text", "text"⟩

def IsText (kind : TextKind) (type : Str) : Prop :=
  type = kind.type.toList ++ ".delta".toList ∨ type = kind.type.toList ++ ".done".toList

instance (kind : TextKind) (type : Str) : Decidable (IsText kind type) := inferInstanceAs (Decidable (_ ∨ _))

theorem isText_iff (kind : TextKind) (type : Str) :
    (isDelta kind (JStr.ofChars type) || isDone kind (JStr.ofChars type)) = decide (IsText kind type) := by
  have ending (text : String) :
      JStr.ofChars type = JStr.lit kind.type ++ JStr.lit text ↔ type = kind.type.toList ++ text.toList := by
    rw [JStr.lit, JStr.lit, ← ofChars_append, ofChars_injective.eq_iff]
  rw [Bool.eq_iff_iff, Bool.or_eq_true, isDelta, isDone, decide_eq_true_eq, decide_eq_true_eq, decide_eq_true_eq,
    ending, ending, IsText]

theorem isDone_ofChars (kind : TextKind) (type : Str) :
    isDone kind (JStr.ofChars type) = decide (type = kind.type.toList ++ ".done".toList) := by
  rw [isDone, JStr.lit, JStr.lit, ← ofChars_append]
  simp only [ofChars_injective.eq_iff]

theorem find_textKind (type : Str) :
    textKinds.find? (fun kind => isDelta kind (JStr.ofChars type) || isDone kind (JStr.ofChars type)) =
      if IsText outputText type then some outputText
      else if IsText refusal type then some refusal
      else if IsText reasoningText type then some reasoningText
      else none := by
  have kinds : textKinds = [outputText, refusal, reasoningText] := rfl
  simp only [isText_iff, kinds, List.find?_cons, List.find?_nil]
  by_cases first : IsText outputText type
  · simp [first]
  by_cases second : IsText refusal type
  · simp [first, second]
  by_cases third : IsText reasoningText type
  · simp [first, second, third]
  · simp [first, second, third]

theorem endsWith_done (front : Str) : Str.endsWith ".done" (front ++ ".done".toList) = true :=
  List.isSuffixOf_iff_suffix.mpr ⟨front, rfl⟩

theorem endsWith_delta (front : Str) : Str.endsWith ".done" (front ++ ".delta".toList) = false := by
  rw [Bool.eq_false_iff]
  intro ends
  obtain ⟨other, eq⟩ := List.isSuffixOf_iff_suffix.mp ends
  have last := congrArg List.getLast? eq
  rw [List.getLast?_append, List.getLast?_append] at last
  exact absurd (Option.some.inj last) (by decide)

/-! One event. -/

/-- The position the enclave takes for an item. -/
def itemIndex (items : IndexMap) (event : Map) : Int := indexOr event "output_index" items.length

def itemAt (items : IndexMap) (event : Map) : Map := (OrdMap.find (itemIndex items event) items).getD []

/-- Both sides take the same index for the item. -/
def ItemAgrees (items : IndexMap) (event : Map) (w : JsVal) : Prop :=
  numberOrDefault (w.get "output_index") items.length = .finite (itemIndex items event)

section Items

variable {items : IndexMap} {nums : NumMap} (same : SameIndexed numbers items nums) {event : Map} {w : JsVal}
  (members : Same numbers (.object event) w) (item : ItemAgrees items event w)

include same item

/-- One item is changed, or made and changed. -/
theorem same_item {change : Map → Map} {changeJs : JsVal → JsVal}
    (changes : ∀ u, Same numbers (.object (itemAt items event)) u →
      Same numbers (.object (change (itemAt items event))) (changeJs u)) :
    SameIndexed numbers (Enclave.entry items (indexOr event "output_index" items.length) [] change)
      (ensureIndexedObject nums (w.get "output_index") changeJs) := by
  unfold Verifier.ensureIndexedObject
  dsimp only
  rw [same.length_eq, item]
  exact same.set _ (changes _ (same.getD _ .empty))

include members

theorem same_itemEvent :
    SameIndexed numbers
      (Enclave.entry items (indexOr event "output_index" items.length) [] fun itemOut =>
        match objectField event "item" with
        | some rawItem => Enclave.extend itemOut rawItem
        | none => itemOut)
      (ensureIndexedObject nums (w.get "output_index") fun itemOut =>
        if (w.get "item").isRecord then mergeObject itemOut (w.get "item") else itemOut) :=
  same_item same item fun _ held => members.whenObject "item" (by decide) held fun _ _ value => held.extend value

theorem same_partEvent (part : PartAgrees (itemAt items event) event w) :
    SameIndexed numbers
      (Enclave.entry items (indexOr event "output_index" items.length) [] fun itemOut =>
        Enclave.mergeOpenAiResponseContentPart itemOut (field event "content_index") (field event "part")
          none none none none)
      (ensureIndexedObject nums (w.get "output_index") fun itemOut =>
        mergeOpenAIResponseContentPart itemOut (w.get "content_index") (w.get "part") id) :=
  same_item same item fun _ held => same_contentPart held part (members.read "part" (by decide)) fun _ _ value => value

theorem same_argumentsEvent (type : Str)
    (text : type = "response.function_call_arguments.delta".toList ∨
      type = "response.function_call_arguments.done".toList) :
    SameIndexed numbers
      (Enclave.entry items (indexOr event "output_index" items.length) [] fun itemOut =>
        if Str.endsWith ".done" type then
          Enclave.setStringField itemOut "arguments"
            (if Str.endsWith ".done" type then field event "arguments" else field event "delta")
        else
          Enclave.appendStringField itemOut "arguments"
            (if Str.endsWith ".done" type then field event "arguments" else field event "delta"))
      (argumentsStep nums w (type = "response.function_call_arguments.done".toList)) := by
  refine same_item same item fun u held => ?_
  rcases text with rfl | rfl
  · have delta : Str.endsWith ".done" "response.function_call_arguments.delta".toList = false :=
      endsWith_delta "response.function_call_arguments".toList
    have apart : decide ("response.function_call_arguments.delta".toList =
        "response.function_call_arguments.done".toList) = false := by decide
    simp only [delta, apart, Bool.false_eq_true, if_false]
    exact held.append "arguments" (by decide) (members.read "delta" (by decide))
  · have done : Str.endsWith ".done" "response.function_call_arguments.done".toList = true :=
      endsWith_done "response.function_call_arguments".toList
    simp only [done, decide_true, if_true]
    exact held.setString "arguments" (by decide) (members.read "arguments" (by decide))

theorem same_textEvent (kind : TextKind) (safe : kind.field.toList ≠ protoName)
    (part : PartAgrees (itemAt items event) event w) {type : Str} (text : IsText kind type) :
    SameIndexed numbers
      (Enclave.aggregateOpenAiResponsesStream.text items event type kind.partType kind.field)
      (textEventStep kind nums w (isDone kind (JStr.ofChars type))) := by
  have fresh : SameField numbers (some (Value.ofFields [("type", .lit kind.partType)]))
      (ofObject [("type", JsVal.lit kind.partType)]) :=
    .present (Same.empty.set "type" (by decide) (.lit kind.partType) nofun) nofun
  unfold Enclave.aggregateOpenAiResponsesStream.text textEventStep
  rw [isDone_ofChars]
  refine same_item same item fun u held => ?_
  rcases text with rfl | rfl
  · have apart : kind.type.toList ++ ".delta".toList ≠ kind.type.toList ++ ".done".toList := by
      intro eq
      exact absurd (List.append_cancel_left eq) (by decide)
    simp only [endsWith_delta, decide_eq_false apart, Bool.false_eq_true, if_false]
    exact same_contentPart held part fresh fun _ _ value =>
      value.append kind.field.toList safe (members.read "delta" (by decide))
  · simp only [endsWith_done, decide_true, if_true]
    exact same_contentPart held part fresh fun _ _ value =>
      value.setString kind.field.toList safe (members.read kind.field safe)

end Items

theorem same_completed {out : Map} {u : JsVal} (target : AgreeOn numbers (fun _ => True) out u)
    {items : IndexMap} {nums : NumMap} (same : SameIndexed numbers items nums) :
    SameLocals numbers (fun _ => True)
      (if OrdMap.contains "status".toList out then (out, items) else (put out "status" (.lit "completed"), items))
      (if isUndefined (u.get "status") then ⟨u.set "status" (lit "completed"), nums⟩ else ⟨u, nums⟩) := by
  rw [target.isUndefined_get "status" trivial (by decide)]
  cases OrdMap.contains "status".toList out with
  | true => exact ⟨target, same⟩
  | false => exact ⟨target.set "status".toList (by decide) (fun _ => .lit "completed") nofun, same⟩

theorem same_failed {out event : Map} {u w : JsVal} (target : AgreeOn numbers (fun _ => True) out u)
    (members : Same numbers (.object event) w) {items : IndexMap} {nums : NumMap}
    (same : SameIndexed numbers items nums) :
    SameLocals numbers (fun _ => True) (Enclave.copyField out event "error", items)
      (if !isUndefined (w.get "error") then ⟨u.set "error" (w.get "error"), nums⟩ else ⟨u, nums⟩) := by
  have copied := target.copy members "error".toList (by decide)
  unfold copyDefined at copied
  cases missing : isUndefined (w.get (JStr.lit "error")) with
  | true => exact ⟨(if_pos missing).subst copied, same⟩
  | false => exact ⟨(if_neg (Bool.eq_false_iff.mp missing)).subst copied, same⟩

/-- The types of events that change a part of an item, and those that change an item. -/
def IsPartType (type : Str) : Prop :=
  (type = "response.content_part.added".toList ∨ type = "response.content_part.done".toList) ∨
    IsText outputText type ∨ IsText refusal type ∨ IsText reasoningText type

def IsItemType (type : Str) : Prop :=
  (type = "response.output_item.added".toList ∨ type = "response.output_item.done".toList) ∨ IsPartType type ∨
    (type = "response.function_call_arguments.delta".toList ∨
      type = "response.function_call_arguments.done".toList)

structure ResponsesEventAgrees (locals : Map × IndexMap) (event : Map) (w : JsVal) : Prop where
  item : IsItemType (typeOf event) → ItemAgrees locals.2 event w
  part : IsPartType (typeOf event) → PartAgrees (itemAt locals.2 event) event w

theorem responses_step {locals : Map × IndexMap} {s : Indexed} (state : SameLocals numbers (fun _ => True) locals s)
    {v : Value} {w : JsVal} (read : Reads numbers v w)
    (agrees : ∀ event, v = .object event → ResponsesEventAgrees locals event w) :
    SameLocals numbers (fun _ => True) (Enclave.aggregateOpenAiResponsesStream.item locals v) (responsesStep s w) := by
  obtain ⟨out, items⟩ := locals
  unfold Enclave.aggregateOpenAiResponsesStream.item responsesStep
  rcases read.same.object_cases with ⟨event, found, record, same⟩ | ⟨missing, noRecord⟩
  · have both := agrees event (eq_object found)
    simp only [found, record, Bool.not_true, Bool.false_eq_true, if_false, eventType_eq same]
    have merged := state.out.mergeField same "response" (by decide) responsesFields (by decide)
    unfold responsesEvent
    simp only [ofChars_eq_lit, find_textKind]
    by_cases item : typeOf event = "response.output_item.added".toList ∨
        typeOf event = "response.output_item.done".toList
    · rw [if_pos item, if_pos item]
      exact ⟨merged, same_itemEvent state.map same (both.item (.inl item))⟩
    rw [if_neg item, if_neg item]
    by_cases part : typeOf event = "response.content_part.added".toList ∨
        typeOf event = "response.content_part.done".toList
    · rw [if_pos part, if_pos part]
      exact ⟨merged, same_partEvent state.map same (both.item (.inr (.inl (.inl part)))) (both.part (.inl part))⟩
    rw [if_neg part, if_neg part]
    have text (kind : TextKind) (safe : kind.field.toList ≠ protoName) (known : IsText kind (typeOf event))
        (listed : IsPartType (typeOf event)) :=
      same_textEvent state.map same (both.item (.inr (.inl listed))) kind safe (both.part listed) known
    -- The verifier finds the family of a text event, the enclave tries them in turn.
    by_cases output : IsText outputText (typeOf event)
    · have named : typeOf event = "response.output_text.delta".toList ∨
          typeOf event = "response.output_text.done".toList := output
      rw [if_pos named, if_pos output]
      exact ⟨merged, text outputText (by decide) output (.inr (.inl output))⟩
    have unnamed : ¬(typeOf event = "response.output_text.delta".toList ∨
        typeOf event = "response.output_text.done".toList) := output
    rw [if_neg unnamed, if_neg output]
    by_cases refused : IsText refusal (typeOf event)
    · have named : typeOf event = "response.refusal.delta".toList ∨
          typeOf event = "response.refusal.done".toList := refused
      rw [if_pos named, if_pos refused]
      exact ⟨merged, text refusal (by decide) refused (.inr (.inr (.inl refused)))⟩
    have unnamed : ¬(typeOf event = "response.refusal.delta".toList ∨
        typeOf event = "response.refusal.done".toList) := refused
    rw [if_neg unnamed, if_neg refused]
    by_cases reasoned : IsText reasoningText (typeOf event)
    · have named : typeOf event = "response.reasoning_text.delta".toList ∨
          typeOf event = "response.reasoning_text.done".toList := reasoned
      rw [if_pos named, if_pos reasoned]
      exact ⟨merged, text reasoningText (by decide) reasoned (.inr (.inr (.inr reasoned)))⟩
    have unnamed : ¬(typeOf event = "response.reasoning_text.delta".toList ∨
        typeOf event = "response.reasoning_text.done".toList) := reasoned
    rw [if_neg unnamed, if_neg reasoned]
    dsimp only
    by_cases arguments : typeOf event = "response.function_call_arguments.delta".toList ∨
        typeOf event = "response.function_call_arguments.done".toList
    · rw [if_pos arguments, if_pos arguments]
      exact ⟨merged, same_argumentsEvent state.map same (both.item (.inr (.inr arguments))) _ arguments⟩
    rw [if_neg arguments, if_neg arguments]
    by_cases completed : typeOf event = "response.completed".toList
    · have failed : typeOf event ≠ "response.failed".toList := by
        rw [completed]
        decide
      rw [if_pos completed, if_neg (not_and_of_not_left _ failed)]
      simp only [completed, true_and]
      exact same_completed merged state.map
    rw [if_neg completed, if_neg (not_and_of_not_left _ completed)]
    by_cases failed : typeOf event = "response.failed".toList
    · rw [if_pos failed]
      simp only [failed, true_and]
      exact same_failed merged same state.map
    · rw [if_neg failed, if_neg (not_and_of_not_left _ failed)]
      exact ⟨merged, state.map⟩
  · simp only [missing, noRecord, Bool.not_false, if_true]
    exact state

/-- The items take the place of an output that is missing or empty. -/
theorem same_output {out : Map} {u : JsVal} (target : AgreeOn numbers (fun _ => True) out u) {items : IndexMap}
    {nums : NumMap} (same : SameIndexed numbers items nums) :
    AgreeOn numbers (fun _ => True)
      (if ((arrayField out "output").map List.isEmpty).getD true && !items.isEmpty then
        put out "output" (Enclave.objects items) else out)
      (if nums.length > 0 ∧ (u.get "output").items = [] then u.set "output" (sortedValues nums) else u) := by
  have empty : (u.get "output").items = [] ↔ ((arrayField out "output").map List.isEmpty).getD true = true := by
    rcases (target.get "output".toList trivial (by decide)).array with ⟨list, list', found, eq, pairs⟩ | ⟨none, no, -⟩
    · have shown : u.get (JStr.lit "output") = .arr list' := eq
      rw [shown, arrayField, found]
      cases pairs <;> simp [JsVal.items]
    · rw [arrayField, none]
      exact iff_of_true no rfl
  have valued := target.set "output".toList (by decide) (fun _ => same.values) nofun
  rw [same.length_eq]
  revert empty
  generalize ((arrayField out "output").map List.isEmpty).getD true = missing
  intro empty
  cases items with
  | nil =>
    rw [if_neg (by simp), if_neg (by simp)]
    exact target
  | cons first rest =>
    cases missing with
    | true =>
      rw [if_pos (by simp), if_pos ⟨by simp, empty.mpr rfl⟩]
      exact valued
    | false =>
      rw [if_neg (by simp), if_neg (not_and_of_not_right _ (mt empty.mp (by simp)))]
      exact target

/-- In a stream whose events all meet the condition, the two aggregations agree after
every event. -/
theorem aggregateOpenAIResponsesStream_same (numbers : Numbers) (events : List (Json numbers.Token))
    (plain : ∀ e ∈ events, e.plain = true)
    (meets : Meets numbers Enclave.aggregateOpenAiResponsesStream.item ResponsesEventAgrees ([], []) events) (n : Nat) :
    Same numbers (Enclave.aggregateOpenAiResponsesStream (.array ((events.take n).map (Json.toRust numbers))))
      (aggregateOpenAIResponsesStream ((events.take n).map (Json.toJs numbers))) := by
  have run := rel_meets (I := SameLocals numbers fun _ => True)
    (fun _ _ _ _ state read both => responses_step state read fun event eq => (both event eq).2) (events.take n)
    (fun e member => plain e (List.mem_of_mem_take member)) (fun _ _ _ _ => trivial) SameLocals.init (meets.take n)
  revert run
  unfold Enclave.aggregateOpenAiResponsesStream aggregateOpenAIResponsesStream responsesFinish
  simp only [Value.asArray]
  generalize ((events.take n).map (Json.toRust numbers)).foldl _ _ = locals
  generalize ((events.take n).map (Json.toJs numbers)).foldl _ _ = s
  intro run
  obtain ⟨out, items⟩ := locals
  exact (same_output run.out run.map).pick responsesFields (by decide)

/-- A delta of a text part. -/
def responsesDelta (content : Fin (2 ^ 53)) : Json Numbers.sample.Token :=
  .obj [("type".toList, .str "response.output_text.delta".toList), ("output_index".toList, .num Numbers.zero),
    ("content_index".toList, .num content), ("delta".toList, .str "hi".toList)]

theorem aggregateOpenAIResponsesStream_same_delta :
    (responsesDelta 0).plain = true ∧
      Same Numbers.sample
        (Enclave.aggregateOpenAiResponsesStream
          (.array (([responsesDelta 0].take 1).map (Json.toRust Numbers.sample))))
        (aggregateOpenAIResponsesStream (([responsesDelta 0].take 1).map (Json.toJs Numbers.sample))) := by
  have plain : (responsesDelta 0).plain = true := by decide
  refine ⟨plain, aggregateOpenAIResponsesStream_same Numbers.sample [responsesDelta 0] (by simpa using plain)
    ⟨fun event read => ?_, trivial⟩ 1⟩
  obtain rfl := (Value.object.inj read).symm
  refine ⟨fun _ => ?_, fun _ => ⟨?_, ?_, ?_⟩⟩
  · unfold ItemAgrees
    decide
  · decide
  · decide
  · decide

/-- A part past the end: the enclave fills the gap with empty objects, the verifier
leaves a hole. -/
theorem responses_parts_differ :
    (responsesDelta 1).plain = true ∧
      (∀ event, (responsesDelta 1).toRust Numbers.sample = .object event →
        IsIndex (field event "output_index") ∧ IsIndex (field event "content_index")) ∧
      ¬Same Numbers.sample
        (Enclave.aggregateOpenAiResponsesStream (.array ([responsesDelta 1].map (Json.toRust Numbers.sample))))
        (aggregateOpenAIResponsesStream ([responsesDelta 1].map (Json.toJs Numbers.sample))) := by
  refine ⟨by decide, fun event read => ?_, fun same => ?_⟩
  · obtain rfl := (Value.object.inj read).symm
    refine ⟨fun v held => ?_, fun v held => ?_⟩
    · obtain rfl := Option.some.inj held
      exact ⟨0, rfl, by decide⟩
    · obtain rfl := Option.some.inj held
      exact ⟨1, rfl, by decide⟩
  · have output := (show Same Numbers.sample (.object _) _ from same).read "output" (by decide)
    rcases output.array with ⟨items, items', held, eq, pairs⟩ | ⟨missing, -⟩
    · obtain rfl := Option.some.inj held
      obtain rfl : items' = _ := (JsVal.arr.inj eq).symm
      cases pairs with
      | cons first rest =>
        rcases (first.read "content" (by decide)).array with ⟨parts, parts', held, eq, pairs⟩ | ⟨missing, -⟩
        · obtain rfl := Option.some.inj held
          obtain rfl : parts' = _ := (JsVal.arr.inj eq).symm
          cases pairs with
          | cons gap rest => cases gap
        · cases missing
    · cases missing

end TeeProof
