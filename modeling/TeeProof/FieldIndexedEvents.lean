import TeeProof.FieldProof
import TeeProof.IndexAgreement
import TeeProof.Interleaving

/-! Events of one choice, candidate, item or block in the verifier's aggregation. Its maps keep the order
in which indices first came, so two interleavings leave different maps with the same entries. -/
namespace TeeProof.Verifier

open JsVal
open Interleaving (Commutes SameByKey)

/-! Maps with the same entries. -/

structure SameEntries (m n : NumMap) : Prop where
  left : (m.map Prod.fst).Nodup
  right : (n.map Prod.fst).Nodup
  get : ∀ k, m.get k = n.get k

namespace SameEntries

variable {m n : NumMap}

theorem nil : SameEntries [] [] := ⟨List.nodup_nil, List.nodup_nil, fun _ => rfl⟩

theorem trans {o : NumMap} (first : SameEntries m n) (second : SameEntries n o) : SameEntries m o :=
  ⟨first.left, second.right, fun k => (first.get k).trans (second.get k)⟩

theorem set (same : SameEntries m n) (index : JsNumber) (value : JsVal) :
    SameEntries (m.set index value) (n.set index value) :=
  ⟨NumMap.nodup_set m same.left index value, NumMap.nodup_set n same.right index value,
    fun k => by rw [NumMap.get_set, NumMap.get_set, same.get]⟩

theorem perm (same : SameEntries m n) : m.Perm n := by
  refine (List.perm_ext_iff_of_nodup (List.Nodup.of_map _ same.left) (List.Nodup.of_map _ same.right)).mpr ?_
  rintro ⟨k, v⟩
  have here := same.get k
  constructor
  · intro member
    rw [NumMap.get, Assoc.lookup_of_mem same.left member] at here
    exact Assoc.mem_of_lookup here.symm
  · intro member
    rw [NumMap.get, NumMap.get, Assoc.lookup_of_mem same.right member] at here
    exact Assoc.mem_of_lookup here

theorem length_eq (same : SameEntries m n) : m.length = n.length := same.perm.length_eq

/-- Sorting forgets the order of arrival. -/
theorem sorted_eq (same : SameEntries m n) : m.sorted = n.sorted := by
  have perm : m.sorted.Perm n.sorted := (NumMap.sorted_perm m).trans (same.perm.trans (NumMap.sorted_perm n).symm)
  refine perm.eq_of_pairwise ?_ (NumMap.sorted_pairwise m) (NumMap.sorted_pairwise n)
  intro p q first second less more
  have left := Assoc.lookup_of_mem same.left ((NumMap.sorted_perm m).mem_iff.mp first)
  have right := Assoc.lookup_of_mem same.left (same.perm.mem_iff.mpr ((NumMap.sorted_perm n).mem_iff.mp second))
  rw [← JsNumber.le_antisymm less more, left] at right
  exact Prod.ext (JsNumber.le_antisymm less more) (Option.some.inj right)

theorem foldl {step other : NumMap → α → NumMap} {items : List α}
    (each : ∀ a ∈ items, ∀ m n, SameEntries m n → SameEntries (step m a) (other n a)) (same : SameEntries m n) :
    SameEntries (items.foldl step m) (items.foldl other n) := by
  induction items generalizing m n with
  | nil => exact same
  | cons a rest ih =>
    rw [List.forall_mem_cons] at each
    exact ih each.2 (each.1 m n same)

end SameEntries

/-- The entry is written anew from what stood there, or the map is left. -/
def touch (index : JsNumber) (change : Option JsVal → Option JsVal) (map : NumMap) : NumMap :=
  match change (map.get index) with
  | some v => map.set index v
  | none => map

theorem get_touch (index : JsNumber) (change : Option JsVal → Option JsVal) (map : NumMap) (k : JsNumber) :
    (touch index change map).get k = if k = index then (change (map.get index)).or (map.get index) else map.get k := by
  rw [touch]
  cases change (map.get index) with
  | some v => rw [Option.some_or, ← NumMap.get_set]
  | none =>
    rw [Option.none_or]
    by_cases same : k = index
    · rw [if_pos same, same]
    · rw [if_neg same]

theorem nodup_touch (index : JsNumber) (change : Option JsVal → Option JsVal) {map : NumMap}
    (nodup : (map.map Prod.fst).Nodup) : ((touch index change map).map Prod.fst).Nodup := by
  unfold touch
  split
  · exact NumMap.nodup_set map nodup _ _
  · exact nodup

theorem touch_comm {i j : JsNumber} (apart : i ≠ j) (f g : Option JsVal → Option JsVal) {map : NumMap}
    (nodup : (map.map Prod.fst).Nodup) : SameEntries (touch j g (touch i f map)) (touch i f (touch j g map)) := by
  refine ⟨nodup_touch j g (nodup_touch i f nodup), nodup_touch i f (nodup_touch j g nodup), fun k => ?_⟩
  simp only [get_touch, apart, apart.symm, if_false]
  by_cases first : k = i
  · simp [first, apart]
  · simp [first]

/-- The operation changes the entry of the index and nothing else. -/
def Touches (index : JsNumber) (F : NumMap → NumMap) : Prop := ∃ change, ∀ map, F map = touch index change map

namespace Touches

variable {i : JsNumber} {F G : NumMap → NumMap}

theorem id : Touches i fun map => map := ⟨fun _ => none, fun _ => rfl⟩

/-- The entry is written from what stood there. -/
theorem set {value : NumMap → JsVal} (reads : ∀ m n : NumMap, m.get i = n.get i → value m = value n) :
    Touches i fun map => map.set i (value map) := by
  refine ⟨fun old => some (value ((old.map fun v => (i, v)).toList)), fun map => ?_⟩
  have alike : value map = value (((map.get i).map fun v => (i, v)).toList) := by
    refine reads _ _ ?_
    cases map.get i with
    | none => rfl
    | some v => simp [NumMap.get]
  dsimp only
  rw [touch, alike]

theorem set_set (m : NumMap) (index : JsNumber) (v w : JsVal) : (m.set index v).set index w = m.set index w := by
  induction m with
  | nil => simp [NumMap.set]
  | cons p rest ih =>
    obtain ⟨k, u⟩ := p
    by_cases here : k = index
    · simp [NumMap.set, here]
    · simp [NumMap.set, here, ih]

theorem comp (outer : Touches i G) (inner : Touches i F) : Touches i fun map => G (F map) := by
  obtain ⟨g, outer⟩ := outer
  obtain ⟨f, inner⟩ := inner
  refine ⟨fun old => (g ((f old).or old)).or (f old), fun map => ?_⟩
  dsimp only
  rw [inner, outer, touch, touch, touch]
  cases first : f (map.get i) with
  | none =>
    rw [Option.none_or]
    cases g (map.get i) <;> rfl
  | some v =>
    simp only [Option.some_or, NumMap.get_set, if_true]
    cases g (some v) with
    | none => rfl
    | some w => exact set_set map i v w

theorem foldl {step : NumMap → α → NumMap} {items : List α} (each : ∀ a ∈ items, Touches i fun map => step map a) :
    Touches i fun map => items.foldl step map := by
  induction items with
  | nil => exact id
  | cons a rest ih =>
    rw [List.forall_mem_cons] at each
    exact (ih each.2).comp each.1

end Touches

/-! States that differ in the order of arrival only. -/

structure Indexed.Same (s t : Indexed) : Prop where
  out : s.out = t.out
  map : SameEntries s.map t.map

structure Nested.Same (s t : Nested) : Prop where
  out : s.out = t.out
  inner : s.inner = t.inner
  text : s.text = t.text
  map : SameEntries s.map t.map

section

variable {s t : Indexed} (same : s.Same t)
include same

theorem chatStep_same (event : JsVal) : (chatStep s event).Same (chatStep t event) := by
  unfold chatStep
  split
  · exact same
  · refine ⟨by rw [same.out], .foldl (fun p _ m n entries => ?_) same.map⟩
    unfold chatChoiceStep
    split
    · exact entries
    · simp only [entries.get]
      exact entries.set _ _

theorem responsesEvent_same (type : JStr) (event : JsVal) : (responsesEvent s type event).Same (responsesEvent t type event) := by
  unfold responsesEvent
  simp only [same.out, same.map.length_eq, same.map.get, textEventStep, argumentsStep, ensureIndexedObject]
  split
  · exact ⟨rfl, same.map.set _ _⟩
  · split
    · exact ⟨rfl, same.map.set _ _⟩
    · split
      · exact ⟨rfl, same.map.set _ _⟩
      · split
        · exact ⟨rfl, same.map.set _ _⟩
        · split
          · exact ⟨rfl, same.map⟩
          · split
            · exact ⟨rfl, same.map⟩
            · exact same

end

theorem responsesStep_same {s t : Indexed} (same : s.Same t) (event : JsVal) :
    (responsesStep s event).Same (responsesStep t event) := by
  unfold responsesStep
  split
  · exact same
  · rw [same.out]
    refine responsesEvent_same ?_ _ event
    exact ⟨rfl, same.map⟩

section

variable {s t : Indexed} (same : s.Same t)
include same

theorem anthropicStep_same (event : JsVal) : (anthropicStep s event).Same (anthropicStep t event) := by
  unfold anthropicStep
  simp only [same.out, same.map.length_eq, same.map.get]
  split
  · exact same
  · split
    · refine ⟨rfl, .foldl (fun p _ m n entries => ?_) same.map⟩
      rw [entries.get]
      split
      · exact entries.set _ _
      · exact entries
    · split
      · exact ⟨rfl, same.map.set _ _⟩
      · split
        · exact ⟨rfl, same.map.set _ _⟩
        · split
          · exact ⟨rfl, same.map⟩
          · split
            · exact ⟨rfl, same.map⟩
            · exact same

theorem geminiStep_same (event : JsVal) : (geminiStep s event).Same (geminiStep t event) := by
  unfold geminiStep
  split
  · exact same
  · refine ⟨by rw [same.out], .foldl (fun p _ m n entries => ?_) same.map⟩
    unfold geminiCandidateStep
    split
    · exact entries
    · simp only [entries.get]
      exact entries.set _ _

end

section

variable {s t : Nested} (same : s.Same t)
include same

theorem dashscopeStep_same (event : JsVal) : (dashscopeStep s event).Same (dashscopeStep t event) := by
  unfold dashscopeStep
  split
  · exact same
  · dsimp only
    split
    · exact ⟨by rw [same.out], same.inner, same.text, same.map⟩
    · refine ⟨by rw [same.out], by rw [same.inner], same.text, .foldl (fun p _ m n entries => ?_) same.map⟩
      unfold dashscopeChoiceStep
      split
      · exact entries
      · simp only [entries.get]
        exact entries.set _ _

omit same in
theorem bedrockBlock_same {m n : NumMap} (entries : SameEntries m n) (part : JsVal) (field : String)
    (merge : JsVal → JsVal → JsVal) : SameEntries (bedrockBlock m part field merge) (bedrockBlock n part field merge) := by
  unfold bedrockBlock
  split
  · simp only [entries.length_eq, entries.get]
    exact entries.set _ _
  · exact entries

theorem bedrockStep_same (event : JsVal) : (bedrockStep s event).Same (bedrockStep t event) := by
  unfold bedrockStep
  split
  · exact same
  · exact ⟨by simp only [same.out], by simp only [same.inner], same.text,
      bedrockBlock_same (bedrockBlock_same same.map _ _ _) _ _ _⟩

omit same in
theorem mergeCohereContentBlock_same {m n : NumMap} (entries : SameEntries m n) (index : JsNumber) (rawBlock : JsVal) :
    SameEntries (mergeCohereContentBlock m index rawBlock) (mergeCohereContentBlock n index rawBlock) := by
  unfold mergeCohereContentBlock
  split
  · rw [entries.get]
    exact entries.set _ _
  · exact entries

omit same in
theorem mergeCohereContent_same {m n : NumMap} (entries : SameEntries m n) (rawContent : JsVal) :
    SameEntries (mergeCohereContent m rawContent) (mergeCohereContent n rawContent) := by
  unfold mergeCohereContent
  split
  · exact .foldl (fun p _ m n entries => mergeCohereContentBlock_same entries _ _) entries
  · rw [entries.length_eq]
    exact mergeCohereContentBlock_same entries _ _
  · rw [entries.get]
    exact entries.set _ _
  · exact entries

omit same in
theorem mergeCohereMessageDelta_same {m n : NumMap} (entries : SameEntries m n) (message rawMessage : JsVal) :
    (mergeCohereMessageDelta message m rawMessage).1 = (mergeCohereMessageDelta message n rawMessage).1 ∧
      SameEntries (mergeCohereMessageDelta message m rawMessage).2 (mergeCohereMessageDelta message n rawMessage).2 := by
  unfold mergeCohereMessageDelta
  split
  · exact ⟨rfl, mergeCohereContent_same entries _⟩
  · exact ⟨rfl, entries⟩

theorem cohereFinishReason_same (source : JsVal) : (cohereFinishReason s source).Same (cohereFinishReason t source) := by
  unfold cohereFinishReason
  exact ⟨by rw [same.out], by rw [same.inner], same.text, same.map⟩

end

/-- The end of a Cohere event, from the state after its message. -/
theorem cohereEnd_same {s t : Nested} (same : s.Same t) (ended : Prop) [Decidable ended] (delta event : JsVal) :
    let end' (s : Nested) : Nested :=
      let s := if ended then
          let s := cohereFinishReason s delta
          { s with out := copyDefined "usage" s.out delta }
        else s
      let s := cohereFinishReason s event
      { s with out := copyDefined "error" s.out event }
    (end' s).Same (end' t) := by
  have field {s t : Nested} (same : s.Same t) (name : JStr) (source : JsVal) :
      Nested.Same { s with out := copyDefined name s.out source } { t with out := copyDefined name t.out source } :=
    ⟨by rw [same.out], same.inner, same.text, same.map⟩
  dsimp only
  split
  · exact field (cohereFinishReason_same (field (cohereFinishReason_same same delta) "usage" delta) event) "error" event
  · exact field (cohereFinishReason_same same event) "error" event

theorem cohereStep_same {s t : Nested} (same : s.Same t) (event : JsVal) : (cohereStep s event).Same (cohereStep t event) := by
  obtain ⟨out, inner, map, text⟩ := s
  obtain ⟨out', inner', map', text'⟩ := t
  obtain ⟨rfl, rfl, rfl, entries⟩ := same
  unfold cohereStep
  split
  · exact ⟨rfl, rfl, rfl, entries⟩
  · refine cohereEnd_same ?_ _ _ event
    dsimp only
    by_cases record : (event.get "delta").isRecord = true
    · simp only [record, if_true]
      obtain ⟨message, blocks⟩ := mergeCohereMessageDelta_same entries inner ((event.get "delta").get "message")
      exact ⟨rfl, message, rfl, blocks⟩
    · simp only [record]
      exact ⟨rfl, rfl, rfl, entries⟩

/-! The index an event is about. -/

/-- A number under a key. -/
def explicitIndex (source : JsVal) (key : JStr) : Option JsNumber :=
  match source.get key with
  | .num n => some n
  | _ => none

/-- `numberOrDefault` takes a finite number only. -/
def finiteIndex (source : JsVal) (key : JStr) : Option JsNumber :=
  match source.get key with
  | .num (.finite q) => some (.finite q)
  | _ => none

/-- The index that every record of the array carries. -/
def commonIndex (read : JsVal → Option JsNumber) (items : List JsVal) : Option JsNumber :=
  match items.filter JsVal.isRecord with
  | [] => none
  | first :: rest => (read first).filter fun i => rest.all fun o => read o = some i

def lacks (source : JsVal) (keys : List JStr) : Bool := keys.all fun key => isUndefined (source.get key)

def itemTypes : List JStr :=
  ["response.output_item.added", "response.output_item.done", "response.content_part.added",
    "response.content_part.done", "response.output_text.delta", "response.output_text.done", "response.refusal.delta",
    "response.refusal.done", "response.reasoning_text.delta", "response.reasoning_text.done",
    "response.function_call_arguments.delta", "response.function_call_arguments.done"]

/-- The index of an event that touches nothing but the choice, candidate, item or block of that index. -/
def ownIndex (protocol : ProtocolFamily) (e : JsVal) : Option JsNumber :=
  if !e.isRecord then none
  else match protocol with
    | .openaiChat =>
      if lacks e ["model", "usage", "error"] then commonIndex (explicitIndex · "index") (e.get "choices").items else none
    | .openaiResponses =>
      if lacks e ["response"] ∧ eventType e ∈ itemTypes then finiteIndex e "output_index" else none
    | .anthropicMessages =>
      if eventType e = JStr.lit "content_block_start" ∨ eventType e = JStr.lit "content_block_delta" then
        explicitIndex e "index"
      else none
    | .gemini =>
      if lacks e ["promptFeedback", "usageMetadata", "error", "modelVersion"] then
        commonIndex (finiteIndex · "index") (e.get "candidates").items
      else none
    | .dashscope =>
      if lacks e ["usage", "request_id", "code", "message"] ∧ (e.get "output").isRecord ∧
          (e.get "output").entries.all (fun p => p.1 = JStr.lit "choices") then
        commonIndex (finiteIndex · "index") ((e.get "output").get "choices").items
      else none
    | .bedrock =>
      if lacks e ["messageStart", "messageStop", "metadata", "output", "error"] then
        commonIndex (finiteIndex · "contentBlockIndex") [e.get "contentBlockStart", e.get "contentBlockDelta"]
      else none
    | .cohere => none

theorem commonIndex_some {read : JsVal → Option JsNumber} {items : List JsVal} {i : JsNumber}
    (own : commonIndex read items = some i) : ∀ item ∈ items, item.isRecord = true → read item = some i := by
  intro item member record
  have listed : item ∈ items.filter JsVal.isRecord := List.mem_filter.mpr ⟨member, record⟩
  unfold commonIndex at own
  split at own
  next none => simp [none] at listed
  next first rest records =>
    rw [Option.filter_eq_some_iff] at own
    rw [records] at listed
    rcases List.mem_cons.mp listed with rfl | later
    · exact own.1
    · simpa using List.all_eq_true.mp own.2 item later

theorem numberElse_own {source : JsVal} {key : JStr} {i : JsNumber} (own : explicitIndex source key = some i)
    (fallback : Nat) : numberElse (source.get key) fallback = i := by
  unfold explicitIndex at own
  split at own
  next n number => rw [number, numberElse, Option.some.inj own]
  next => cases own

theorem numberOrDefault_own {source : JsVal} {key : JStr} {i : JsNumber} (own : finiteIndex source key = some i)
    (fallback : Nat) : numberOrDefault (source.get key) fallback = i := by
  unfold finiteIndex at own
  split at own
  next n number => rw [number, numberOrDefault, Option.some.inj own]
  next => cases own

theorem lacks_iff {source : JsVal} {keys : List JStr} :
    lacks source keys = true ↔ ∀ key ∈ keys, isUndefined (source.get key) = true := by
  simp [lacks]

theorem chatStep_own {e : JsVal} {i : JsNumber} (own : ownIndex .openaiChat e = some i) :
    ∃ F, Touches i F ∧ ∀ s, chatStep s e = { s with map := F s.map } := by
  unfold ownIndex at own
  split at own
  next => cases own
  next record =>
    dsimp only at own
    split at own
    next bare =>
      simp only [lacks_iff, List.forall_mem_cons, List.not_mem_nil, false_imp_iff, implies_true, and_true] at bare
      refine ⟨fun map => (e.get "choices").items.zipIdx.foldl (fun m p => chatChoiceStep m p.1 p.2) map,
        .foldl fun p member => ?_, fun s => ?_⟩
      · unfold chatChoiceStep
        cases isObject : p.1.isRecord with
        | false => exact .id
        | true =>
          have index := commonIndex_some own p.1 (List.fst_mem_of_mem_zipIdx member) isObject
          simp only [Bool.not_true, Bool.false_eq_true, if_false, numberElse_own index]
          exact .set fun m n same => by simp only [same]
      · have plain : isString (e.get "model") = false := by
          cases model : e.get "model" <;> simp_all [isUndefined, isString]
        simp only [chatStep, record, copyDefined, bare, plain, Bool.and_false, Bool.false_eq_true, if_false, if_true]
    next => cases own

/-- The arm of the events that carry an item. -/
def itemStep (event : JsVal) (map : NumMap) : NumMap :=
  let index := numberOrDefault (event.get "output_index") map.length
  let item := (map.get index).getD empty
  map.set index (if (event.get "item").isRecord then mergeObject item (event.get "item") else item)

/-- The arm of the events that carry a content part. -/
def partStep (event : JsVal) (map : NumMap) : NumMap :=
  ensureIndexedObject map (event.get "output_index") fun item =>
    mergeOpenAIResponseContentPart item (event.get "content_index") (event.get "part") id

/-- An event of an output item goes to one of the arms that write it. -/
theorem responsesEvent_item {type : JStr} (known : type ∈ itemTypes) (e : JsVal) :
    (∀ s, responsesEvent s type e = { s with map := itemStep e s.map }) ∨
    (∀ s, responsesEvent s type e = { s with map := partStep e s.map }) ∨
    (∃ kind done, ∀ s, responsesEvent s type e = { s with map := textEventStep kind s.map e done }) ∨
    (∃ done, ∀ s, responsesEvent s type e = { s with map := argumentsStep s.map e done }) := by
  simp only [itemTypes, List.mem_cons, List.not_mem_nil, or_false] at known
  rcases known with rfl | rfl | rfl | rfl | rfl | rfl | rfl | rfl | rfl | rfl | rfl | rfl
  · exact .inl fun _ => rfl
  · exact .inl fun _ => rfl
  · exact .inr (.inl fun _ => rfl)
  · exact .inr (.inl fun _ => rfl)
  · exact .inr (.inr (.inl ⟨⟨"response.output_text", "output_text", "text"⟩, false, fun _ => rfl⟩))
  · exact .inr (.inr (.inl ⟨⟨"response.output_text", "output_text", "text"⟩, true, fun _ => rfl⟩))
  · exact .inr (.inr (.inl ⟨⟨"response.refusal", "refusal", "refusal"⟩, false, fun _ => rfl⟩))
  · exact .inr (.inr (.inl ⟨⟨"response.refusal", "refusal", "refusal"⟩, true, fun _ => rfl⟩))
  · exact .inr (.inr (.inl ⟨⟨"response.reasoning_text", "reasoning_text", "text"⟩, false, fun _ => rfl⟩))
  · exact .inr (.inr (.inl ⟨⟨"response.reasoning_text", "reasoning_text", "text"⟩, true, fun _ => rfl⟩))
  · exact .inr (.inr (.inr ⟨false, fun _ => rfl⟩))
  · exact .inr (.inr (.inr ⟨true, fun _ => rfl⟩))

theorem responsesStep_own {e : JsVal} {i : JsNumber} (own : ownIndex .openaiResponses e = some i) :
    ∃ F, Touches i F ∧ ∀ s, responsesStep s e = { s with map := F s.map } := by
  unfold ownIndex at own
  split at own
  next => cases own
  next record =>
    dsimp only at own
    split at own
    next bare =>
      obtain ⟨bare, known⟩ := bare
      have alone : (e.get "response").isRecord = false := by
        have absent := lacks_iff.mp bare "response" List.mem_cons_self
        cases response : e.get "response" <;> simp_all [isUndefined, JsVal.isRecord]
      have index (fallback : Nat) := numberOrDefault_own own fallback
      have step (s : Indexed) : responsesStep s e = responsesEvent s (eventType e) e := by
        simp only [responsesStep, record, alone, Bool.false_eq_true, if_false]
      rcases responsesEvent_item known e with item | part | ⟨kind, done, text⟩ | ⟨done, arguments⟩
      · refine ⟨itemStep e, ?_, fun s => (step s).trans (item s)⟩
        unfold itemStep
        simp only [index]
        exact .set fun m n same => by simp only [same]
      · refine ⟨partStep e, ?_, fun s => (step s).trans (part s)⟩
        unfold partStep
        simp only [ensureIndexedObject, index]
        exact .set fun m n same => by simp only [same]
      · refine ⟨fun map => textEventStep kind map e done, ?_, fun s => (step s).trans (text s)⟩
        simp only [textEventStep, ensureIndexedObject, index]
        exact .set fun m n same => by simp only [same]
      · refine ⟨fun map => argumentsStep map e done, ?_, fun s => (step s).trans (arguments s)⟩
        simp only [argumentsStep, ensureIndexedObject, index]
        exact .set fun m n same => by simp only [same]
    next => cases own

theorem anthropicStep_own {e : JsVal} {i : JsNumber} (own : ownIndex .anthropicMessages e = some i) :
    ∃ F, Touches i F ∧ ∀ s, anthropicStep s e = { s with map := F s.map } := by
  unfold ownIndex at own
  split at own
  next => cases own
  next record =>
    dsimp only at own
    split at own
    next known =>
      have index (fallback : Nat) := numberElse_own own fallback
      rcases known with start | delta
      · cases given : (e.get "content_block").isRecord with
        | false =>
          refine ⟨fun map => map, .id, fun s => ?_⟩
          simp only [anthropicStep, record, start, given]
          rfl
        | true =>
          refine ⟨fun map => map.set i (e.get "content_block").spread, .set fun _ _ _ => rfl, fun s => ?_⟩
          simp only [anthropicStep, record, start, given, index]
          rfl
      · cases given : (e.get "delta").isRecord with
        | false =>
          refine ⟨fun map => map, .id, fun s => ?_⟩
          simp only [anthropicStep, record, delta, given]
          rfl
        | true =>
          refine ⟨fun map => map.set i (mergeAnthropicContentDelta ((map.get i).getD empty) (e.get "delta")),
            .set fun m n same => by simp only [same], fun s => ?_⟩
          simp only [anthropicStep, record, delta, given, index]
          rfl
    next => cases own

theorem geminiStep_own {e : JsVal} {i : JsNumber} (own : ownIndex .gemini e = some i) :
    ∃ F, Touches i F ∧ ∀ s, geminiStep s e = { s with map := F s.map } := by
  unfold ownIndex at own
  split at own
  next => cases own
  next record =>
    dsimp only at own
    split at own
    next bare =>
      simp only [lacks_iff, List.forall_mem_cons, List.not_mem_nil, false_imp_iff, implies_true, and_true] at bare
      refine ⟨fun map => (e.get "candidates").items.zipIdx.foldl (fun m p => geminiCandidateStep m p.1 p.2) map,
        .foldl fun p member => ?_, fun s => ?_⟩
      · unfold geminiCandidateStep
        cases isObject : p.1.isRecord with
        | false => exact .id
        | true =>
          have index := commonIndex_some own p.1 (List.fst_mem_of_mem_zipIdx member) isObject
          simp only [Bool.not_true, Bool.false_eq_true, if_false, numberOrDefault_own index]
          exact .set fun m n same => by simp only [same]
      · simp only [geminiStep, record, copyDefined, bare, Bool.false_eq_true, if_false, if_true, List.foldl_cons,
          List.foldl_nil]
    next => cases own

theorem dashscopeStep_own {e : JsVal} {i : JsNumber} (own : ownIndex .dashscope e = some i) :
    ∃ F, Touches i F ∧ ∀ s, dashscopeStep s e = { s with map := F s.map } := by
  unfold ownIndex at own
  split at own
  next => cases own
  next record =>
    dsimp only at own
    split at own
    next bare =>
      obtain ⟨bare, nested, only⟩ := bare
      simp only [lacks_iff, List.forall_mem_cons, List.not_mem_nil, false_imp_iff, implies_true, and_true] at bare
      refine ⟨fun map => ((e.get "output").get "choices").items.zipIdx.foldl
        (fun m p => dashscopeChoiceStep m p.1 p.2) map, .foldl fun p member => ?_, fun s => ?_⟩
      · unfold dashscopeChoiceStep
        cases isObject : p.1.isRecord with
        | false => exact .id
        | true =>
          have index := commonIndex_some own p.1 (List.fst_mem_of_mem_zipIdx member) isObject
          simp only [Bool.not_true, Bool.false_eq_true, if_false, numberOrDefault_own index]
          exact .set fun m n same => by simp only [same]
      · have kept : (e.get "output").entries.foldl
            (fun o p => if p.1 ≠ JStr.lit "choices" then o.set p.1 p.2 else o) s.inner = s.inner := by
          refine List.foldlRecOn (motive := fun o => o = s.inner) (e.get "output").entries _ rfl ?_
          rintro o rfl p member
          exact if_neg (not_not.mpr (of_decide_eq_true (List.all_eq_true.mp only p member)))
        simp only [dashscopeStep, record, nested, copyDefined, bare, Bool.not_true, Bool.false_eq_true, if_false, if_true,
          List.foldl_cons, List.foldl_nil]
        rw [kept]
    next => cases own

theorem bedrockBlock_own {i : JsNumber} {part : JsVal} (index : part.isRecord = true →
    finiteIndex part "contentBlockIndex" = some i) (field : String) (merge : JsVal → JsVal → JsVal) :
    Touches i fun map => bedrockBlock map part field merge := by
  unfold bedrockBlock
  cases record : part.isRecord with
  | false => exact .id
  | true =>
    simp only [if_true, numberOrDefault_own (index record)]
    exact .set fun m n same => by simp only [same]

theorem bedrockStep_own {e : JsVal} {i : JsNumber} (own : ownIndex .bedrock e = some i) :
    ∃ F, Touches i F ∧ ∀ s, bedrockStep s e = { s with map := F s.map } := by
  unfold ownIndex at own
  split at own
  next => cases own
  next record =>
    dsimp only at own
    split at own
    next bare =>
      have index := commonIndex_some own
      simp only [lacks_iff, List.forall_mem_cons, List.not_mem_nil, false_imp_iff, implies_true, and_true] at bare index
      obtain ⟨messageStart, messageStop, metadata, output, error⟩ := bare
      have plain {value : JsVal} (absent : isUndefined value = true) : value.isRecord = false := by
        cases value <;> simp_all [isUndefined, JsVal.isRecord]
      refine ⟨_, .comp (bedrockBlock_own index.2 "delta" mergeBedrockContentDelta)
        (bedrockBlock_own index.1 "start" mergeObject), fun s => ?_⟩
      simp only [bedrockStep, record, copyDefined, plain messageStart, plain messageStop, plain metadata, plain output, error,
        Bool.false_eq_true, if_false, if_true]
    next => cases own

/-! Interleavings. -/

theorem Indexed.Same.init : Indexed.Same .init .init := ⟨rfl, .nil⟩
theorem Nested.Same.init : Nested.Same .init .init := ⟨rfl, rfl, rfl, .nil⟩

theorem Indexed.Same.trans {s t u : Indexed} (first : s.Same t) (second : t.Same u) : s.Same u :=
  ⟨first.out.trans second.out, first.map.trans second.map⟩

theorem Nested.Same.trans {s t u : Nested} (first : s.Same t) (second : t.Same u) : s.Same u :=
  ⟨first.out.trans second.out, first.inner.trans second.inner, first.text.trans second.text, first.map.trans second.map⟩

/-- A step that, for an event of an index, touches that entry only. -/
theorem commutes_of_touches {σ : Type} {step : σ → JsVal → σ} {own : JsVal → Option JsNumber} (read : σ → NumMap)
    (write : NumMap → σ → σ) {same : σ → σ → Prop} (read_write : ∀ map s, read (write map s) = map)
    (write_write : ∀ map other s, write other (write map s) = write other s)
    (entries : ∀ s, same s s → ((read s).map Prod.fst).Nodup)
    (replaced : ∀ s m n, same s s → SameEntries m n → same (write m s) (write n s))
    (trans : ∀ s t u, same s t → same t u → same s u) (congr : ∀ s t, same s t → ∀ e, same (step s e) (step t e))
    (touches : ∀ e i, own e = some i → ∃ F, Touches i F ∧ ∀ s, step s e = write (F (read s)) s) :
    Commutes step same own (fun e => (own e).isSome) where
  trans := trans
  congr e s t related := congr s t related e
  comm := by
    intro a b s ownA ownB apart fine
    obtain ⟨i, ownA⟩ := Option.isSome_iff_exists.mp ownA
    obtain ⟨j, ownB⟩ := Option.isSome_iff_exists.mp ownB
    obtain ⟨F, ⟨f, atF⟩, stepA⟩ := touches a i ownA
    obtain ⟨G, ⟨g, atG⟩, stepB⟩ := touches b j ownB
    have other : i ≠ j := by
      rintro rfl
      exact apart (ownA.trans ownB.symm)
    rw [stepA, stepB, read_write, write_write, stepB, stepA, read_write, write_write, atF, atG, atG, atF]
    exact replaced s _ _ fine (touch_comm other f g (entries s fine))

theorem Indexed.commutes {step : Indexed → JsVal → Indexed} {own : JsVal → Option JsNumber}
    (congr : ∀ s t, s.Same t → ∀ e, (step s e).Same (step t e))
    (touches : ∀ e i, own e = some i → ∃ F, Touches i F ∧ ∀ s, step s e = { s with map := F s.map }) :
    Commutes step Indexed.Same own (fun e => (own e).isSome) :=
  commutes_of_touches Indexed.map (fun map s => { s with map }) (fun _ _ => rfl) (fun _ _ _ => rfl)
    (fun _ same => same.map.left) (fun _ _ _ _ entries => ⟨rfl, entries⟩) (fun _ _ _ => .trans) congr touches

theorem Nested.commutes {step : Nested → JsVal → Nested} {own : JsVal → Option JsNumber}
    (congr : ∀ s t, s.Same t → ∀ e, (step s e).Same (step t e))
    (touches : ∀ e i, own e = some i → ∃ F, Touches i F ∧ ∀ s, step s e = { s with map := F s.map }) :
    Commutes step Nested.Same own (fun e => (own e).isSome) :=
  commutes_of_touches Nested.map (fun map s => { s with map }) (fun _ _ => rfl) (fun _ _ _ => rfl)
    (fun _ same => same.map.left) (fun _ _ _ _ entries => ⟨rfl, rfl, rfl, entries⟩) (fun _ _ _ => .trans) congr touches

/-! What is built at the end. -/

theorem sortedValues_same {m n : NumMap} (same : SameEntries m n) : sortedValues m = sortedValues n := by
  rw [sortedValues, sortedValues, same.sorted_eq]

theorem withValues_same {m n : NumMap} (same : SameEntries m n) (field : JStr) (out : JsVal) :
    withValues field m out = withValues field n out := by
  rw [withValues, withValues, sortedValues_same same, same.length_eq]

variable (node : Node)

/-- A piece of text for one block. -/
def blockPiece (index : Nat) (text : String) : JsVal :=
  ofObject [("type", lit "content_block_delta"), ("index", .num (.finite index)), ("delta", ofObject [("text", lit text)])]

end TeeProof.Verifier
