import TeeProof.Interleaving
import TeeProof.Rechunk
import TeeProof.Views

/-! Events of one choice, candidate, item or block: the enclave's aggregation of a stream that
interleaves several of them does not depend on the interleaving. -/
namespace TeeProof.Enclave

open Value (Map)
open Interleaving (Commutes SameByKey)

/-! The index an event is about. -/

/-- `source.get(key).and_then(Value::as_i64)`. -/
def explicitIndex (source : Map) (key : Str) : Option Int := (field source key).bind Value.asI64

/-- The index that every object of the array carries. -/
def commonIndex (key : Str) (items : List Value) : Option Int :=
  match items.filterMap Value.asObject with
  | [] => none
  | first :: rest => (explicitIndex first key).filter fun i => rest.all fun o => explicitIndex o key = some i

def lacks (source : Map) (keys : List Str) : Bool := keys.all fun key => (field source key).isNone

def itemTypes : List Str :=
  ["response.output_item.added", "response.output_item.done", "response.content_part.added",
    "response.content_part.done", "response.output_text.delta", "response.output_text.done", "response.refusal.delta",
    "response.refusal.done", "response.reasoning_text.delta", "response.reasoning_text.done",
    "response.function_call_arguments.delta", "response.function_call_arguments.done"]

/-- The index of an event that touches nothing but the choice, candidate, item or block of that index. -/
def ownIndex (protocol : ProtocolFamily) (event : Value) : Option Int :=
  event.asObject.bind fun e =>
    match protocol with
    | .openaiChat =>
      if lacks e ["model", "usage", "error"] then (arrayField e "choices").bind (commonIndex "index") else none
    | .openaiResponses =>
      if lacks e ["response"] ∧ typeOf e ∈ itemTypes then explicitIndex e "output_index" else none
    | .anthropicMessages =>
      if typeOf e = "content_block_start".toList ∨ typeOf e = "content_block_delta".toList then explicitIndex e "index"
      else none
    | .gemini =>
      if lacks e ["promptFeedback", "usageMetadata", "error", "modelVersion"] then
        (arrayField e "candidates").bind (commonIndex "index")
      else none
    | .dashscope =>
      if lacks e ["usage", "request_id", "code", "message"] then
        (objectField e "output").bind fun output =>
          if output.all fun p => p.1 = "choices".toList then (arrayField output "choices").bind (commonIndex "index")
          else none
      else none
    | .bedrock =>
      if lacks e ["messageStart", "messageStop", "metadata", "output", "error"] then
        commonIndex "contentBlockIndex"
          ([field e "contentBlockStart", field e "contentBlockDelta"].filterMap id)
      else none
    | .cohere => none

theorem commonIndex_some {key : Str} {items : List Value} {i : Int} (own : commonIndex key items = some i) :
    ∀ item ∈ items, ∀ o, item.asObject = some o → explicitIndex o key = some i := by
  intro item member o object
  have listed : o ∈ items.filterMap Value.asObject := List.mem_filterMap.mpr ⟨item, member, object⟩
  unfold commonIndex at own
  split at own
  next none => simp [none] at listed
  next first rest objects =>
    rw [Option.filter_eq_some_iff] at own
    rw [objects] at listed
    rcases List.mem_cons.mp listed with rfl | later
    · exact own.1
    · simpa using List.all_eq_true.mp own.2 o later

theorem indexOr_explicit {source : Map} {key : Str} {i : Int} (own : explicitIndex source key = some i) (fallback : Nat) :
    indexOr source key fallback = i := by
  rw [explicitIndex] at own
  rw [indexOr, own, Option.getD_some]

theorem lacks_iff {source : Map} {keys : List Str} : lacks source keys = true ↔ ∀ key ∈ keys, field source key = none := by
  simp [lacks]

/-! A change of one entry. -/

/-- The entry is written anew from what stood there, or the map is left. -/
def touch (index : Int) (change : Option Map → Option Map) (map : IndexMap) : IndexMap :=
  match change (OrdMap.find index map) with
  | some m => OrdMap.insert index m map
  | none => map

theorem find_touch_ne {i j : Int} (apart : j ≠ i) (change : Option Map → Option Map) (map : IndexMap) :
    OrdMap.find j (touch i change map) = OrdMap.find j map := by
  unfold touch
  split
  · exact OrdMap.find_insert_ne i j apart _ map
  · rfl

/-- Changes of different entries can be made in either order. -/
theorem touch_comm {i j : Int} (apart : i ≠ j) (f g : Option Map → Option Map) (map : IndexMap) :
    touch j g (touch i f map) = touch i f (touch j g map) := by
  rw [touch, find_touch_ne apart.symm, touch, touch, find_touch_ne apart, touch]
  cases f (OrdMap.find i map) <;> cases g (OrdMap.find j map) <;> try rfl
  exact OrdMap.insert_comm apart.symm _ _ map

theorem sorted_touch {map : IndexMap} (sorted : OrdMap.Sorted map) (index : Int) (change : Option Map → Option Map) :
    OrdMap.Sorted (touch index change map) := by
  unfold touch
  split
  · exact sorted.insert _ _
  · exact sorted

/-- The operation changes the entry of the index and nothing else, on maps of a kind. -/
def Touches (good : IndexMap → Prop) (index : Int) (F : IndexMap → IndexMap) : Prop :=
  ∃ change, ∀ map, good map → F map = touch index change map

/-- Maps of the kind stay of the kind. -/
def Closed (good : IndexMap → Prop) : Prop := ∀ index change map, good map → good (touch index change map)

theorem closed_any : Closed fun _ => True := fun _ _ _ _ => trivial

namespace Touches

variable {good : IndexMap → Prop} {i : Int} {F G : IndexMap → IndexMap}

theorem id : Touches good i fun map => map := ⟨fun _ => none, fun _ _ => rfl⟩

theorem insert (m : Map) : Touches good i (OrdMap.insert i m) := ⟨fun _ => some m, fun _ _ => rfl⟩

theorem entry (default : Map) (change : Map → Map) : Touches good i fun map => entry map i default change :=
  ⟨fun old => some (change (old.getD default)), fun _ _ => rfl⟩

theorem comp (closed : Closed good) (outer : Touches good i G) (inner : Touches good i F) :
    Touches good i fun map => G (F map) := by
  obtain ⟨g, outer⟩ := outer
  obtain ⟨f, inner⟩ := inner
  refine ⟨fun old => (g ((f old).or old)).or (f old), fun map fine => ?_⟩
  dsimp only
  rw [inner map fine, outer _ (closed i f map fine), touch, touch, touch]
  cases first : f (OrdMap.find i map) with
  | none =>
    rw [Option.none_or]
    cases g (OrdMap.find i map) <;> rfl
  | some m =>
    simp only [Option.some_or, OrdMap.find_insert_self]
    cases g (some m) with
    | none => rfl
    | some n => exact OrdMap.insert_insert i m n map

theorem foldl (closed : Closed good) {step : IndexMap → α → IndexMap} {items : List α}
    (each : ∀ a ∈ items, Touches good i fun map => step map a) : Touches good i fun map => items.foldl step map := by
  induction items with
  | nil => exact id
  | cons a rest ih =>
    rw [List.forall_mem_cons] at each
    exact comp closed (ih each.2) each.1

end Touches

/-! The events of each protocol. -/

theorem OpenAiChatStreamState.apply_own {event : Value} {i : Int} (own : ownIndex .openaiChat event = some i) :
    ∃ F, Touches (fun _ => True) i F ∧ ∀ s : OpenAiChatStreamState, s.apply event = { s with choices := F s.choices } := by
  obtain ⟨e, object, own⟩ := Option.bind_eq_some_iff.mp own
  dsimp only at own
  split at own
  next bare =>
    obtain ⟨rawChoices, listed, own⟩ := Option.bind_eq_some_iff.mp own
    refine ⟨fun choices => rawChoices.foldl aggregateOpenAiChatStream.choice choices, .foldl closed_any fun raw member => ?_, ?_⟩
    · unfold aggregateOpenAiChatStream.choice
      cases isObject : raw.asObject with
      | none => exact .id
      | some choiceObj =>
        have index := commonIndex_some own raw member choiceObj isObject
        simp only [indexOr_explicit index]
        exact .entry _ _
    · intro s
      simp only [lacks_iff, List.forall_mem_cons, List.not_mem_nil, false_imp_iff, implies_true, and_true] at bare
      simp only [apply, object, listed, applyChoices_eq, strField, copyField, bare, Option.bind_none, ite_self]
  next => cases own

/-- An event of an output item changes that item. -/
theorem OpenAiResponsesStreamState.apply_item {event : Value} {e : Map} (object : event.asObject = some e)
    (alone : field e "response" = none) (known : typeOf e ∈ itemTypes) :
    ∃ change, ∀ s : OpenAiResponsesStreamState, s.apply event = s.atItem e change := by
  simp only [itemTypes, List.mem_cons, List.not_mem_nil, or_false] at known
  rcases known with type | type | type | type | type | type | type | type | type | type | type | type <;>
    exact ⟨_, fun s => by simp only [apply, object, alone, type]; rfl⟩

theorem OpenAiResponsesStreamState.apply_own {event : Value} {i : Int} (own : ownIndex .openaiResponses event = some i) :
    ∃ F, Touches (fun _ => True) i F ∧ ∀ s : OpenAiResponsesStreamState, s.apply event = { s with outputItems := F s.outputItems } := by
  obtain ⟨e, object, own⟩ := Option.bind_eq_some_iff.mp own
  dsimp only at own
  split at own
  next bare =>
    obtain ⟨bare, known⟩ := bare
    obtain ⟨change, applied⟩ := apply_item object (lacks_iff.mp bare _ List.mem_cons_self) known
    refine ⟨fun map => entry map i [] change, .entry [] change, fun s => ?_⟩
    rw [applied, atItem, indexOr_explicit own]
  next => cases own

theorem AnthropicMessagesStreamState.apply_own {event : Value} {i : Int} (own : ownIndex .anthropicMessages event = some i) :
    ∃ F, Touches OrdMap.Sorted i F ∧ ∀ s : AnthropicMessagesStreamState, s.apply event = { s with contentBlocks := F s.contentBlocks } := by
  obtain ⟨e, object, own⟩ := Option.bind_eq_some_iff.mp own
  dsimp only at own
  split at own
  next known =>
    have index (fallback : Nat) := indexOr_explicit own fallback
    rcases known with start | delta
    · cases given : objectField e "content_block" with
      | none =>
        refine ⟨fun map => map, .id, fun s => ?_⟩
        simp only [apply, object, start, given]
        rfl
      | some block =>
        refine ⟨OrdMap.insert i block, .insert block, fun s => ?_⟩
        simp only [apply, object, start, given, index]
        rfl
    · cases given : objectField e "delta" with
      | none =>
        refine ⟨fun map => map, .id, fun s => ?_⟩
        simp only [apply, object, delta, given]
        rfl
      | some change =>
        refine ⟨fun map => OrdMap.insert i (mergeAnthropicContentDelta ((OrdMap.find i map).getD []) change)
          (OrdMap.erase i map), ⟨fun old => some (mergeAnthropicContentDelta (old.getD []) change), ?_⟩, fun s => ?_⟩
        · intro map sorted
          exact OrdMap.insert_erase sorted i _
        · simp only [apply, object, delta, given, index]
          rfl
  next => cases own

theorem GeminiGenerateContentStreamState.apply_own {event : Value} {i : Int} (own : ownIndex .gemini event = some i) :
    ∃ F, Touches (fun _ => True) i F ∧ ∀ s : GeminiGenerateContentStreamState, s.apply event = { s with candidates := F s.candidates } := by
  obtain ⟨e, object, own⟩ := Option.bind_eq_some_iff.mp own
  dsimp only at own
  split at own
  next bare =>
    obtain ⟨rawCandidates, listed, own⟩ := Option.bind_eq_some_iff.mp own
    refine ⟨fun candidates => rawCandidates.zipIdx.foldl aggregateGeminiGenerateContentStream.candidate candidates,
      .foldl closed_any fun raw member => ?_, ?_⟩
    · unfold aggregateGeminiGenerateContentStream.candidate
      cases isObject : raw.1.asObject with
      | none => exact .id
      | some candidateObj =>
        have index := commonIndex_some own raw.1 (List.fst_mem_of_mem_zipIdx member) candidateObj isObject
        simp only [indexOr_explicit index]
        exact .entry _ _
    · intro s
      simp only [lacks_iff, List.forall_mem_cons, List.not_mem_nil, false_imp_iff, implies_true, and_true] at bare
      simp only [apply, object, listed, applyCandidates_eq, copyField, bare, List.foldl_cons, List.foldl_nil]
  next => cases own

theorem DashscopeGenerationStreamState.apply_own {event : Value} {i : Int} (own : ownIndex .dashscope event = some i) :
    ∃ F, Touches (fun _ => True) i F ∧ ∀ s : DashscopeGenerationStreamState, s.apply event = { s with choices := F s.choices } := by
  obtain ⟨e, object, own⟩ := Option.bind_eq_some_iff.mp own
  dsimp only at own
  split at own
  next bare =>
    obtain ⟨output, nested, own⟩ := Option.bind_eq_some_iff.mp own
    split at own
    next only =>
      obtain ⟨rawChoices, listed, own⟩ := Option.bind_eq_some_iff.mp own
      refine ⟨fun choices => rawChoices.zipIdx.foldl aggregateDashscopeGenerationStream.choice choices,
        .foldl closed_any fun raw member => ?_, ?_⟩
      · unfold aggregateDashscopeGenerationStream.choice
        cases isObject : raw.1.asObject with
        | none => exact .id
        | some choiceObj =>
          have index := commonIndex_some own raw.1 (List.fst_mem_of_mem_zipIdx member) choiceObj isObject
          simp only [indexOr_explicit index]
          exact .entry _ _
      · intro s
        simp only [lacks_iff, List.forall_mem_cons, List.not_mem_nil, false_imp_iff, implies_true, and_true] at bare
        have kept (s : DashscopeGenerationStreamState) : output.foldl (fun self p =>
            if p.1 ≠ "choices".toList then { self with output := put self.output p.1 p.2 } else self) s = s := by
          refine List.foldlRecOn (motive := fun t => t = s) output _ rfl ?_
          rintro t rfl p member
          exact if_neg (not_not.mpr (of_decide_eq_true (List.all_eq_true.mp only p member)))
        simp only [apply, object, nested, listed, applyChoices_eq, copyField, bare, List.foldl_cons, List.foldl_nil]
        rw [kept]
    next => cases own
  next => cases own

/-- A block after `contentBlockStart`. -/
def startBlock (blockStart block : Map) : Map :=
  match objectField blockStart "start" with
  | some start => extend block start
  | none => block

/-- A block after `contentBlockDelta`. -/
def changeBlock (blockDelta block : Map) : Map :=
  match objectField blockDelta "delta" with
  | some delta => mergeBedrockContentDelta block delta
  | none => block

theorem BedrockConverseStreamState.apply_own {event : Value} {i : Int} (own : ownIndex .bedrock event = some i) :
    ∃ F, Touches (fun _ => True) i F ∧ ∀ s : BedrockConverseStreamState, s.apply event = { s with contentBlocks := F s.contentBlocks } := by
  obtain ⟨e, object, own⟩ := Option.bind_eq_some_iff.mp own
  dsimp only at own
  split at own
  next bare =>
    simp only [lacks_iff, List.forall_mem_cons, List.not_mem_nil, false_imp_iff, implies_true, and_true] at bare
    have at_own (key : Str) (given : field e key ∈ [field e "contentBlockStart", field e "contentBlockDelta"])
        (source : Map) (found : objectField e key = some source) (fallback : Nat) :
        indexOr source "contentBlockIndex" fallback = i := by
      obtain ⟨value, there, isObject⟩ := Option.bind_eq_some_iff.mp found
      refine indexOr_explicit (commonIndex_some own value ?_ source isObject) fallback
      exact List.mem_filterMap.mpr ⟨some value, there ▸ given, rfl⟩
    have start := at_own "contentBlockStart" List.mem_cons_self
    have delta := at_own "contentBlockDelta" (List.mem_cons_of_mem _ List.mem_cons_self)
    obtain ⟨messageStart, messageStop, metadata, output, error⟩ := bare
    have absent {key : Str} (missing : field e key = none) : objectField e key = none := by
      rw [objectField, missing]
      rfl
    have rest := And.intro (absent messageStart) (And.intro (absent messageStop) (absent metadata))
    cases started : objectField e "contentBlockStart" with
    | none =>
      cases changed : objectField e "contentBlockDelta" with
      | none =>
        refine ⟨fun map => map, .id, fun s => ?_⟩
        simp only [apply, object, started, changed, rest, output, copyField, error]
      | some blockDelta =>
        refine ⟨_, .entry [] (changeBlock blockDelta), fun s => ?_⟩
        simp only [apply, object, started, changed, rest, output, copyField, error, atBlock, delta blockDelta changed]
        rfl
    | some blockStart =>
      cases changed : objectField e "contentBlockDelta" with
      | none =>
        refine ⟨_, .entry [] (startBlock blockStart), fun s => ?_⟩
        simp only [apply, object, started, changed, rest, output, copyField, error, atBlock, start blockStart started]
        rfl
      | some blockDelta =>
        refine ⟨_, .comp closed_any (.entry [] (changeBlock blockDelta)) (.entry [] (startBlock blockStart)), fun s => ?_⟩
        simp only [apply, object, started, changed, rest, output, copyField, error, atBlock, start blockStart started,
          delta blockDelta changed]
        rfl
  next => cases own

/-! Interleavings. -/

/-- A step that, for an event of an index, touches that entry only. -/
theorem commutes_of_touches {σ : Type} {step : σ → Value → σ} {own : Value → Option Int} (read : σ → IndexMap)
    (write : IndexMap → σ → σ) {good : IndexMap → Prop} (closed : Closed good) (fine : σ → Prop) (read_write : ∀ map s, read (write map s) = map)
    (write_write : ∀ map other s, write other (write map s) = write other s)
    (kept : ∀ s event, fine s → fine (step s event))
    (of_kind : ∀ s, fine s → good (read s))
    (touches : ∀ event i, own event = some i → ∃ F, Touches good i F ∧ ∀ s, step s event = write (F (read s)) s) :
    Commutes step (fun s t => s = t ∧ fine s) own (fun event => (own event).isSome) where
  trans := by
    rintro s t u ⟨rfl, good⟩ ⟨rfl, -⟩
    exact ⟨rfl, good⟩
  congr := by
    rintro event s t ⟨rfl, good⟩
    exact ⟨rfl, kept s event good⟩
  comm := by
    rintro a b s ownA ownB apart ⟨-, wellMade⟩
    refine ⟨?_, kept _ b (kept s a wellMade)⟩
    obtain ⟨i, ownA⟩ := Option.isSome_iff_exists.mp ownA
    obtain ⟨j, ownB⟩ := Option.isSome_iff_exists.mp ownB
    obtain ⟨F, ⟨f, atF⟩, stepA⟩ := touches a i ownA
    obtain ⟨G, ⟨g, atG⟩, stepB⟩ := touches b j ownB
    have other : i ≠ j := by
      rintro rfl
      exact apart (ownA.trans ownB.symm)
    have ofKind := of_kind s wellMade
    rw [stepA, stepB, read_write, write_write, stepB, stepA, read_write, write_write, atF _ ofKind, atG _ ofKind,
      atG _ (closed i f _ ofKind), atF _ (closed j g _ ofKind), touch_comm other]

/-- Two interleavings of the same events are told apart by no state of a protocol's own. -/
theorem interleaved_state {σ : Type} {step : σ → Value → σ} {own : Value → Option Int} {fine : σ → Prop}
    (steps : Commutes step (fun s t => s = t ∧ fine s) own fun event => (own event).isSome) {start : σ} (fresh : fine start)
    {run other : List Value} (indexed : ∀ e ∈ other, (own e).isSome) (held : SameByKey own run other)
    (before after : List Value) :
    (before ++ other ++ after).foldl step start = (before ++ run ++ after).foldl step start :=
  (steps.inside indexed held before after ⟨rfl, fresh⟩).1

theorem anthropic_state_sorted (s : AnthropicMessagesStreamState) (event : Value) (sorted : OrdMap.Sorted s.contentBlocks) :
    OrdMap.Sorted (s.apply event).contentBlocks := by
  have kept := anthropic_sorted s.locals event sorted
  rw [AnthropicMessagesStreamState.locals_apply] at kept
  exact kept

theorem OpenAiChatStreamState.commutes : Commutes apply (fun s t => s = t ∧ True) (ownIndex .openaiChat)
    (fun event => (ownIndex .openaiChat event).isSome) :=
  commutes_of_touches (fun s => s.choices) (fun map s => { s with choices := map }) closed_any (fun _ => True)
    (fun _ _ => rfl) (fun _ _ _ => rfl) (fun _ _ _ => trivial) (fun _ _ => trivial) fun _ _ => apply_own

theorem OpenAiResponsesStreamState.commutes : Commutes apply (fun s t => s = t ∧ True) (ownIndex .openaiResponses)
    (fun event => (ownIndex .openaiResponses event).isSome) :=
  commutes_of_touches (fun s => s.outputItems) (fun map s => { s with outputItems := map }) closed_any (fun _ => True)
    (fun _ _ => rfl) (fun _ _ _ => rfl) (fun _ _ _ => trivial) (fun _ _ => trivial) fun _ _ => apply_own

theorem AnthropicMessagesStreamState.commutes : Commutes apply (fun s t => s = t ∧ OrdMap.Sorted s.contentBlocks)
    (ownIndex .anthropicMessages) (fun event => (ownIndex .anthropicMessages event).isSome) :=
  commutes_of_touches AnthropicMessagesStreamState.contentBlocks (fun map s => { s with contentBlocks := map })
    (fun index change _ sorted => sorted_touch sorted index change) (fun s : AnthropicMessagesStreamState => OrdMap.Sorted s.contentBlocks) (fun _ _ => rfl)
    (fun _ _ _ => rfl) anthropic_state_sorted (fun _ sorted => sorted) fun _ _ => apply_own

theorem GeminiGenerateContentStreamState.commutes : Commutes apply (fun s t => s = t ∧ True) (ownIndex .gemini)
    (fun event => (ownIndex .gemini event).isSome) :=
  commutes_of_touches (fun s => s.candidates) (fun map s => { s with candidates := map }) closed_any (fun _ => True)
    (fun _ _ => rfl) (fun _ _ _ => rfl) (fun _ _ _ => trivial) (fun _ _ => trivial) fun _ _ => apply_own

theorem DashscopeGenerationStreamState.commutes : Commutes apply (fun s t => s = t ∧ True) (ownIndex .dashscope)
    (fun event => (ownIndex .dashscope event).isSome) :=
  commutes_of_touches (fun s => s.choices) (fun map s => { s with choices := map }) closed_any (fun _ => True)
    (fun _ _ => rfl) (fun _ _ _ => rfl) (fun _ _ _ => trivial) (fun _ _ => trivial) fun _ _ => apply_own

theorem BedrockConverseStreamState.commutes : Commutes apply (fun s t => s = t ∧ True) (ownIndex .bedrock)
    (fun event => (ownIndex .bedrock event).isSome) :=
  commutes_of_touches (fun s => s.contentBlocks) (fun map s => { s with contentBlocks := map }) closed_any (fun _ => True)
    (fun _ _ => rfl) (fun _ _ _ => rfl) (fun _ _ _ => trivial) (fun _ _ => trivial) fun _ _ => apply_own

/-- A piece of text for one choice. -/
def choicePiece (index : Nat) (text : String) : Value :=
  .ofFields [("choices", .array [.ofFields [("index", .ofNat index), ("delta", .ofFields [("content", .lit text)])]])]

end TeeProof.Enclave
