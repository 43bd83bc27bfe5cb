import TeeProof.IndexAgreement

/-! Anthropic Messages streams: the enclave and the verifier aggregate the events of a
provider-shaped stream to the same value. -/
namespace TeeProof

open JsVal Verifier
open Value (Map)
open Enclave (put field strField arrayField objectField IndexMap typeOf indexOr)

variable {numbers : Numbers}

/-! The ending of a delta's type. -/

theorem endsWith_ofChars (s : Str) : (JStr.ofChars s).endsWith deltaSuffix = Str.endsWith "_delta" s := by
  rw [Bool.eq_iff_iff, JStr.endsWith, Str.endsWith, List.isSuffixOf_iff_suffix, List.isSuffixOf_iff_suffix]
  constructor
  · rintro ⟨front, eq⟩
    refine ⟨JStr.toChars front, ?_⟩
    have back := congrArg JStr.toChars eq
    have first : deltaSuffix.head? = some 95 := rfl
    rw [JStr.toChars_ofChars, JStr.toChars_append _ _ (by rw [first]; rintro _ ⟨⟩; rfl)] at back
    exact back
  · rintro ⟨front, rfl⟩
    exact ⟨JStr.ofChars front, (ofChars_append front _).symm⟩

theorem withoutDelta_ofChars (s : Str) (once : Str.endsWith "_delta_delta" s = false) :
    withoutDelta (JStr.ofChars s) = JStr.ofChars (Enclave.trimEndDelta s) := by
  rw [withoutDelta, endsWith_ofChars]
  by_cases ends : Str.endsWith "_delta" s = true
  · obtain ⟨front, rfl⟩ := List.isSuffixOf_iff_suffix.mp ends
    have single : Str.endsWith "_delta" front = false := by
      rw [Bool.eq_false_iff]
      intro again
      obtain ⟨rest, rfl⟩ := List.isSuffixOf_iff_suffix.mp again
      have twice : Str.endsWith "_delta_delta" (rest ++ "_delta".toList ++ "_delta".toList) = true :=
        List.isSuffixOf_iff_suffix.mpr ⟨rest, by simp⟩
      rw [twice] at once
      cases once
    have length : (front ++ "_delta".toList).length = front.length + 6 := by simp
    have cut : (front ++ "_delta".toList).take (front.length + 6 - 6) = front := by simp
    have kept (fuel : Nat) : Enclave.trimEndDelta.go fuel front = front := by
      cases fuel with
      | zero => rfl
      | succ n => simp only [Enclave.trimEndDelta.go, single, Bool.false_eq_true, if_false]
    rw [if_pos ends, Enclave.trimEndDelta, length, Enclave.trimEndDelta.go, if_pos ends, length, cut, kept,
      ofChars_append]
    simp [deltaSuffix, JStr.lit]
  · rw [if_neg ends, Enclave.trimEndDelta]
    cases fuel : s.length with
    | zero => rfl
    | succ n => rw [Enclave.trimEndDelta.go, if_neg ends]

/-! The helpers of the protocol. -/

theorem same_seed {map : IndexMap} {nums : NumMap} (same : SameIndexed numbers map nums) {o : Option Value} {x : JsVal}
    (content : SameField numbers o x) :
    SameIndexed numbers (Enclave.seedAnthropicContentBlocks map o) (seedAnthropicContentBlocks nums x) := by
  unfold Enclave.seedAnthropicContentBlocks Verifier.seedAnthropicContentBlocks
  rcases content.array with ⟨items, items', found, rfl, pairs⟩ | ⟨missing, empty, -⟩
  · rw [found]
    refine List.rel_foldl ?_ same (forall₂_zipIdx pairs 0)
    rintro map nums same ⟨v, i⟩ ⟨y, j⟩ ⟨value, rfl, -⟩
    dsimp only at value ⊢
    cases value with
    | @object block props sorted plain fields =>
      have copied : Same numbers (.object block) (.obj .undefined props) := .object sorted plain fields
      have here := same.entries i
      simp only [Value.asObject, JsVal.isRecord, Bool.true_and, Enclave.entry, id]
      have index : (.finite (((i : Int)) : ℚ) : JsNumber) = .finite (i : ℚ) := by simp
      rw [index] at here
      cases held : nums.get (.finite (i : ℚ)) with
      | none =>
        rw [held] at here
        cases old : OrdMap.find (i : Int) map with
        | some m => rw [old] at here; cases here
        | none =>
          have next := same.set i copied
          rw [index] at next
          exact next
      | some w =>
        rw [held] at here
        cases old : OrdMap.find (i : Int) map with
        | none => rw [old] at here; cases here
        | some m =>
          rw [Option.getD_some, OrdMap.insert_found same.sorted old]
          exact same
    | _ => exact same
  · rw [missing, empty]
    exact same

/-- A block takes its type from a delta where it has none. -/
theorem same_deltaType {block delta : Map} {w u : JsVal} (target : Same numbers (.object block) w)
    (source : Same numbers (.object delta) u)
    (once : ∀ type, strField delta "type" = some type → Str.endsWith "_delta_delta" type = false) :
    Same numbers
      (.object (if OrdMap.contains "type".toList block then block
        else match strField delta "type" with
          | some type => put block "type" (.string (Enclave.trimEndDelta type))
          | none => block))
      (match u.get "type" with
        | .str type => if isUndefined (w.get "type") then w.set "type" (.str (withoutDelta type)) else w
        | _ => w) := by
  have held : isUndefined (w.get "type") = !(OrdMap.contains "type".toList block) := by
    rw [(target.read "type" (by decide)).undefined, OrdMap.contains, field]
    cases OrdMap.find "type".toList block <;> rfl
  rw [held]
  rcases (source.read "type" (by decide)).string with ⟨s, found, text⟩ | ⟨missing, other⟩
  · rw [text, strField, found]
    dsimp only
    rw [withoutDelta_ofChars s (once s found)]
    cases OrdMap.contains "type".toList block with
    | true => exact target
    | false => exact target.set "type" (by decide) (.string _) (by simp)
  · rw [strField, missing]
    generalize u.get (JStr.lit "type") = x at other ⊢
    cases x with
    | str s => cases other
    | _ => split <;> exact target

theorem same_contentDelta {block delta : Map} {w u : JsVal} (target : Same numbers (.object block) w)
    (source : Same numbers (.object delta) u)
    (once : ∀ type, strField delta "type" = some type → Str.endsWith "_delta_delta" type = false) :
    Same numbers (.object (Enclave.mergeAnthropicContentDelta block delta)) (mergeAnthropicContentDelta w u) := by
  have typed := same_deltaType target source once
  have texted := typed.append "text" (by decide) (source.read "text" (by decide))
  have thought := texted.append "thinking" (by decide) (source.read "thinking" (by decide))
  have signed := thought.append "signature" (by decide) (source.read "signature" (by decide))
  exact signed.append "input_json" (by decide) (source.read "partial_json" (by decide))

/-! One event, then the stream. -/

/-- What a provider's event looks like. -/
structure AnthropicShaped (event : Map) : Prop where
  message : typeOf event = "message_start".toList → (objectField event "message").isSome
  delta : typeOf event = "message_delta".toList → (objectField event "delta").isSome
  error : typeOf event = "error".toList → ∃ v, field event "error" = some v ∧ v.isNull = false
  once : ∀ delta type, objectField event "delta" = some delta → strField delta "type" = some type →
    Str.endsWith "_delta_delta" type = false
  index : IsIndex (field event "index")

/-- The verifier also keeps `stop_sequence` on the way; the final `pick` drops it. -/
def isKept (key : Str) : Prop := key ≠ "stop_sequence".toList

instance : DecidablePred isKept := fun key => inferInstanceAs (Decidable (key ≠ _))

section Step

variable {out : Map} {blocks : IndexMap} {s : Indexed} (state : SameLocals numbers isKept (out, blocks) s)

include state

theorem anthropic_start {message : Map} {u : JsVal} (inner : Same numbers (.object message) u) :
    SameLocals numbers isKept
      (Enclave.mergeValueObject out (Enclave.pickValue ["type", "role", "model", "stop_reason", "usage"]
          (.object message)),
        Enclave.seedAnthropicContentBlocks blocks (field message "content"))
      ⟨mergeObject s.out (pick u ["type", "role", "model", "stop_reason", "usage"]),
        seedAnthropicContentBlocks s.map (u.get "content")⟩ where
  out := state.out.mergePick inner ["type", "role", "model", "stop_reason", "usage"] (by decide)
  map := same_seed state.map (inner.read "content" (by decide))

theorem anthropic_blockStart {event block : Map} {w u : JsVal} (same : Same numbers (.object event) w)
    (index : IsIndex (field event "index")) (inner : Same numbers (.object block) u) :
    SameLocals numbers isKept (out, OrdMap.insert (indexOr event "index" blocks.length) block blocks)
      { s with map := s.map.set (numberElse (w.get "index") s.map.length) u.spread } where
  out := state.out
  map := by
    rw [((same.read "index" (by decide)).index index s.map.length).1, state.map.length_eq, inner.spread]
    exact state.map.set _ inner

theorem anthropic_blockDelta {event delta : Map} {w u : JsVal} (same : Same numbers (.object event) w)
    (index : IsIndex (field event "index")) (inner : Same numbers (.object delta) u)
    (once : ∀ type, strField delta "type" = some type → Str.endsWith "_delta_delta" type = false) :
    SameLocals numbers isKept
      (out, OrdMap.insert (indexOr event "index" blocks.length)
        (Enclave.mergeAnthropicContentDelta ((OrdMap.find (indexOr event "index" blocks.length) blocks).getD []) delta)
        (OrdMap.erase (indexOr event "index" blocks.length) blocks))
      { s with
        map := s.map.set (numberElse (w.get "index") s.map.length)
          (mergeAnthropicContentDelta ((s.map.get (numberElse (w.get "index") s.map.length)).getD JsVal.empty) u) } where
  out := state.out
  map := by
    rw [((same.read "index" (by decide)).index index s.map.length).1, state.map.length_eq,
      OrdMap.insert_erase state.map.sorted]
    exact state.map.set _ (same_contentDelta (state.map.getD _ .empty) inner once)

/-- The verifier's extra key is outside of what is kept. -/
theorem anthropic_messageDelta {event delta : Map} {w u : JsVal} (same : Same numbers (.object event) w)
    (inner : Same numbers (.object delta) u) :
    SameLocals numbers isKept
      (Enclave.mergeNestedObject
        (Enclave.mergeValueObject out (Enclave.pickValue ["stop_reason"] (.object delta))) "usage"
        (field event "usage"), blocks)
      { s with
        out := mergeNestedObject (mergeObject s.out (pick u ["stop_reason", "stop_sequence"])) "usage"
          (w.get "usage") } where
  out := by
    refine AgreeOn.nested ?_ "usage" (by decide) (by decide) (same.read "usage" (by decide))
    simp only [Enclave.pickValue]
    refine state.out.extend ?_
    have reason := (AgreeOn.empty : AgreeOn numbers isKept [] JsVal.empty).pickOne (same_object.mp inner)
      "stop_reason".toList trivial (by decide)
    have sequence := inner.read "stop_sequence" (by decide)
    have present := (same_object.mp inner).hasOwn "stop_sequence".toList trivial
    obtain ⟨props, rfl, -⟩ := same_object.mp inner
    simp only [Verifier.pick, pickRecord_eq, List.foldl_cons, List.foldl_nil]
    split
    next owned =>
      refine reason.setOutside "stop_sequence" (by decide) (by decide) ?_
      rw [JStr.lit, present, Option.isSome_iff_exists] at owned
      obtain ⟨v, found⟩ := owned
      rw [found] at sequence
      cases sequence with
      | present _ defined => exact defined
    next => exact reason
  map := state.map

end Step

/-- One event. -/
theorem anthropic_step {locals : Map × IndexMap} {s : Indexed} (state : SameLocals numbers isKept locals s) {v : Value}
    {w : JsVal} (read : Reads numbers v w) (shaped : ∀ event, v = .object event → AnthropicShaped event) :
    SameLocals numbers isKept (Enclave.aggregateAnthropicMessagesStream.item locals v) (anthropicStep s w) := by
  obtain ⟨out, blocks⟩ := locals
  rcases read.same.object_cases with ⟨event, found, record, same⟩ | ⟨missing, noRecord⟩
  · obtain rfl := eq_object found
    have shape := shaped event rfl
    unfold Enclave.aggregateAnthropicMessagesStream.item anthropicStep
    simp only [Value.asObject, record, Bool.not_true, Bool.false_eq_true, if_false, eventType_eq same, ofChars_eq_lit]
    by_cases start : typeOf event = "message_start".toList
    · obtain ⟨message, held⟩ := Option.isSome_iff_exists.mp (shape.message start)
      obtain ⟨isRecord, inner⟩ := same.readObject "message" (by decide) held
      rw [if_pos start, if_pos ⟨start, isRecord⟩, field_of_object held]
      exact anthropic_start state inner
    rw [if_neg start, if_neg (not_and_of_not_left _ start)]
    by_cases blockStart : typeOf event = "content_block_start".toList
    · rw [if_pos blockStart]
      cases held : objectField event "content_block" with
      | some block =>
        obtain ⟨isRecord, inner⟩ := same.readObject "content_block" (by decide) held
        rw [if_pos ⟨blockStart, isRecord⟩]
        exact anthropic_blockStart state same shape.index inner
      | none =>
        have noBlock := same.readNoObject "content_block" (by decide) held
        have rest (text : String) (apart : "content_block_start" ≠ text) : typeOf event ≠ text.toList :=
          fun eq => apart (String.toList_inj.mp (blockStart.symm.trans eq))
        rw [if_neg (by simp [noBlock]), if_neg (not_and_of_not_left _ (rest "content_block_delta" (by decide))),
          if_neg (not_and_of_not_left _ (rest "message_delta" (by decide))), if_neg (rest "error" (by decide))]
        exact state
    rw [if_neg blockStart, if_neg (not_and_of_not_left _ blockStart)]
    by_cases blockDelta : typeOf event = "content_block_delta".toList
    · rw [if_pos blockDelta]
      cases held : objectField event "delta" with
      | some delta =>
        obtain ⟨isRecord, inner⟩ := same.readObject "delta" (by decide) held
        rw [if_pos ⟨blockDelta, isRecord⟩]
        exact anthropic_blockDelta state same shape.index inner (shape.once delta · held)
      | none =>
        have noDelta := same.readNoObject "delta" (by decide) held
        have other : typeOf event ≠ "error".toList := fun eq => absurd (blockDelta.symm.trans eq) (by decide)
        rw [if_neg (by simp [noDelta]), if_neg (by simp [noDelta]), if_neg other]
        exact state
    rw [if_neg blockDelta, if_neg (not_and_of_not_left _ blockDelta)]
    by_cases messageDelta : typeOf event = "message_delta".toList
    · obtain ⟨delta, held⟩ := Option.isSome_iff_exists.mp (shape.delta messageDelta)
      obtain ⟨isRecord, inner⟩ := same.readObject "delta" (by decide) held
      rw [if_pos messageDelta, if_pos ⟨messageDelta, isRecord⟩, field_of_object held]
      exact anthropic_messageDelta state same inner
    rw [if_neg messageDelta, if_neg (not_and_of_not_left _ messageDelta)]
    by_cases error : typeOf event = "error".toList
    · obtain ⟨v, held, proper⟩ := shape.error error
      have value := same.read "error" (by decide)
      rw [held] at value
      rw [if_pos error, if_pos error, held]
      cases value with
      | present same defined =>
        rw [same.nullish, proper]
        exact ⟨state.out.set "error" (by decide) (fun _ => same) defined, state.map⟩
    rw [if_neg error, if_neg error]
    exact state
  · unfold Enclave.aggregateAnthropicMessagesStream.item anthropicStep
    simp only [missing, noRecord, Bool.not_false, if_true]
    exact state

/-- The enclave and the verifier aggregate a provider-shaped stream alike. -/
theorem aggregateAnthropicMessagesStream_same (numbers : Numbers) (events : List (Json numbers.Token))
    (plain : ∀ e ∈ events, e.plain = true)
    (shaped : ∀ e ∈ events, ∀ event, e.toRust numbers = .object event → AnthropicShaped event) :
    Same numbers (Enclave.aggregateAnthropicMessagesStream (.array (events.map (Json.toRust numbers))))
      (aggregateAnthropicMessagesStream (events.map (Json.toJs numbers))) := by
  have run := rel_documents (I := SameLocals numbers isKept) (fun _ _ _ _ state => anthropic_step state) events plain shaped
    SameLocals.init
  revert run
  unfold Enclave.aggregateAnthropicMessagesStream aggregateAnthropicMessagesStream
  simp only [Value.asArray]
  generalize (events.map (Json.toRust numbers)).foldl _ _ = locals
  generalize (events.map (Json.toJs numbers)).foldl _ _ = s
  intro run
  obtain ⟨out, blocks⟩ := locals
  exact (run.out.withValues run.map "content" (by decide)).pick anthropicFields (by decide)

/-- A text block written by one delta. -/
def anthropicSample : Json Numbers.sample.Token :=
  .obj [("type".toList, .str "content_block_delta".toList), ("index".toList, .num Numbers.zero),
    ("delta".toList, .obj [("type".toList, .str "text_delta".toList), ("text".toList, .str "hi".toList)])]

theorem aggregateAnthropicMessagesStream_same_delta :
    anthropicSample.plain = true ∧
      Same Numbers.sample
        (Enclave.aggregateAnthropicMessagesStream (.array ([anthropicSample].map (Json.toRust Numbers.sample))))
        (aggregateAnthropicMessagesStream ([anthropicSample].map (Json.toJs Numbers.sample))) := by
  have plain : anthropicSample.plain = true := by decide
  refine ⟨plain, aggregateAnthropicMessagesStream_same Numbers.sample [anthropicSample] (by simpa using plain) ?_⟩
  intro e member event read
  obtain rfl : e = anthropicSample := List.mem_singleton.mp member
  obtain rfl := (Value.object.inj read).symm
  constructor
  · decide
  · decide
  · intro error
    exact absurd error (by decide)
  · intro delta type held text
    obtain rfl := Option.some.inj held
    obtain rfl := Option.some.inj text
    decide
  · intro v held
    obtain rfl := Option.some.inj held
    exact ⟨0, rfl, by decide⟩

end TeeProof
