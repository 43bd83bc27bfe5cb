import TeeProof.IndexAgreement

/-! Cohere chat streams: the enclave and the verifier aggregate the events of a
provider-shaped stream to the same value. -/
namespace TeeProof

open JsVal Verifier
open Value (Map)
open Enclave (put field strField objectField IndexMap indexOr)

variable {numbers : Numbers}

/-! The blocks of a message. -/

theorem same_cohereBlock {blocks : IndexMap} {nums : NumMap} (same : SameIndexed numbers blocks nums) (index : Int)
    {v : Value} {y : JsVal} (raw : Same numbers v y) :
    SameIndexed numbers (Enclave.mergeCohereContentBlock blocks index v)
      (mergeCohereContentBlock nums (.finite index) y) := by
  unfold Enclave.mergeCohereContentBlock Verifier.mergeCohereContentBlock
  rcases raw.object_cases with ⟨source, found, record, value⟩ | ⟨missing, noRecord⟩
  · rw [found, if_pos record]
    exact same.set index ((same.getD index .empty).mergeSemanticPart value)
  · rw [missing, noRecord]
    exact same

theorem same_cohereContent {blocks : IndexMap} {nums : NumMap} (same : SameIndexed numbers blocks nums) {v : Value}
    {y : JsVal} (content : Same numbers v y) (index : ∀ m, v = .object m → IsIndex (field m "index")) :
    SameIndexed numbers (Enclave.mergeCohereContent blocks v) (mergeCohereContent nums y) := by
  unfold Enclave.mergeCohereContent Verifier.mergeCohereContent
  cases content with
  | array pairs =>
    refine List.rel_foldl ?_ same (forall₂_zipIdx pairs 0)
    rintro blocks nums same ⟨v, i⟩ ⟨y, j⟩ ⟨value, rfl, -⟩
    have next := same_cohereBlock same i value
    rw [Int.cast_natCast] at next
    exact next
  | @object map props sorted plain fields =>
    have value : Same numbers (.object map) (.obj .undefined props) := .object sorted plain fields
    have position := ((value.read "index" (by decide)).index (index map rfl) (blocks.length - 1)).2
    dsimp only
    rw [same.length_eq, position]
    exact same_cohereBlock same _ value
  | string s =>
    have fresh : Same numbers (.object [("type".toList, .lit "text")]) (ofObject [("type", lit "text")]) :=
      Same.empty.set "type" (by decide) (.lit "text") nofun
    have text : SameField numbers (some (.string s)) (.str (JStr.ofChars s)) := .present (.string s) nofun
    have next := same.set 0 ((same.getD 0 fresh).append "text" (by decide) text)
    rw [Int.cast_zero] at next
    exact next
  | _ => exact same

/-- What the message of a provider's delta looks like. -/
def CohereMessageShaped (message : Map) : Prop :=
  ∀ content, objectField message "content" = some content → IsIndex (field content "index")

theorem same_cohereMessage {message : Map} {u : JsVal} (target : Same numbers (.object message) u) {blocks : IndexMap}
    {nums : NumMap} (same : SameIndexed numbers blocks nums) {v : Value} {y : JsVal} (raw : Same numbers v y)
    (shaped : ∀ m, v = .object m → CohereMessageShaped m) :
    Same numbers (.object (Enclave.mergeCohereMessageDelta message blocks v).1) (mergeCohereMessageDelta u nums y).1 ∧
      SameIndexed numbers (Enclave.mergeCohereMessageDelta message blocks v).2 (mergeCohereMessageDelta u nums y).2 := by
  unfold Enclave.mergeCohereMessageDelta Verifier.mergeCohereMessageDelta
  rcases raw.object_cases with ⟨source, found, record, members⟩ | ⟨missing, noRecord⟩
  · have shape := shaped source (eq_object found)
    have copied := target.copyOthers members ["content".toList]
    have content := members.read "content" (by decide)
    rw [found, if_pos record]
    dsimp only
    cases held : field source "content" with
    | none =>
      rw [held] at content
      generalize y.get (JStr.lit "content") = x at content ⊢
      cases content
      exact ⟨copied, same⟩
    | some inner =>
      rw [held] at content
      cases content with
      | present value defined =>
        refine ⟨copied, same_cohereContent same value fun m eq => shape m ?_⟩
        rw [objectField, held, eq]
        rfl
  · rw [missing, noRecord]
    exact ⟨target, same⟩

/-! One event, then the stream. -/

def isText (o : Option Value) : Prop := ∀ v ∈ o, ∃ s, v = .string s

/-- What a provider's event looks like. -/
structure CohereShaped (event : Map) : Prop where
  type : isText (field event "type")
  event_type : isText (field event "event_type")
  eventType : isText (field event "eventType")
  index : ∀ delta message, objectField event "delta" = some delta → objectField delta "message" = some message →
    CohereMessageShaped message

/-- The type of an event, as the enclave reads it. -/
def cohereTypeOf (event : Map) : Str :=
  (((field event "type").or ((field event "event_type").or (field event "eventType"))).bind Value.asStr).getD []

theorem cohereType_eq {event : Map} {w : JsVal} (same : Same numbers (.object event) w) (shape : CohereShaped event) :
    cohereType w = JStr.ofChars (cohereTypeOf event) := by
  have cases_of {o : Option Value} {x : JsVal} (read : SameField numbers o x) (text : isText o) :
      (o = none ∧ x = .undefined) ∨ ∃ s, o = some (.string s) ∧ x = .str (JStr.ofChars s) := by
    cases read with
    | absent => exact .inl ⟨rfl, rfl⟩
    | present value defined =>
      obtain ⟨s, rfl⟩ := text _ rfl
      cases value
      exact .inr ⟨s, rfl, rfl⟩
  unfold cohereType cohereTypeOf
  rcases cases_of (same.read "type" (by decide)) shape.type with ⟨none, first⟩ | ⟨s, some, first⟩
  · rcases cases_of (same.read "event_type" (by decide)) shape.event_type with ⟨none', second⟩ | ⟨s, some, second⟩
    · rcases cases_of (same.read "eventType" (by decide)) shape.eventType with ⟨none'', third⟩ | ⟨s, some, third⟩
      · rw [none, none', none'', first, second, third]
        rfl
      · rw [none, none', some, first, second, third]
        rfl
    · rw [none, some, first, second]
      rfl
  · rw [some, first]
    rfl

structure CohereSame (numbers : Numbers) (locals : Map × Map × IndexMap × Str) (s : Nested) : Prop where
  out : Same numbers (.object locals.1) s.out
  message : Same numbers (.object locals.2.1) s.inner
  blocks : SameIndexed numbers locals.2.2.1 s.map
  text : s.text = JStr.ofChars locals.2.2.2

theorem CohereSame.of {out message : Map} {blocks : IndexMap} {text : Str} {u v : JsVal} {nums : NumMap} {t : JStr}
    (result : Same numbers (.object out) u) (inner : Same numbers (.object message) v)
    (same : SameIndexed numbers blocks nums) (grown : t = JStr.ofChars text) :
    CohereSame numbers (out, message, blocks, text) ⟨u, v, nums, t⟩ := ⟨result, inner, same, grown⟩

/-- A finish reason goes to the result and to the message. -/
theorem cohere_finishReason {out message source : Map} {blocks : IndexMap} {text : Str} {s : Nested} {u : JsVal}
    (state : CohereSame numbers (out, message, blocks, text) s) (members : Same numbers (.object source) u) :
    CohereSame numbers
      (Enclave.copyField out source "finish_reason", Enclave.copyField message source "finish_reason", blocks, text)
      (cohereFinishReason s u) :=
  ⟨state.out.copy members "finish_reason" (by decide), state.message.copy members "finish_reason" (by decide),
    state.blocks, state.text⟩

/-- The text of the first version of the protocol grows. -/
theorem cohere_text {event : Map} {w : JsVal} (members : Same numbers (.object event) w) (type text : Str) :
    (if type = "text-generation".toList then JStr.ofChars text ++ stringOr [] (w.get "text") else JStr.ofChars text) =
      JStr.ofChars (if type = "text-generation".toList then
        match strField event "text" with
        | some piece => text ++ piece
        | none => text
      else text) := by
  by_cases generated : type = "text-generation".toList
  · rw [if_pos generated, if_pos generated, strField]
    rcases (members.read "text" (by decide)).string with ⟨piece, found, eq⟩ | ⟨missing, other⟩
    · rw [found, eq, stringOr, ofChars_append]
    · rw [missing]
      generalize w.get (JStr.lit "text") = x at other ⊢
      cases x with
      | str s => cases other
      | _ => exact List.append_nil _
  · rw [if_neg generated, if_neg generated]

/-- The message of a delta. -/
theorem cohere_told {out message : Map} {blocks : IndexMap} {text : Str} {s : Nested}
    (state : CohereSame numbers (out, message, blocks, text) s) {delta : Map} {u : JsVal}
    (members : Same numbers (.object delta) u)
    (shaped : ∀ m, objectField delta "message" = some m → CohereMessageShaped m) :
    CohereSame numbers
      (out, (match field delta "message" with
          | some rawMessage => Enclave.mergeCohereMessageDelta message blocks rawMessage
          | none => (message, blocks)).1,
        (match field delta "message" with
          | some rawMessage => Enclave.mergeCohereMessageDelta message blocks rawMessage
          | none => (message, blocks)).2, text)
      { s with
        inner := (mergeCohereMessageDelta s.inner s.map (u.get "message")).1
        map := (mergeCohereMessageDelta s.inner s.map (u.get "message")).2 } := by
  have given := members.read "message" (by decide)
  cases held : field delta "message" with
  | none =>
    rw [held] at given
    generalize u.get (JStr.lit "message") = x at given ⊢
    cases given
    exact state
  | some raw =>
    rw [held] at given
    cases given with
    | present value defined =>
      obtain ⟨inner, map⟩ := same_cohereMessage state.message state.blocks value fun m eq => shaped m (by
        rw [objectField, held, eq]
        rfl)
      exact ⟨state.out, inner, map, state.text⟩

/-- The delta of an event: its message, and what the last event of a message adds. -/
theorem cohere_delta {out message : Map} {blocks : IndexMap} {text : Str} {s : Nested}
    (state : CohereSame numbers (out, message, blocks, text) s) {delta : Map} {u : JsVal}
    (members : Same numbers (.object delta) u)
    (shaped : ∀ m, objectField delta "message" = some m → CohereMessageShaped m) (type : Str) :
    CohereSame numbers
      ((Enclave.aggregateCohereChatStream.applyDelta out message blocks delta type).1,
        (Enclave.aggregateCohereChatStream.applyDelta out message blocks delta type).2.1,
        (Enclave.aggregateCohereChatStream.applyDelta out message blocks delta type).2.2, text)
      (let merged : Nested := { s with
          inner := (mergeCohereMessageDelta s.inner s.map (u.get "message")).1
          map := (mergeCohereMessageDelta s.inner s.map (u.get "message")).2 }
        if type = "message-end".toList then
          { cohereFinishReason merged u with out := copyDefined "usage" (cohereFinishReason merged u).out u }
        else merged) := by
  have told := cohere_told state members shaped
  unfold Enclave.aggregateCohereChatStream.applyDelta
  by_cases ended : type = "message-end".toList
  · simp only [if_pos ended]
    have finished := cohere_finishReason told members
    exact ⟨finished.out.copy members "usage" (by decide), finished.message, finished.blocks, finished.text⟩
  · simp only [if_neg ended]
    exact told

theorem cohere_step {locals : Map × Map × IndexMap × Str} {s : Nested} (state : CohereSame numbers locals s) {v : Value}
    {w : JsVal} (read : Reads numbers v w) (shaped : ∀ event, v = .object event → CohereShaped event) :
    CohereSame numbers (Enclave.aggregateCohereChatStream.item locals v) (cohereStep s w) := by
  obtain ⟨out, message, blocks, text⟩ := locals
  rcases read.same.object_cases with ⟨event, found, record, same⟩ | ⟨missing, noRecord⟩
  · obtain rfl := eq_object found
    have shape := shaped event rfl
    have type := cohereType_eq same shape
    unfold Enclave.aggregateCohereChatStream.item cohereStep
    rw [type]
    simp only [Value.asObject, record, Bool.not_true, Bool.false_eq_true, if_false, ofChars_eq_lit]
    have merged := same_object.mpr
      ((same_object.mp state.out).mergeField same "response" (by decide) cohereFields (by decide))
    have grown := cohere_text same (cohereTypeOf event) text
    rw [← state.text] at grown
    have started := CohereSame.of merged state.message state.blocks grown
    cases held : objectField event "delta" with
    | none =>
      rw [same.readNoObject "delta" (by decide) held]
      have finished := cohere_finishReason started same
      simp only [Bool.false_eq_true, and_false, if_false]
      exact ⟨finished.out.copy same "error" (by decide), finished.message, finished.blocks, finished.text⟩
    | some delta =>
      obtain ⟨isRecord, value⟩ := same.readObject "delta" (by decide) held
      have told := cohere_delta started value (fun m eq => shape.index delta m held eq) (cohereTypeOf event)
      have finished := cohere_finishReason told same
      simp only [isRecord, if_true, and_true]
      exact ⟨finished.out.copy same "error" (by decide), finished.message, finished.blocks, finished.text⟩
  · unfold Enclave.aggregateCohereChatStream.item cohereStep
    simp only [missing, noRecord, Bool.not_false, if_true]
    exact state

theorem ofChars_eq_nil (text : Str) : JStr.ofChars text = [] ↔ text = [] :=
  ⟨fun eq => ofChars_injective (eq : JStr.ofChars text = JStr.ofChars []), fun eq => congrArg JStr.ofChars eq⟩

/-- The content of the message: the blocks, or the text when there is no block. -/
theorem cohere_content {out message : Map} {blocks : IndexMap} {text : Str} {s : Nested}
    (state : CohereSame numbers (out, message, blocks, text) s) :
    Same numbers
        (.object (if !blocks.isEmpty then (out, put message "content" (Enclave.objects blocks))
          else if !text.isEmpty then
            (put out "text" (.string text),
              put message "content" (.array [.ofFields [("type", .lit "text"), ("text", .string text)]]))
          else (out, message)).1)
        (if s.map.length = 0 ∧ s.text ≠ [] then s.out.set "text" (.str s.text) else s.out) ∧
      Same numbers
        (.object (if !blocks.isEmpty then (out, put message "content" (Enclave.objects blocks))
          else if !text.isEmpty then
            (put out "text" (.string text),
              put message "content" (.array [.ofFields [("type", .lit "text"), ("text", .string text)]]))
          else (out, message)).2)
        (if s.map.length > 0 then s.inner.set "content" (sortedValues s.map)
          else if s.text ≠ [] then
            s.inner.set "content" (.arr [ofObject [("type", lit "text"), ("text", .str s.text)]])
          else s.inner) := by
  rw [state.blocks.length_eq, state.text]
  dsimp only
  cases blocks with
  | cons first rest =>
    exact ⟨state.out, state.message.set "content" (by decide) state.blocks.values nofun⟩
  | nil =>
    cases text with
    | nil => exact ⟨state.out, state.message⟩
    | cons c rest =>
      have shown : JStr.ofChars (c :: rest) ≠ [] := mt (ofChars_eq_nil _).mp (by simp)
      have block : Same numbers (.ofFields [("type", .lit "text"), ("text", .string (c :: rest))])
          (ofObject [("type", lit "text"), ("text", .str (JStr.ofChars (c :: rest)))]) := by
        simp only [Value.ofFields, List.foldl_cons, List.foldl_nil]
        have typed : Same numbers _ _ := Same.empty.set "type" (by decide) (.lit "text") nofun
        exact typed.set "text" (by decide) (.string (c :: rest)) nofun
      have absent : ([] : IndexMap).length = 0 ∧ JStr.ofChars (c :: rest) ≠ [] := ⟨rfl, shown⟩
      have none : ¬([] : IndexMap).length > 0 := by simp
      rw [if_pos absent, if_neg none, if_pos shown]
      exact ⟨state.out.set "text" (by decide) (.string (c :: rest)) nofun,
        state.message.set "content" (by decide) (.array (.cons block .nil)) nofun⟩

/-- The enclave and the verifier aggregate a provider-shaped stream alike. -/
theorem aggregateCohereChatStream_same (numbers : Numbers) (events : List (Json numbers.Token))
    (plain : ∀ e ∈ events, e.plain = true)
    (shaped : ∀ e ∈ events, ∀ event, e.toRust numbers = .object event → CohereShaped event) :
    Same numbers (Enclave.aggregateCohereChatStream (.array (events.map (Json.toRust numbers))))
      (aggregateCohereChatStream (events.map (Json.toJs numbers))) := by
  have run := rel_documents (I := CohereSame numbers) (fun _ _ _ _ state => cohere_step state) events plain shaped
    (⟨.empty, .empty, .nil, rfl⟩ : CohereSame numbers ([], [], [], []) .init)
  revert run
  unfold Enclave.aggregateCohereChatStream aggregateCohereChatStream cohereFinish
  simp only [Value.asArray]
  generalize (events.map (Json.toRust numbers)).foldl _ _ = locals
  generalize (events.map (Json.toJs numbers)).foldl _ _ = s
  intro run
  obtain ⟨out, message, blocks, text⟩ := locals
  obtain ⟨result, valued⟩ := cohere_content run
  revert result valued
  dsimp only
  generalize (if !blocks.isEmpty then _ else _) = both
  generalize (if s.map.length = 0 ∧ s.text ≠ [] then _ else _) = outJs
  generalize (if s.map.length > 0 then _ else _) = messageJs
  intro result valued
  obtain ⟨out, message⟩ := both
  have shown := entries_pos valued
  have told := (result.setObject "message" (by decide) valued).pick cohereFields (by decide)
  have kept := result.pick cohereFields (by decide)
  rw [(same_object.mp result).isUndefined_get "message" trivial (by decide)]
  dsimp only at shown told kept ⊢
  cases OrdMap.contains "message".toList out with
  | true =>
    rw [if_neg (by simp), if_neg (by simp)]
    exact kept
  | false =>
    cases message with
    | nil =>
      rw [if_neg (by simp), if_neg (not_and_of_not_left _ (mt shown.mp (by simp)))]
      exact kept
    | cons p rest =>
      rw [if_pos (by simp), if_pos ⟨shown.mpr rfl, rfl⟩]
      exact told

/-- A block of text written by one delta. -/
def cohereSample : Json Numbers.sample.Token :=
  .obj [("type".toList, .str "content-delta".toList), ("delta".toList, .obj [("message".toList,
    .obj [("content".toList, .obj [("index".toList, .num Numbers.zero), ("text".toList, .str "hi".toList)])])])]

theorem aggregateCohereChatStream_same_delta :
    cohereSample.plain = true ∧
      Same Numbers.sample
        (Enclave.aggregateCohereChatStream (.array ([cohereSample].map (Json.toRust Numbers.sample))))
        (aggregateCohereChatStream ([cohereSample].map (Json.toJs Numbers.sample))) := by
  have plain : cohereSample.plain = true := by decide
  refine ⟨plain, aggregateCohereChatStream_same Numbers.sample [cohereSample] (by simpa using plain) ?_⟩
  intro e member event read
  obtain rfl : e = cohereSample := List.mem_singleton.mp member
  obtain rfl := (Value.object.inj read).symm
  constructor
  · intro v held
    exact ⟨"content-delta".toList, (Option.some.inj held).symm⟩
  · intro v held
    cases held
  · intro v held
    cases held
  · intro delta message held inner content eq v index
    obtain rfl := Option.some.inj held
    obtain rfl := Option.some.inj inner
    obtain rfl := Option.some.inj eq
    obtain rfl := Option.some.inj index
    exact ⟨0, rfl, by decide⟩

end TeeProof
