import TeeProof.IndexAgreement

/-! Bedrock Converse streams: the enclave and the verifier aggregate the events of a
provider-shaped stream to the same value. -/
namespace TeeProof

open JsVal Verifier
open Value (Map)
open Enclave (put field objectField IndexMap indexOr)

variable {numbers : Numbers}

/-! The delta of a content block. -/

theorem same_nestedSemantic {o : Option Value} {x : JsVal} (existing : SameField numbers o x) {incoming : Map}
    {u : JsVal} (members : Same numbers (.object incoming) u) (fields : List Str) :
    Same numbers (Enclave.mergeNestedSemanticObject o incoming fields)
      (mergeNestedSemanticObject x u (fields.map JStr.ofChars)) := by
  have before : Same numbers (.object ((o.bind Value.asObject).getD [])) (if x.isRecord then x.spread else JsVal.empty) := by
    rcases existing.object with ⟨old, held, record, same⟩ | ⟨missing, noRecord⟩
    · rw [held, if_pos record, same.spread]
      exact same
    · rw [missing, noRecord]
      exact .empty
  unfold Enclave.mergeNestedSemanticObject Verifier.mergeNestedSemanticObject
  rw [mergeSemanticField_eq, mergeSemanticFieldJs_eq]
  exact before.loop (semantic fields) members fun _ _ _ _ _ _ => trivial

theorem same_bedrockNested {block delta : Map} {w u : JsVal} (target : Same numbers (.object block) w)
    (source : Same numbers (.object delta) u) (key : String) (safe : key.toList ≠ protoName) (fields : List Str) :
    Same numbers (.object (Enclave.mergeBedrockNested key fields block delta))
      (mergeBedrockNested key (fields.map JStr.ofChars) w u) := by
  unfold Enclave.mergeBedrockNested Verifier.mergeBedrockNested
  cases found : objectField delta key.toList with
  | some inner =>
    obtain ⟨record, value⟩ := source.readObject key safe found
    have joined := same_nestedSemantic (target.read key safe) value fields
    rw [if_pos record]
    exact target.set key.toList safe joined joined.object_defined
  | none =>
    rw [source.readNoObject key safe found]
    exact target

theorem same_bedrockDelta {block delta : Map} {w u : JsVal} (target : Same numbers (.object block) w)
    (source : Same numbers (.object delta) u) :
    Same numbers (.object (Enclave.mergeBedrockContentDelta block delta)) (mergeBedrockContentDelta w u) := by
  have text := target.append "text" (by decide) (source.read "text" (by decide))
  have typed : Same numbers
      (.object (if (field delta "text").isSome &&
          !OrdMap.contains "type".toList (Enclave.appendStringField block "text" (field delta "text")) then
        put (Enclave.appendStringField block "text" (field delta "text")) "type" (.lit "text")
        else Enclave.appendStringField block "text" (field delta "text")))
      (if !isUndefined (u.get "text") && isUndefined ((appendStringField "text" (u.get "text") w).get "type") then
        (appendStringField "text" (u.get "text") w).set "type" (lit "text")
        else appendStringField "text" (u.get "text") w) := by
    have unknown := (same_object.mp text).isUndefined_get "type" trivial (by decide)
    have given := (source.read "text" (by decide)).undefined
    have named : JStr.ofChars "text".toList = JStr.lit "text" := rfl
    rw [named] at unknown text
    rw [unknown, given, Option.not_isNone]
    split
    · exact text.set "type" (by decide) (.lit "text") nofun
    · exact text
  have reasoned := same_bedrockNested typed source "reasoningContent" (by decide) ["text".toList, "signature".toList]
  have used := same_bedrockNested reasoned source "toolUse" (by decide) ["input".toList]
  have cited := same_bedrockNested used source "citationsContent" (by decide) ["text".toList]
  exact cited.copyOthers source
    ["text".toList, "reasoningContent".toList, "toolUse".toList, "citationsContent".toList]

/-! One event, then the stream. -/

/-- What a provider's event looks like. -/
structure BedrockShaped (event : Map) : Prop where
  output : ∀ v, field event "output" = some v → ∃ m, v = .object m
  start : ∀ inner, objectField event "contentBlockStart" = some inner → IsIndex (field inner "contentBlockIndex")
  delta : ∀ inner, objectField event "contentBlockDelta" = some inner → IsIndex (field inner "contentBlockIndex")

/-- The verifier also keeps `additionalModelResponseFields` on the way; the final `pick`
drops it. -/
def isShown (key : Str) : Prop := key ≠ "additionalModelResponseFields".toList

instance : DecidablePred isShown := fun key => inferInstanceAs (Decidable (key ≠ _))

structure BedrockSame (numbers : Numbers) (locals : Map × Map × IndexMap) (s : Nested) : Prop where
  out : AgreeOn numbers isShown locals.1 s.out
  message : Same numbers (.object locals.2.1) s.inner
  blocks : SameIndexed numbers locals.2.2 s.map

/-- A block is found by its index and changed by a part of the event. -/
theorem same_bedrockBlock {event : Map} {w : JsVal} (members : Same numbers (.object event) w) {blocks : IndexMap}
    {nums : NumMap} (same : SameIndexed numbers blocks nums) (part name : String) (safe : part.toList ≠ protoName)
    (named : name.toList ≠ protoName)
    (index : ∀ inner, objectField event part.toList = some inner → IsIndex (field inner "contentBlockIndex"))
    {merge : Map → Map → Map} {mergeJs : JsVal → JsVal → JsVal}
    (merges : ∀ m w n u, Same numbers (.object m) w → Same numbers (.object n) u →
      Same numbers (.object (merge m n)) (mergeJs w u)) :
    SameIndexed numbers
      (match objectField event part.toList with
        | some inner =>
          Enclave.entry blocks (indexOr inner "contentBlockIndex" blocks.length) [] fun block =>
            match objectField inner name.toList with
            | some source => merge block source
            | none => block
        | none => blocks)
      (bedrockBlock nums (w.get (JStr.lit part)) name mergeJs) := by
  unfold bedrockBlock
  cases found : objectField event part.toList with
  | some inner =>
    obtain ⟨record, value⟩ := members.readObject part safe found
    have position := ((value.read "contentBlockIndex" (by decide)).index (index inner found) blocks.length).2
    rw [if_pos record, same.length_eq]
    dsimp only
    rw [position]
    have held := same.getD (indexOr inner "contentBlockIndex" blocks.length) .empty
    exact same.set _ (value.whenObject name named held fun source _ given => merges _ _ source _ held given)
  | none =>
    rw [members.readNoObject part safe found]
    exact same

theorem same_messageStop {event out : Map} {w u : JsVal} (members : Same numbers (.object event) w)
    (target : AgreeOn numbers isShown out u) :
    AgreeOn numbers isShown
      (match objectField event "messageStop" with
        | some messageStop => Enclave.copyField out messageStop "stopReason"
        | none => out)
      (if (w.get "messageStop").isRecord then
        copyDefined "additionalModelResponseFields" (copyDefined "stopReason" u (w.get "messageStop"))
          (w.get "messageStop")
      else u) := by
  cases found : objectField event "messageStop" with
  | some stop =>
    obtain ⟨record, value⟩ := members.readObject "messageStop" (by decide) found
    have copied := target.copy value "stopReason".toList (by decide)
    rw [if_pos record, copyDefined]
    by_cases missing : isUndefined ((w.get "messageStop").get "additionalModelResponseFields") = true
    · rw [if_pos missing]
      exact copied
    · rw [if_neg missing]
      refine copied.setOutside "additionalModelResponseFields" (by decide) (by decide) fun eq => missing ?_
      rw [eq]
      rfl
  | none =>
    rw [members.readNoObject "messageStop" (by decide) found]
    exact target

theorem same_metadata {event out : Map} {w u : JsVal} (members : Same numbers (.object event) w)
    (target : AgreeOn numbers isShown out u) :
    AgreeOn numbers isShown
      (match objectField event "metadata" with
        | some metadata => Enclave.copyField out metadata "usage"
        | none => out)
      (if (w.get "metadata").isRecord then copyDefined "usage" u (w.get "metadata") else u) :=
  members.when "metadata" (by decide) target fun _ _ value => target.copy value "usage".toList (by decide)

/-- A literal output is taken over together with the other fields of the event. -/
theorem same_literalOutput {event out : Map} {w u : JsVal} (members : Same numbers (.object event) w)
    (output : ∀ v, field event "output" = some v → ∃ m, v = .object m) (target : AgreeOn numbers isShown out u) :
    AgreeOn numbers isShown
      (if (field event "output").isSome then
        Enclave.mergeValueObject out (Enclave.pickValue Enclave.bedrockKeys (.object event)) else out)
      (if (w.get "output").isRecord then mergeObject u (pick w bedrockFields) else u) := by
  cases found : field event "output" with
  | some v =>
    obtain ⟨m, rfl⟩ := output v found
    have held : objectField event "output" = some m := by
      rw [objectField, found]
      rfl
    rw [if_pos (members.readObject "output" (by decide) held).1]
    exact target.mergePick members bedrockFields (by decide)
  | none =>
    have missing : objectField event "output" = none := by
      rw [objectField, found]
      rfl
    rw [members.readNoObject "output" (by decide) missing]
    exact target

theorem bedrock_step {locals : Map × Map × IndexMap} {s : Nested} (state : BedrockSame numbers locals s) {v : Value}
    {w : JsVal} (read : Reads numbers v w) (shaped : ∀ event, v = .object event → BedrockShaped event) :
    BedrockSame numbers (Enclave.aggregateBedrockConverseStream.item locals v) (bedrockStep s w) := by
  obtain ⟨out, message, blocks⟩ := locals
  rcases read.same.object_cases with ⟨event, found, record, same⟩ | ⟨missing, noRecord⟩
  · obtain rfl := eq_object found
    have shape := shaped event rfl
    unfold Enclave.aggregateBedrockConverseStream.item bedrockStep
    simp only [Value.asObject, record, Bool.not_true, Bool.false_eq_true, if_false]
    constructor
    · have stopped := same_messageStop same state.out
      have counted := same_metadata same stopped
      exact (same_literalOutput same shape.output counted).copy same "error".toList (by decide)
    · exact same.whenObject "messageStart" (by decide) state.message
        fun _ _ value => state.message.copy value "role".toList (by decide)
    · have opened := same_bedrockBlock same state.blocks "contentBlockStart" "start" (by decide) (by decide) shape.start
        fun _ _ _ _ block source => block.extend source
      exact same_bedrockBlock same opened "contentBlockDelta" "delta" (by decide) (by decide) shape.delta
        fun _ _ _ _ block source => same_bedrockDelta block source
  · unfold Enclave.aggregateBedrockConverseStream.item bedrockStep
    simp only [missing, noRecord, Bool.not_false, if_true]
    exact state

/-- The enclave and the verifier aggregate a provider-shaped stream alike. -/
theorem aggregateBedrockConverseStream_same (numbers : Numbers) (events : List (Json numbers.Token))
    (plain : ∀ e ∈ events, e.plain = true)
    (shaped : ∀ e ∈ events, ∀ event, e.toRust numbers = .object event → BedrockShaped event) :
    Same numbers (Enclave.aggregateBedrockConverseStream (.array (events.map (Json.toRust numbers))))
      (aggregateBedrockConverseStream (events.map (Json.toJs numbers))) := by
  have run := rel_documents (I := BedrockSame numbers) (fun _ _ _ _ state => bedrock_step state) events plain shaped
    (⟨.empty, .empty, .nil⟩ : BedrockSame numbers ([], [], []) .init)
  revert run
  unfold Enclave.aggregateBedrockConverseStream aggregateBedrockConverseStream bedrockFinish
  simp only [Value.asArray]
  generalize (events.map (Json.toRust numbers)).foldl _ _ = locals
  generalize (events.map (Json.toJs numbers)).foldl _ _ = s
  intro run
  obtain ⟨out, message, blocks⟩ := locals
  have valued := same_object.mpr ((same_object.mp run.message).withValues run.blocks "content" (by decide))
  have shown := entries_pos valued
  have unknown := run.out.isUndefined_get "output" (by decide) (by decide)
  have named : JStr.ofChars "content".toList = JStr.lit "content" := rfl
  rw [named] at valued shown
  revert valued shown
  dsimp only at unknown ⊢
  generalize (if blocks.isEmpty then message else _) = final
  generalize withValues _ s.map s.inner = finalJs
  intro valued shown
  rw [unknown]
  have wrapped : Same numbers (.ofFields [("message", .object final)]) (ofObject [("message", finalJs)]) :=
    Same.empty.setObject "message" (by decide) valued
  have told := (run.out.set "output" (by decide) (fun _ => wrapped) nofun).pick bedrockFields (by decide)
  have kept := run.out.pick bedrockFields (by decide)
  cases OrdMap.contains "output".toList out with
  | true =>
    rw [if_neg (by simp), if_neg (by simp)]
    exact kept
  | false =>
    cases final with
    | nil =>
      rw [if_neg (by simp), if_neg (not_and_of_not_left _ (mt shown.mp (by simp)))]
      exact kept
    | cons p rest =>
      rw [if_pos (by simp), if_pos ⟨shown.mpr rfl, rfl⟩]
      exact told

/-- A tool call written by one delta. -/
def bedrockSample : Json Numbers.sample.Token :=
  .obj [("contentBlockDelta".toList, .obj [("contentBlockIndex".toList, .num Numbers.zero),
    ("delta".toList, .obj [("toolUse".toList, .obj [("input".toList, .str "hi".toList)])])])]

theorem aggregateBedrockConverseStream_same_tool :
    bedrockSample.plain = true ∧
      Same Numbers.sample
        (Enclave.aggregateBedrockConverseStream (.array ([bedrockSample].map (Json.toRust Numbers.sample))))
        (aggregateBedrockConverseStream ([bedrockSample].map (Json.toJs Numbers.sample))) := by
  have plain : bedrockSample.plain = true := by decide
  refine ⟨plain, aggregateBedrockConverseStream_same Numbers.sample [bedrockSample] (by simpa using plain) ?_⟩
  intro e member event read
  obtain rfl : e = bedrockSample := List.mem_singleton.mp member
  obtain rfl := (Value.object.inj read).symm
  constructor
  · intro v held
    cases held
  · intro inner held
    cases held
  · intro inner held v index
    obtain rfl := Option.some.inj held
    obtain rfl := Option.some.inj index
    exact ⟨0, rfl, by decide⟩

end TeeProof
