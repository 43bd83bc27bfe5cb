import TeeProof.ToolAgreement

/-! OpenAI Chat Completions streams on the two sides, and the events on which the two
aggregations agree. -/
namespace TeeProof

open JsVal Verifier
open Value (Map)
open Enclave (put field strField arrayField objectField IndexMap indexOr)

variable {numbers : Numbers}

/-- A string field that is set once. -/
theorem AgreeOn.setOnce {P : Str → Prop} {map source : Map} {w u : JsVal} (target : AgreeOn numbers P map w)
    (members : Same numbers (.object source) u) (key : String) (inside : P key.toList)
    (safe : key.toList ≠ protoName) :
    AgreeOn numbers P
      (if OrdMap.contains key.toList map then map
        else match strField source key.toList with
          | some text => put map key.toList (.string text)
          | none => map)
      (if isUndefined (w.get (JStr.lit key)) && isString (u.get (JStr.lit key)) then
        w.set (JStr.lit key) (u.get (JStr.lit key)) else w) := by
  rw [target.isUndefined_get key inside safe, strField]
  rcases (members.read key safe).string with ⟨s, found, text⟩ | ⟨missing, other⟩
  · rw [found, text]
    cases OrdMap.contains key.toList map with
    | true => exact target
    | false => exact target.set key.toList safe (fun _ => .string s) (by simp)
  · rw [missing, other, Bool.and_false]
    split <;> exact target

theorem same_chatDelta {message delta : Map} {w u : JsVal} (target : Same numbers (.object message) w)
    (source : Same numbers (.object delta) u) (agrees : ToolCallsFieldAgrees message delta u) :
    Same numbers (.object (Enclave.mergeOpenAiChatDelta message delta)) (mergeOpenAIChatDelta w u) := by
  have role := same_object.mpr ((same_object.mp target).setOnce source "role" trivial (by decide))
  have content := role.append "content" (by decide) (source.read "content" (by decide))
  have reasoning := content.append "reasoning_content" (by decide) (source.read "reasoning_content" (by decide))
  unfold Enclave.mergeOpenAiChatDelta Verifier.mergeOpenAIChatDelta
  rw [Bool.and_comm (isString _)]
  refine same_toolCallsField reasoning source (agrees.congr ?_)
  rw [field_append_ne _ (by decide), field_append_ne _ (by decide)]
  split
  · rfl
  · split
    · exact field_put_ne _ (by decide) _
    · rfl

/-! One choice. -/

/-- A numeric index is an integer both sides read; any other is only met where the
position is the number of choices known. -/
def ChoiceIndexAgrees (o : Option Value) (x : JsVal) (known i : Nat) : Prop :=
  (∃ n k, o = some (.number n) ∧ Value.asI64 (.number n) = some k ∧ x = .num (.finite k)) ∨
    ((∀ n, o ≠ some (.number n)) ∧ known = i)

/-- The message of a choice so far. -/
def messageOf (choices : IndexMap) (index : Int) : Map :=
  ((OrdMap.find index choices).bind fun choice => objectField choice "message").getD []

structure ChatChoiceAgrees (choices : IndexMap) (choice : Map) (w : JsVal) (i : Nat) : Prop where
  index : ChoiceIndexAgrees (field choice "index") (w.get "index") choices.length i
  tools : ∀ delta, objectField choice "delta" = some delta →
    ToolCallsFieldAgrees (messageOf choices (indexOr choice "index" choices.length)) delta (w.get "delta")

/-- An integer read from a token is written as the token was read. -/
theorem ofInt_number {t : numbers.Token} {k : Int} (read : Value.asI64 (.number (numbers.rust t)) = some k) :
    Value.ofInt k = .number (numbers.rust t) := by
  cases token : numbers.rust t with
  | posInt n =>
    simp only [token, Value.asI64] at read
    split at read
    · cases read
      simp [Value.ofInt]
    · cases read
  | negInt n =>
    have below := numbers.negative t n token
    simp only [token, Value.asI64, Option.some.injEq] at read
    subst read
    rw [Value.ofInt, if_neg (by omega), Int64.ofInt_toInt]
  | float bits => simp [token, Value.asI64] at read

theorem SameField.choiceIndex {o : Option Value} {x : JsVal} (same : SameField numbers o x) {known i : Nat}
    (agrees : ChoiceIndexAgrees o x known i) (small : i < 2 ^ 53) :
    numberElse x i = .finite ((o.bind Value.asI64).getD known : Int) ∧
      Same numbers (.ofInt ((o.bind Value.asI64).getD known)) (.num (.finite ((o.bind Value.asI64).getD known : Int))) := by
  rcases agrees with ⟨n, k, rfl, read, rfl⟩ | ⟨other, rfl⟩
  · rw [Option.bind_some, read, Option.getD_some]
    refine ⟨rfl, ?_⟩
    generalize token : Value.number n = v at same read
    generalize number : JsVal.num (.finite (k : ℚ)) = x at same
    cases same with
    | present same defined =>
      cases same with
      | number t =>
        rw [ofInt_number read]
        exact .number t
      | _ => cases token
  · have fallback : (o.bind Value.asI64).getD (known : Int) = known := by
      cases o with
      | none => rfl
      | some v =>
        cases v with
        | number n => exact absurd rfl (other n)
        | _ => rfl
    rw [fallback]
    refine ⟨?_, .ofIndex known small⟩
    cases same with
    | absent => simp [numberElse]
    | present same defined =>
      cases same with
      | number t => exact absurd rfl (other _)
      | _ => simp [numberElse]

theorem messageOf_eq (choices : IndexMap) (index : Int) (default : Map)
    (fresh : objectField default "message" = some []) :
    (objectField ((OrdMap.find index choices).getD default) "message").getD [] = messageOf choices index := by
  rw [messageOf]
  cases OrdMap.find index choices with
  | none =>
    rw [Option.getD_none, fresh]
    rfl
  | some choice => rfl

/-- A choice made for an index. -/
theorem same_madeChoice {k : Int} (index : Same numbers (.ofInt k) (.num (.finite k))) :
    Same numbers (.object [("index".toList, .ofInt k), ("message".toList, .object [])])
      (ofObject [("index", .num (.finite k)), ("message", JsVal.empty)]) :=
  (Same.empty.set "index" (by decide) index nofun).set "message" (by decide) .empty nofun

theorem chatChoice_step {choices : IndexMap} {nums : NumMap} (same : SameIndexed numbers choices nums) {v : Value}
    {w : JsVal} (read : Same numbers v w) (i : Nat) (small : i < 2 ^ 53)
    (agrees : ∀ choice, v = .object choice → ChatChoiceAgrees choices choice w i) :
    SameIndexed numbers (Enclave.aggregateOpenAiChatStream.choice choices v) (chatChoiceStep nums w i) := by
  unfold Enclave.aggregateOpenAiChatStream.choice chatChoiceStep
  rcases read.object_cases with ⟨choice, found, record, members⟩ | ⟨missing, noRecord⟩
  · have both := agrees choice (eq_object found)
    obtain ⟨index, written⟩ := (members.read "index" (by decide)).choiceIndex both.index small
    simp only [found, record, Bool.not_true, Bool.false_eq_true, if_false, index]
    have default := same_madeChoice written
    refine same.set _ (Same.copy ?_ members "logprobs" (by decide))
    refine members.copyNonNull "finish_reason" (by decide) ?_
    refine (same.getD _ default).setObject "message" (by decide) ?_
    have before := ((same.getD (indexOr choice "index" choices.length) default).read "message" (by decide)).recordOr
    have current := messageOf_eq choices (indexOr choice "index" choices.length)
      [("index".toList, .ofInt (indexOr choice "index" choices.length)), ("message".toList, .object [])] rfl
    refine members.whenObject "message" (by decide) ?_ fun full _ inner => Same.extend ?_ inner
    all_goals
      refine members.whenObject "delta" (by decide) before fun delta held inner => same_chatDelta before inner ?_
      have tools := both.tools delta held
      rw [← current] at tools
      exact tools
  · simp only [missing, noRecord, Bool.not_false, if_true]
    exact same

/-! The choices of a chunk, a chunk, and the stream. -/

/-- Each choice meets its condition in the state the ones before it leave. -/
def ChatChoicesAgree (choices : IndexMap) (i : Nat) : List Value → List JsVal → Prop
  | raw :: rest, w :: rest' =>
    (∀ choice, raw = .object choice → ChatChoiceAgrees choices choice w i) ∧
      ChatChoicesAgree (Enclave.aggregateOpenAiChatStream.choice choices raw) (i + 1) rest rest'
  | _, _ => True

def ChatChunkAgrees (locals : Map × IndexMap) (chunk : Map) (w : JsVal) : Prop :=
  ∀ items, arrayField chunk "choices" = some items → ChatChoicesAgree locals.2 0 items (w.get "choices").items

theorem chatChoices_run {items : List Value} {items' : List JsVal} (pairs : List.Forall₂ (Same numbers) items items')
    (i : Nat) (small : i + items.length ≤ 2 ^ 53) {choices : IndexMap} {nums : NumMap}
    (same : SameIndexed numbers choices nums) (agrees : ChatChoicesAgree choices i items items') :
    SameIndexed numbers (items.foldl Enclave.aggregateOpenAiChatStream.choice choices)
      ((items'.zipIdx i).foldl (fun m p => chatChoiceStep m p.1 p.2) nums) := by
  induction pairs generalizing i choices nums with
  | nil => exact same
  | cons first rest ih =>
    rw [List.length_cons] at small
    exact ih (i + 1) (by omega) (chatChoice_step same first i (by omega) agrees.1) agrees.2

theorem chat_step {locals : Map × IndexMap} {s : Indexed} (state : SameLocals numbers (fun _ => True) locals s)
    {v : Value} {w : JsVal} (read : Reads numbers v w)
    (agrees : ∀ chunk, v = .object chunk → ChatChunkAgrees locals chunk w) :
    SameLocals numbers (fun _ => True) (Enclave.aggregateOpenAiChatStream.item locals v) (chatStep s w) := by
  obtain ⟨out, choices⟩ := locals
  unfold Enclave.aggregateOpenAiChatStream.item chatStep
  rcases read.same.object_cases with ⟨chunk, found, record, same⟩ | ⟨missing, noRecord⟩
  · have both := agrees chunk (eq_object found)
    simp only [found, record, Bool.not_true, Bool.false_eq_true, if_false]
    have model := state.out.setOnce same "model" trivial (by decide)
    have copied := (model.copy same "usage" (by decide)).copy same "error" (by decide)
    have short := short_get (same_object.mp same) read.short "choices" (by decide)
    rcases (same.read "choices" (by decide)).array with ⟨items, items', held, eq, pairs⟩ | ⟨none, empty, -⟩
    · have bounds := (short_arr (eq ▸ short : (JsVal.arr items').short = true)).1
      have walked := both items held
      rw [eq, JsVal.items] at walked
      simp only [arrayField, held, eq, JsVal.items]
      have length := pairs.length_eq
      exact ⟨copied, chatChoices_run pairs 0 (by omega) state.map walked⟩
    · simp only [arrayField, none, empty, List.zipIdx_nil, List.foldl_nil]
      exact ⟨copied, state.map⟩
  · simp only [missing, noRecord, Bool.not_false, if_true]
    exact state

/-- In a stream whose chunks all meet the condition, the two aggregations agree after
every chunk. -/
theorem aggregateOpenAIChatStream_same (numbers : Numbers) (events : List (Json numbers.Token))
    (plain : ∀ e ∈ events, e.plain = true)
    (meets : Meets numbers Enclave.aggregateOpenAiChatStream.item ChatChunkAgrees ([], []) events) (n : Nat) :
    Same numbers (Enclave.aggregateOpenAiChatStream (.array ((events.take n).map (Json.toRust numbers))))
      (aggregateOpenAIChatStream ((events.take n).map (Json.toJs numbers))) := by
  have run := rel_meets (I := SameLocals numbers fun _ => True)
    (fun _ _ _ _ state read both => chat_step state read fun chunk eq => (both chunk eq).2) (events.take n)
    (fun e member => plain e (List.mem_of_mem_take member)) (fun _ _ _ _ => trivial) SameLocals.init (meets.take n)
  revert run
  unfold Enclave.aggregateOpenAiChatStream aggregateOpenAIChatStream
  simp only [Value.asArray]
  generalize ((events.take n).map (Json.toRust numbers)).foldl _ _ = locals
  generalize ((events.take n).map (Json.toJs numbers)).foldl _ _ = s
  intro run
  obtain ⟨out, choices⟩ := locals
  exact same_object.mpr (run.out.withValues run.map "choices" (by decide))

/-- A chunk with a text and the first fragment of a tool call. -/
def chatSample : Json Numbers.sample.Token :=
  .obj [("choices".toList, .arr [.obj [("index".toList, .num Numbers.zero),
    ("delta".toList, .obj [("content".toList, .str "hi".toList),
      ("tool_calls".toList, .arr [.obj [("index".toList, .num Numbers.zero),
        ("function".toList, .obj [("name".toList, .str "f".toList)])]])])]])]

theorem aggregateOpenAIChatStream_same_tool :
    chatSample.plain = true ∧
      Same Numbers.sample
        (Enclave.aggregateOpenAiChatStream (.array (([chatSample].take 1).map (Json.toRust Numbers.sample))))
        (aggregateOpenAIChatStream (([chatSample].take 1).map (Json.toJs Numbers.sample))) := by
  have plain : chatSample.plain = true := by decide
  refine ⟨plain, aggregateOpenAIChatStream_same Numbers.sample [chatSample] (by simpa using plain) ?_ 1⟩
  refine ⟨fun chunk read => ?_, trivial⟩
  obtain rfl := (Value.object.inj read).symm
  intro items held
  obtain rfl := Option.some.inj held
  refine ⟨fun choice eq => ?_, trivial⟩
  obtain rfl := Value.object.inj eq
  refine ⟨.inl ⟨.posInt 0, 0, rfl, rfl, rfl⟩, fun delta held => ?_⟩
  obtain rfl := Option.some.inj held
  refine ⟨fun raw eq => ?_, trivial⟩
  obtain rfl := Value.object.inj eq
  refine ⟨rfl, Nat.zero_le _, by decide, fun v held => ?_⟩
  obtain rfl := Option.some.inj held
  exact .inl rfl

/-- A choice without an index. -/
def chatUnindexed : Json Numbers.sample.Token :=
  .obj [("choices".toList, .arr [.obj [("delta".toList, .obj [("content".toList, .str "a".toList)])]])]

/-- Sent twice, it makes two choices in the enclave and one in the verifier. -/
theorem chat_choices_differ :
    chatUnindexed.plain = true ∧
      ¬Same Numbers.sample
        (Enclave.aggregateOpenAiChatStream (.array ([chatUnindexed, chatUnindexed].map (Json.toRust Numbers.sample))))
        (aggregateOpenAIChatStream ([chatUnindexed, chatUnindexed].map (Json.toJs Numbers.sample))) := by
  refine ⟨by decide, fun same => ?_⟩
  have read := (show Same Numbers.sample (.object _) _ from same).read "choices" (by decide)
  rcases read.array with ⟨items, items', held, eq, pairs⟩ | ⟨missing, -⟩
  · have two : some 2 = some items.length := congrArg (Option.map List.length) held
    have one : 1 = items'.length := congrArg (fun x => x.items.length) eq
    have length := pairs.length_eq
    rw [← one, ← Option.some.inj two] at length
    cases length
  · cases missing

end TeeProof
