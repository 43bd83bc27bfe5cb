import TeeProof.ChatAgreement

/-! DashScope generation streams on the two sides. -/
namespace TeeProof

open JsVal Verifier
open Value (Map)
open Enclave (put field strField arrayField objectField IndexMap indexOr)

variable {numbers : Numbers}

theorem same_dashscopeMessage {target source : Map} {w u : JsVal} (same : Same numbers (.object target) w)
    (members : Same numbers (.object source) u) (agrees : ToolCallsFieldAgrees target source u) :
    Same numbers (.object (Enclave.mergeDashscopeMessage target source)) (mergeDashscopeMessage w u) := by
  have content := same.append "content" (by decide) (members.read "content" (by decide))
  have reasoning := content.append "reasoning_content" (by decide) (members.read "reasoning_content" (by decide))
  have tools := same_toolCallsField reasoning members (agrees.congr (by
    rw [field_append_ne _ (by decide), field_append_ne _ (by decide)]))
  exact tools.copyOthers members ["content".toList, "reasoning_content".toList, "tool_calls".toList]

/-! One choice. -/

/-- The message of a choice after the raw message of its next fragment. -/
def messageAfter (message choice : Map) : Map :=
  match objectField choice "message" with
  | some rawMessage => Enclave.mergeDashscopeMessage message rawMessage
  | none => message

structure DashscopeChoiceAgrees (choices : IndexMap) (choice : Map) (w : JsVal) (i : Nat) : Prop where
  message : ∀ raw, objectField choice "message" = some raw →
    ToolCallsFieldAgrees (messageOf choices (indexOr choice "index" i)) raw (w.get "message")
  delta : ∀ raw, objectField choice "delta" = some raw →
    ToolCallsFieldAgrees (messageAfter (messageOf choices (indexOr choice "index" i)) choice) raw (w.get "delta")

theorem objectField_bind (m : Map) (key : Str) : objectField m key = (field m key).bind Value.asObject := rfl

theorem dashscopeChoice_step {choices : IndexMap} {nums : NumMap} (same : SameIndexed numbers choices nums) {v : Value}
    {w : JsVal} (read : Same numbers v w) (i : Nat) (small : i < 2 ^ 53)
    (indexed : ∀ choice, v = .object choice → IsIndex (field choice "index"))
    (agrees : ∀ choice, v = .object choice → DashscopeChoiceAgrees choices choice w i) :
    SameIndexed numbers (Enclave.aggregateDashscopeGenerationStream.choice choices (v, i))
      (dashscopeChoiceStep nums w i) := by
  unfold Enclave.aggregateDashscopeGenerationStream.choice dashscopeChoiceStep
  rcases read.object_cases with ⟨choice, found, record, members⟩ | ⟨missing, noRecord⟩
  · have both := agrees choice (eq_object found)
    have position := indexed choice (eq_object found)
    have index := (members.read "index" (by decide)).index position i
    obtain ⟨n, bound, taken⟩ := position.bound i small
    simp only [found, record, Bool.not_true, Bool.false_eq_true, if_false, index.2]
    have written : Same numbers (.ofInt (indexOr choice "index" i)) (.num (.finite (indexOr choice "index" i))) := by
      rw [indexOr, taken]
      exact .ofIndex n bound
    have default := same_madeChoice written
    refine same.set _ (Same.copyOthers ?_ members ["index".toList, "message".toList, "delta".toList])
    refine (same.getD _ default).setObject "message" (by decide) ?_
    have before := ((same.getD (indexOr choice "index" i) default).read "message" (by decide)).recordOr
    have current : messageOf choices (indexOr choice "index" i) = _ :=
      (messageOf_eq choices (indexOr choice "index" i)
        [("index".toList, .ofInt (indexOr choice "index" i)), ("message".toList, .object [])] rfl).symm
    rw [← objectField_bind, ← current] at before
    have after : Same numbers (.object (messageAfter (messageOf choices (indexOr choice "index" i)) choice)) _ :=
      members.whenObject "message" (by decide) before fun raw held inner =>
        same_dashscopeMessage before inner (both.message raw held)
    have final := members.whenObject "delta" (by decide) after fun raw held inner =>
      same_dashscopeMessage after inner (both.delta raw held)
    rw [current] at final
    exact final
  · simp only [missing, noRecord, Bool.not_false, if_true]
    exact same

/-! The choices of a chunk, a chunk, and the stream. -/

/-- Each choice meets its condition in the state the ones before it leave. -/
def DashscopeChoicesAgree (choices : IndexMap) (i : Nat) : List Value → List JsVal → Prop
  | raw :: rest, w :: rest' =>
    (∀ choice, raw = .object choice → DashscopeChoiceAgrees choices choice w i) ∧
      DashscopeChoicesAgree (Enclave.aggregateDashscopeGenerationStream.choice choices (raw, i)) (i + 1) rest rest'
  | _, _ => True

/-- The choices of a chunk. -/
def dashscopeChoices (chunk : Map) : List Value :=
  ((objectField chunk "output").bind fun output => arrayField output "choices").getD []

def DashscopeChunkAgrees (locals : Map × Map × IndexMap) (chunk : Map) (w : JsVal) : Prop :=
  DashscopeChoicesAgree locals.2.2 0 (dashscopeChoices chunk) ((w.get "output").get "choices").items

def DashscopeIndexed (chunk : Map) : Prop :=
  ∀ choice, .object choice ∈ dashscopeChoices chunk → IsIndex (field choice "index")

theorem dashscopeChoices_run {items : List Value} {items' : List JsVal}
    (pairs : List.Forall₂ (Same numbers) items items') (i : Nat) (small : i + items.length ≤ 2 ^ 53)
    (indexed : ∀ choice, .object choice ∈ items → IsIndex (field choice "index")) {choices : IndexMap} {nums : NumMap}
    (same : SameIndexed numbers choices nums) (agrees : DashscopeChoicesAgree choices i items items') :
    SameIndexed numbers ((items.zipIdx i).foldl Enclave.aggregateDashscopeGenerationStream.choice choices)
      ((items'.zipIdx i).foldl (fun m p => dashscopeChoiceStep m p.1 p.2) nums) := by
  induction pairs generalizing i choices nums with
  | nil => exact same
  | cons first rest ih =>
    rw [List.length_cons] at small
    refine ih (i + 1) (by omega) (fun choice member => indexed choice (List.mem_cons_of_mem _ member)) ?_ agrees.2
    exact dashscopeChoice_step same first i (by omega) (fun choice eq => indexed choice (by simp [eq])) agrees.1

structure SameNested (numbers : Numbers) (locals : Map × Map × IndexMap) (s : Nested) : Prop where
  out : Same numbers (.object locals.1) s.out
  inner : Same numbers (.object locals.2.1) s.inner
  map : SameIndexed numbers locals.2.2 s.map

/-! All of an output but its choices. -/

def outputValue (key : Str) (_ : Option Value) (value : Value) : Option Value :=
  if key = "choices".toList then none else some value

def outputValueJs (key : JStr) (_ value : JsVal) : Option JsVal :=
  if key ≠ JStr.lit "choices" then some value else none

theorem outputValues :
    Revisions numbers (fun _ => True) (fun _ _ _ _ => True) outputValue outputValueJs where
  same key _ _ o x old v y value defined _ := by
    unfold outputValue outputValueJs
    simp only [ne_eq, ofChars_eq_lit]
    by_cases here : key = "choices".toList
    · rw [if_pos here, if_neg (not_not_intro here)]
      exact old
    · rw [if_neg here, if_pos here]
      exact .present value defined
  defined key x y defined := by
    unfold outputValueJs
    split
    · simpa using defined
    · simp

theorem Same.copyOutput {target source : Map} {w u : JsVal} (same : Same numbers (.object target) w)
    (members : Same numbers (.object source) u) :
    Same numbers
      (.object (source.foldl (fun output p => if p.1 = "choices".toList then output else put output p.1 p.2) target))
      (u.entries.foldl (fun o p => if p.1 ≠ JStr.lit "choices" then o.set p.1 p.2 else o) w) := by
  have left : (fun (output : Map) (p : Str × Value) =>
      if p.1 = "choices".toList then output else put output p.1 p.2) = fun out p => revise outputValue out p.1 p.2 := by
    funext out p
    unfold revise outputValue
    split <;> rfl
  have right : (fun (o : JsVal) (p : JStr × JsVal) => if p.1 ≠ JStr.lit "choices" then o.set p.1 p.2 else o) =
      fun out p => reviseJs outputValueJs out p.1 p.2 := by
    funext out p
    unfold reviseJs outputValueJs
    split <;> rfl
  rw [left, right]
  exact same.loop outputValues members fun _ _ _ _ _ _ => trivial

theorem dashscope_step {locals : Map × Map × IndexMap} {s : Nested} (state : SameNested numbers locals s) {v : Value}
    {w : JsVal} (read : Reads numbers v w)
    (both : ∀ chunk, v = .object chunk → DashscopeIndexed chunk ∧ DashscopeChunkAgrees locals chunk w) :
    SameNested numbers (Enclave.aggregateDashscopeGenerationStream.item locals v) (dashscopeStep s w) := by
  obtain ⟨out, output, choices⟩ := locals
  unfold Enclave.aggregateDashscopeGenerationStream.item dashscopeStep
  rcases read.same.object_cases with ⟨chunk, found, record, same⟩ | ⟨missing, noRecord⟩
  · obtain ⟨positions, agrees⟩ := both chunk (eq_object found)
    unfold DashscopeIndexed at positions
    unfold DashscopeChunkAgrees at agrees
    simp only [found, record, Bool.not_true, Bool.false_eq_true, if_false]
    have copied := same_object.mpr ((same_object.mp state.out).copyAll same
      ["usage", "request_id", "code", "message"] (by decide))
    cases held : objectField chunk "output" with
    | none =>
      rw [same.readNoObject "output" (by decide) held]
      exact ⟨copied, state.inner, state.map⟩
    | some rawOutput =>
      obtain ⟨isRecord, inner⟩ := same.readObject "output" (by decide) held
      simp only [dashscopeChoices, held, Option.bind_some] at agrees positions
      simp only [isRecord, Bool.not_true, Bool.false_eq_true, if_false]
      have other := state.inner.copyOutput inner
      have short := short_get (same_object.mp inner)
        (short_get (same_object.mp same) read.short "output" (by decide)) "choices" (by decide)
      rcases (inner.read "choices" (by decide)).array with ⟨items, items', listed, eq, pairs⟩ | ⟨none, empty, -⟩
      · have bounds := (short_arr (eq ▸ short : (JsVal.arr items').short = true)).1
        simp only [arrayField, listed, Option.getD_some, eq, JsVal.items] at agrees positions
        simp only [arrayField, listed, eq, JsVal.items]
        have length := pairs.length_eq
        exact ⟨copied, other, dashscopeChoices_run pairs 0 (by omega) positions state.map agrees⟩
      · simp only [arrayField, none, empty, List.zipIdx_nil, List.foldl_nil]
        exact ⟨copied, other, state.map⟩
  · simp only [missing, noRecord, Bool.not_false, if_true]
    exact state

/-- In a stream whose chunks all meet the condition, the two aggregations agree after
every chunk. -/
theorem aggregateDashscopeGenerationStream_same (numbers : Numbers) (events : List (Json numbers.Token))
    (plain : ∀ e ∈ events, e.plain = true)
    (indexed : ∀ e ∈ events, ∀ chunk, e.toRust numbers = .object chunk → DashscopeIndexed chunk)
    (meets : Meets numbers Enclave.aggregateDashscopeGenerationStream.item DashscopeChunkAgrees ([], [], []) events)
    (n : Nat) :
    Same numbers (Enclave.aggregateDashscopeGenerationStream (.array ((events.take n).map (Json.toRust numbers))))
      (aggregateDashscopeGenerationStream ((events.take n).map (Json.toJs numbers))) := by
  have run := rel_meets (I := SameNested numbers) (fun _ _ _ _ state => dashscope_step state) (events.take n)
    (fun e member => plain e (List.mem_of_mem_take member)) (fun e member => indexed e (List.mem_of_mem_take member))
    (⟨.empty, .empty, .nil⟩ : SameNested numbers ([], [], []) .init) (meets.take n)
  revert run
  unfold Enclave.aggregateDashscopeGenerationStream aggregateDashscopeGenerationStream dashscopeFinish
  simp only [Value.asArray]
  generalize ((events.take n).map (Json.toRust numbers)).foldl _ _ = locals
  generalize ((events.take n).map (Json.toJs numbers)).foldl _ _ = s
  intro run
  obtain ⟨out, output, choices⟩ := locals
  have valued := same_object.mpr ((same_object.mp run.inner).withValues run.map "choices" (by decide))
  have shown := entries_pos valued
  have named : JStr.ofChars "choices".toList = JStr.lit "choices" := rfl
  rw [named] at valued shown
  revert valued shown
  dsimp only
  generalize (if choices.isEmpty then output else _) = final
  generalize withValues _ s.map s.inner = finalJs
  intro valued shown
  cases final with
  | nil =>
    rw [if_neg (mt shown.mp (by simp))]
    exact run.out.pick dashscopeFields (by decide)
  | cons p rest =>
    rw [if_pos (shown.mpr rfl)]
    exact (run.out.setObject "output" (by decide) valued).pick dashscopeFields (by decide)

/-- A chunk whose message has no tool calls. -/
def dashscopeSample : Json Numbers.sample.Token :=
  .obj [("output".toList, .obj [("choices".toList, .arr [.obj [("index".toList, .num Numbers.zero),
    ("message".toList, .obj [("content".toList, .str "hi".toList)])]])])]

theorem aggregateDashscopeGenerationStream_same_text :
    dashscopeSample.plain = true ∧
      Same Numbers.sample
        (Enclave.aggregateDashscopeGenerationStream
          (.array (([dashscopeSample].take 1).map (Json.toRust Numbers.sample))))
        (aggregateDashscopeGenerationStream (([dashscopeSample].take 1).map (Json.toJs Numbers.sample))) := by
  have plain : dashscopeSample.plain = true := by decide
  refine ⟨plain, aggregateDashscopeGenerationStream_same Numbers.sample [dashscopeSample] (by simpa using plain) ?_
    ⟨fun chunk read => ?_, trivial⟩ 1⟩
  · intro e member chunk read
    obtain rfl := List.mem_singleton.mp member
    obtain rfl := (Value.object.inj read).symm
    intro choice member v held
    obtain rfl := Value.object.inj (List.mem_singleton.mp member)
    obtain rfl := Option.some.inj held
    exact ⟨0, rfl, by decide⟩
  · obtain rfl := (Value.object.inj read).symm
    refine ⟨fun choice eq => ?_, trivial⟩
    obtain rfl := Value.object.inj eq
    constructor
    · intro raw held
      obtain rfl := Option.some.inj held
      trivial
    · intro raw held
      cases held

/-- A message with a null in place of its tool calls. -/
def dashscopeNull : Json Numbers.sample.Token :=
  .obj [("output".toList, .obj [("choices".toList, .arr [.obj [("index".toList, .num Numbers.zero),
    ("message".toList, .obj [("tool_calls".toList, .null)])]])])]

/-- The verifier makes an empty list of it, the enclave nothing. -/
theorem dashscope_tools_differ :
    dashscopeNull.plain = true ∧
      (∀ chunk, dashscopeNull.toRust Numbers.sample = .object chunk → DashscopeIndexed chunk) ∧
      ¬Same Numbers.sample
        (Enclave.aggregateDashscopeGenerationStream (.array ([dashscopeNull].map (Json.toRust Numbers.sample))))
        (aggregateDashscopeGenerationStream ([dashscopeNull].map (Json.toJs Numbers.sample))) := by
  refine ⟨by decide, fun chunk read => ?_, fun same => ?_⟩
  · obtain rfl := (Value.object.inj read).symm
    intro choice member v held
    obtain rfl := Value.object.inj (List.mem_singleton.mp member)
    obtain rfl := Option.some.inj held
    exact ⟨0, rfl, by decide⟩
  · have output := ((show Same Numbers.sample (.object _) _ from same).readObject "output" (by decide) rfl).2
    have choices := output.read "choices" (by decide)
    rcases choices.array with ⟨items, items', held, eq, pairs⟩ | ⟨missing, -⟩
    · obtain rfl := Option.some.inj held
      obtain rfl : items' = _ := (JsVal.arr.inj eq).symm
      cases pairs with
      | cons first rest =>
        have message := (first.readObject "message" (by decide) rfl).2
        have tools := message.read "tool_calls" (by decide)
        cases tools
    · cases missing

end TeeProof
