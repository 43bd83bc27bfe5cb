import TeeProof.IndexAgreement

/-! Tool calls of a delta or a message, merged by position on the two sides, and when
the two merges agree. -/
namespace TeeProof

open JsVal Verifier
open Value (Map)
open Enclave (put field strField arrayField objectField IndexMap indexOr padTo objectAt)

variable {numbers : Numbers}

/-! Frames: a write leaves the other fields alone. -/

theorem field_put_ne (m : Map) {key other : Str} (apart : other ≠ key) (value : Value) :
    field (put m key value) other = field m other := OrdMap.find_insert_ne key other apart value m

theorem field_append_ne (m : Map) {key other : Str} (apart : other ≠ key) (o : Option Value) :
    field (Enclave.appendStringField m key o) other = field m other := by
  unfold Enclave.appendStringField
  split
  · rfl
  · split <;> exact field_put_ne m apart _

theorem field_of_array {m : Map} {key : Str} {items : List Value} (found : arrayField m key = some items) :
    field m key = some (.array items) := by
  obtain ⟨v, value, eq⟩ := Option.bind_eq_some_iff.mp found
  cases v <;> cases eq
  exact value

/-- Writing back what a field holds. -/
theorem Same.put_found {m : Map} {w : JsVal} (same : Same numbers (.object m) w) (key : Str) {v : Value}
    (found : field m key = some v) : put m key v = m := by
  obtain ⟨-, -, sorted, -⟩ := same_object.mp same
  exact OrdMap.insert_found sorted found

/-! The members of one fragment. -/

def toolCallValue (key : Str) (old : Option Value) (value : Value) : Option Value :=
  if key = "index".toList then none
  else if key = "function".toList then
    match value.asObject with
    | none => none
    | some delta =>
      let fn := Enclave.appendStringField ((old.bind Value.asObject).getD []) "name" (field delta "name")
      some (.object (Enclave.appendStringField fn "arguments" (field delta "arguments")))
  else some value

def toolCallValueJs (key : JStr) (old value : JsVal) : Option JsVal :=
  if key = JStr.lit "function" && value.isRecord then
    let fn := appendStringField "name" (value.get "name") (if old.isRecord then old.spread else JsVal.empty)
    some (appendStringField "arguments" (value.get "arguments") fn)
  else if key ≠ JStr.lit "index" then some value
  else none

theorem mergeToolCallField_eq : Enclave.mergeToolCallField = revise toolCallValue := by
  funext item key value
  unfold Enclave.mergeToolCallField revise toolCallValue
  split
  · rfl
  · split
    next same =>
      subst same
      cases value.asObject <;> rfl
    next => rfl

theorem mergeToolCallFieldJs_eq : mergeToolCallField = reviseJs toolCallValueJs := by
  funext item key value
  unfold Verifier.mergeToolCallField reviseJs toolCallValueJs
  split
  next same =>
    rw [Bool.and_eq_true, decide_eq_true_eq] at same
    obtain ⟨rfl, -⟩ := same
    rfl
  next => split <;> rfl

theorem isRecord_append (key : JStr) (value w : JsVal) : (appendStringField key value w).isRecord = w.isRecord := by
  unfold Verifier.appendStringField
  split
  · split <;> exact isRecord_set _ _ _
  · rfl

theorem toolCallValueJs_defined (key : JStr) (x y : JsVal) (defined : y ≠ .undefined) :
    toolCallValueJs key x y ≠ some .undefined := by
  unfold toolCallValueJs
  split
  · have start : (if x.isRecord then x.spread else JsVal.empty).isRecord = true := by
      split
      · cases x <;> rfl
      · rfl
    intro eq
    have record := congrArg JsVal.isRecord (Option.some.inj eq)
    rw [isRecord_append, isRecord_append, start] at record
    cases record
  · split
    · simpa using defined
    · simp

/-- A function fragment is an object; any other value is only met where it stands already. -/
def FunctionAgrees (old : Option Value) (value : Value) : Prop := value.asObject.isSome ∨ old = some value

theorem toolCallValues :
    Revisions numbers (fun _ => True) (fun key o v _ => key = "function".toList → FunctionAgrees o v) toolCallValue
      toolCallValueJs where
  same key _ _ o x old v y value defined admitted := by
    unfold toolCallValue toolCallValueJs
    simp only [ofChars_eq_lit, ne_eq]
    by_cases index : key = "index".toList
    · have other : key ≠ "function".toList := fun eq => absurd (index.symm.trans eq) (by decide)
      rw [if_pos index, decide_eq_false other, Bool.false_and, if_neg (by simp), if_neg (by simp [index])]
      exact old
    rw [if_neg index]
    by_cases function : key = "function".toList
    · rw [if_pos function, decide_eq_true function, Bool.true_and]
      rcases value.object_cases with ⟨delta, found, record, members⟩ | ⟨missing, noRecord⟩
      · rw [found, record]
        have named := old.objectOr.append "name" (by decide) (members.read "name" (by decide))
        have filled := named.append "arguments" (by decide) (members.read "arguments" (by decide))
        exact .present filled filled.object_defined
      · rw [missing, noRecord, if_neg (by simp), if_pos index]
        rcases admitted function with object | same
        · simp [missing] at object
        · rw [same]
          exact .present value defined
    · rw [if_neg function, decide_eq_false function, Bool.false_and, if_neg (by simp), if_pos index]
      exact .present value defined
  defined := toolCallValueJs_defined

/-! One fragment, a list of fragments, and the field that holds them. -/

/-- The position the enclave takes for a fragment. -/
def toolCallIndex (current : List Value) (raw : Map) : Nat :=
  ((field raw "index").bind Value.asU64).getD current.length

/-- Both sides take the same array position for the fragment, next to the ones there. -/
structure ToolCallAgrees (current : List Value) (raw : Map) (w : JsVal) : Prop where
  index : numberElse (w.get "index") current.length = .finite (toolCallIndex current raw)
  near : toolCallIndex current raw ≤ current.length
  fits : toolCallIndex current raw < maxArray
  function : ∀ v, field raw "function" = some v →
    FunctionAgrees (field (objectAt current (toolCallIndex current raw)) "function") v

def ToolCallsAgree (current : List Value) : List Value → List JsVal → Prop
  | raw :: rest, w :: rest' =>
    (∀ m, raw = .object m → ToolCallAgrees current m w) ∧ ToolCallsAgree (Enclave.mergeToolCall current raw) rest rest'
  | _, _ => True

/-- A value that is no array is only met where an array stands already. -/
def ToolCallsFieldAgrees (target source : Map) (u : JsVal) : Prop :=
  match field source "tool_calls" with
  | none => True
  | some (.array delta) =>
    ToolCallsAgree ((arrayField target "tool_calls").getD []) delta (u.get "tool_calls").items
  | some _ => (arrayField target "tool_calls").isSome = true

theorem ToolCallsFieldAgrees.congr {target other source : Map} {u : JsVal}
    (agrees : ToolCallsFieldAgrees target source u) (same : field other "tool_calls" = field target "tool_calls") :
    ToolCallsFieldAgrees other source u := by
  unfold ToolCallsFieldAgrees arrayField at agrees ⊢
  rw [same]
  exact agrees

theorem objectAt_pad (items : List Value) (i : Nat) : objectAt (padTo items i) i = objectAt items i := by
  unfold objectAt padTo
  by_cases within : i < items.length
  · rw [List.getElem?_append_left within]
  · rw [List.getElem?_append_right (by omega), List.getElem?_replicate, if_pos (by omega),
      List.getElem?_eq_none (by omega)]
    rfl

theorem same_toolCall {current : List Value} {current' : List JsVal}
    (same : List.Forall₂ (Same numbers) current current') {raw : Value} {w : JsVal} (value : Same numbers raw w)
    (agrees : ∀ m, raw = .object m → ToolCallAgrees current m w) :
    List.Forall₂ (Same numbers) (Enclave.mergeToolCall current raw) (mergeToolCall current' w) := by
  unfold Enclave.mergeToolCall Verifier.mergeToolCall
  rcases value.object_cases with ⟨m, found, record, members⟩ | ⟨missing, noRecord⟩
  · have both := agrees m (eq_object found)
    simp only [found, record, Bool.not_true, Bool.false_eq_true, if_false, ← same.length_eq, both.index]
    refine same_setAt same _ both.near both.fits ?_
    rw [mergeToolCallField_eq, mergeToolCallFieldJs_eq]
    refine (same_objectAt same _ both.fits).loop toolCallValues members fun key v y _ held _ => ?_
    rintro rfl
    rw [objectAt_pad]
    exact both.function v held
  · simp only [missing, noRecord, Bool.not_false, if_true]
    exact same

theorem same_toolCalls {current : List Value} {current' : List JsVal}
    (same : List.Forall₂ (Same numbers) current current') {delta : List Value} {delta' : List JsVal}
    (values : List.Forall₂ (Same numbers) delta delta') (agrees : ToolCallsAgree current delta delta') :
    List.Forall₂ (Same numbers) (Enclave.mergeToolCalls current delta) (delta'.foldl mergeToolCall current') := by
  induction values generalizing current current' with
  | nil => exact same
  | cons first rest ih => exact ih (same_toolCall same first agrees.1) agrees.2

theorem same_toolCallsField {target source : Map} {w u : JsVal} (same : Same numbers (.object target) w)
    (members : Same numbers (.object source) u) (agrees : ToolCallsFieldAgrees target source u) :
    Same numbers (.object (Enclave.mergeToolCallsField target source)) (mergeToolCallsField w u) := by
  unfold Enclave.mergeToolCallsField Verifier.mergeToolCallsField
  unfold ToolCallsFieldAgrees at agrees
  have read := members.read "tool_calls" (by decide)
  have held := same.read "tool_calls" (by decide)
  have shown := read.undefined
  cases found : field source "tool_calls" with
  | none =>
    rw [found] at shown
    simp only [arrayField, found, shown]
    exact same
  | some v =>
    rw [found] at shown agrees read
    rw [shown]
    rcases read.array with ⟨delta, delta', eq, text, values⟩ | ⟨other, -, noArray⟩
    · obtain rfl : v = .array delta := by
        cases v <;> cases eq
        rfl
      have done (current : List Value) (current' : List JsVal) (pairs : List.Forall₂ (Same numbers) current current')
          (both : ToolCallsAgree current delta delta') :
          Same numbers (.object (put target "tool_calls" (.array (Enclave.mergeToolCalls current delta))))
            (w.set "tool_calls" (.arr (delta'.foldl mergeToolCall (copyItems current')))) := by
        rw [copyItems_same pairs]
        exact same.set "tool_calls" (by decide) (.array (same_toolCalls pairs values both)) (by simp)
      rw [text] at agrees ⊢
      simp only [arrayField, found, Option.bind_some, Value.asArray, Option.isNone_some, Bool.false_eq_true, if_false,
        Verifier.mergeToolCalls]
      rcases held.array with ⟨items, items', old, array, pairs⟩ | ⟨none, empty, -⟩
      · simp only [arrayField, old, Option.getD_some, JsVal.items] at agrees
        simp only [old, array, Option.getD_some, JsVal.items]
        exact done items items' pairs agrees
      · simp only [arrayField, none, Option.getD_none, JsVal.items] at agrees
        simp only [none, empty, Option.getD_none]
        exact done [] [] .nil agrees
    · have kept : (arrayField target "tool_calls").isSome = true := by
        cases v with
        | array delta => cases other
        | _ => exact agrees
      obtain ⟨items, old⟩ := Option.isSome_iff_exists.mp kept
      have unread : Verifier.mergeToolCalls (w.get "tool_calls").items (u.get "tool_calls") =
          (w.get "tool_calls").items := by
        generalize u.get (JStr.lit "tool_calls") = x at noArray ⊢
        cases x with
        | arr items' => exact absurd rfl (noArray items')
        | _ => rfl
      simp only [arrayField, found, other, Option.isNone_some, Bool.false_eq_true, if_false, unread]
      rcases held.array with ⟨items, items', old, array, pairs⟩ | ⟨none, -, -⟩
      · rw [array, JsVal.items]
        have again := same.set "tool_calls" (by decide) (.array pairs) (by simp)
        rwa [same.put_found "tool_calls" (field_of_array old)] at again
      · exact absurd (none.symm.trans old) (by simp)

end TeeProof
