import TeeProof.Agreement

/-! The merge helpers of the two sides keep the same values the same. -/
namespace TeeProof

open JsVal Verifier
open Value (Map)
open Enclave (put field strField arrayField objectField typeOf)

variable {numbers : Numbers} {P : Str → Prop}

/-! What the two sides see of a field. -/

theorem Same.object_cases {v : Value} {y : JsVal} (same : Same numbers v y) :
    (∃ m, v.asObject = some m ∧ y.isRecord = true ∧ Same numbers (.object m) y) ∨
      (v.asObject = none ∧ y.isRecord = false) := by
  cases same with
  | object sorted plain fields => exact .inl ⟨_, rfl, rfl, .object sorted plain fields⟩
  | _ => exact .inr ⟨rfl, rfl⟩

theorem SameField.object {o : Option Value} {x : JsVal} (same : SameField numbers o x) :
    (∃ m, o.bind Value.asObject = some m ∧ x.isRecord = true ∧ Same numbers (.object m) x) ∨
      (o.bind Value.asObject = none ∧ x.isRecord = false) := by
  cases same with
  | absent => exact .inr ⟨rfl, rfl⟩
  | present same _ => exact same.object_cases

theorem SameField.string {o : Option Value} {x : JsVal} (same : SameField numbers o x) :
    (∃ s, o.bind Value.asStr = some s ∧ x = .str (JStr.ofChars s)) ∨
      (o.bind Value.asStr = none ∧ isString x = false) := by
  cases same with
  | absent => exact .inr ⟨rfl, rfl⟩
  | present same defined =>
    cases same with
    | string s => exact .inl ⟨s, rfl, rfl⟩
    | _ => exact .inr ⟨rfl, rfl⟩

theorem SameField.array {o : Option Value} {x : JsVal} (same : SameField numbers o x) :
    (∃ items items', o.bind Value.asArray = some items ∧ x = .arr items' ∧
      List.Forall₂ (Same numbers) items items') ∨
      (o.bind Value.asArray = none ∧ x.items = [] ∧ ∀ items', x ≠ .arr items') := by
  cases same with
  | absent => exact .inr ⟨rfl, rfl, nofun⟩
  | present same defined =>
    cases same with
    | array same => exact .inl ⟨_, _, rfl, rfl, same⟩
    | _ => exact .inr ⟨rfl, rfl, nofun⟩

theorem SameField.undefined {o : Option Value} {x : JsVal} (same : SameField numbers o x) :
    isUndefined x = o.isNone := by
  cases same with
  | absent => rfl
  | present same defined =>
    cases same with
    | hole => exact absurd rfl defined
    | _ => rfl

/-- A value that is there is nullish exactly when it is `null`. -/
theorem Same.nullish {v : Value} {y : JsVal} (same : Same numbers v y) : isNullish y = v.isNull := by
  cases same <;> rfl

theorem SameField.of_same {v : Value} {y : JsVal} (same : Same numbers v y) (defined : y ≠ .undefined) :
    SameField numbers (some v) y := .present same defined

theorem Same.object_defined {m : Map} {w : JsVal} (same : Same numbers (.object m) w) : w ≠ .undefined := by
  cases same
  exact nofun

theorem Same.empty : Same numbers (.object []) JsVal.empty := same_object.mpr .empty

theorem Same.lit (text : String) : Same numbers (.lit text) (JsVal.lit text) := .string text.toList

/-- A copy of an object is the object. -/
theorem Same.spread {m : Map} {w : JsVal} (same : Same numbers (.object m) w) : w.spread = w := by
  cases same
  rfl

theorem Same.isRecord {m : Map} {w : JsVal} (same : Same numbers (.object m) w) : w.isRecord = true := by
  cases same
  rfl

/-- `as_object().cloned().unwrap_or_default()` against a copy or a fresh object. -/
theorem SameField.objectOr {o : Option Value} {x : JsVal} (same : SameField numbers o x) :
    Same numbers (.object ((o.bind Value.asObject).getD [])) (if x.isRecord then x.spread else JsVal.empty) := by
  rcases same.object with ⟨m, found, record, same⟩ | ⟨missing, noRecord⟩
  · rw [found, if_pos record, same.spread]
    exact same
  · rw [missing, noRecord]
    exact .empty

theorem SameField.recordOr {o : Option Value} {x : JsVal} (same : SameField numbers o x) :
    Same numbers (.object ((o.bind Value.asObject).getD [])) (Verifier.recordOr JsVal.empty x) := by
  rcases same.object with ⟨m, found, record, same⟩ | ⟨missing, noRecord⟩
  · rw [found, Verifier.recordOr, if_pos record]
    exact same
  · rw [missing, Verifier.recordOr, noRecord]
    exact .empty

/-! Loops that copy members. -/

theorem Same.loop {A : Str → Option Value → Value → JsVal → Prop} {f : Str → Option Value → Value → Option Value}
    {g : JStr → JsVal → JsVal → Option JsVal} (steps : Revisions numbers (fun _ => True) A f g) {map source : Map}
    {w u : JsVal} (target : Same numbers (.object map) w) (members : Same numbers (.object source) u)
    (admitted : ∀ key v y, key ≠ protoName → field source key = some v → u.get (JStr.ofChars key) = y →
      A key (field map key) v y) :
    Same numbers (.object (source.foldl (fun out p => revise f out p.1 p.2) map))
      (u.entries.foldl (fun out p => reviseJs g out p.1 p.2) w) := by
  obtain ⟨props, rfl, -⟩ := same_object.mp members
  exact same_object.mpr ((same_object.mp target).loop steps (same_object.mp members) (enumerate_perm props) admitted)

/-- Every member is copied as it is. -/
theorem copies : Revisions numbers P (fun _ _ _ _ => True) (fun _ _ v => some v) (fun _ _ y => some y) :=
  ⟨fun _ _ _ _ _ _ _ _ same defined _ => .present same defined, fun _ _ _ defined eq => defined (Option.some.inj eq)⟩

theorem AgreeOn.extend {map source : Map} {w u : JsVal} (target : AgreeOn numbers P map w)
    (members : AgreeOn numbers P source u) : AgreeOn numbers P (Enclave.extend map source) (mergeObject w u) := by
  obtain ⟨props, rfl, -⟩ := id members
  exact target.loop copies members (enumerate_perm props) fun _ _ _ _ _ _ => trivial

theorem Same.extend {map source : Map} {w u : JsVal} (target : Same numbers (.object map) w)
    (members : Same numbers (.object source) u) :
    Same numbers (.object (Enclave.extend map source)) (mergeObject w u) :=
  same_object.mpr ((same_object.mp target).extend (same_object.mp members))

theorem Same.spread2 {map source : Map} {w u : JsVal} (target : Same numbers (.object map) w)
    (members : Same numbers (.object source) u) :
    Same numbers (.object (Enclave.extend map source)) (Verifier.spread2 w u) := by
  obtain ⟨props, rfl, sorted, plain, fields⟩ := same_object.mp members
  have loop := (same_object.mp target).loop copies (same_object.mp members) (List.Perm.refl props)
    fun _ _ _ _ _ _ => trivial
  -- no key of the source is `__proto__`, so definition and assignment agree
  have defines (l : Props) (named : ∀ p ∈ l, p ∈ props) (v : JsVal) (object : ∃ old, v = .obj .undefined old) :
      l.foldl (fun out p => spread2.define out p.1 p.2) v = l.foldl (fun out p => out.set p.1 p.2) v := by
    induction l generalizing v with
    | nil => rfl
    | cons p rest ih =>
      obtain ⟨old, rfl⟩ := object
      obtain ⟨key, eq, safe⟩ := plain.named p (named p (by simp))
      rw [List.foldl_cons, List.foldl_cons, define_plain, set_plain old (eq ▸ ofChars_ne_proto safe)]
      exact ih (fun q member => named q (List.mem_cons_of_mem _ member)) _ ⟨_, rfl⟩
  have target' : ∃ old, w = .obj .undefined old := by
    obtain ⟨old, rfl, -⟩ := same_object.mp target
    exact ⟨old, rfl⟩
  rw [Verifier.spread2, target.spread, defines props (fun _ member => member) w target']
  exact same_object.mpr loop

/-! Single fields. -/

theorem Same.setObject {map inner : Map} {w u : JsVal} (target : Same numbers (.object map) w) (key : Str)
    (safe : key ≠ protoName) (value : Same numbers (.object inner) u) :
    Same numbers (.object (put map key (.object inner))) (w.set (JStr.ofChars key) u) :=
  target.set key safe value value.object_defined

theorem Same.append {map : Map} {w : JsVal} (target : Same numbers (.object map) w) (key : Str)
    (safe : key ≠ protoName) {o : Option Value} {x : JsVal} (value : SameField numbers o x) :
    Same numbers (.object (Enclave.appendStringField map key o)) (appendStringField (JStr.ofChars key) x w) := by
  rcases value.string with ⟨s, found, rfl⟩ | ⟨missing, other⟩
  · simp only [Enclave.appendStringField, found, Verifier.appendStringField, strField]
    rcases (target.get key safe).string with ⟨old, held, text⟩ | ⟨none, other⟩
    · rw [held, text]
      dsimp only
      rw [← ofChars_append]
      exact target.set key safe (.string _) (by simp)
    · rw [none]
      cases held : w.get (JStr.ofChars key) with
      | str text => rw [held] at other; cases other
      | _ => exact target.set key safe (.string _) (by simp)
  · simp only [Enclave.appendStringField, missing]
    cases x with
    | str text => cases other
    | _ => exact target

theorem Same.setString {map : Map} {w : JsVal} (target : Same numbers (.object map) w) (key : Str)
    (safe : key ≠ protoName) {o : Option Value} {x : JsVal} (value : SameField numbers o x) :
    Same numbers (.object (Enclave.setStringField map key o)) (setStringField (JStr.ofChars key) x w) := by
  rcases value.string with ⟨s, found, rfl⟩ | ⟨missing, other⟩
  · simp only [Enclave.setStringField, found]
    exact target.set key safe (.string _) nofun
  · simp only [Enclave.setStringField, missing]
    cases x with
    | str text => cases other
    | _ => exact target

theorem AgreeOn.copy {map source : Map} {w u : JsVal} (target : AgreeOn numbers P map w)
    (members : Same numbers (.object source) u) (key : Str) (safe : key ≠ protoName) :
    AgreeOn numbers P (Enclave.copyField map source key) (copyDefined (JStr.ofChars key) w u) := by
  have value := members.get key safe
  have shown := value.undefined
  unfold Enclave.copyField copyDefined
  cases found : field source key with
  | none =>
    rw [found] at shown
    rw [shown]
    exact target
  | some v =>
    rw [found] at shown value
    rw [shown]
    cases value with
    | present same defined => exact target.set key safe (fun _ => same) defined

theorem Same.copy {map source : Map} {w u : JsVal} (target : Same numbers (.object map) w)
    (members : Same numbers (.object source) u) (key : Str) (safe : key ≠ protoName) :
    Same numbers (.object (Enclave.copyField map source key)) (copyDefined (JStr.ofChars key) w u) :=
  same_object.mpr ((same_object.mp target).copy members key safe)

theorem AgreeOn.nested {map : Map} {w : JsVal} (target : AgreeOn numbers P map w) (key : Str) (inside : P key)
    (safe : key ≠ protoName) {o : Option Value} {x : JsVal} (value : SameField numbers o x) :
    AgreeOn numbers P (Enclave.mergeNestedObject map key o) (mergeNestedObject w (JStr.ofChars key) x) := by
  cases value with
  | absent => exact target
  | @present v u same defined =>
    have shown := (SameField.of_same same defined).undefined
    unfold Enclave.mergeNestedObject Verifier.mergeNestedObject
    rw [shown]
    simp only [objectField]
    rcases (target.get key inside safe).object with ⟨old, held, record, before⟩ | ⟨none, noRecord⟩
    · rcases same.object_cases with ⟨new, given, isRecord, after⟩ | ⟨other, notRecord⟩
      · have joined := before.spread2 after
        rw [held, given, record, isRecord]
        exact target.set key safe (fun _ => joined) joined.object_defined
      · rw [held, other, record, notRecord]
        exact target.set key safe (fun _ => same) defined
    · rw [none, noRecord]
      exact target.set key safe (fun _ => same) defined

theorem AgreeOn.copyAll {map source : Map} {w u : JsVal} (target : AgreeOn numbers P map w)
    (members : Same numbers (.object source) u) (keys : List String) (safe : ∀ key ∈ keys, key.toList ≠ protoName) :
    AgreeOn numbers P ((keys.map String.toList).foldl (fun out key => Enclave.copyField out source key) map)
      (keys.foldl (fun out field => copyDefined (JStr.lit field) out u) w) := by
  induction keys generalizing map w with
  | nil => exact target
  | cons key rest ih =>
    exact ih (target.copy members key.toList (safe key (by simp))) fun k member => safe k (List.mem_cons_of_mem _ member)

/-- A field that holds an object, on both sides. -/
theorem Same.readObject {event : Map} {w : JsVal} (same : Same numbers (.object event) w) (key : String)
    (safe : key.toList ≠ protoName) {inner : Map} (found : objectField event key.toList = some inner) :
    (w.get (JStr.lit key)).isRecord = true ∧ Same numbers (.object inner) (w.get (JStr.lit key)) := by
  rcases (same.read key safe).object with ⟨m, eq, record, value⟩ | ⟨missing, -⟩
  · obtain rfl : m = inner := Option.some.inj (eq.symm.trans found)
    exact ⟨record, value⟩
  · exact absurd (missing.symm.trans found) nofun

theorem Same.readNoObject {event : Map} {w : JsVal} (same : Same numbers (.object event) w) (key : String)
    (safe : key.toList ≠ protoName) (missing : objectField event key.toList = none) :
    (w.get (JStr.lit key)).isRecord = false := by
  rcases (same.read key safe).object with ⟨m, found, -⟩ | ⟨-, other⟩
  · exact absurd (found.symm.trans missing) nofun
  · exact other

theorem field_of_object {event inner : Map} {key : Str} (found : objectField event key = some inner) :
    field event key = some (.object inner) := by
  obtain ⟨v, value, eq⟩ := Option.bind_eq_some_iff.mp found
  cases v <;> cases eq
  exact value

/-- The type of an event. -/
theorem eventType_eq {event : Map} {w : JsVal} (same : Same numbers (.object event) w) :
    eventType w = JStr.ofChars (typeOf event) := by
  rcases (same.read "type" (by decide)).string with ⟨s, found, text⟩ | ⟨missing, other⟩
  · rw [eventType, text, typeOf, strField, found]
    rfl
  · rw [eventType, typeOf, strField, missing]
    generalize w.get (JStr.lit "type") = x at other ⊢
    cases x with
    | str s => cases other
    | _ => rfl

/-- `if let Some(inner) = source.get(key).and_then(as_object)` against `if (isRecord(source[key]))`. -/
theorem Same.when {α β : Type*} {R : α → β → Prop} {source : Map} {u : JsVal} (members : Same numbers (.object source) u)
    (key : String) (safe : key.toList ≠ protoName) {a : α} {b : β} (otherwise : R a b) {merge : Map → α} {mergeJs : JsVal → β}
    (merges : ∀ inner, objectField source key.toList = some inner →
      Same numbers (.object inner) (u.get (JStr.lit key)) → R (merge inner) (mergeJs (u.get (JStr.lit key)))) :
    R (match objectField source key.toList with
        | some inner => merge inner
        | none => a)
      (if (u.get (JStr.lit key)).isRecord then mergeJs (u.get (JStr.lit key)) else b) := by
  cases found : objectField source key.toList with
  | some inner =>
    obtain ⟨record, value⟩ := members.readObject key safe found
    rw [if_pos record]
    exact merges inner found value
  | none =>
    rw [members.readNoObject key safe found]
    exact otherwise

theorem Same.whenObject {source : Map} {u : JsVal} (members : Same numbers (.object source) u) (key : String)
    (safe : key.toList ≠ protoName) {target : Map} {w : JsVal} (otherwise : Same numbers (.object target) w)
    {merge : Map → Map} {mergeJs : JsVal → JsVal}
    (merges : ∀ inner, objectField source key.toList = some inner →
      Same numbers (.object inner) (u.get (JStr.lit key)) →
      Same numbers (.object (merge inner)) (mergeJs (u.get (JStr.lit key)))) :
    Same numbers
      (.object (match objectField source key.toList with
        | some inner => merge inner
        | none => target))
      (if (u.get (JStr.lit key)).isRecord then mergeJs (u.get (JStr.lit key)) else w) :=
  members.when (R := fun m w => Same numbers (.object m) w) key safe otherwise merges

/-- A field is copied unless it is absent or null. -/
theorem Same.copyNonNull {source : Map} {u : JsVal} (members : Same numbers (.object source) u) (key : String)
    (safe : key.toList ≠ protoName) {target : Map} {w : JsVal} (same : Same numbers (.object target) w) :
    Same numbers
      (.object (match field source key.toList with
        | some v => if v.isNull then target else put target key.toList v
        | none => target))
      (if isNullish (u.get (JStr.lit key)) then w else w.set (JStr.lit key) (u.get (JStr.lit key))) := by
  have read := members.read key safe
  cases found : field source key.toList with
  | none =>
    rw [found] at read
    generalize u.get (JStr.lit key) = x at read ⊢
    cases read
    exact same
  | some v =>
    rw [found] at read
    cases read with
    | present value defined =>
      rw [value.nullish]
      cases null : v.isNull with
      | true =>
        simp only [null, if_true]
        exact same
      | false =>
        simp only [null, Bool.false_eq_true, if_false]
        exact same.set key.toList safe value defined

/-! `pick`. -/

theorem AgreeOn.hasOwn {map : Map} {w : JsVal} (same : AgreeOn numbers P map w) (key : Str) (inside : P key) :
    w.hasOwn (JStr.ofChars key) = (field map key).isSome := by
  obtain ⟨props, rfl, sorted, plain, fields⟩ := same
  have here := fields key inside
  rw [JsVal.hasOwn, field]
  cases found : own props (JStr.ofChars key) with
  | none =>
    rw [found] at here
    generalize OrdMap.find key map = o at here ⊢
    cases here
    rfl
  | some u =>
    rw [found] at here
    generalize OrdMap.find key map = o at here ⊢
    cases here
    rfl

/-- A field that the verifier finds undefined is one the enclave does not have. -/
theorem AgreeOn.isUndefined_get {map : Map} {w : JsVal} (same : AgreeOn numbers P map w) (key : String)
    (inside : P key.toList) (safe : key.toList ≠ protoName) :
    isUndefined (w.get (JStr.lit key)) = !(OrdMap.contains key.toList map) := by
  have shown := (same.get key.toList inside safe).undefined
  rw [OrdMap.contains, JStr.lit, shown, field]
  cases OrdMap.find key.toList map <;> rfl

theorem AgreeOn.pickOne {map source : Map} {w u : JsVal} {Q : Str → Prop} (target : AgreeOn numbers Q map w)
    (members : AgreeOn numbers P source u) (key : Str) (inside : P key) (safe : key ≠ protoName) :
    AgreeOn numbers Q (Enclave.copyField map source key)
      (if u.hasOwn (JStr.ofChars key) then w.set (JStr.ofChars key) (u.get (JStr.ofChars key)) else w) := by
  have value := members.get key inside safe
  rw [members.hasOwn key inside]
  unfold Enclave.copyField
  cases found : field source key with
  | none => exact target
  | some v =>
    rw [found] at value
    cases value with
    | present same defined => exact target.set key safe (fun _ => same) defined

theorem AgreeOn.pickLoop {source : Map} {u : JsVal} {Q : Str → Prop} (members : AgreeOn numbers P source u)
    (keys : List String) (inside : ∀ key ∈ keys, P key.toList ∧ key.toList ≠ protoName) {map : Map} {w : JsVal}
    (target : AgreeOn numbers Q map w) :
    AgreeOn numbers Q ((keys.map String.toList).foldl (fun out key => Enclave.copyField out source key) map)
      (keys.foldl (fun out key =>
        if u.hasOwn (JStr.lit key) then out.set (JStr.lit key) (u.get (JStr.lit key)) else out) w) := by
  induction keys generalizing map w with
  | nil => exact target
  | cons key rest ih =>
    rw [List.map_cons, List.foldl_cons, List.foldl_cons]
    have here := inside key (by simp)
    exact ih (fun k member => inside k (List.mem_cons_of_mem _ member))
      (target.pickOne members key.toList here.1 here.2)

theorem pickRecord_eq (value : JsVal) (keys : List String) :
    pickRecord value keys = keys.foldl (fun out key =>
      if value.hasOwn (JStr.lit key) then out.set (JStr.lit key) (value.get (JStr.lit key)) else out) JsVal.empty := by
  have mapped : (keys >>= fun key => pure (JStr.lit key)) = keys.map JStr.lit := List.flatMap_pure_eq_map _ _
  rw [pickRecord, mapped, List.foldl_map]

theorem AgreeOn.pick {source : Map} {u : JsVal} (members : AgreeOn numbers P source u) (keys : List String)
    (inside : ∀ key ∈ keys, P key.toList ∧ key.toList ≠ protoName) :
    Same numbers (Enclave.pickValue (keys.map String.toList) (.object source)) (Verifier.pick u keys) := by
  have picked := members.pickLoop (Q := fun _ => True) keys inside .empty
  obtain ⟨props, rfl, -⟩ := members
  simp only [Enclave.pickValue, Verifier.pick, pickRecord_eq]
  exact same_object.mpr picked

theorem Same.pick {source : Map} {u : JsVal} (members : Same numbers (.object source) u) (keys : List String)
    (safe : ∀ key ∈ keys, key.toList ≠ protoName) :
    Same numbers (Enclave.pickValue (keys.map String.toList) (.object source)) (Verifier.pick u keys) :=
  (same_object.mp members).pick keys fun key member => ⟨trivial, safe key member⟩

/-- The picked fields of a source, merged into a target. -/
theorem AgreeOn.mergePick {map source : Map} {w u : JsVal} (target : AgreeOn numbers P map w)
    (members : Same numbers (.object source) u) (keys : List String) (safe : ∀ key ∈ keys, key.toList ≠ protoName) :
    AgreeOn numbers P (Enclave.mergeValueObject map (Enclave.pickValue (keys.map String.toList) (.object source)))
      (mergeObject w (Verifier.pick u keys)) := by
  have picked := members.pick keys safe
  simp only [Enclave.pickValue] at picked ⊢
  exact target.extend ((same_object.mp picked).mono fun _ _ => trivial)

/-- The picked fields of an object that a source may hold. -/
theorem AgreeOn.mergeField {map source : Map} {w u : JsVal} (target : AgreeOn numbers P map w)
    (members : Same numbers (.object source) u) (key : String) (named : key.toList ≠ protoName) (keys : List String)
    (safe : ∀ key ∈ keys, key.toList ≠ protoName) :
    AgreeOn numbers P
      (match field source key.toList with
        | some v => Enclave.mergeValueObject map (Enclave.pickValue (keys.map String.toList) v)
        | none => map)
      (if (u.get (JStr.lit key)).isRecord then mergeObject w (Verifier.pick (u.get (JStr.lit key)) keys) else w) := by
  have read := members.read key named
  cases found : field source key.toList with
  | none =>
    rw [found] at read
    generalize u.get (JStr.lit key) = x at read ⊢
    cases read
    exact target
  | some v =>
    rw [found] at read
    rcases read.object with ⟨inner, eq, record, value⟩ | ⟨other, noRecord⟩
    · cases v <;> cases eq
      rw [if_pos record]
      exact target.mergePick value keys safe
    · rw [noRecord]
      cases v with
      | object inner => cases other
      | _ => exact target

/-! Indices. -/

/-- A position both sides read alike: when present, an integer below `2 ^ 53`. -/
def IsIndex (o : Option Value) : Prop :=
  ∀ v ∈ o, ∃ n : UInt64, v = .number (.posInt n) ∧ n.toNat < 2 ^ 53

theorem SameField.number_exact {n : UInt64} {x : JsVal} (same : SameField numbers (some (.number (.posInt n))) x)
    (small : n.toNat < 2 ^ 53) : x = .num (.finite n.toNat) := by
  cases same with
  | present same defined =>
    generalize eq : Value.number (.posInt n) = v at same
    cases same with
    | number t =>
      have read := Value.number.inj eq
      rw [numbers.exact t n read.symm small]
    | _ => cases eq

theorem SameField.index {o : Option Value} {x : JsVal} (same : SameField numbers o x) (index : IsIndex o)
    (fallback : Nat) :
    numberElse x fallback = .finite ((o.bind Value.asI64).getD fallback : Int) ∧
      numberOrDefault x fallback = .finite ((o.bind Value.asI64).getD fallback : Int) := by
  cases o with
  | none =>
    cases same
    exact ⟨by simp [numberElse], by simp [numberOrDefault]⟩
  | some v =>
    obtain ⟨n, rfl, small⟩ := index v rfl
    rw [same.number_exact small]
    have read : Value.asI64 (.number (.posInt n)) = some (n.toNat : Int) := if_pos (by omega)
    simp [numberElse, numberOrDefault, read]

/-- The index taken is a number both sides can write. -/
theorem IsIndex.bound {o : Option Value} (index : IsIndex o) (fallback : Nat) (small : fallback < 2 ^ 53) :
    ∃ n : Nat, n < 2 ^ 53 ∧ (o.bind Value.asI64).getD (fallback : Int) = n := by
  cases o with
  | none => exact ⟨fallback, small, rfl⟩
  | some v =>
    obtain ⟨n, rfl, below⟩ := index v rfl
    have read : Value.asI64 (.number (.posInt n)) = some (n.toNat : Int) := if_pos (by omega)
    exact ⟨n.toNat, below, by rw [Option.bind_some, read, Option.getD_some]⟩

/-- An index the code writes out. -/
theorem Same.ofIndex (n : Nat) (small : n < 2 ^ 53) : Same numbers (.ofInt n) (.num (.finite n)) := by
  obtain ⟨t, rust, js⟩ := numbers.literal n small
  have positive : (0 : Int) ≤ n := Int.natCast_nonneg n
  rw [Value.ofInt, if_pos positive, Int.toNat_natCast, ← rust, ← js]
  exact .number t

theorem contains_ofChars (fields : List Str) (key : Str) :
    (fields.map JStr.ofChars).contains (JStr.ofChars key) = fields.contains key := by
  rw [Bool.eq_iff_iff, List.contains_iff_mem, List.contains_iff_mem, List.mem_map]
  constructor
  · rintro ⟨other, member, eq⟩
    exact ofChars_injective eq ▸ member
  · exact fun member => ⟨key, member, rfl⟩

/-! Text-like fields are appended, objects joined, and other values replaced. -/

def semanticValue (fields : List Str) (key : Str) (old : Option Value) (value : Value) : Option Value :=
  if fields.contains key then
    match value.asStr with
    | none => none
    | some s => some (.string (((old.bind Value.asStr).getD []) ++ s))
  else
    match old.bind Value.asObject, value.asObject with
    | some existing, some incoming => some (.object (Enclave.extend existing incoming))
    | _, _ => if value.isNull then none else some value

def semanticValueJs (fields : List JStr) (key : JStr) (old value : JsVal) : Option JsVal :=
  if fields.contains key then
    match value with
    | .str s => some (.str (stringOr [] old ++ s))
    | _ => none
  else if old.isRecord && value.isRecord then some (spread2 old value)
  else if isNullish value then none
  else some value

theorem mergeSemanticField_eq (fields : List Str) :
    Enclave.mergeSemanticField fields = revise (semanticValue fields) := by
  funext target key value
  unfold Enclave.mergeSemanticField revise semanticValue Enclave.appendStringField
  split
  · cases value <;> try rfl
    simp only [Option.bind_some, Value.asStr, strField]
    cases (field target key).bind Value.asStr <;> rfl
  · simp only [objectField]
    cases (field target key).bind Value.asObject <;> cases value.asObject <;> dsimp only <;> split <;> rfl

theorem mergeSemanticFieldJs_eq (fields : List JStr) :
    mergeSemanticField fields = reviseJs (semanticValueJs fields) := by
  funext target key value
  unfold Verifier.mergeSemanticField reviseJs semanticValueJs Verifier.appendStringField
  split
  · cases value <;> try rfl
    dsimp only
    cases target.get key <;> rfl
  · split
    · rfl
    · split <;> rfl

theorem spread2_defined (a b : JsVal) : Verifier.spread2 a b ≠ .undefined := by
  have defines (l : Props) (v : JsVal) (object : v.isRecord = true) :
      (l.foldl (fun out p => spread2.define out p.1 p.2) v).isRecord = true := by
    induction l generalizing v with
    | nil => exact object
    | cons p rest ih =>
      refine ih _ ?_
      cases v <;> cases object
      unfold spread2.define
      dsimp only
      split <;> rfl
  have record : (Verifier.spread2 a b).isRecord = true := by
    unfold Verifier.spread2
    split
    · exact defines _ _ (by cases a <;> rfl)
    · cases a <;> rfl
  intro eq
  rw [eq] at record
  cases record

theorem semanticValueJs_defined (fields : List JStr) (key : JStr) (x y : JsVal) (defined : y ≠ .undefined) :
    semanticValueJs fields key x y ≠ some .undefined := by
  unfold semanticValueJs
  split
  · cases y <;> simp
  · split
    · simpa using spread2_defined x y
    · split
      · simp
      · simpa using defined

theorem semanticValue_same (fields : List Str) (key : Str) {o : Option Value} {x : JsVal}
    (old : SameField numbers o x) {v : Value} {y : JsVal} (value : Same numbers v y) (defined : y ≠ .undefined) :
    Option.Rel (Same numbers) (semanticValue fields key o v)
      (semanticValueJs (fields.map JStr.ofChars) (JStr.ofChars key) x y) := by
  unfold semanticValue semanticValueJs
  rw [contains_ofChars]
  split
  · rcases (SameField.of_same value defined).string with ⟨s, found, rfl⟩ | ⟨missing, other⟩
    · simp only [Option.bind_some] at found
      rw [found]
      rcases old.string with ⟨t, held, rfl⟩ | ⟨none, other⟩
      · rw [held]
        simp only [Option.getD_some, stringOr]
        rw [← ofChars_append]
        exact .some (.string _)
      · rw [none]
        cases x with
        | str t => cases other
        | _ => exact .some (.string s)
    · simp only [Option.bind_some] at missing
      rw [missing]
      cases y with
      | str s => cases other
      | _ => exact .none
  · have replaced : Option.Rel (Same numbers) (if v.isNull then none else some v)
        (if isNullish y then none else some y) := by
      rw [value.nullish]
      cases v.isNull with
      | true => exact .none
      | false => exact .some value
    rcases old.object with ⟨a, held, record, before⟩ | ⟨none, noRecord⟩
    · rcases value.object_cases with ⟨b, found, isRecord, after⟩ | ⟨missing, notRecord⟩
      · rw [held, found, record, isRecord]
        exact .some (before.spread2 after)
      · rw [held, missing, notRecord, Bool.and_false]
        exact replaced
    · rw [none, noRecord]
      exact replaced

theorem semantic (fields : List Str) :
    Revisions numbers (fun _ => True) (fun _ _ _ _ => True) (semanticValue fields)
      (semanticValueJs (fields.map JStr.ofChars)) where
  same key _ _ _ x old _ y value defined _ :=
    old.revised (semanticValue_same fields key old value defined) (semanticValueJs_defined _ _ x y defined)
  defined key x y := semanticValueJs_defined _ key x y

theorem Same.mergeSemanticPart {map source : Map} {w u : JsVal} (target : Same numbers (.object map) w)
    (members : Same numbers (.object source) u) :
    Same numbers (.object (Enclave.mergeSemanticPart map source)) (mergeSemanticPart w u) := by
  unfold Enclave.mergeSemanticPart Verifier.mergeSemanticPart
  rw [mergeSemanticField_eq, mergeSemanticFieldJs_eq]
  exact target.loop (semantic ["text".toList, "thinking".toList, "signature".toList]) members
    fun _ _ _ _ _ _ => trivial

/-! Copies with some keys, or null values, left out. -/

def otherValue (except : List Str) (key : Str) (_ : Option Value) (value : Value) : Option Value :=
  if !except.contains key && !value.isNull then some value else none

def otherValueJs (except : List JStr) (key : JStr) (_ value : JsVal) : Option JsVal :=
  if !except.contains key && !isNullish value then some value else none

theorem otherValueJs_defined (except : List JStr) (key : JStr) (x y : JsVal) (defined : y ≠ .undefined) :
    otherValueJs except key x y ≠ some .undefined := by
  unfold otherValueJs
  split
  · simpa using defined
  · simp

theorem otherValues (except : List Str) :
    Revisions numbers (fun _ => True) (fun _ _ _ _ => True) (otherValue except)
      (otherValueJs (except.map JStr.ofChars)) where
  same key _ _ o x old v y value defined _ := by
    refine old.revised ?_ (otherValueJs_defined _ _ x y defined)
    unfold otherValue otherValueJs
    rw [contains_ofChars, value.nullish]
    split
    · exact .some value
    · exact .none
  defined key x y := otherValueJs_defined _ key x y

theorem extendExcept_eq (except : List Str) (target source : Map) :
    Enclave.extendExcept except target source =
      source.foldl (fun out p => revise (otherValue except) out p.1 p.2) target := by
  unfold Enclave.extendExcept
  congr 1
  funext out p
  unfold revise otherValue
  split <;> rfl

theorem copyEntries_eq (except : List JStr) (target source : JsVal) :
    copyEntries except target source =
      source.entries.foldl (fun out p => reviseJs (otherValueJs except) out p.1 p.2) target := by
  unfold Verifier.copyEntries
  congr 1
  funext out p
  unfold reviseJs otherValueJs
  split <;> rfl

theorem Same.copyOthers {target source : Map} {w u : JsVal} (same : Same numbers (.object target) w)
    (members : Same numbers (.object source) u) (except : List Str) :
    Same numbers (.object (Enclave.extendExcept except target source))
      (copyEntries (except.map JStr.ofChars) w u) := by
  rw [extendExcept_eq, copyEntries_eq]
  exact same.loop (otherValues except) members fun _ _ _ _ _ _ => trivial

theorem entries_pos {m : Map} {w : JsVal} (same : Same numbers (.object m) w) :
    w.entries.length > 0 ↔ m.isEmpty = false := by
  obtain ⟨props, rfl, sorted, plain, fields⟩ := same_object.mp same
  rw [JsVal.entries, (enumerate_perm props).length_eq]
  cases props with
  | nil =>
    cases m with
    | nil => simp
    | cons p rest =>
      have here := fields p.1 trivial
      simp [own, OrdMap.find] at here
  | cons q rest =>
    obtain ⟨k, v⟩ := q
    obtain ⟨key, rfl, -⟩ := plain.named (k, v) (by simp)
    have here := fields key trivial
    cases m with
    | nil => simp [own] at here
    | cons p others => simp

end TeeProof
