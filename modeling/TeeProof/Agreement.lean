import TeeProof.Document

/-! Reading and writing the fields of two objects that stand for the same JSON value,
and loops over the members of one that write into another. -/
namespace TeeProof

open JsVal
open Value (Map)
open Enclave (put field strField arrayField objectField)

/-- A text of the verifier against a literal is the enclave's text against it. -/
theorem ofChars_eq_lit (s : Str) (text : String) : JStr.ofChars s = JStr.lit text ↔ s = text.toList :=
  ofChars_injective.eq_iff

theorem ofChars_ne_proto {key : Str} (safe : key ≠ protoName) : JStr.ofChars key ≠ protoKey :=
  fun same => safe (ofChars_injective same)

/-! Own properties. -/

theorem own_replace (key k : JStr) (value : JsVal) (props : Props) (present : (own props key).isSome) :
    own (replace key value props) k = if k = key then some value else own props k := by
  induction props with
  | nil => simp [own] at present
  | cons p rest ih =>
    obtain ⟨k', v⟩ := p
    by_cases here : k' = key
    · subst here
      by_cases same : k = k'
      · simp [replace, own, same]
      · have apart : (k == k') = false := beq_eq_false_iff_ne.mpr same
        simp [replace, own, List.lookup_cons, same, apart]
    · have later : (own rest key).isSome := by
        have apart : (key == k') = false := beq_eq_false_iff_ne.mpr (Ne.symm here)
        simpa [own, List.lookup_cons, apart] using present
      have tail := ih later
      simp only [own] at tail
      simp only [replace, here, if_false, own, List.lookup_cons, tail]
      by_cases same : k = k'
      · subst same
        simp [here]
      · have apart : (k == k') = false := beq_eq_false_iff_ne.mpr same
        simp [apart]

theorem own_append (key k : JStr) (value : JsVal) (props : Props) (absent : own props key = none) :
    own (props ++ [(key, value)]) k = if k = key then some value else own props k := by
  rw [own, List.lookup_append, ← own]
  by_cases same : k = key
  · subst same
    simp [absent]
  · have apart : (k == key) = false := beq_eq_false_iff_ne.mpr same
    simp [List.lookup_cons, same, apart]

theorem map_fst_replace (key : JStr) (value : JsVal) (props : Props) :
    (replace key value props).map Prod.fst = props.map Prod.fst := by
  induction props with
  | nil => rfl
  | cons p rest ih =>
    obtain ⟨k, v⟩ := p
    unfold replace
    split
    · rfl
    · simp [ih]

theorem mem_replace {key : JStr} {value : JsVal} {props : Props} {p : JStr × JsVal}
    (member : p ∈ replace key value props) : p = (key, value) ∨ p ∈ props := by
  induction props with
  | nil => simp [replace] at member
  | cons q rest ih =>
    obtain ⟨k, v⟩ := q
    unfold replace at member
    split at member
    next same =>
      subst same
      rcases List.mem_cons.mp member with rfl | later
      · exact .inl rfl
      · exact .inr (List.mem_cons_of_mem _ later)
    next =>
      rcases List.mem_cons.mp member with rfl | later
      · exact .inr (by simp)
      · exact (ih later).imp id (List.mem_cons_of_mem _)

/-- The properties after `target[key] = value`. -/
def written (props : Props) (key : JStr) (value : JsVal) : Props :=
  if (own props key).isSome then replace key value props else props ++ [(key, value)]

theorem own_written (props : Props) (key k : JStr) (value : JsVal) :
    own (written props key value) k = if k = key then some value else own props k := by
  unfold written
  split
  next present => exact own_replace key k value props present
  next absent => exact own_append key k value props (Option.not_isSome_iff_eq_none.mp absent)

theorem mem_written {props : Props} {key : JStr} {value : JsVal} {p : JStr × JsVal}
    (member : p ∈ written props key value) : p = (key, value) ∨ p ∈ props := by
  unfold written at member
  split at member
  · exact mem_replace member
  · rcases List.mem_append.mp member with old | new
    · exact .inr old
    · exact .inl (List.mem_singleton.mp new)

theorem Plain.nil : Plain [] := ⟨List.nodup_nil, by simp, by simp⟩

theorem nodup_written {props : Props} (nodup : (props.map Prod.fst).Nodup) (key : JStr) (value : JsVal) :
    ((written props key value).map Prod.fst).Nodup := by
  unfold written
  split
  next => rw [map_fst_replace]; exact nodup
  next absent =>
    rw [Option.not_isSome_iff_eq_none, own, Assoc.lookup_eq_none] at absent
    rw [List.map_append, List.nodup_append]
    refine ⟨nodup, by simp, ?_⟩
    intro k member other new same
    rw [List.map_singleton, List.mem_singleton] at new
    rw [same, new] at member
    exact absent member

theorem Plain.written {props : Props} (plain : Plain props) {key : Str} (safe : key ≠ protoName) {value : JsVal}
    (defined : value ≠ .undefined) : Plain (written props (JStr.ofChars key) value) where
  nodup := nodup_written plain.nodup _ _
  defined p member := by
    rcases mem_written member with rfl | old
    · exact defined
    · exact plain.defined p old
  named p member := by
    rcases mem_written member with rfl | old
    · exact ⟨key, rfl, safe⟩
    · exact plain.named p old

theorem set_plain (props : Props) {key : JStr} (safe : key ≠ protoKey) (value : JsVal) :
    (JsVal.obj .undefined props).set key value = .obj .undefined (written props key value) := by
  unfold written JsVal.set
  dsimp only
  split
  · rfl
  · simp [safe]

theorem define_plain (props : Props) (key : JStr) (value : JsVal) :
    Verifier.spread2.define (.obj .undefined props) key value = .obj .undefined (written props key value) := by
  unfold written Verifier.spread2.define
  dsimp only
  split <;> rfl

theorem get_plain (props : Props) {key : JStr} (safe : key ≠ protoKey) :
    (JsVal.obj .undefined props).get key = (own props key).getD .undefined := by
  rw [JsVal.get]
  cases own props key with
  | some value => rfl
  | none => simp [safe, JsVal.get]

/-! Objects that agree on a set of keys; on all of them they are the same value. -/

section Fields

variable {numbers : Numbers} {P : Str → Prop}

def AgreeOn (numbers : Numbers) (P : Str → Prop) (map : Map) (w : JsVal) : Prop :=
  ∃ props, w = .obj .undefined props ∧ OrdMap.Sorted map ∧ Plain props ∧
    ∀ key, P key → Option.Rel (Same numbers) (OrdMap.find key map) (own props (JStr.ofChars key))

theorem same_object {map : Map} {w : JsVal} :
    Same numbers (.object map) w ↔ AgreeOn numbers (fun _ => True) map w := by
  constructor
  · intro same
    cases same with
    | object sorted plain fields => exact ⟨_, rfl, sorted, plain, fun key _ => fields key⟩
  · rintro ⟨props, rfl, sorted, plain, fields⟩
    exact .object sorted plain fun key => fields key trivial

theorem AgreeOn.mono {Q : Str → Prop} {map : Map} {w : JsVal} (same : AgreeOn numbers P map w)
    (fewer : ∀ key, Q key → P key) : AgreeOn numbers Q map w := by
  obtain ⟨props, rfl, sorted, plain, fields⟩ := same
  exact ⟨props, rfl, sorted, plain, fun key inside => fields key (fewer key inside)⟩

theorem AgreeOn.empty : AgreeOn numbers P [] JsVal.empty :=
  ⟨[], rfl, OrdMap.sorted_nil, .nil, fun _ _ => .none⟩

/-- One field as the two sides read it: absent and `undefined`, or the same value. -/
inductive SameField (numbers : Numbers) : Option Value → JsVal → Prop
  | absent : SameField numbers none .undefined
  | present {v : Value} {u : JsVal} (same : Same numbers v u) (defined : u ≠ .undefined) :
    SameField numbers (some v) u

theorem SameField.of_rel {o : Option Value} {props : Props} (plain : Plain props) {key : JStr}
    (rel : Option.Rel (Same numbers) o (own props key)) :
    SameField numbers o ((own props key).getD .undefined) := by
  cases found : own props key with
  | none =>
    rw [found] at rel
    cases rel with
    | none => exact .absent
  | some u =>
    rw [found] at rel
    cases rel with
    | some same => exact .present same (plain.defined _ (Assoc.mem_of_lookup found))

/-- What an object holds under a key is what a read of it gives. -/
theorem SameField.to_rel {o : Option Value} {props : Props} (plain : Plain props) {key : JStr}
    (field : SameField numbers o ((own props key).getD .undefined)) :
    Option.Rel (Same numbers) o (own props key) := by
  cases found : own props key with
  | none =>
    rw [found] at field
    cases field with
    | absent => exact .none
    | present _ defined => exact absurd rfl defined
  | some u =>
    rw [found] at field
    have defined := plain.defined _ (Assoc.mem_of_lookup found)
    generalize eq : (some u).getD .undefined = x at field
    cases field with
    | absent => exact absurd eq defined
    | present same _ =>
      cases eq
      exact .some same

/-- A field after both sides wrote the same value into it, or neither did. -/
theorem SameField.revised {o : Option Value} {x : JsVal} (old : SameField numbers o x) {a : Option Value}
    {b : Option JsVal} (new : Option.Rel (Same numbers) a b) (defined : b ≠ some .undefined) :
    SameField numbers (a.or o) (b.getD x) := by
  cases new with
  | none => exact old
  | some same => exact .present same fun eq => defined (congrArg some eq)

theorem AgreeOn.get {map : Map} {w : JsVal} (same : AgreeOn numbers P map w) (key : Str)
    (inside : P key) (safe : key ≠ protoName) : SameField numbers (field map key) (w.get (JStr.ofChars key)) := by
  obtain ⟨props, rfl, sorted, plain, fields⟩ := same
  rw [get_plain props (ofChars_ne_proto safe), field]
  exact .of_rel plain (fields key inside)

theorem Same.get {map : Map} {w : JsVal} (same : Same numbers (.object map) w) (key : Str) (safe : key ≠ protoName) :
    SameField numbers (field map key) (w.get (JStr.ofChars key)) :=
  (same_object.mp same).get key trivial safe

/-- A field under a literal name. -/
theorem Same.read {map : Map} {w : JsVal} (same : Same numbers (.object map) w) (key : String)
    (safe : key.toList ≠ protoName) : SameField numbers (field map key.toList) (w.get (JStr.lit key)) :=
  same.get key.toList safe

theorem AgreeOn.set {map : Map} {w : JsVal} (same : AgreeOn numbers P map w) (key : Str)
    (safe : key ≠ protoName) {v : Value} {u : JsVal} (value : P key → Same numbers v u) (defined : u ≠ .undefined) :
    AgreeOn numbers P (put map key v) (w.set (JStr.ofChars key) u) := by
  obtain ⟨props, rfl, sorted, plain, fields⟩ := same
  refine ⟨written props (JStr.ofChars key) u, set_plain props (ofChars_ne_proto safe) u, sorted.insert key v,
    plain.written safe defined, fun other inside => ?_⟩
  rw [put, OrdMap.find_insert, own_written]
  by_cases here : other = key
  · subst here
    simpa using Option.Rel.some (value inside)
  · have apart : JStr.ofChars other ≠ JStr.ofChars key := fun eq => here (ofChars_injective eq)
    simpa [here, apart] using fields other inside

/-- A key that does not count may be written on one side alone. -/
theorem AgreeOn.setOutside {map : Map} {w : JsVal} (same : AgreeOn numbers P map w) (key : Str) (outside : ¬P key)
    (safe : key ≠ protoName) {u : JsVal} (defined : u ≠ .undefined) :
    AgreeOn numbers P map (w.set (JStr.ofChars key) u) := by
  obtain ⟨props, rfl, sorted, plain, fields⟩ := same
  refine ⟨written props (JStr.ofChars key) u, set_plain props (ofChars_ne_proto safe) u, sorted,
    plain.written safe defined, fun other inside => ?_⟩
  have apart : JStr.ofChars other ≠ JStr.ofChars key := fun eq => outside (ofChars_injective eq ▸ inside)
  rw [own_written, if_neg apart]
  exact fields other inside

theorem Same.set {map : Map} {w : JsVal} (same : Same numbers (.object map) w) (key : Str) (safe : key ≠ protoName)
    {v : Value} {u : JsVal} (value : Same numbers v u) (defined : u ≠ .undefined) :
    Same numbers (.object (put map key v)) (w.set (JStr.ofChars key) u) :=
  same_object.mpr ((same_object.mp same).set key safe (fun _ => value) defined)

/-! Loops over the members of a source. -/

/-- The step of a loop that may write the key at hand. -/
def revise (f : Str → Option Value → Value → Option Value) (out : Map) (key : Str) (value : Value) : Map :=
  match f key (field out key) value with
  | some new => put out key new
  | none => out

def reviseJs (g : JStr → JsVal → JsVal → Option JsVal) (out : JsVal) (key : JStr) (value : JsVal) : JsVal :=
  match g key (out.get key) value with
  | some new => out.set key new
  | none => out

theorem isRecord_set (w : JsVal) (key : JStr) (value : JsVal) : (w.set key value).isRecord = w.isRecord := by
  cases w with
  | obj proto props =>
    unfold JsVal.set
    dsimp only
    split
    · rfl
    · split
      · split
        · rfl
        · split <;> rfl
      · rfl
  | _ => rfl

/-- A loop of writes ends in an object if it starts in one. -/
theorem isRecord_foldl (g : JStr → JsVal → JsVal → Option JsVal) (members : Props) (w : JsVal) :
    (members.foldl (fun out p => reviseJs g out p.1 p.2) w).isRecord = w.isRecord := by
  induction members generalizing w with
  | nil => rfl
  | cons p rest ih =>
    rw [List.foldl_cons, ih, reviseJs]
    split
    · exact isRecord_set w _ _
    · rfl

/-- The two steps write the same values, for the members `A` admits. -/
structure Revisions (numbers : Numbers) (P : Str → Prop) (A : Str → Option Value → Value → JsVal → Prop)
    (f : Str → Option Value → Value → Option Value) (g : JStr → JsVal → JsVal → Option JsVal) : Prop where
  same : ∀ key, P key → key ≠ protoName → ∀ o x, SameField numbers o x → ∀ v y, Same numbers v y → y ≠ .undefined →
    A key o v y → SameField numbers ((f key o v).or o) ((g (JStr.ofChars key) x y).getD x)
  defined : ∀ key x y, y ≠ .undefined → g key x y ≠ some .undefined

/-- The own property of an object. -/
def ownOf (w : JsVal) (key : JStr) : Option JsVal :=
  match w with
  | .obj _ props => own props key
  | _ => none

theorem revises_rust (f : Str → Option Value → Value → Option Value) (source : Map) :
    Assoc.Revises (fun m key => OrdMap.find key m) OrdMap.Sorted (fun out p => revise f out p.1 p.2)
      (fun key old value => (f key old value).or old) source where
  keep out sorted p _ := by
    unfold revise
    split
    · exact sorted.insert _ _
    · exact sorted
  one out sorted p _ key := by
    obtain ⟨k, v⟩ := p
    unfold revise
    by_cases here : key = k
    · subst here
      cases new : f key (OrdMap.find key out) v with
      | some value => simp [put, field, OrdMap.find_insert, new]
      | none => simp [field, new]
    · split
      · simp [put, OrdMap.find_insert, here]
      · simp [here]

theorem revises_js (g : JStr → JsVal → JsVal → Option JsVal)
    (defined : ∀ key x y, y ≠ .undefined → g key x y ≠ some .undefined) {source : Props} (plain : Plain source) :
    Assoc.Revises ownOf (fun w => ∃ props, w = .obj .undefined props ∧ Plain props)
      (fun out p => reviseJs g out p.1 p.2)
      (fun key old value => (g key (old.getD .undefined) value).or old) source where
  keep := by
    rintro _ ⟨props, rfl, kept⟩ ⟨k, v⟩ member
    obtain ⟨key, rfl, safe⟩ := plain.named _ member
    unfold reviseJs
    split
    next new made =>
      refine ⟨_, set_plain props (ofChars_ne_proto safe) new, kept.written safe ?_⟩
      rintro rfl
      exact defined _ _ v (plain.defined _ member) made
    next => exact ⟨props, rfl, kept⟩
  one := by
    rintro _ ⟨props, rfl, kept⟩ ⟨k, v⟩ member key
    obtain ⟨name, rfl, safe⟩ := plain.named _ member
    have proto := ofChars_ne_proto safe
    unfold reviseJs
    dsimp only
    rw [get_plain props proto]
    by_cases here : key = JStr.ofChars name
    · subst here
      cases new : g (JStr.ofChars name) ((own props (JStr.ofChars name)).getD .undefined) v with
      | some value => simp [set_plain props proto, ownOf, own_written, new]
      | none => simp [ownOf, new]
    · split
      · simp [set_plain props proto, ownOf, own_written, here]
      · simp [here]

theorem AgreeOn.loop {f : Str → Option Value → Value → Option Value} {g : JStr → JsVal → JsVal → Option JsVal}
    {A : Str → Option Value → Value → JsVal → Prop} (steps : Revisions numbers P A f g) {map source : Map} {w : JsVal}
    {props order : Props} (target : AgreeOn numbers P map w)
    (members : AgreeOn numbers P source (.obj .undefined props)) (perm : order.Perm props)
    (admitted : ∀ key v y, key ≠ protoName → field source key = some v →
      (JsVal.obj .undefined props).get (JStr.ofChars key) = y → A key (field map key) v y) :
    AgreeOn numbers P (source.foldl (fun out p => revise f out p.1 p.2) map)
      (order.foldl (fun out p => reviseJs g out p.1 p.2) w) := by
  obtain ⟨_, rfl, sortedMap, plainMap, fieldsMap⟩ := target
  obtain ⟨_, same, sorted, plain, fields⟩ := members
  cases same
  have ordered : Plain order :=
    ⟨(perm.map _).nodup_iff.mpr plain.nodup, fun p member => plain.defined p (perm.mem_iff.mp member),
      fun p member => plain.named p (perm.mem_iff.mp member)⟩
  have left := revises_rust f source
  have right := revises_js g steps.defined ordered
  obtain ⟨final, shape, kept⟩ := right.kept _ ⟨_, rfl, plainMap⟩
  refine ⟨final, shape, left.kept _ sortedMap, kept, fun key inside => ?_⟩
  have lookJs := right.get_foldl ordered.nodup _ ⟨_, rfl, plainMap⟩ (JStr.ofChars key)
  have lookRust := left.get_foldl sorted.nodup _ sortedMap key
  rw [shape] at lookJs
  simp only [ownOf] at lookJs
  rw [Assoc.lookup_perm perm ordered.nodup, ← own] at lookJs
  rw [← OrdMap.find_eq_lookup] at lookRust
  have before := fieldsMap key inside
  have present := fields key inside
  cases found : own props (JStr.ofChars key) with
  | none =>
    rw [found] at present lookJs
    cases value : OrdMap.find key source with
    | none =>
      rw [value] at lookRust
      rw [lookJs, lookRust]
      exact before
    | some v => rw [value] at present; cases present
  | some y =>
    rw [found] at present lookJs
    obtain ⟨name, eq, safe⟩ := plain.named _ (Assoc.mem_of_lookup found)
    obtain rfl : key = name := ofChars_injective eq
    cases value : OrdMap.find key source with
    | none => rw [value] at present; cases present
    | some v =>
      rw [value] at present lookRust
      cases present with
      | some same =>
        have read : (JsVal.obj .undefined props).get (JStr.ofChars key) = y := by
          rw [get_plain props (ofChars_ne_proto safe), found]
          rfl
        have new := steps.same key inside safe _ _ (.of_rel plainMap before) v y same
          (plain.defined _ (Assoc.mem_of_lookup found)) (admitted key v y safe value read)
        refine SameField.to_rel kept ?_
        rw [lookRust, lookJs]
        dsimp only
        cases written : g (JStr.ofChars key) ((own _ (JStr.ofChars key)).getD .undefined) y with
        | none => simpa [written] using new
        | some z => simpa [written] using new

end Fields

/-! A document read by the two sides. -/

theorem shortProps_iff {props : Props} : shortProps props = true ↔ ∀ p ∈ props, p.2.short = true := by
  induction props with
  | nil => simp [shortProps]
  | cons p rest ih => simp [shortProps, ih]

theorem shortItems_iff {items : List JsVal} : shortItems items = true ↔ ∀ v ∈ items, v.short = true := by
  induction items with
  | nil => simp [shortItems]
  | cons v rest ih => simp [shortItems, ih]

theorem short_arr {items : List JsVal} (short : (JsVal.arr items).short = true) :
    items.length < 2 ^ 32 ∧ ∀ v ∈ items, v.short = true := by
  rw [JsVal.short, Bool.and_eq_true, decide_eq_true_eq, maxArray] at short
  exact ⟨by omega, shortItems_iff.mp short.2⟩

theorem short_get {numbers : Numbers} {P : Str → Prop} {map : Map} {w : JsVal} (same : AgreeOn numbers P map w)
    (short : w.short = true) (key : Str) (safe : key ≠ protoName) : (w.get (JStr.ofChars key)).short = true := by
  obtain ⟨props, rfl, -⟩ := same
  rw [get_plain props (ofChars_ne_proto safe)]
  cases found : own props (JStr.ofChars key) with
  | none => rfl
  | some value => exact shortProps_iff.mp short _ (Assoc.mem_of_lookup found)

/-- What reading one document gives the two sides. -/
structure Reads (numbers : Numbers) (v : Value) (w : JsVal) : Prop where
  same : Same numbers v w
  defined : w ≠ .undefined
  short : w.short = true

theorem short_items {numbers : Numbers} {items : List Value} {items' : List JsVal}
    (reads : List.Forall₂ (Reads numbers) items items') : shortItems items' = true := by
  induction reads with
  | nil => rfl
  | cons first rest ih => simp [shortItems, first.short, ih]

theorem Json.length_toJsItems (numbers : Numbers) (items : List (Json numbers.Token)) :
    (toJsItems numbers items).length = items.length := by
  induction items with
  | nil => rfl
  | cons d rest ih => simp [toJsItems, ih]

theorem agree_members {numbers : Numbers} {members : Map} {members' : Props}
    (reads : List.Forall₂ (fun p q => q.1 = JStr.ofChars p.1 ∧ p.1 ≠ protoName ∧ Reads numbers p.2 q.2)
      members members') {map : Map} {w : JsVal} (target : AgreeOn numbers (fun _ => True) map w)
    (short : w.short = true) :
    AgreeOn numbers (fun _ => True) (members.foldl (fun map p => put map p.1 p.2) map)
        (members'.foldl (fun out p => Verifier.spread2.define out p.1 p.2) w) ∧
      (members'.foldl (fun out p => Verifier.spread2.define out p.1 p.2) w).short = true := by
  induction reads generalizing map w with
  | nil => exact ⟨target, short⟩
  | @cons p q _ _ first rest ih =>
    obtain ⟨key, safe, value⟩ := first
    have next := target.set p.1 safe (fun _ => value.same) value.defined
    obtain ⟨props, rfl, -⟩ := id target
    rw [List.foldl_cons, List.foldl_cons, define_plain, key]
    rw [set_plain props (ofChars_ne_proto safe)] at next
    refine ih next (shortProps_iff.mpr fun r member => ?_)
    rcases mem_written member with rfl | old
    · exact value.short
    · exact shortProps_iff.mp short r old

mutual

theorem Json.reads (numbers : Numbers) (d : Json numbers.Token) (plain : d.plain = true) :
    Reads numbers (d.toRust numbers) (d.toJs numbers) := by
  cases d with
  | null => exact ⟨.null, nofun, rfl⟩
  | bool b => exact ⟨.bool b, nofun, rfl⟩
  | num t => exact ⟨.number t, nofun, rfl⟩
  | str s => exact ⟨.string s, nofun, rfl⟩
  | arr items =>
    simp only [Json.plain, Bool.and_eq_true, decide_eq_true_eq] at plain
    have inner := Json.reads_items numbers items plain.2
    refine ⟨.array (inner.imp fun _ _ read => read.same), nofun, ?_⟩
    simp only [Json.toJs, JsVal.short, Bool.and_eq_true, decide_eq_true_eq]
    exact ⟨by rw [Json.length_toJsItems]; exact plain.1, short_items inner⟩
  | obj members =>
    have inner := agree_members (Json.reads_members numbers members plain) .empty rfl
    simp only [Json.toRust, Json.toJs, Value.ofMembers, JsVal.ofMembers]
    refine ⟨same_object.mpr inner.1, ?_, inner.2⟩
    obtain ⟨props, eq, -⟩ := inner.1
    rw [eq]
    exact nofun

theorem Json.reads_items (numbers : Numbers) (items : List (Json numbers.Token)) (plain : plainItems items = true) :
    List.Forall₂ (Reads numbers) (toRustItems numbers items) (toJsItems numbers items) := by
  cases items with
  | nil => exact .nil
  | cons d rest =>
    simp only [plainItems, Bool.and_eq_true] at plain
    exact .cons (Json.reads numbers d plain.1) (Json.reads_items numbers rest plain.2)

theorem Json.reads_members (numbers : Numbers) (members : List (Str × Json numbers.Token))
    (plain : plainMembers members = true) :
    List.Forall₂ (fun p q => q.1 = JStr.ofChars p.1 ∧ p.1 ≠ protoName ∧ Reads numbers p.2 q.2)
      (toRustMembers numbers members) (toJsMembers numbers members) := by
  cases members with
  | nil => exact .nil
  | cons member rest =>
    obtain ⟨key, d⟩ := member
    simp only [plainMembers, Bool.and_eq_true, decide_eq_true_eq] at plain
    exact .cons ⟨rfl, plain.1.1, Json.reads numbers d plain.1.2⟩ (Json.reads_members numbers rest plain.2)

end

end TeeProof
