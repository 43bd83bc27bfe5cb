import TeeProof.MergeAgreement

/-! Items kept by index: a `BTreeMap` of the enclave and a `Map` of the verifier, and
the arrays both write by position. -/
namespace TeeProof

open JsVal Verifier
open Value (Map)
open Enclave (IndexMap entry objects indexOr padTo objectAt)

variable {numbers : Numbers}

theorem JsNumber.le_total (a b : JsNumber) : JsNumber.le a b = true ∨ JsNumber.le b a = true := by
  cases a with
  | finite p =>
    cases b with
    | finite q => simpa [JsNumber.le] using Rat.le_total (a := p) (b := q)
    | _ => simp [JsNumber.le]
  | posInf => exact .inr (by cases b <;> rfl)
  | negInf => exact .inl (by cases b <;> rfl)

theorem JsNumber.le_trans {a b c : JsNumber} (first : JsNumber.le a b = true) (second : JsNumber.le b c = true) :
    JsNumber.le a c = true := by
  cases a <;> cases b <;> cases c <;> simp_all [JsNumber.le]
  exact Rat.le_trans first second

theorem JsNumber.le_antisymm {a b : JsNumber} (first : JsNumber.le a b = true) (second : JsNumber.le b a = true) :
    a = b := by
  cases a <;> cases b <;> simp_all [JsNumber.le]
  exact Rat.le_antisymm first second

/-- The order of entries by their number. -/
def entryLe (p q : JsNumber × JsVal) : Prop := JsNumber.le p.1 q.1 = true

instance : DecidableRel entryLe := fun p q => inferInstanceAs (Decidable (JsNumber.le p.1 q.1 = true))
instance : Std.Total entryLe := ⟨fun p q => JsNumber.le_total p.1 q.1⟩
instance : IsTrans (JsNumber × JsVal) entryLe := ⟨fun _ _ _ => JsNumber.le_trans⟩

theorem NumMap.sorted_pairwise (nums : NumMap) : nums.sorted.Pairwise entryLe :=
  List.pairwise_insertionSort entryLe nums

theorem NumMap.sorted_perm (nums : NumMap) : nums.sorted.Perm nums := List.perm_insertionSort _ _

theorem NumMap.get_set (nums : NumMap) (index k : JsNumber) (value : JsVal) :
    (nums.set index value).get k = if k = index then some value else nums.get k := by
  induction nums with
  | nil =>
    by_cases same : k = index
    · simp [NumMap.set, NumMap.get, same]
    · have apart : (k == index) = false := beq_eq_false_iff_ne.mpr same
      simp [NumMap.set, NumMap.get, same, List.lookup_cons, apart]
  | cons p rest ih =>
    obtain ⟨i, v⟩ := p
    simp only [NumMap.get] at ih
    by_cases here : i = index
    · subst here
      by_cases same : k = i
      · simp [NumMap.set, NumMap.get, same]
      · have apart : (k == i) = false := beq_eq_false_iff_ne.mpr same
        simp [NumMap.set, NumMap.get, same, List.lookup_cons, apart]
    · simp only [NumMap.set, here, if_false, NumMap.get, List.lookup_cons, ih]
      by_cases same : k = i
      · simp [same, here]
      · have apart : (k == i) = false := beq_eq_false_iff_ne.mpr same
        simp [apart]

theorem NumMap.mem_keys_set {nums : NumMap} {index : JsNumber} {value : JsVal} {k : JsNumber}
    (member : k ∈ (nums.set index value).map Prod.fst) : k = index ∨ k ∈ nums.map Prod.fst := by
  rw [← Assoc.lookup_isSome] at member ⊢
  have after := NumMap.get_set nums index k value
  simp only [NumMap.get] at after
  rw [after] at member
  by_cases same : k = index
  · exact .inl same
  · exact .inr (by simpa [same] using member)

theorem NumMap.nodup_set (nums : NumMap) (nodup : (nums.map Prod.fst).Nodup) (index : JsNumber) (value : JsVal) :
    ((nums.set index value).map Prod.fst).Nodup := by
  induction nums with
  | nil => simp [NumMap.set]
  | cons p rest ih =>
    obtain ⟨i, v⟩ := p
    rw [List.map_cons, List.nodup_cons] at nodup
    unfold NumMap.set
    split
    next => exact List.nodup_cons.mpr nodup
    next apart =>
      refine List.nodup_cons.mpr ⟨fun member => ?_, ih nodup.2⟩
      rcases NumMap.mem_keys_set member with same | old
      · exact apart same
      · exact nodup.1 old

/-- The same objects under the same integers. -/
structure SameIndexed (numbers : Numbers) (map : IndexMap) (nums : NumMap) : Prop where
  sorted : OrdMap.Sorted map
  nodup : (nums.map Prod.fst).Nodup
  integer : ∀ p ∈ nums, ∃ k : Int, p.1 = .finite k
  entries : ∀ k : Int, Option.Rel (fun m w => Same numbers (.object m) w) (OrdMap.find k map) (nums.get (.finite k))

theorem SameIndexed.nil : SameIndexed numbers [] [] :=
  ⟨OrdMap.sorted_nil, List.nodup_nil, by simp, fun _ => .none⟩

theorem finite_injective {j k : Int} (same : JsNumber.finite j = JsNumber.finite k) : j = k := by
  simpa using same

theorem SameIndexed.set {map : IndexMap} {nums : NumMap} (same : SameIndexed numbers map nums) (k : Int) {m : Map}
    {w : JsVal} (value : Same numbers (.object m) w) :
    SameIndexed numbers (OrdMap.insert k m map) (nums.set (.finite k) w) where
  sorted := same.sorted.insert k m
  nodup := NumMap.nodup_set nums same.nodup _ _
  integer p member := by
    rcases NumMap.mem_keys_set (List.mem_map_of_mem member) with here | old
    · exact ⟨k, here⟩
    · obtain ⟨q, inside, eq⟩ := List.mem_map.mp old
      exact eq ▸ same.integer q inside
  entries j := by
    rw [OrdMap.find_insert, NumMap.get_set]
    by_cases here : j = k
    · subst here
      simpa using Option.Rel.some value
    · have apart : JsNumber.finite j ≠ JsNumber.finite k := fun eq => here (finite_injective eq)
      simpa [here, apart] using same.entries j

/-- The object under an index, or the default. -/
theorem SameIndexed.getD {map : IndexMap} {nums : NumMap} (same : SameIndexed numbers map nums) (k : Int) {m : Map}
    {w : JsVal} (default : Same numbers (.object m) w) :
    Same numbers (.object ((OrdMap.find k map).getD m)) ((nums.get (.finite k)).getD w) := by
  have here := same.entries k
  generalize OrdMap.find k map = a at here ⊢
  generalize nums.get (.finite k) = b at here ⊢
  cases here with
  | none => exact default
  | some same => exact same

theorem SameIndexed.entry {map : IndexMap} {nums : NumMap} (same : SameIndexed numbers map nums) (k : Int) {m : Map}
    {w : JsVal} (default : Same numbers (.object m) w) {change : Map → Map} {changeJs : JsVal → JsVal}
    (changes : ∀ m w, Same numbers (.object m) w → Same numbers (.object (change m)) (changeJs w)) :
    SameIndexed numbers (Enclave.entry map k m change)
      (nums.set (.finite k) (changeJs ((nums.get (.finite k)).getD w))) :=
  same.set k (changes _ _ (same.getD k default))

/-- The verifier's entries in ascending order, read off the enclave's. -/
theorem SameIndexed.sorted_eq {map : IndexMap} {nums : NumMap} (same : SameIndexed numbers map nums) :
    nums.sorted = map.map fun p => (.finite p.1, (nums.get (.finite p.1)).getD .undefined) := by
  have ascending : (map.map fun p => ((.finite p.1 : JsNumber), (nums.get (.finite p.1)).getD .undefined)).Pairwise
      entryLe := by
    rw [List.pairwise_map]
    refine same.sorted.imp fun less => ?_
    simpa [entryLe, JsNumber.le] using less.le
  have keys : ((map.map fun p => ((.finite p.1 : JsNumber), (nums.get (.finite p.1)).getD .undefined)).map
      Prod.fst).Nodup := by
    rw [List.map_map]
    have distinct := same.sorted.nodup.map (f := fun k : Int => JsNumber.finite k) fun _ _ => finite_injective
    simpa [List.map_map, Function.comp_def] using distinct
  have perm : nums.sorted.Perm (map.map fun p => (.finite p.1, (nums.get (.finite p.1)).getD .undefined)) := by
    refine (NumMap.sorted_perm nums).trans ?_
    refine (List.perm_ext_iff_of_nodup (List.Nodup.of_map _ same.nodup) (List.Nodup.of_map _ keys)).mpr ?_
    rintro ⟨k, w⟩
    constructor
    · intro member
      obtain ⟨j, rfl⟩ := same.integer _ member
      have found := Assoc.lookup_of_mem same.nodup member
      have here := same.entries j
      rw [NumMap.get, found] at here
      cases value : OrdMap.find j map with
      | none => rw [value] at here; cases here
      | some m =>
        refine List.mem_map.mpr ⟨(j, m), OrdMap.mem_of_find value, ?_⟩
        rw [NumMap.get, found]
        rfl
    · intro member
      obtain ⟨⟨j, m⟩, inside, eq⟩ := List.mem_map.mp member
      obtain ⟨rfl, rfl⟩ := Prod.mk.inj eq
      have here := same.entries j
      rw [OrdMap.find_of_mem same.sorted inside] at here
      cases value : nums.get (.finite j) with
      | none => rw [value] at here; cases here
      | some w => exact Assoc.mem_of_lookup value
  refine perm.eq_of_pairwise ?_ (NumMap.sorted_pairwise nums) ascending
  intro p q first second less more
  have member : q ∈ nums := (NumMap.sorted_perm nums).mem_iff.mp (perm.mem_iff.mpr second)
  have other : p ∈ nums := (NumMap.sorted_perm nums).mem_iff.mp first
  have key : p.1 = q.1 := JsNumber.le_antisymm less more
  have left := Assoc.lookup_of_mem same.nodup other
  have right := Assoc.lookup_of_mem same.nodup member
  rw [← key, left] at right
  exact Prod.ext key (Option.some.inj right)

theorem SameIndexed.length_eq {map : IndexMap} {nums : NumMap} (same : SameIndexed numbers map nums) :
    nums.length = map.length := by
  rw [← (NumMap.sorted_perm nums).length_eq, same.sorted_eq, List.length_map]

theorem SameIndexed.values {map : IndexMap} {nums : NumMap} (same : SameIndexed numbers map nums) :
    Same numbers (objects map) (sortedValues nums) := by
  refine .array ?_
  rw [NumMap.values, same.sorted_eq, OrdMap.values, List.map_map, List.map_map, List.forall₂_map_left_iff,
    List.forall₂_map_right_iff, List.forall₂_same]
  rintro ⟨k, m⟩ member
  have here := same.entries k
  rw [OrdMap.find_of_mem same.sorted member] at here
  show Same numbers (.object m) ((nums.get (.finite k)).getD .undefined)
  generalize nums.get (.finite k) = found at here ⊢
  cases here with
  | some value => exact value

/-- The values go into a field when there are any. -/
theorem AgreeOn.withValues {P : Str → Prop} {out : Map} {w : JsVal} (target : AgreeOn numbers P out w) {map : IndexMap}
    {nums : NumMap} (same : SameIndexed numbers map nums) (key : Str) (safe : key ≠ protoName) :
    AgreeOn numbers P (if map.isEmpty then out else Enclave.put out key (objects map))
      (Verifier.withValues (JStr.ofChars key) nums w) := by
  rw [Verifier.withValues, same.length_eq]
  cases map with
  | nil => exact target
  | cons p rest => exact target.set key safe (fun _ => same.values) nofun

/-! Arrays written by position. -/

theorem arrayIndex_nat (i : Nat) (fits : i < maxArray) : (JsNumber.finite i).arrayIndex = some i := by
  simpa [JsNumber.arrayIndex, maxArray] using fits

theorem item_cases {items : List Value} {items' : List JsVal} (same : List.Forall₂ (Same numbers) items items')
    (i : Nat) :
    (∃ v, items[i]? = some v ∧ Same numbers v (items'.getD i .undefined)) ∨
      (items[i]? = none ∧ items'.getD i .undefined = .undefined) := by
  induction same generalizing i with
  | nil => exact .inr ⟨rfl, rfl⟩
  | cons first rest ih =>
    cases i with
    | zero => exact .inl ⟨_, rfl, first⟩
    | succ i => simpa using ih i

/-- The object at a position, or a fresh one; padding does not show. -/
theorem same_objectAt {items : List Value} {items' : List JsVal} (same : List.Forall₂ (Same numbers) items items')
    (i : Nat) (fits : i < maxArray) :
    Same numbers (.object (objectAt (padTo items i) i))
      (if (nth items' (.finite i)).isRecord then (nth items' (.finite i)).spread else JsVal.empty) := by
  have read : nth items' (.finite i) = items'.getD i .undefined := by rw [nth, arrayIndex_nat i fits]
  rw [read, objectAt, padTo]
  rcases item_cases same i with ⟨v, found, value⟩ | ⟨missing, hole⟩
  · have within := (List.getElem?_eq_some_iff.mp found).1
    rw [List.getElem?_append_left within, found]
    generalize items'.getD i .undefined = u at value ⊢
    cases value with
    | object sorted plain fields => exact .object sorted plain fields
    | _ => exact .empty
  · have past := List.getElem?_eq_none_iff.mp missing
    rw [hole, List.getElem?_append_right past, List.getElem?_replicate, if_pos (by omega)]
    exact .empty

theorem same_setItem {items : List Value} {items' : List JsVal} (same : List.Forall₂ (Same numbers) items items')
    (i : Nat) {v : Value} {u : JsVal} (value : Same numbers v u) :
    List.Forall₂ (Same numbers) (items.set i v) (items'.set i u) := by
  induction same generalizing i with
  | nil => exact .nil
  | cons first rest ih =>
    cases i with
    | zero => exact .cons value rest
    | succ i => exact .cons first (ih i)

theorem set_near {α : Type*} (items : List α) (i : Nat) (near : i ≤ items.length) (pad v : α) :
    (items ++ List.replicate (i + 1 - items.length) pad).set i v =
      if i < items.length then items.set i v else items ++ [v] := by
  split
  next within => simp [show i + 1 - items.length = 0 by omega]
  next past =>
    obtain rfl : i = items.length := by omega
    simp

/-- Writing at a position that leaves no gap. -/
theorem same_setAt {items : List Value} {items' : List JsVal} (same : List.Forall₂ (Same numbers) items items')
    (i : Nat) (near : i ≤ items.length) (fits : i < maxArray) {v : Value} {u : JsVal} (value : Same numbers v u) :
    List.Forall₂ (Same numbers) ((padTo items i).set i v) (setAt items' (.finite i) u) := by
  have length := same.length_eq
  rw [setAt, arrayIndex_nat i fits, padTo]
  dsimp only
  rw [set_near items i near, set_near items' i (length ▸ near), ← length]
  split
  next => exact same_setItem same i value
  next => exact List.rel_append same (.cons value .nil)

theorem copyItems_same {items : List Value} {items' : List JsVal} (same : List.Forall₂ (Same numbers) items items') :
    copyItems items' = items' := by
  induction same with
  | nil => rfl
  | cons first rest ih =>
    rw [copyItems, List.map_cons, ← copyItems, ih]
    cases first <;> rfl

/-- Related items stand in the two lists. -/
theorem forall₂_mem {α β : Type*} {R : α → β → Prop} {items : List α} {items' : List β}
    (same : List.Forall₂ R items items') :
    List.Forall₂ (fun x y => R x y ∧ x ∈ items ∧ y ∈ items') items items' := by
  induction same with
  | nil => exact .nil
  | cons first rest ih =>
    refine .cons ⟨first, by simp, by simp⟩ (ih.imp fun x y both => ⟨both.1, ?_, ?_⟩)
    · exact List.mem_cons_of_mem _ both.2.1
    · exact List.mem_cons_of_mem _ both.2.2

/-- Two loops over the same items, with their positions. -/
theorem forall₂_zipIdx {α β : Type*} {R : α → β → Prop} {items : List α} {items' : List β}
    (same : List.Forall₂ R items items') (start : Nat) :
    List.Forall₂ (fun p q => R p.1 q.1 ∧ p.2 = q.2 ∧ p.2 < start + items.length) (items.zipIdx start)
      (items'.zipIdx start) := by
  induction same generalizing start with
  | nil => exact .nil
  | @cons x y xs ys first rest ih =>
    refine .cons ⟨first, rfl, ?_⟩ ((ih (start + 1)).imp fun p q both => ⟨both.1, both.2.1, ?_⟩)
    · simp
    · have := both.2.2
      simp only [List.length_cons]
      omega

/-! Whole streams. -/

/-- The result under way and the items, on the two sides. -/
structure SameLocals (numbers : Numbers) (P : Str → Prop) (locals : Map × IndexMap) (s : Indexed) : Prop where
  out : AgreeOn numbers P locals.1 s.out
  map : SameIndexed numbers locals.2 s.map

theorem SameLocals.init {P : Str → Prop} : SameLocals numbers P ([], []) .init := ⟨.empty, .nil⟩

theorem eq_object {v : Value} {m : Map} (found : v.asObject = some m) : v = .object m := by
  cases v <;> cases found
  rfl

/-- Every event of a stream meets a condition on the state it finds. -/
def Meets (numbers : Numbers) {σ : Type*} (f : σ → Value → σ) (condition : σ → Map → JsVal → Prop) :
    σ → List (Json numbers.Token) → Prop
  | _, [] => True
  | s, e :: rest =>
    (∀ event, e.toRust numbers = .object event → condition s event (e.toJs numbers)) ∧
      Meets numbers f condition (f s (e.toRust numbers)) rest

theorem Meets.take {σ : Type*} {f : σ → Value → σ} {condition : σ → Map → JsVal → Prop} {s : σ}
    {events : List (Json numbers.Token)} (meets : Meets numbers f condition s events) (n : Nat) :
    Meets numbers f condition s (events.take n) := by
  induction events generalizing s n with
  | nil => simpa using meets
  | cons e rest ih =>
    cases n with
    | zero => trivial
    | succ n => exact ⟨meets.1, ih meets.2 n⟩

/-- A relation that each document keeps holds after a stream of documents: `shape` is
what every event looks like, `condition` what it meets in the state it finds. -/
theorem rel_meets {σ τ : Type*} {I : σ → τ → Prop} {f : σ → Value → σ} {g : τ → JsVal → τ} {shape : Map → Prop}
    {condition : σ → Map → JsVal → Prop}
    (step : ∀ s t v w, I s t → Reads numbers v w → (∀ event, v = .object event → shape event ∧ condition s event w) →
      I (f s v) (g t w))
    (events : List (Json numbers.Token)) (plain : ∀ e ∈ events, e.plain = true)
    (shaped : ∀ e ∈ events, ∀ event, e.toRust numbers = .object event → shape event) {s : σ} {t : τ} (start : I s t)
    (meets : Meets numbers f condition s events) :
    I ((events.map (Json.toRust numbers)).foldl f s) ((events.map (Json.toJs numbers)).foldl g t) := by
  induction events generalizing s t with
  | nil => exact start
  | cons e rest ih =>
    have first := step s t _ _ start (e.reads numbers (plain e (by simp)))
      fun event read => ⟨shaped e (by simp) event read, meets.1 event read⟩
    exact ih (fun d member => plain d (List.mem_cons_of_mem _ member))
      (fun d member => shaped d (List.mem_cons_of_mem _ member)) first meets.2

theorem meets_true {σ : Type*} (f : σ → Value → σ) (s : σ) (events : List (Json numbers.Token)) :
    Meets numbers f (fun _ _ _ => True) s events := by
  induction events generalizing s with
  | nil => trivial
  | cons e rest ih => exact ⟨fun _ _ => trivial, ih _⟩

/-- The same when nothing is asked of the state. -/
theorem rel_documents {σ τ : Type*} {I : σ → τ → Prop} {shape : Map → Prop} {f : σ → Value → σ} {g : τ → JsVal → τ}
    (step : ∀ s t v w, I s t → Reads numbers v w → (∀ event, v = .object event → shape event) → I (f s v) (g t w))
    (events : List (Json numbers.Token)) (plain : ∀ e ∈ events, e.plain = true)
    (shaped : ∀ e ∈ events, ∀ event, e.toRust numbers = .object event → shape event) {s : σ} {t : τ} (start : I s t) :
    I ((events.map (Json.toRust numbers)).foldl f s) ((events.map (Json.toJs numbers)).foldl g t) :=
  rel_meets (fun s t v w state read both => step s t v w state read fun event eq => (both event eq).1) events plain
    shaped start (meets_true f s events)

end TeeProof
