import TeeProof.Canonical

/-! One document through both canonical writers. The texts are equal unless an object
has a `__proto__` member, two of its keys stand in another order in the two languages,
or a number that counts is written differently. -/
namespace TeeProof

open JsVal JsonTree
open Verifier (bodyOf arranged writtenBefore)

/-- The members of an object that count: the last of each name, in the order of the names. -/
def counted (members : List (Str × α)) : List (Str × α) :=
  members.foldl (fun map p => OrdMap.insert p.1 p.2 map) []

section Members

variable {α β : Type}

theorem mem_insert_iff {m : List (Str × α)} (sorted : OrdMap.Sorted m) {key : Str} {value : α} {p : Str × α} :
    p ∈ OrdMap.insert key value m ↔ p = (key, value) ∨ p ∈ m ∧ p.1 ≠ key := by
  obtain ⟨k, v⟩ := p
  have found (l : List (Str × α)) (ordered : OrdMap.Sorted l) : (k, v) ∈ l ↔ OrdMap.find k l = some v :=
    ⟨OrdMap.find_of_mem ordered, OrdMap.mem_of_find⟩
  rw [found _ (sorted.insert key value), found m sorted, OrdMap.find_insert]
  by_cases same : k = key
  · simp [same, eq_comm]
  · simp [same]

theorem mem_written_iff {props : Props} (nodup : (props.map Prod.fst).Nodup) {key : JStr} {value : JsVal}
    {p : JStr × JsVal} : p ∈ written props key value ↔ p = (key, value) ∨ p ∈ props ∧ p.1 ≠ key := by
  obtain ⟨k, v⟩ := p
  have found (l : Props) (once : (l.map Prod.fst).Nodup) : (k, v) ∈ l ↔ own l k = some v :=
    ⟨Assoc.lookup_of_mem once, Assoc.mem_of_lookup⟩
  rw [found _ (nodup_written nodup key value), found props nodup, own_written]
  by_cases same : k = key
  · simp [same, eq_comm]
  · simp [same]

theorem insert_map (f : α → β) (key : Str) (value : α) (m : List (Str × α)) :
    OrdMap.insert key (f value) (m.map (Prod.map id f)) = (OrdMap.insert key value m).map (Prod.map id f) := by
  induction m with
  | nil => rfl
  | cons p rest ih =>
    obtain ⟨k, v⟩ := p
    simp only [List.map_cons, Prod.map, id, OrdMap.insert] at ih ⊢
    split
    · rfl
    · split
      · rfl
      · rw [ih]
        rfl

theorem foldl_insert_map (f : α → β) (members m : List (Str × α)) :
    (members.map (Prod.map id f)).foldl (fun map p => OrdMap.insert p.1 p.2 map) (m.map (Prod.map id f)) =
      (members.foldl (fun map p => OrdMap.insert p.1 p.2 map) m).map (Prod.map id f) := by
  induction members generalizing m with
  | nil => rfl
  | cons p rest ih =>
    rw [List.map_cons, List.foldl_cons, List.foldl_cons, ← ih]
    congr 1
    exact insert_map f p.1 p.2 m

theorem counted_map (f : α → β) (members : List (Str × α)) :
    counted (members.map (Prod.map id f)) = (counted members).map (Prod.map id f) :=
  foldl_insert_map f members []

theorem counted_sorted (members : List (Str × α)) : OrdMap.Sorted (counted members) := by
  have run (m : List (Str × α)) (sorted : OrdMap.Sorted m) :
      OrdMap.Sorted (members.foldl (fun map p => OrdMap.insert p.1 p.2 map) m) := by
    induction members generalizing m with
    | nil => exact sorted
    | cons p rest ih => exact ih _ (sorted.insert p.1 p.2)
  exact run [] OrdMap.sorted_nil

/-- What counts is there, and every name counts once. -/
theorem foldl_insert_mem (members m : List (Str × α)) (sorted : OrdMap.Sorted m) :
    (∀ p ∈ members.foldl (fun map p => OrdMap.insert p.1 p.2 map) m, p ∈ members ∨ p ∈ m) ∧
      ∀ key, key ∈ (members.foldl (fun map p => OrdMap.insert p.1 p.2 map) m).map Prod.fst ↔
        key ∈ members.map Prod.fst ∨ key ∈ m.map Prod.fst := by
  induction members generalizing m with
  | nil => simp
  | cons q rest ih =>
    obtain ⟨inside, keys⟩ := ih _ (sorted.insert q.1 q.2)
    have names (key : Str) : key ∈ (OrdMap.insert q.1 q.2 m).map Prod.fst ↔ key = q.1 ∨ key ∈ m.map Prod.fst := by
      simp only [List.mem_map, mem_insert_iff sorted]
      grind
    constructor
    · intro p member
      rcases inside p member with later | now
      · exact .inl (List.mem_cons_of_mem _ later)
      · rcases OrdMap.mem_insert now with rfl | old
        · exact .inl (by simp)
        · exact .inr old
    · intro key
      rw [List.foldl_cons, keys, names, List.map_cons, List.mem_cons]
      grind

theorem mem_of_counted {members : List (Str × α)} {p : Str × α} (member : p ∈ counted members) : p ∈ members :=
  ((foldl_insert_mem members [] OrdMap.sorted_nil).1 p member).resolve_right (by simp)

theorem counted_keys (members : List (Str × α)) (key : Str) :
    key ∈ (counted members).map Prod.fst ↔ key ∈ members.map Prod.fst := by
  rw [counted, (foldl_insert_mem members [] OrdMap.sorted_nil).2 key]
  simp

end Members

namespace Json

variable {τ : Type}

/-- Induction over a document, the items and members of which come before it. -/
theorem induction {motive : Json τ → Prop} (null : motive .null) (bool : ∀ b, motive (.bool b))
    (num : ∀ t, motive (.num t)) (str : ∀ s, motive (.str s))
    (arr : ∀ items, (∀ d ∈ items, motive d) → motive (.arr items))
    (obj : ∀ members, (∀ p ∈ members, motive p.2) → motive (.obj members)) (d : Json τ) : motive d := by
  match d with
  | .null => exact null
  | .bool b => exact bool b
  | .num t => exact num t
  | .str s => exact str s
  | .arr items => exact arr items fun d _ => induction null bool num str arr obj d
  | .obj members => exact obj members fun p _ => induction null bool num str arr obj p.2
termination_by sizeOf d
decreasing_by
  · have := List.sizeOf_lt_of_mem ‹d ∈ items›
    simp
    omega
  · have := List.sizeOf_lt_of_mem ‹p ∈ members›
    have : sizeOf p = 1 + sizeOf p.1 + sizeOf p.2 := rfl
    simp
    omega

variable (numbers : Numbers)

theorem toRustItems_eq (items : List (Json numbers.Token)) : toRustItems numbers items = items.map (toRust numbers) := by
  induction items with
  | nil => rfl
  | cons d rest ih => rw [toRustItems, ih, List.map_cons]

theorem toJsItems_eq (items : List (Json numbers.Token)) : toJsItems numbers items = items.map (toJs numbers) := by
  induction items with
  | nil => rfl
  | cons d rest ih => rw [toJsItems, ih, List.map_cons]

theorem toRustMembers_eq (members : List (Str × Json numbers.Token)) :
    toRustMembers numbers members = members.map (Prod.map id (toRust numbers)) := by
  induction members with
  | nil => rfl
  | cons p rest ih =>
    rw [toRustMembers, ih]
    rfl

theorem toJsMembers_eq (members : List (Str × Json numbers.Token)) :
    toJsMembers numbers members = members.map (Prod.map JStr.ofChars (toJs numbers)) := by
  induction members with
  | nil => rfl
  | cons p rest ih =>
    rw [toJsMembers, ih]
    rfl

theorem toRust_obj (members : List (Str × Json numbers.Token)) :
    toRust numbers (.obj members) = .object ((counted members).map (Prod.map id (toRust numbers))) := by
  rw [← counted_map, toRust, toRustMembers_eq]
  rfl

/-- One more member on the verifier's side. -/
theorem written_perm {props : Props} {m : List (Str × Json numbers.Token)} (sorted : OrdMap.Sorted m)
    (perm : props.Perm (m.map (Prod.map JStr.ofChars (toJs numbers)))) (key : Str) (d : Json numbers.Token) :
    (written props (JStr.ofChars key) (toJs numbers d)).Perm
      ((OrdMap.insert key d m).map (Prod.map JStr.ofChars (toJs numbers))) := by
  have once (l : List (Str × Json numbers.Token)) (ordered : OrdMap.Sorted l) :
      ((l.map (Prod.map JStr.ofChars (toJs numbers))).map Prod.fst).Nodup := by
    rw [List.map_map]
    have keys := ordered.nodup.map ofChars_injective
    rwa [List.map_map] at keys
  have nodup : (props.map Prod.fst).Nodup := (perm.map _).nodup_iff.mpr (once m sorted)
  refine (List.perm_ext_iff_of_nodup (nodup_written nodup _ _).of_map (once _ (sorted.insert key d)).of_map).mpr ?_
  intro p
  rw [mem_written_iff nodup, perm.mem_iff, List.mem_map, List.mem_map]
  constructor
  · rintro (rfl | ⟨⟨q, inside, rfl⟩, apart⟩)
    · exact ⟨(key, d), (mem_insert_iff sorted).mpr (.inl rfl), rfl⟩
    · exact ⟨q, (mem_insert_iff sorted).mpr (.inr ⟨inside, fun same => apart (congrArg JStr.ofChars same)⟩), rfl⟩
  · rintro ⟨q, inside, rfl⟩
    rcases (mem_insert_iff sorted).mp inside with rfl | ⟨old, apart⟩
    · exact .inl rfl
    · exact .inr ⟨⟨q, old, rfl⟩, fun same => apart (ofChars_injective same)⟩

theorem toJs_obj (members : List (Str × Json numbers.Token)) :
    ∃ props, toJs numbers (.obj members) = .obj .undefined props ∧
      props.Perm ((counted members).map (Prod.map JStr.ofChars (toJs numbers))) := by
  have run (props : Props) (m : List (Str × Json numbers.Token)) (sorted : OrdMap.Sorted m)
      (perm : props.Perm (m.map (Prod.map JStr.ofChars (toJs numbers)))) :
      ∃ props', (members.map (Prod.map JStr.ofChars (toJs numbers))).foldl
          (fun out p => Verifier.spread2.define out p.1 p.2) (.obj .undefined props) = .obj .undefined props' ∧
        props'.Perm ((members.foldl (fun map p => OrdMap.insert p.1 p.2 map) m).map
          (Prod.map JStr.ofChars (toJs numbers))) := by
    induction members generalizing props m with
    | nil => exact ⟨props, rfl, perm⟩
    | cons p rest ih =>
      rw [List.map_cons, List.foldl_cons, List.foldl_cons, define_plain]
      exact ih _ _ (sorted.insert p.1 p.2) (written_perm numbers sorted perm p.1 p.2)
  rw [toJs, toJsMembers_eq]
  exact run [] [] OrdMap.sorted_nil .rfl

theorem toJs_defined (d : Json numbers.Token) : toJs numbers d ≠ .undefined := by
  cases d with
  | obj members =>
    obtain ⟨props, eq, -⟩ := toJs_obj numbers members
    rw [eq]
    simp
  | _ => simp [toJs]

theorem toJs_tidy (d : Json numbers.Token) : Verifier.Tidy (toJs numbers d) := by
  induction d using Json.induction with
  | null => exact .null
  | bool b => exact .bool b
  | num t => exact .num _
  | str s => exact .str _
  | arr items ih =>
    rw [toJs, toJsItems_eq]
    refine .arr fun v member => ?_
    obtain ⟨d, inside, rfl⟩ := List.mem_map.mp member
    exact ih d inside
  | obj members ih =>
    obtain ⟨props, eq, perm⟩ := toJs_obj numbers members
    have origin {p : JStr × JsVal} (member : p ∈ props) :
        ∃ q ∈ counted members, Prod.map JStr.ofChars (toJs numbers) q = p := by
      rwa [perm.mem_iff, List.mem_map] at member
    rw [eq]
    refine .obj _ ?_ ?_ ?_
    · rw [(perm.map _).nodup_iff, List.map_map]
      have keys := (counted_sorted members).nodup.map ofChars_injective
      rwa [List.map_map] at keys
    · intro p member
      obtain ⟨q, _, rfl⟩ := origin member
      exact toJs_defined numbers q.2
    · intro p member
      obtain ⟨q, inside, rfl⟩ := origin member
      exact ih q (mem_of_counted inside)

theorem toRust_ordered (d : Json numbers.Token) : Enclave.Ordered (toRust numbers d) := by
  induction d using Json.induction with
  | null => exact .null
  | bool b => exact .bool b
  | num t => exact .number _
  | str s => exact .string _
  | arr items ih =>
    rw [toRust, toRustItems_eq]
    refine .array fun v member => ?_
    obtain ⟨d, inside, rfl⟩ := List.mem_map.mp member
    exact ih d inside
  | obj members ih =>
    rw [toRust_obj]
    refine .object ?_ ?_
    · rw [OrdMap.Sorted, List.pairwise_map]
      exact counted_sorted members
    · intro p member
      obtain ⟨q, inside, rfl⟩ := List.mem_map.mp member
      exact ih q (mem_of_counted inside)

end Json

section Documents

variable (numbers : Numbers) (rust : Rust) (node : Node)

/-- The documents that both sides write alike. -/
inductive Alike : Json numbers.Token → Prop
  | null : Alike .null
  | bool (b : Bool) : Alike (.bool b)
  | num {t : numbers.Token}
    (same : JStr.ofChars (Enclave.formatNumber rust (numbers.rust t)) = Verifier.stringify node (.num (numbers.js t))) :
    Alike (.num t)
  | str (s : Str) : Alike (.str s)
  | arr {items : List (Json numbers.Token)} (inside : ∀ d ∈ items, Alike d) : Alike (.arr items)
  | obj {members : List (Str × Json numbers.Token)} (safe : ∀ p ∈ members, p.1 ≠ protoName)
    (order : ∀ p ∈ members, ∀ q ∈ members, p.1 < q.1 →
      writtenBefore (JStr.ofChars p.1) (JStr.ofChars q.1) = true)
    (values : ∀ p ∈ counted members, Alike p.2) : Alike (.obj members)

theorem ordered_keys_iff {α : Type} (members : List (Str × α)) :
    (((counted members).map Prod.fst).map JStr.ofChars).Pairwise (fun a b => writtenBefore a b = true) ↔
      ∀ p ∈ members, ∀ q ∈ members, p.1 < q.1 → writtenBefore (JStr.ofChars p.1) (JStr.ofChars q.1) = true := by
  rw [List.pairwise_map]
  have sorted : ((counted members).map Prod.fst).Pairwise (· < ·) := List.pairwise_map.mpr (counted_sorted members)
  constructor
  · intro pairs p inside q inside' less
    have left := (counted_keys members p.1).mpr (List.mem_map_of_mem inside)
    have right := (counted_keys members q.1).mpr (List.mem_map_of_mem inside')
    obtain ⟨i, hi, first⟩ := List.getElem_of_mem left
    obtain ⟨j, hj, second⟩ := List.getElem_of_mem right
    have before : i < j := by
      by_contra after
      rcases Nat.lt_or_eq_of_le (not_lt.mp after) with later | same
      · have := List.pairwise_iff_getElem.mp sorted j i hj hi later
        rw [first, second] at this
        exact absurd less (not_lt_of_gt this)
      · subst same
        rw [first] at second
        exact absurd second less.ne
    have found := List.pairwise_iff_getElem.mp pairs i j hi hj before
    rwa [first, second] at found
  · intro pairs
    refine sorted.imp_of_mem ?_
    intro a b inside inside' less
    obtain ⟨p, origin, rfl⟩ := List.mem_map.mp ((counted_keys members a).mp inside)
    obtain ⟨q, origin', rfl⟩ := List.mem_map.mp ((counted_keys members b).mp inside')
    exact pairs p origin q origin' less

variable (rustFormats : ∀ bits, IsAtom (JStr.ofChars (rust.formatFloat bits)))
  (nodeFormats : ∀ q, IsAtom (node.formatNumber q))

theorem treeOf_eq_iff (d : Json numbers.Token) :
    Verifier.treeOf node nodeFormats (d.toJs numbers) = Enclave.treeOf rust rustFormats (d.toRust numbers) ↔
      Alike numbers rust node d := by
  induction d using Json.induction with
  | null => exact ⟨fun _ => .null, fun _ => rfl⟩
  | bool b => exact ⟨fun _ => .bool b, fun _ => rfl⟩
  | num t =>
    simp only [Json.toJs, Json.toRust, Verifier.treeOf, Enclave.treeOf, Tree.atom.injEq, IsAtom.atom, Atom.mk.injEq]
    refine ⟨fun same => .num same.symm, ?_⟩
    rintro (_ | _ | same)
    exact same.symm
  | str s => exact ⟨fun _ => .str s, fun _ => rfl⟩
  | arr items ih =>
    simp only [Json.toJs, Json.toRust, Verifier.treeOf, Enclave.treeOf, Verifier.treesOf_eq, Enclave.treesOf_eq,
      Json.toJsItems_eq, Json.toRustItems_eq, List.map_map, Tree.arr.injEq, List.map_inj_left, Function.comp]
    constructor
    · intro same
      exact .arr fun d member => (ih d member).mp (same d member)
    · rintro (_ | _ | _ | _ | inside)
      exact fun d member => (ih d member).mpr (inside d member)
  | obj members ih =>
    obtain ⟨props, eq, perm⟩ := Json.toJs_obj numbers members
    rw [eq, Json.toRust_obj, Verifier.treeOf, Enclave.treeOf, Verifier.memberTrees_eq, Enclave.memberTrees_eq]
    have right : ((counted members).map (Prod.map id (Json.toRust numbers))).map
        (Prod.map (bodyOf ∘ JStr.ofChars) (Enclave.treeOf rust rustFormats)) =
        ((counted members).map (Prod.map JStr.ofChars fun d => Enclave.treeOf rust rustFormats (d.toRust numbers))).map
          (Prod.map bodyOf id) := by
      rw [List.map_map, List.map_map]
      rfl
    have left : (props.map (Prod.map id (Verifier.treeOf node nodeFormats))).Perm ((counted members).map
        (Prod.map JStr.ofChars fun d => Verifier.treeOf node nodeFormats (d.toJs numbers))) := by
      have mapped := perm.map (Prod.map id (Verifier.treeOf node nodeFormats))
      rwa [List.map_map] at mapped
    have keys {α : Type} (f : Json numbers.Token → α) :
        ((counted members).map (Prod.map JStr.ofChars f)).map Prod.fst =
          ((counted members).map Prod.fst).map JStr.ofChars := by
      rw [List.map_map, List.map_map]
      rfl
    have once := (counted_sorted members).nodup.map ofChars_injective
    have bodies : Function.Injective (Prod.map bodyOf (id : Tree → Tree)) :=
      Verifier.bodyOf_injective.prodMap Function.injective_id
    rw [right, Tree.obj.injEq, (List.map_injective_iff.mpr bodies).eq_iff,
      Verifier.arranged_eq_iff left (by rw [keys]; exact once) (by rw [keys, keys]), keys, ordered_keys_iff,
      List.map_inj_left]
    have proto : protoKey ∉ ((counted members).map Prod.fst).map JStr.ofChars ↔ ∀ p ∈ members, p.1 ≠ protoName := by
      rw [show protoKey = JStr.ofChars protoName from rfl, List.mem_map_of_injective ofChars_injective, counted_keys]
      simp only [List.mem_map, not_exists, not_and]
    rw [proto]
    constructor
    · rintro ⟨safe, order, same⟩
      refine .obj safe order fun p member => (ih p (mem_of_counted member)).mp ?_
      exact (Prod.mk.inj (same p member)).2
    · rintro (_ | _ | _ | _ | _ | ⟨safe, order, values⟩)
      refine ⟨safe, order, fun p member => ?_⟩
      rw [Prod.map, Prod.map, (ih p (mem_of_counted member)).mpr (values p member)]

end Documents

/-- The enclave and the verifier write a document alike exactly when it is `Alike`. The
hosts are only asked to write a number without brackets, commas and quotation marks. -/
theorem canonicalJson_agrees_iff (numbers : Numbers) (rust : Rust) (node : Node)
    (rustFormats : ∀ bits, IsAtom (JStr.ofChars (rust.formatFloat bits)))
    (nodeFormats : ∀ q, IsAtom (node.formatNumber q)) (d : Json numbers.Token) :
    JStr.ofChars (Enclave.canonicalJson rust (d.toRust numbers)) = Verifier.canonicalJson node (d.toJs numbers) ↔
      Alike numbers rust node d := by
  rw [← treeOf_eq_iff numbers rust node rustFormats nodeFormats,
    Enclave.canonicalJson_eq rust rustFormats (Json.toRust_ordered numbers d),
    Verifier.canonicalJson_eq node nodeFormats (Json.toJs_tidy numbers d), print_injective.eq_iff, eq_comm]

/-- Hosts that write every number outside the integers as a zero. -/
def zeroRust : Rust := { Rust.sample [] [] with formatFloat := fun _ => "0" }
def zeroNode : Node := { Node.sample [] [] [] [] 0 with formatNumber := fun _ => "0" }

theorem canonicalJson_agrees_sample : Alike Numbers.sample zeroRust zeroNode
    (.obj [("b".toList, .num (1 : Fin (2 ^ 53))), ("a".toList, .arr [.str "x".toList])]) := by
  refine (canonicalJson_agrees_iff Numbers.sample zeroRust zeroNode ?_ ?_ _).mp ?_
  · exact fun _ => natDigits_isAtom 0
  · exact fun _ => natDigits_isAtom 0
  · decide

/-- `"10"` stands before `"9"` as text and after it as an array index. -/
theorem canonicalJson_index_keys :
    JStr.ofChars (Enclave.canonicalJson zeroRust (Json.toRust Numbers.sample
      (.obj [("10".toList, .null), ("9".toList, .null)]))) ≠
    Verifier.canonicalJson zeroNode (Json.toJs Numbers.sample (.obj [("10".toList, .null), ("9".toList, .null)])) := by
  decide

end TeeProof
