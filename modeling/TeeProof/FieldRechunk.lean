import TeeProof.Cell
import TeeProof.ToolAgreement

/-! A text delta cut in two, on the verifier's side. A property that is there already can be
written before or after the others: only a fresh one takes its place in the order of writing. -/
namespace TeeProof.Verifier

open JsVal

/-! Own properties written twice, or beside others. -/

theorem replace_replace (key : JStr) (v w : JsVal) (props : Props) :
    replace key w (replace key v props) = replace key w props := by
  induction props with
  | nil => rfl
  | cons p rest ih =>
    obtain ⟨k, x⟩ := p
    by_cases here : k = key
    · simp [replace, here]
    · simp [replace, here, ih]

theorem replace_comm {key other : JStr} (apart : other ≠ key) (v w : JsVal) (props : Props) :
    replace other w (replace key v props) = replace key v (replace other w props) := by
  induction props with
  | nil => rfl
  | cons p rest ih =>
    obtain ⟨k, x⟩ := p
    by_cases here : k = key
    · subst here
      simp [replace, apart.symm]
    · by_cases there : k = other
      · subst there
        simp [replace, here]
      · simp [replace, here, there, ih]

theorem replace_append {key : JStr} (v : JsVal) (props more : Props) (present : (own props key).isSome) :
    replace key v (props ++ more) = replace key v props ++ more := by
  induction props with
  | nil => simp [own] at present
  | cons p rest ih =>
    obtain ⟨k, x⟩ := p
    by_cases here : k = key
    · simp [replace, here]
    · have later : (own rest key).isSome := by
        have apart : (key == k) = false := beq_eq_false_iff_ne.mpr (Ne.symm here)
        simpa [own, List.lookup_cons, apart] using present
      simp [replace, here, ih later]

theorem replace_fresh {key : JStr} (v w : JsVal) (props : Props) (absent : own props key = none) :
    replace key w (props ++ [(key, v)]) = props ++ [(key, w)] := by
  induction props with
  | nil => simp [replace]
  | cons p rest ih =>
    obtain ⟨k, x⟩ := p
    have apart : k ≠ key := by
      rintro rfl
      simp [own] at absent
    have later : own rest key = none := by
      have other : (key == k) = false := beq_eq_false_iff_ne.mpr apart.symm
      simpa [own, List.lookup_cons, other] using absent
    simp [replace, apart, ih later]

theorem set_present (proto : JsVal) {props : Props} {key : JStr} (present : (own props key).isSome) (value : JsVal) :
    (JsVal.obj proto props).set key value = .obj proto (replace key value props) := by
  simp only [JsVal.set, present, if_true]

theorem set_own (proto : JsVal) (props : Props) {key : JStr} (safe : key ≠ protoKey) (value : JsVal) :
    (JsVal.obj proto props).set key value = .obj proto (written props key value) := by
  unfold written JsVal.set
  dsimp only
  split
  · rfl
  · simp [safe]

theorem own_written_self (props : Props) (key : JStr) (value : JsVal) : own (written props key value) key = some value := by
  rw [own_written, if_pos rfl]

theorem set_set {key : JStr} (safe : key ≠ protoKey) (v w m : JsVal) : (m.set key v).set key w = m.set key w := by
  cases m with
  | obj proto props =>
    rw [set_own proto props safe, set_own proto props safe, set_present _ (by rw [own_written_self]; rfl)]
    unfold written
    split
    next => rw [replace_replace]
    next absent => rw [replace_fresh v w props (Option.not_isSome_iff_eq_none.mp absent)]
  | _ => rfl

theorem get_set_self {key : JStr} (safe : key ≠ protoKey) (v : JsVal) {m : JsVal} (record : m.isRecord = true) :
    (m.set key v).get key = v := by
  cases m with
  | obj proto props => rw [set_own proto props safe, JsVal.get, own_written_self]
  | _ => cases record

theorem set_of_not_record {m : JsVal} (other : m.isRecord = false) (key : JStr) (v : JsVal) : m.set key v = m := by
  cases m with
  | obj proto props => cases other
  | _ => rfl

theorem get_set_present (proto : JsVal) {props : Props} {key other : JStr} (apart : other ≠ key)
    (present : (own props key).isSome) (v : JsVal) :
    ((JsVal.obj proto props).set key v).get other = (JsVal.obj proto props).get other := by
  rw [set_present proto present, JsVal.get, JsVal.get, own_replace key other v props present, if_neg apart]

/-- A write beside a property that is there. -/
theorem set_comm_present (proto : JsVal) {props : Props} {key other : JStr} (apart : other ≠ key)
    (present : (own props key).isSome) (v w : JsVal) :
    ((JsVal.obj proto props).set key v).set other w = ((JsVal.obj proto props).set other w).set key v := by
  rw [set_present proto present]
  by_cases there : (own props other).isSome
  · have still : (own (replace key v props) other).isSome := by
      rw [own_replace key other v props present, if_neg apart]
      exact there
    have kept : (own (replace other w props) key).isSome := by
      rw [own_replace other key w props there, if_neg apart.symm]
      exact present
    rw [set_present proto still, set_present proto there, set_present proto kept, replace_comm apart]
  · have still : (own (replace key v props) other).isSome = false := by
      rw [own_replace key other v props present, if_neg apart]
      simpa using there
    have appended : (own (props ++ [(other, w)]) key).isSome := by
      rw [own_append other key w props (by simpa using there), if_neg apart.symm]
      exact present
    -- the prototype may change, the properties do not
    have changed (p : JsVal) : (JsVal.obj p props).set key v = .obj p (replace key v props) := set_present p present v
    simp only [JsVal.set, still, Bool.not_eq_true _ |>.mp there, Bool.false_eq_true, if_false]
    split
    · split
      · exact (changed w).symm
      · split
        · exact (changed .null).symm
        · exact (changed proto).symm
    · rw [← replace_append v props [(other, w)] present]
      exact (set_present proto appended v).symm

/-! The places. -/

/-- A property of an object; other values have none. -/
def fieldCell (key : JStr) (safe : key ≠ protoKey) : Cell JsVal JsVal where
  read m := m.get key
  write v m := m.set key v
  keeps _ := True
  write_write v w m := set_set safe v w m
  read_write v m _ := by
    cases record : m.isRecord with
    | true => exact .inl (get_set_self safe v record)
    | false => exact .inr fun w => set_of_not_record record key w

def textCell (key : JStr) (safe : key ≠ protoKey) : Cell JsVal JStr := (fieldCell key safe).through (stringOr []) .str

/-- A property that holds an object, empty where there is none. -/
def recordCell (key : JStr) (safe : key ≠ protoKey) : Cell JsVal JsVal := (fieldCell key safe).through (recordOr empty) id

/-- The same, copied when it is read. -/
def copiedRecord (v : JsVal) : JsVal := if v.isRecord then v.spread else empty

def spreadCell (key : JStr) (safe : key ≠ protoKey) : Cell JsVal JsVal := (fieldCell key safe).through copiedRecord id

def arrayCell (key : JStr) (safe : key ≠ protoKey) : Cell JsVal (List JsVal) := (fieldCell key safe).through items .arr

/-- What a copy is not told apart from. -/
def Copied (v : JsVal) : Prop := ∃ props, v = .obj .undefined props

theorem Copied.copiedRecord {v : JsVal} (copied : Copied v) : copiedRecord v = v := by
  obtain ⟨props, rfl⟩ := copied
  rfl

theorem copied_copiedRecord (v : JsVal) : Copied (copiedRecord v) := by
  cases v with
  | obj proto props => exact ⟨props, rfl⟩
  | _ => exact ⟨[], rfl⟩

theorem Copied.set {v : JsVal} (copied : Copied v) {key : JStr} (safe : key ≠ protoKey) (value : JsVal) :
    Copied (v.set key value) := by
  obtain ⟨props, rfl⟩ := copied
  exact ⟨_, set_own .undefined props safe value⟩

/-- An element of an array; a number that is no position has none. -/
def itemCell (index : JsNumber) : Cell (List JsVal) JsVal where
  read l := copiedRecord (nth l index)
  write v l := setAt l index v
  keeps := Copied
  write_write v w l := by
    unfold setAt
    cases index.arrayIndex with
    | none => rfl
    | some i =>
      have long : i < (l ++ List.replicate (i + 1 - l.length) JsVal.undefined).length := by
        rw [List.length_append, List.length_replicate]
        omega
      have filled (x : List JsVal) (enough : i < x.length) :
          x ++ List.replicate (i + 1 - x.length) JsVal.undefined = x := by
        rw [Nat.sub_eq_zero_of_le (by omega), List.replicate_zero, List.append_nil]
      dsimp only
      rw [filled _ (by rw [List.length_set]; exact long), List.set_set]
  read_write v l copied := by
    unfold setAt nth
    cases index.arrayIndex with
    | none => exact .inr fun w => rfl
    | some i =>
      have long : i < (l ++ List.replicate (i + 1 - l.length) JsVal.undefined).length := by
        rw [List.length_append, List.length_replicate]
        omega
      refine .inl ?_
      dsimp only
      rw [List.getD_eq_getElem?_getD, List.getElem?_set_self long, Option.getD_some, copied.copiedRecord]

theorem NumMap.set_set (index : JsNumber) (v w : JsVal) (m : NumMap) : (m.set index v).set index w = m.set index w := by
  induction m with
  | nil => simp [NumMap.set]
  | cons p rest ih =>
    obtain ⟨k, x⟩ := p
    by_cases here : k = index
    · simp [NumMap.set, here]
    · simp [NumMap.set, here, ih]

/-- An entry of a map, made from the default. -/
def entryCell (index : JsNumber) (default : JsVal) : Cell NumMap JsVal where
  read m := (m.get index).getD default
  write v m := m.set index v
  keeps _ := True
  write_write v w m := NumMap.set_set index v w m
  read_write v m _ := .inl (by rw [NumMap.get_set, if_pos rfl, Option.getD_some])

theorem append_eq {key : JStr} (safe : key ≠ protoKey) (s : JStr) (m : JsVal) :
    appendStringField key (.str s) m = (textCell key safe).update (· ++ s) m := by
  change _ = m.set key (.str (stringOr [] (m.get key) ++ s))
  unfold appendStringField
  cases m.get key <;> rfl

/-! The operations on other properties, `__proto__` among them. -/

theorem isRecord_reviseJs (g : JStr → JsVal → JsVal → Option JsVal) (m : JsVal) (key : JStr) (value : JsVal) :
    (reviseJs g m key value).isRecord = m.isRecord := isRecord_foldl g [(key, value)] m

section
variable {key other : JStr} {safe : key ≠ protoKey} (apart : other ≠ key)
include apart

theorem reviseJs_frames (g : JStr → JsVal → JsVal → Option JsVal) (value : JsVal) :
    (fieldCell key safe).Frames fun m => reviseJs g m other value := by
  refine .of_comm fun v w m => ?_
  change reviseJs g ((m.set key v).set key w) other value = (reviseJs g (m.set key v) other value).set key w
  cases m with
  | obj proto props =>
    rw [set_own proto props safe]
    have present : (own (written props key v) key).isSome := by
      rw [own_written_self]
      rfl
    unfold reviseJs
    rw [get_set_present proto apart present]
    cases g other ((JsVal.obj proto (written props key v)).get other) value with
    | some x => exact set_comm_present proto apart present w x
    | none => rfl
  | _ => exact (set_of_not_record (isRecord_reviseJs g _ other value) key w).symm

theorem set_frames (value : JsVal) : (fieldCell key safe).Frames fun m => m.set other value :=
  reviseJs_frames apart (fun _ _ v => some v) value

theorem append_frames (value : JsVal) : (fieldCell key safe).Frames fun m => appendStringField other value m := by
  cases value with
  | str s =>
    have same : (fun m => appendStringField other (.str s) m) =
        fun m => reviseJs (fun _ old _ => some (.str (stringOr [] old ++ s))) m other .null := by
      funext m
      unfold appendStringField reviseJs
      cases m.get other <;> rfl
    rw [same]
    exact reviseJs_frames apart _ _
  | _ => exact .id

theorem copyDefined_frames (source : JsVal) : (fieldCell key safe).Frames fun m => copyDefined other m source := by
  unfold copyDefined
  split
  · exact .id
  · exact set_frames apart _

end

theorem tools_frames {key : JStr} {safe : key ≠ protoKey} (apart : JStr.lit "tool_calls" ≠ key) (delta : JsVal) :
    (fieldCell key safe).Frames fun m => mergeToolCallsField m delta := by
  unfold mergeToolCallsField
  split
  · exact .id
  · exact reviseJs_frames apart (fun _ old value => some (.arr (mergeToolCalls old.items value))) _

theorem nested_frames {key : JStr} {safe : key ≠ protoKey} {field : String} (apart : JStr.lit field ≠ key)
    (appendFields : List JStr) (delta : JsVal) :
    (fieldCell key safe).Frames fun m => mergeBedrockNested field appendFields m delta := by
  unfold mergeBedrockNested
  split
  · exact reviseJs_frames apart (fun _ old value => some (mergeNestedSemanticObject old value appendFields)) _
  · exact .id

theorem copyEntries_frames {key : JStr} {safe : key ≠ protoKey} (except : List JStr) (excepted : key ∈ except)
    (source : JsVal) : (fieldCell key safe).Frames fun m => copyEntries except m source := by
  refine .foldl fun p _ => ?_
  by_cases apart : p.1 = key
  · have kept : except.contains p.1 = true := by rw [apart]; simpa using excepted
    simp only [kept, Bool.not_true, Bool.false_and, Bool.false_eq_true, if_false]
    exact .id
  · split
    · exact set_frames apart p.2
    · exact .id

/-- A merge that appends a text and leaves the text alone otherwise. -/
structure Appends (key : JStr) (safe : key ≠ protoKey) (merge : JStr → JsVal → JsVal) : Prop where
  split : ∃ before after : JsVal → JsVal, (fieldCell key safe).Frames after ∧
    ∀ s m, merge s m = after ((textCell key safe).update (· ++ s) (before m))

theorem Appends.rejoin {key : JStr} {safe : key ≠ protoKey} {merge : JStr → JsVal → JsVal}
    (appends : Appends key safe merge) (s t : JStr) (m : JsVal) :
    appendStringField key (.str t) (merge s m) = merge (s ++ t) m := by
  obtain ⟨before, after, frames, split⟩ := appends.split
  have alone : (textCell key safe).Frames after := frames.through _ _
  rw [append_eq safe, split, split, Cell.update_frame alone (· ++ s) (· ++ t) (before m) ⟨trivial, rfl⟩]
  simp only [List.append_assoc]

/-! Records that differ in one member. -/

theorem lit_ne {a b : String} (apart : a ≠ b) : JStr.lit a ≠ JStr.lit b := fun same =>
  apart (String.toList_injective ((ofChars_eq_lit a.toList b).mp same))

theorem safe_lit {name : String} (safe : name ≠ "__proto__") : JStr.lit name ≠ protoKey := lit_ne safe

/-- A record that `JSON.parse` made, but for the value of one member. -/
structure Hole (name : String) where
  front : Props
  back : Props
  distinct : ((front ++ (JStr.lit name, JsVal.undefined) :: back).map Prod.fst).Nodup

namespace Hole

variable {name : String} (h : Hole name)

def fill (v : JsVal) : JsVal := .obj .undefined (h.front ++ (JStr.lit name, v) :: h.back)

/-- The record without the member. -/
def rest : JsVal := .obj .undefined (h.front ++ h.back)

/-- No other member. -/
def only (name : String) : Hole name := ⟨[], [], by simp⟩

theorem front_ne {p : JStr × JsVal} (member : p ∈ h.front) : p.1 ≠ JStr.lit name := by
  have distinct := h.distinct
  rw [List.map_append, List.map_cons] at distinct
  intro same
  exact (List.nodup_append.mp distinct).2.2 _ (List.mem_map_of_mem member) _ List.mem_cons_self same

theorem back_ne {p : JStr × JsVal} (member : p ∈ h.back) : p.1 ≠ JStr.lit name := by
  have distinct := h.distinct
  rw [List.map_append, List.map_cons] at distinct
  intro same
  refine (List.nodup_cons.mp (List.nodup_append.mp distinct).2.1).1 ?_
  exact List.mem_map.mpr ⟨p, member, same⟩

theorem own_fill (v : JsVal) : own (h.front ++ (JStr.lit name, v) :: h.back) (JStr.lit name) = some v := by
  have absent : h.front.lookup (JStr.lit name) = none := by
    rw [Assoc.lookup_eq_none]
    intro member
    obtain ⟨p, inside, same⟩ := List.mem_map.mp member
    exact h.front_ne inside same
  rw [own, List.lookup_append, absent, List.lookup_cons, beq_self_eq_true]
  rfl

theorem own_fill_ne {key : JStr} (apart : key ≠ JStr.lit name) (v : JsVal) :
    own (h.front ++ (JStr.lit name, v) :: h.back) key = own (h.front ++ h.back) key := by
  have other : (key == JStr.lit name) = false := beq_eq_false_iff_ne.mpr apart
  rw [own, own, List.lookup_append, List.lookup_append, List.lookup_cons, other]

theorem get_fill (v : JsVal) : (h.fill v).get (JStr.lit name) = v := by rw [fill, JsVal.get, h.own_fill]

theorem get_fill_ne {key : String} (apart : key ≠ name) (v : JsVal) :
    (h.fill v).get (JStr.lit key) = h.rest.get (JStr.lit key) := by
  rw [fill, rest, JsVal.get, JsVal.get, h.own_fill_ne (lit_ne apart)]

theorem hasOwn_fill_ne {key : String} (apart : key ≠ name) (v : JsVal) :
    (h.fill v).hasOwn (JStr.lit key) = h.rest.hasOwn (JStr.lit key) := by
  rw [fill, rest, JsVal.hasOwn, JsVal.hasOwn, h.own_fill_ne (lit_ne apart)]

theorem isRecord_fill (v : JsVal) : (h.fill v).isRecord = true := rfl

/-- The members before and after in the order of `Object.entries`. -/
def ahead : Props :=
  ((h.front ++ h.back).filter fun p => (indexOfKey p.1).isSome).insertionSort
      (fun p q => (indexOfKey p.1).getD 0 ≤ (indexOfKey q.1).getD 0) ++
    h.front.filter fun p => (indexOfKey p.1).isNone

def behind : Props := h.back.filter fun p => (indexOfKey p.1).isNone

theorem behind_ne {p : JStr × JsVal} (member : p ∈ h.behind) : p.1 ≠ JStr.lit name :=
  h.back_ne (List.mem_of_mem_filter member)

theorem entries_fill (word : indexOfKey (JStr.lit name) = none) (v : JsVal) :
    (h.fill v).entries = h.ahead ++ (JStr.lit name, v) :: h.behind := by
  simp only [fill, JsVal.entries, enumerate, ahead, behind, List.filter_append, List.filter_cons, word,
    Option.isSome_none, Option.isNone_none, Bool.false_eq_true, if_false, if_true, List.append_assoc]

theorem entries_rest : h.rest.entries = h.ahead ++ h.behind := by
  simp only [rest, JsVal.entries, enumerate, ahead, behind, List.filter_append, List.append_assoc]

/-- A loop that leaves the member out. -/
theorem foldl_fill {σ : Type} (word : indexOfKey (JStr.lit name) = none) (step : σ → JStr × JsVal → σ)
    (skips : ∀ s v, step s (JStr.lit name, v) = s) (v : JsVal) (s : σ) :
    (h.fill v).entries.foldl step s = h.rest.entries.foldl step s := by
  rw [h.entries_fill word, h.entries_rest, List.foldl_append, List.foldl_append, List.foldl_cons, skips]

theorem copyEntries_fill (word : indexOfKey (JStr.lit name) = none) (except : List JStr)
    (excepted : JStr.lit name ∈ except) (target v : JsVal) :
    copyEntries except target (h.fill v) = copyEntries except target h.rest := by
  refine h.foldl_fill word _ (fun out v => ?_) v target
  have kept : except.contains (JStr.lit name) = true := by simpa using excepted
  simp only [kept, Bool.not_true, Bool.false_and, Bool.false_eq_true, if_false]

theorem copyDefined_fill {key : String} (apart : key ≠ name) (target v : JsVal) :
    copyDefined (JStr.lit key) target (h.fill v) = copyDefined (JStr.lit key) target h.rest := by
  rw [copyDefined, h.get_fill_ne apart, copyDefined]

theorem pick_fill (keys : List String) (apart : name ∉ keys) (v : JsVal) : pick (h.fill v) keys = pick h.rest keys := by
  change pickRecord (h.fill v) keys = pickRecord h.rest keys
  rw [pickRecord_eq, pickRecord_eq]
  refine List.foldl_ext _ _ _ fun out key member => ?_
  have other : key ≠ name := fun same => apart (same ▸ member)
  rw [h.hasOwn_fill_ne other, h.get_fill_ne other]

theorem entries_perm (v : JsVal) : (h.fill v).entries.Perm (h.front ++ (JStr.lit name, v) :: h.back) := enumerate_perm _

theorem entries_nodup (v : JsVal) : ((h.fill v).entries.map Prod.fst).Nodup := by
  refine ((h.entries_perm v).map Prod.fst).nodup_iff.mpr ?_
  have distinct := h.distinct
  rw [List.map_append, List.map_cons] at distinct ⊢
  exact distinct

/-- What is read under another name is a member. -/
theorem mem_entries {key : String} (safe : key ≠ "__proto__") {value : JsVal} (defined : value ≠ .undefined)
    (found : h.rest.get (JStr.lit key) = value) (v : JsVal) : (JStr.lit key, value) ∈ (h.fill v).entries := by
  rw [rest, get_plain _ (safe_lit safe)] at found
  cases there : own (h.front ++ h.back) (JStr.lit key) with
  | none =>
    rw [there] at found
    exact absurd found.symm defined
  | some w =>
    rw [there] at found
    subst found
    have member := Assoc.mem_of_lookup there
    refine (h.entries_perm v).mem_iff.mpr ?_
    rcases List.mem_append.mp member with early | late
    · exact List.mem_append_left _ early
    · exact List.mem_append_right _ (List.mem_cons_of_mem _ late)

end Hole

end TeeProof.Verifier
