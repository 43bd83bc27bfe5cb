import TeeProof.Cbor
import TeeProof.Items

/-! The format the bounded decoder accepts, level by level: a value inside at most `left`
levels of nesting, and the limits every returned value keeps. -/
namespace TeeProof.Verifier

/-- The argument that the low five bits `ai` announce: small ones are these bits
themselves, else `2 ^ k` octets follow. -/
inductive Argument (b : Bytes) (p : Nat) : Nat → Nat → Nat → Prop
  | short {ai : Nat} : ai < 24 → Argument b p ai ai p
  | wide {k : Nat} : k < 4 → p + 2 ^ k ≤ b.length → beNat (slice b p (2 ^ k)) ≤ maxSafeInteger →
      Argument b p (24 + k) (beNat (slice b p (2 ^ k))) (p + 2 ^ k)

/-- An initial octet of the major type at `p` and its argument `n`, up to `next`. -/
inductive Head (b : Bytes) (p major n next : Nat) : Prop
  | mk : p < b.length → byteAt b p / 32 = major → Argument b (p + 1) (byteAt b p % 32) n next →
      Head b p major n next

/-- The initial octet of an indefinite item. -/
def Opens (b : Bytes) (p major : Nat) : Prop := p < b.length ∧ byteAt b p = major * 32 + 31

/-- The break octet. -/
def Break (b : Bytes) (p : Nat) : Prop := p < b.length ∧ byteAt b p = 0xFF

theorem byteAt_lt (b : Bytes) (p : Nat) : byteAt b p < 256 := (b.getD p 0).toNat_lt

/-- Four octets stay far below the largest safe integer. -/
theorem beNat_slice_safe (b : Bytes) (p : Nat) {n : Nat} (small : n ≤ 4) : beNat (slice b p n) ≤ maxSafeInteger := by
  have bound := beNat_lt (slice b p n)
  have short : (slice b p n).length ≤ 4 := Nat.le_trans (List.length_take_le _ _) small
  have power := Nat.pow_le_pow_right (n := 256) (by omega) short
  rw [maxSafeInteger]
  omega

theorem Argument.le (argument : Argument b p ai n next) (start : p ≤ b.length) : p ≤ next ∧ next ≤ b.length := by
  cases argument with
  | short _ => exact ⟨Nat.le_refl p, start⟩
  | wide _ fits _ => exact ⟨Nat.le_add_right p _, fits⟩

theorem Head.lt (head : Head b p major n next) : p < next ∧ next ≤ b.length := by
  cases head with
  | mk inside _ argument =>
    obtain ⟨low, high⟩ := argument.le inside
    exact ⟨low, high⟩

/-- A key and its value, the key as a property name. -/
inductive Entry (item : Grammar Cbor) : Grammar (JStr × Cbor)
  | mk {p q r : Nat} {k v : Cbor} {key : JStr} : item p k q → item q v r → propertyKey k = .ok key →
      Entry item p (key, v) r

/-- What stands between the opening octet at `p` and the break before `next`. -/
inductive Broken (b : Bytes) (item : Grammar α) (p major : Nat) (vs : List α) (next : Nat) : Prop
  | mk {q : Nat} : Opens b p major → Items item (p + 1) vs q → Break b q → next = q + 1 →
      Broken b item p major vs next

/-- The entries set one after the other; the last one of a name stays. -/
def mapOf (entries : List (JStr × Cbor)) : List (JStr × Cbor) :=
  entries.foldl (fun m e => setKey e.1 e.2 m) []

/-- False and true, and everything else as null. -/
def simpleValue (ai : Nat) : Cbor := if ai = 20 then .bool false else if ai = 21 then .bool true else .null

/-- One level of the format over the items of the next. -/
inductive Level (b : Bytes) (item : Grammar Cbor) : Grammar Cbor
  | unsigned {p n q : Nat} : Head b p 0 n q → Level b item p (.int n) q
  | negative {p n q : Nat} : Head b p 1 n q → Level b item p (.int (-1 - n)) q
  | bytes {p n q : Nat} : Head b p 2 n q → n ≤ maxCborStringBytes → q + n ≤ b.length →
      Level b item p (.bytes (slice b q n)) (q + n)
  | text {p n q : Nat} : Head b p 3 n q → n ≤ maxCborStringBytes → q + n ≤ b.length →
      Level b item p (.text (bufferText (slice b q n))) (q + n)
  | array {p q r : Nat} {vs : List Cbor} : Head b p 4 vs.length q → vs.length ≤ maxCborContainerItems →
      Items item q vs r → Level b item p (.array vs) r
  | map {p q r : Nat} {es : List (JStr × Cbor)} : Head b p 5 es.length q → es.length ≤ maxCborContainerItems →
      Items (Entry item) q es r → Level b item p (.map (mapOf es)) r
  | tag {p n q r : Nat} {v : Cbor} : Head b p 6 n q → item q v r → Level b item p v r
  | simple {p n q : Nat} : Head b p 7 n q → Level b item p (simpleValue (byteAt b p % 32)) q
  | bytesChunks {p q : Nat} {cs : List Bytes} : Broken b (fun p c q => item p (.bytes c) q) p 2 cs q →
      cs.length ≤ maxCborContainerItems → cs.flatten.length ≤ maxCborStringBytes →
      Level b item p (.bytes cs.flatten) q
  | textChunks {p q : Nat} {cs : List JStr} : Broken b (fun p c q => item p (.text c) q) p 3 cs q →
      cs.length ≤ maxCborContainerItems → (cs.map fun c => c.utf8.length).sum ≤ maxCborStringBytes →
      Level b item p (.text cs.flatten) q
  | arrayItems {p q : Nat} {vs : List Cbor} : Broken b item p 4 vs q → vs.length ≤ maxCborContainerItems →
      Level b item p (.array vs) q
  | mapEntries {p q : Nat} {es : List (JStr × Cbor)} : Broken b (Entry item) p 5 es q →
      es.length ≤ maxCborContainerItems → Level b item p (.map (mapOf es)) q

/-- A value with at most `left` items around one another, itself included. -/
def CborItem (b : Bytes) : (left : Nat) → Grammar Cbor
  | 0 => fun _ _ _ => False
  | left + 1 => Level b (CborItem b left)

/-- The limits on the parts of a value. -/
inductive Bounded : Cbor → Prop
  | int (n : Int) : Bounded (.int n)
  | bytes {s : Bytes} : s.length ≤ maxCborStringBytes → Bounded (.bytes s)
  | text (s : JStr) : Bounded (.text s)
  | array {vs : List Cbor} : vs.length ≤ maxCborContainerItems → (∀ v ∈ vs, Bounded v) → Bounded (.array vs)
  | map {es : List (JStr × Cbor)} : es.length ≤ maxCborContainerItems → (∀ e ∈ es, Bounded e.2) → Bounded (.map es)
  | bool (x : Bool) : Bounded (.bool x)
  | null : Bounded .null

theorem Entry.inside {item : Grammar Cbor} (inside : item.Inside size) : (Entry item).Inside size := by
  intro p e r entry
  cases entry with
  | mk key value _ =>
    obtain ⟨first, _⟩ := inside _ _ _ key
    obtain ⟨second, within⟩ := inside _ _ _ value
    exact ⟨Nat.lt_trans first second, within⟩

theorem Entry.within {item : Grammar Cbor} {good : Cbor → Prop} (fine : item.Within good) :
    (Entry item).Within fun e => good e.2 := by
  intro p e r entry
  cases entry with
  | mk _ value _ => exact fine _ _ _ value

theorem Broken.lt {item : Grammar α} (inside : item.Inside b.length) {vs : List α}
    (broken : Broken b item p major vs next) : p < next ∧ next ≤ b.length := by
  cases broken with
  | mk opens all ends eq =>
    have low := all.length_le inside
    have high := ends.1
    omega

/-- An item takes at least one octet and ends inside the input. -/
theorem Level.inside {item : Grammar Cbor} (inside : item.Inside b.length) : (Level b item).Inside b.length := by
  intro p v q level
  cases level with
  | unsigned head => exact head.lt
  | negative head => exact head.lt
  | bytes head _ fits =>
    have := head.lt.1
    omega
  | text head _ fits =>
    have := head.lt.1
    omega
  | array head _ all =>
    have low := all.length_le inside
    have high := all.le_size inside head.lt.2
    have := head.lt.1
    omega
  | map head _ all =>
    have low := all.length_le (Entry.inside inside)
    have high := all.le_size (Entry.inside inside) head.lt.2
    have := head.lt.1
    omega
  | tag head value =>
    have := head.lt.1
    have := inside _ _ _ value
    omega
  | simple head => exact head.lt
  | bytesChunks chunks => exact chunks.lt fun p c q => inside p (.bytes c) q
  | textChunks chunks => exact chunks.lt fun p c q => inside p (.text c) q
  | arrayItems items => exact items.lt inside
  | mapEntries entries => exact entries.lt (Entry.inside inside)

theorem cborItem_inside (b : Bytes) (left : Nat) : (CborItem b left).Inside b.length := by
  induction left with
  | zero => exact fun _ _ _ none => none.elim
  | succ left ih => exact Level.inside ih

theorem setKey_length (key : JStr) (value : α) (entries : List (JStr × α)) :
    (setKey key value entries).length ≤ entries.length + 1 := by
  induction entries with
  | nil => exact Nat.le_refl _
  | cons e rest ih =>
    rw [setKey]
    split
    · exact Nat.le_succ _
    · exact Nat.succ_le_succ ih

theorem mem_setKey {key : JStr} {value : α} {entries : List (JStr × α)} {e : JStr × α}
    (member : e ∈ setKey key value entries) : e.2 = value ∨ e ∈ entries := by
  induction entries with
  | nil =>
    rw [setKey, List.mem_singleton] at member
    exact .inl (by rw [member])
  | cons first rest ih =>
    rw [setKey] at member
    split at member
    · rcases List.mem_cons.mp member with rfl | old
      · exact .inl rfl
      · exact .inr (List.mem_cons_of_mem first old)
    · rcases List.mem_cons.mp member with rfl | later
      · exact .inr List.mem_cons_self
      · exact (ih later).imp_right (List.mem_cons_of_mem first)

theorem mapOf_concat (entries : List (JStr × Cbor)) (e : JStr × Cbor) :
    mapOf (entries ++ [e]) = setKey e.1 e.2 (mapOf entries) := by
  rw [mapOf, List.foldl_concat]
  rfl

theorem mapOf_bounded (entries : List (JStr × Cbor)) (fine : ∀ e ∈ entries, Bounded e.2) :
    (mapOf entries).length ≤ entries.length ∧ ∀ e ∈ mapOf entries, Bounded e.2 := by
  induction entries using List.reverseRecOn with
  | nil => exact ⟨Nat.le_refl _, nofun⟩
  | append_singleton entries last ih =>
    obtain ⟨short, kept⟩ := ih fun e member => fine e (List.mem_append_left _ member)
    rw [mapOf_concat]
    refine ⟨?_, fun e member => ?_⟩
    · have := setKey_length last.1 last.2 (mapOf entries)
      rw [List.length_append, List.length_singleton]
      omega
    · rcases mem_setKey member with eq | old
      · rw [eq]
        exact fine last (List.mem_append_right _ List.mem_cons_self)
      · exact kept e old

theorem Bounded.mapOf {entries : List (JStr × Cbor)} (size : entries.length ≤ maxCborContainerItems)
    (fine : ∀ e ∈ entries, Bounded e.2) : Bounded (.map (mapOf entries)) := by
  obtain ⟨short, kept⟩ := mapOf_bounded entries fine
  exact .map (Nat.le_trans short size) kept

theorem simpleValue_bounded (ai : Nat) : Bounded (simpleValue ai) := by
  rw [simpleValue]
  split
  · exact .bool false
  · split
    · exact .bool true
    · exact .null

theorem Level.bounded {item : Grammar Cbor} (fine : item.Within Bounded) : (Level b item).Within Bounded := by
  intro p v q level
  cases level with
  | unsigned _ => exact .int _
  | negative _ => exact .int _
  | bytes _ size _ => exact .bytes (Nat.le_trans (List.length_take_le _ _) size)
  | text _ _ _ => exact .text _
  | array _ size all => exact .array size (all.within fine)
  | map _ size all => exact .mapOf size (all.within (Entry.within fine))
  | tag _ value => exact fine _ _ _ value
  | simple _ => exact simpleValue_bounded _
  | bytesChunks _ _ size => exact .bytes size
  | textChunks _ _ _ => exact .text _
  | arrayItems broken size =>
    obtain ⟨_, all, _, _⟩ := broken
    exact .array size (all.within fine)
  | mapEntries broken size =>
    obtain ⟨_, all, _, _⟩ := broken
    exact .mapOf size (all.within (Entry.within fine))

theorem cborItem_bounded (b : Bytes) (left : Nat) : (CborItem b left).Within Bounded := by
  induction left with
  | zero => exact fun _ _ _ none => none.elim
  | succ left ih => exact Level.bounded ih

end TeeProof.Verifier
