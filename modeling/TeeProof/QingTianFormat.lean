import TeeProof.CborGrammar
import TeeProof.QingTian

/-! What the QingTian decoder reads: whole items, and items whose one-octet argument lies
behind the end of the buffer. The source reads that octet as `undefined` and goes on. -/
namespace TeeProof.Verifier.QingTian

/-- A value without `undefined` and `NaN` in it. -/
inductive WellFormed : CborValue → Prop
  | num (n : Int) : WellFormed (.num (some n))
  | text (s : JStr) : WellFormed (.text s)
  | bytes (s : Bytes) : WellFormed (.bytes s)
  | array {items : List CborValue} : (∀ v ∈ items, WellFormed v) → WellFormed (.array items)
  | map {entries : List (CborValue × CborValue)} : (∀ e ∈ entries, WellFormed e.1) →
      (∀ e ∈ entries, WellFormed e.2) → WellFormed (.map entries)
  | tagged {value : CborValue} (tag : Nat) : WellFormed value → WellFormed (.tagged (some tag) value)
  | bool (x : Bool) : WellFormed (.bool x)
  | null : WellFormed .null

/-- How many items a head announces behind itself. -/
def due (major n : Nat) : Nat := if major = 4 then n else if major = 5 then 2 * n else if major = 6 then 1 else 0

/-- A key and its value stand behind one another. -/
def entriesOf : List CborValue → List (CborValue × CborValue)
  | k :: v :: rest => (k, v) :: entriesOf rest
  | _ => []

/-- Entries set one after the other. -/
def setAll (entries new : List (CborValue × CborValue)) : List (CborValue × CborValue) :=
  new.foldl (fun m e => mapSet e.1 e.2 m) entries

/-- The value of a head with items behind it. -/
def build (major : Nat) (len : Option Nat) (vs : List CborValue) : CborValue :=
  if major = 4 then .array vs
  else if major = 5 then .map (setAll [] (entriesOf vs))
  else .tagged len (vs.headD .undefined)

/-- The values of major type 7 that are known. -/
def simple (ai : Nat) : Option CborValue :=
  if ai = 20 then some (.bool false) else if ai = 21 then some (.bool true) else if ai = 22 then some .null else none

/-- One level of whole items over those of the next. -/
inductive Level (b : Bytes) (item : Grammar CborValue) : Grammar CborValue
  | unsigned {p n q : Nat} : Head b p 0 n q → Level b item p (.num (some n)) q
  | negative {p n q : Nat} : Head b p 1 n q → Level b item p (.num (some (-1 - n))) q
  | bytes {p n q : Nat} : Head b p 2 n q → q + n ≤ b.length → Level b item p (.bytes (slice b q n)) (q + n)
  | text {p n q : Nat} : Head b p 3 n q → q + n ≤ b.length →
      Level b item p (.text (bufferText (slice b q n))) (q + n)
  | items {p major n q r : Nat} {vs : List CborValue} : 4 ≤ major → major ≤ 6 → Head b p major n q →
      Items item q vs r → vs.length = due major n → Level b item p (build major (some n) vs) r
  | simple {p : Nat} {v : CborValue} : p < b.length → byteAt b p / 32 = 7 → simple (byteAt b p % 32) = some v →
      Level b item p v (p + 1)

def Whole (b : Bytes) : (depth : Nat) → Grammar CborValue
  | 0 => fun _ _ _ => False
  | depth + 1 => Level b (Whole b depth)

/-- What the missing octet would be: the length of a string, or the argument of another item. -/
inductive Missing where
  | length
  | argument
  deriving DecidableEq

/-- The offset the source goes on at. -/
def Missing.offset (b : Bytes) : Missing → Offset
  | .length => none
  | .argument => some (b.length + 1)

/-- The last octet of the buffer announces one more. Around it stand items that are still
incomplete. Behind a missing length everything else that is due is read as zeros; behind another missing
argument nothing may be due any more. -/
inductive CutLevel (b : Bytes) (item : Grammar CborValue) (cut : Missing → Nat → Prop) : Missing → Nat → Prop
  | length {p : Nat} : p + 1 = b.length → byteAt b p / 32 ∈ [2, 3] → byteAt b p % 32 = 24 →
      CutLevel b item cut .length p
  | argument {p : Nat} : p + 1 = b.length → byteAt b p / 32 ∈ [0, 1, 4, 5] → byteAt b p % 32 = 24 →
      CutLevel b item cut .argument p
  | items {p major n q r : Nat} {missing : Missing} {vs : List CborValue} : Head b p major n q →
      Items item q vs r → cut missing r → vs.length < due major n →
      (missing = .length ∨ vs.length + 1 = due major n) → CutLevel b item cut missing p

def CutAt (b : Bytes) : (depth : Nat) → Missing → Nat → Prop
  | 0 => fun _ _ => False
  | depth + 1 => CutLevel b (Whole b depth) (CutAt b depth)

/-- The item at `p` is cut off behind an initial octet, at some depth. -/
def CutOff (b : Bytes) (p : Nat) : Prop := ∃ depth missing, CutAt b depth missing p

theorem Level.inside {item : Grammar CborValue} (inside : item.Inside b.length) : (Level b item).Inside b.length := by
  intro p v q level
  cases level with
  | unsigned head => exact head.lt
  | negative head => exact head.lt
  | bytes head fits =>
    have := head.lt.1
    omega
  | text head fits =>
    have := head.lt.1
    omega
  | items _ _ head all _ =>
    have low := all.length_le inside
    have high := all.le_size inside head.lt.2
    have := head.lt.1
    omega
  | simple start _ _ => exact ⟨Nat.lt_succ_self p, start⟩

theorem whole_inside (b : Bytes) (depth : Nat) : (Whole b depth).Inside b.length := by
  induction depth with
  | zero => exact fun _ _ _ none => none.elim
  | succ depth ih => exact Level.inside ih

theorem mem_entriesOf {vs : List CborValue} {e : CborValue × CborValue} (member : e ∈ entriesOf vs) :
    e.1 ∈ vs ∧ e.2 ∈ vs := by
  fun_induction entriesOf vs with
  | case1 k v rest ih =>
    rcases List.mem_cons.mp member with rfl | later
    · exact ⟨List.mem_cons_self, List.mem_cons_of_mem _ List.mem_cons_self⟩
    · obtain ⟨key, value⟩ := ih later
      exact ⟨List.mem_cons_of_mem _ (List.mem_cons_of_mem _ key),
        List.mem_cons_of_mem _ (List.mem_cons_of_mem _ value)⟩
  | case2 => cases member

theorem mem_mapSet {key value : CborValue} {entries : List (CborValue × CborValue)} {e : CborValue × CborValue}
    (member : e ∈ mapSet key value entries) : (e.1 = key ∨ ∃ old ∈ entries, e.1 = old.1) ∧
      (e.2 = value ∨ ∃ old ∈ entries, e.2 = old.2) := by
  induction entries with
  | nil =>
    obtain rfl := List.mem_singleton.mp member
    exact ⟨.inl rfl, .inl rfl⟩
  | cons first rest ih =>
    rw [mapSet] at member
    split at member
    · rcases List.mem_cons.mp member with rfl | later
      · exact ⟨.inr ⟨first, List.mem_cons_self, rfl⟩, .inl rfl⟩
      · exact ⟨.inr ⟨e, List.mem_cons_of_mem _ later, rfl⟩, .inr ⟨e, List.mem_cons_of_mem _ later, rfl⟩⟩
    · rcases List.mem_cons.mp member with rfl | later
      · exact ⟨.inr ⟨_, List.mem_cons_self, rfl⟩, .inr ⟨_, List.mem_cons_self, rfl⟩⟩
      · obtain ⟨keys, values⟩ := ih later
        exact ⟨keys.imp_right fun ⟨old, mem, eq⟩ => ⟨old, List.mem_cons_of_mem _ mem, eq⟩,
          values.imp_right fun ⟨old, mem, eq⟩ => ⟨old, List.mem_cons_of_mem _ mem, eq⟩⟩

/-- Both parts of every entry. -/
def EntriesFine (entries : List (CborValue × CborValue)) : Prop := ∀ e ∈ entries, WellFormed e.1 ∧ WellFormed e.2

theorem EntriesFine.mapSet (fine : EntriesFine entries) (key : WellFormed k) (value : WellFormed v) :
    EntriesFine (mapSet k v entries) := by
  intro e member
  obtain ⟨keys, values⟩ := mem_mapSet member
  constructor
  · rcases keys with eq | ⟨old, mem, eq⟩
    · rwa [eq]
    · rw [eq]
      exact (fine old mem).1
  · rcases values with eq | ⟨old, mem, eq⟩
    · rwa [eq]
    · rw [eq]
      exact (fine old mem).2

theorem EntriesFine.setAll (fine : EntriesFine entries) (new : EntriesFine added) :
    EntriesFine (setAll entries added) := by
  induction added generalizing entries with
  | nil => exact fine
  | cons e rest ih =>
    obtain ⟨key, value⟩ := new e List.mem_cons_self
    exact ih (fine.mapSet key value) fun e member => new e (List.mem_cons_of_mem _ member)

theorem build_wellFormed {major n : Nat} (high : major ≤ 6) (low : 4 ≤ major) {vs : List CborValue}
    (count : vs.length = due major n) (all : ∀ v ∈ vs, WellFormed v) : WellFormed (build major (some n) vs) := by
  rw [build]
  split
  · exact .array all
  split
  · have fine : EntriesFine (setAll [] (entriesOf vs)) :=
      EntriesFine.setAll nofun fun e member =>
        ⟨all _ (mem_entriesOf member).1, all _ (mem_entriesOf member).2⟩
    exact .map (fun e member => (fine e member).1) fun e member => (fine e member).2
  next array map =>
    obtain rfl : major = 6 := by omega
    obtain ⟨v, rfl⟩ := List.length_eq_one_iff.mp count
    exact .tagged n (all v List.mem_cons_self)

theorem simple_wellFormed (known : simple ai = some v) : WellFormed v := by
  rw [simple] at known
  split at known
  · cases known
    exact .bool false
  split at known
  · cases known
    exact .bool true
  split at known
  · cases known
    exact .null
  · cases known

theorem Level.wellFormed {item : Grammar CborValue} (fine : item.Within WellFormed) :
    (Level b item).Within WellFormed := by
  intro p v q level
  cases level with
  | unsigned _ => exact .num _
  | negative _ => exact .num _
  | bytes _ _ => exact .bytes _
  | text _ _ => exact .text _
  | items low high _ all count => exact build_wellFormed high low count (all.within fine)
  | simple _ _ known => exact simple_wellFormed known

theorem whole_wellFormed (b : Bytes) (depth : Nat) : (Whole b depth).Within WellFormed := by
  induction depth with
  | zero => exact fun _ _ _ none => none.elim
  | succ depth ih => exact Level.wellFormed ih

/-! More depth allows more -/

theorem Level.mono {item other : Grammar CborValue} (weaker : ∀ p v q, item p v q → other p v q) :
    Level b item p v q → Level b other p v q
  | .unsigned head => .unsigned head
  | .negative head => .negative head
  | .bytes head fits => .bytes head fits
  | .text head fits => .text head fits
  | .items low high head all count => .items low high head (all.mono weaker) count
  | .simple start seven known => .simple start seven known

theorem whole_succ (b : Bytes) (depth : Nat) : ∀ p v q, Whole b depth p v q → Whole b (depth + 1) p v q := by
  induction depth with
  | zero => exact fun _ _ _ none => none.elim
  | succ depth ih => exact fun _ _ _ => Level.mono ih

theorem cutAt_succ (b : Bytes) (depth : Nat) : ∀ m p, CutAt b depth m p → CutAt b (depth + 1) m p := by
  induction depth with
  | zero => exact fun _ _ none => none.elim
  | succ depth ih =>
    rintro m p (⟨last, major, octet⟩ | ⟨last, major, octet⟩ | ⟨head, all, inner, more, rest⟩)
    · exact .length last major octet
    · exact .argument last major octet
    · exact .items head (all.mono (whole_succ b depth)) (ih _ _ inner) more rest

theorem cutAt_deeper (deeper : depth ≤ depth') (cut : CutAt b depth m p) : CutAt b depth' m p := by
  induction deeper with
  | refl => exact cut
  | step _ ih => exact cutAt_succ b _ m p ih

end TeeProof.Verifier.QingTian
