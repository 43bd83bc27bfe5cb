import Mathlib

/-! UTF-8 over byte lists. Encoding is the standard one; decoding is the replacing
decoder that both hosts use, written as a machine that reads one octet at a time.
An ill-formed sequence costs one U+FFFD for each maximal well-formed start of it. -/
namespace TeeProof

abbrev Bytes := List UInt8

/-- A SHA-256 value. -/
abbrev Digest := { b : Bytes // b.length = 32 }

theorem length_zeros : (List.replicate 32 (0 : UInt8)).length = 32 := List.length_replicate

namespace Utf8

def encode (s : List Char) : Bytes := s.flatMap String.utf8EncodeChar

@[simp] theorem encode_nil : encode [] = [] := rfl
@[simp] theorem encode_cons (c : Char) (s : List Char) :
    encode (c :: s) = String.utf8EncodeChar c ++ encode s := rfl
@[simp] theorem encode_append (s t : List Char) : encode (s ++ t) = encode s ++ encode t := by
  simp [encode]

theorem encode_injective (h : encode s = encode t) : s = t := by
  have bytes : s.utf8Encode = t.utf8Encode := congrArg List.toByteArray h
  have decoded := List.utf8Decode?_utf8Encode (l := s)
  rw [bytes, List.utf8Decode?_utf8Encode (l := t)] at decoded
  simpa using (congrArg (Option.map Array.toList) decoded).symm

/-- Octets below 0x80 occur in an encoding only as the encoding of themselves. -/
theorem mem_encodeChar_ascii (c : Char) (b : UInt8) (ascii : b.toNat < 0x80) :
    b ∈ String.utf8EncodeChar c ↔ c.val.toNat = b.toNat := by
  have bound : c.val.toNat < 0x110000 := by
    have := c.valid; simp only [UInt32.isValidChar, Nat.isValidChar] at this; omega
  have eq (n : Nat) : b = UInt8.ofNat n ↔ b.toNat = n % 256 := by
    rw [← UInt8.toNat_inj, UInt8.toNat_ofNat']
  fun_cases String.utf8EncodeChar <;> simp only [List.mem_cons, List.not_mem_nil, or_false, eq] <;> omega

theorem mem_encode_ascii (s : List Char) (c : Char) (ascii : c.val.toNat < 0x80) :
    UInt8.ofNat c.val.toNat ∈ encode s ↔ c ∈ s := by
  have small : (UInt8.ofNat c.val.toNat).toNat = c.val.toNat := by
    rw [UInt8.toNat_ofNat']; omega
  simp only [encode, List.mem_flatMap]
  constructor
  · rintro ⟨d, member, found⟩
    rw [mem_encodeChar_ascii d _ (by omega), small] at found
    rwa [Char.ext (UInt32.toNat_inj.mp found)] at member
  · intro member
    exact ⟨c, member, (mem_encodeChar_ascii c _ (by omega)).mpr small.symm⟩

def replacement : Char := '\uFFFD'

/-- A character begun and not finished: the octets it is owed, the range of the
next one and the code point so far. The last field keeps it above ASCII. -/
structure Partial where
  owed : Nat
  low : UInt8
  high : UInt8
  point : Nat
  tail : 0x80 ≤ low.toNat ∧ high.toNat ≤ 0xBF
  large : 2 ≤ point ∨ (2 ≤ owed ∧ (1 ≤ point ∨ 0x90 ≤ low.toNat))

/-- First octet of a character. -/
def start (b : UInt8) : List Char × Option Partial :=
  if b.toNat < 0x80 then ([Char.ofNat b.toNat], none)
  else if two : 0xC2 ≤ b.toNat ∧ b.toNat ≤ 0xDF then
    ([], some ⟨1, 0x80, 0xBF, b.toNat % 0x20, by decide, by omega⟩)
  else if b.toNat = 0xE0 then ([], some ⟨2, 0xA0, 0xBF, 0, by decide, by decide⟩)
  else if b.toNat = 0xED then ([], some ⟨2, 0x80, 0x9F, 0xD, by decide, by decide⟩)
  else if three : 0xE1 ≤ b.toNat ∧ b.toNat ≤ 0xEF then
    ([], some ⟨2, 0x80, 0xBF, b.toNat % 0x10, by decide, by omega⟩)
  else if b.toNat = 0xF0 then ([], some ⟨3, 0x90, 0xBF, 0, by decide, by decide⟩)
  else if b.toNat = 0xF4 then ([], some ⟨3, 0x80, 0x8F, 4, by decide, by decide⟩)
  else if four : 0xF1 ≤ b.toNat ∧ b.toNat ≤ 0xF3 then
    ([], some ⟨3, 0x80, 0xBF, b.toNat % 8, by decide, by omega⟩)
  else ([replacement], none)

def step : Option Partial → UInt8 → List Char × Option Partial
  | none, b => start b
  | some p, b =>
    if within : p.low.toNat ≤ b.toNat ∧ b.toNat ≤ p.high.toNat then
      if more : p.owed ≤ 1 then ([Char.ofNat (p.point * 64 + b.toNat % 64)], none)
      else ([], some ⟨p.owed - 1, 0x80, 0xBF, p.point * 64 + b.toNat % 64, by decide, by
        have := p.tail; have := p.large; omega⟩)
    -- the octet is read again as the first of a new character
    else (replacement :: (start b).1, (start b).2)

/-- A character cut by the end of the input is replaced too. -/
def flush : Option Partial → List Char
  | none => []
  | some _ => [replacement]

def decodeFrom (state : Option Partial) : Bytes → List Char
  | [] => flush state
  | b :: rest => (step state b).1 ++ decodeFrom (step state b).2 rest

/-- `String::from_utf8_lossy` and `Buffer.toString('utf8')`. -/
def decode (bytes : Bytes) : List Char := decodeFrom none bytes

@[simp] theorem decode_nil : decode [] = [] := rfl

theorem start_ascii (b : UInt8) (ascii : b.toNat < 0x80) :
    start b = ([Char.ofNat b.toNat], none) := by
  simp [start, ascii]

theorem step_ascii (state : Option Partial) (b : UInt8) (ascii : b.toNat < 0x80) :
    step state b = (flush state ++ [Char.ofNat b.toNat], none) := by
  cases state with
  | none => simp [step, flush, start_ascii b ascii]
  | some p =>
    have outside : ¬(p.low.toNat ≤ b.toNat ∧ b.toNat ≤ p.high.toNat) := by have := p.tail; omega
    simp [step, flush, outside, start_ascii b ascii]

/-- An ASCII octet ends whatever was begun, so text on its two sides is decoded apart. -/
theorem decodeFrom_ascii (state : Option Partial) (before : Bytes) (b : UInt8) (after : Bytes)
    (ascii : b.toNat < 0x80) :
    decodeFrom state (before ++ b :: after) =
      decodeFrom state before ++ Char.ofNat b.toNat :: decode after := by
  induction before generalizing state with
  | nil => simp [decodeFrom, step_ascii state b ascii, decode]
  | cons x rest ih => simp [decodeFrom, ih]

theorem decode_ascii (before : Bytes) (b : UInt8) (after : Bytes) (ascii : b.toNat < 0x80) :
    decode (before ++ b :: after) = decode before ++ Char.ofNat b.toNat :: decode after :=
  decodeFrom_ascii none before b after ascii

theorem decode_cons_ascii (b : UInt8) (rest : Bytes) (ascii : b.toNat < 0x80) :
    decode (b :: rest) = Char.ofNat b.toNat :: decode rest :=
  decode_ascii [] b rest ascii

/-- What is begun is always answered, by its character or by a replacement. -/
theorem decodeFrom_some_ne_nil (p : Partial) (bytes : Bytes) : decodeFrom (some p) bytes ≠ [] := by
  induction bytes generalizing p with
  | nil => simp [decodeFrom, flush]
  | cons b rest ih =>
    simp only [decodeFrom, step]
    split
    · split
      · simp
      · simpa using ih _
    · simp

theorem decode_eq_nil_iff (bytes : Bytes) : decode bytes = [] ↔ bytes = [] := by
  constructor
  · intro empty
    cases bytes with
    | nil => rfl
    | cons b rest =>
      simp only [decode, decodeFrom, List.append_eq_nil_iff] at empty
      cases state : (step none b).2 with
      | some p => exact absurd (state ▸ empty.2) (decodeFrom_some_ne_nil p rest)
      | none =>
        revert state
        have := empty.1
        revert this
        simp only [step]
        fun_cases start <;> simp
  · rintro rfl; rfl

theorem ofNat_eq_ascii (n m : Nat) (ascii : m < 0x80) (positive : 0 < m)
    (eq : Char.ofNat n = Char.ofNat m) : n = m := by
  have values := congrArg Char.toNat eq
  simp only [Char.toNat_ofNat] at values
  have valid : m.isValidChar := by simp only [Nat.isValidChar]; omega
  rw [if_pos valid] at values
  split at values <;> omega

theorem mem_start_ascii (x b : UInt8) (ascii : b.toNat < 0x80) (positive : 0 < b.toNat)
    (member : Char.ofNat b.toNat ∈ (start x).1) : x = b := by
  revert member
  fun_cases start <;> simp only [List.mem_singleton, List.not_mem_nil, false_imp_iff]
  case case1 => exact fun eq => UInt8.toNat_inj.mp (ofNat_eq_ascii _ _ ascii positive eq.symm)
  case case9 =>
    intro eq
    have := ofNat_eq_ascii 0xFFFD _ ascii positive eq.symm
    omega

theorem mem_step_ascii (state : Option Partial) (x b : UInt8) (ascii : b.toNat < 0x80)
    (positive : 0 < b.toNat) (member : Char.ofNat b.toNat ∈ (step state x).1) : x = b := by
  revert member
  fun_cases step
  case case1 => exact mem_start_ascii x b ascii positive
  case case2 p within more =>
    -- a finished multi-octet character lies above ASCII
    intro member
    have eq := ofNat_eq_ascii _ _ ascii positive (List.mem_singleton.mp member).symm
    have := p.tail; have := p.large
    omega
  case case3 => simp
  case case4 =>
    intro member
    rcases List.mem_cons.mp member with eq | later
    · have := ofNat_eq_ascii 0xFFFD _ ascii positive eq.symm
      omega
    · exact mem_start_ascii x b ascii positive later

/-- Decoding invents no ASCII character (NUL apart, which is not needed). -/
theorem mem_decodeFrom_ascii (state : Option Partial) (bytes : Bytes) (b : UInt8)
    (ascii : b.toNat < 0x80) (positive : 0 < b.toNat)
    (member : Char.ofNat b.toNat ∈ decodeFrom state bytes) : b ∈ bytes := by
  induction bytes generalizing state with
  | nil =>
    cases state with
    | none => simp [decodeFrom, flush] at member
    | some p =>
      have := ofNat_eq_ascii 0xFFFD _ ascii positive (List.mem_singleton.mp member).symm
      omega
  | cons x rest ih =>
    rcases List.mem_append.mp member with now | later
    · exact List.mem_cons.mpr (Or.inl (mem_step_ascii state x b ascii positive now).symm)
    · exact List.mem_cons_of_mem _ (ih _ later)

theorem mem_decode_ascii (bytes : Bytes) (b : UInt8) (ascii : b.toNat < 0x80)
    (positive : 0 < b.toNat) (member : Char.ofNat b.toNat ∈ decode bytes) : b ∈ bytes :=
  mem_decodeFrom_ascii none bytes b ascii positive member

/-- Every octet is answered at once or leaves something to flush. -/
theorem start_answered (x : UInt8) : (start x).1 ++ flush (start x).2 ≠ [] := by
  fun_cases start <;> simp [flush]

theorem step_answered (state : Option Partial) (x : UInt8) :
    (step state x).1 ++ flush (step state x).2 ≠ [] := by
  fun_cases step
  case case1 => exact start_answered x
  all_goals simp [flush]

theorem mem_answer_ascii (state : Option Partial) (x b : UInt8) (ascii : b.toNat < 0x80)
    (positive : 0 < b.toNat) (member : Char.ofNat b.toNat ∈ (step state x).1 ++ flush (step state x).2) :
    x = b := by
  rcases List.mem_append.mp member with now | later
  · exact mem_step_ascii state x b ascii positive now
  · cases after : (step state x).2 with
    | none => simp [after, flush] at later
    | some p =>
      rw [after] at later
      have := ofNat_eq_ascii 0xFFFD _ ascii positive (List.mem_singleton.mp later).symm
      omega

/-- The text ends in what its last octet was answered with. -/
theorem decodeFrom_concat (state : Option Partial) (bytes : Bytes) (x : UInt8) :
    ∃ before last, decodeFrom state (bytes ++ [x]) = before ++ ((step last x).1 ++ flush (step last x).2) := by
  induction bytes generalizing state with
  | nil => exact ⟨[], state, by simp [decodeFrom]⟩
  | cons b rest ih =>
    obtain ⟨before, last, eq⟩ := ih (step state b).2
    exact ⟨(step state b).1 ++ before, last, by simp [decodeFrom, eq]⟩

theorem getLast?_decode_ascii (bytes : Bytes) (b : UInt8) (ascii : b.toNat < 0x80) (positive : 0 < b.toNat) :
    (decode bytes).getLast? = some (Char.ofNat b.toNat) ↔ bytes.getLast? = some b := by
  rcases List.eq_nil_or_concat bytes with rfl | ⟨init, x, rfl⟩
  · simp
  · rw [List.concat_eq_append, List.getLast?_concat, Option.some_inj]
    constructor
    · intro last
      obtain ⟨before, state, eq⟩ := decodeFrom_concat none init x
      rw [decode, eq, List.getLast?_append_of_ne_nil _ (step_answered state x)] at last
      exact mem_answer_ascii state x b ascii positive (List.mem_of_getLast? last)
    · rintro rfl
      rw [decode_ascii init x [] ascii, decode_nil, List.getLast?_concat]

/-- A text of ASCII characters comes from their octets alone. -/
theorem mem_of_decode_ascii {Q : UInt8 → Prop} (bytes : Bytes)
    (ascii : ∀ c ∈ decode bytes, ∃ b : UInt8, b.toNat < 0x80 ∧ 0 < b.toNat ∧ Q b ∧ c = Char.ofNat b.toNat) :
    ∀ x ∈ bytes, Q x := by
  induction bytes using List.reverseRecOn with
  | nil => simp
  | append_singleton init x ih =>
    obtain ⟨last, shown⟩ : ∃ c, (decode (init ++ [x])).getLast? = some c := by
      have given : decode (init ++ [x]) ≠ [] := by
        rw [ne_eq, decode_eq_nil_iff]
        simp
      exact ⟨_, List.getLast?_eq_some_getLast given⟩
    obtain ⟨b, small, positive, holds, rfl⟩ := ascii last (List.mem_of_getLast? shown)
    have same : x = b := by simpa using (getLast?_decode_ascii _ b small positive).mp shown
    subst same
    have before : ∀ y ∈ init, Q y := by
      apply ih
      intro c member
      apply ascii
      rw [decode_ascii init x [] small]
      exact List.mem_append_left _ member
    intro y member
    rcases List.mem_append.mp member with early | here
    · exact before y early
    · rw [List.mem_singleton.mp here]
      exact holds

/-- An ASCII character of the text comes from an octet of its own, and what stands
before it is the text of the octets before. -/
theorem decodeFrom_split (state : Option Partial) (bytes : Bytes) (b : UInt8) (ascii : b.toNat < 0x80)
    (positive : 0 < b.toNat) (before after : List Char)
    (eq : decodeFrom state bytes = before ++ Char.ofNat b.toNat :: after) :
    ∃ first second, bytes = first ++ b :: second ∧ decodeFrom state first = before := by
  induction bytes generalizing state before with
  | nil =>
    exfalso
    have member : Char.ofNat b.toNat ∈ decodeFrom state [] := by simp [eq]
    simpa using mem_decodeFrom_ascii state [] b ascii positive member
  | cons x rest ih =>
    rw [decodeFrom] at eq
    rcases List.append_eq_append_iff.mp eq with ⟨more, here, later⟩ | ⟨more, here, later⟩
    · -- the octet's answer ends before the character
      obtain ⟨first, second, split, text⟩ := ih (step state x).2 more later
      exact ⟨x :: first, second, by rw [split, List.cons_append], by rw [decodeFrom, text, here]⟩
    · cases more with
      | nil =>
        obtain ⟨first, second, split, text⟩ := ih (step state x).2 [] (by simpa using later.symm)
        refine ⟨x :: first, second, by rw [split, List.cons_append], ?_⟩
        rw [decodeFrom, text, here]
        simp
      | cons c more =>
        obtain ⟨rfl, -⟩ := List.cons.inj later
        obtain rfl := mem_step_ascii state x b ascii positive (by rw [here]; simp)
        rw [step_ascii state x ascii] at here
        refine ⟨[], rest, rfl, ?_⟩
        rw [decodeFrom]
        -- the answer is the flushed start and the character itself, which is no replacement
        rcases List.append_eq_append_iff.mp here with ⟨gap, same, last⟩ | ⟨gap, same, last⟩
        · cases gap with
          | nil => simpa using same.symm
          | cons d gap => simp at last
        · cases gap with
          | nil => simpa using same
          | cons d gap =>
            exfalso
            cases state with
            | none => simp [flush] at same
            | some p =>
              have replaced : d = replacement := by
                simp only [flush] at same
                rcases before with _ | ⟨e, before⟩
                · simp at same; exact same.1.symm
                · simp at same
              rw [replaced] at last
              have := ofNat_eq_ascii 0xFFFD _ ascii positive (List.cons.inj last).1.symm
              omega

theorem decode_split (bytes : Bytes) (b : UInt8) (ascii : b.toNat < 0x80) (positive : 0 < b.toNat)
    (before after : List Char) (eq : decode bytes = before ++ Char.ofNat b.toNat :: after) :
    ∃ first second, bytes = first ++ b :: second ∧ decode first = before :=
  decodeFrom_split none bytes b ascii positive before after eq

/-! Encoding and decoding again. -/

/-- The first octet of a longer character fixes the range of the second. -/
theorem start_two (b : UInt8) (v : Nat) (lead : b.toNat = v / 64 + 0xC0) (large : 0x80 ≤ v) (small : v ≤ 0x7FF) :
    ∃ p, start b = ([], some p) ∧ p.owed = 1 ∧ p.point = v / 64 ∧ p.low.toNat ≤ v % 64 + 0x80 ∧
      v % 64 + 0x80 ≤ p.high.toNat := by
  unfold start
  rw [if_neg (by omega), dif_pos (by omega)]
  refine ⟨_, rfl, rfl, ?_, ?_, ?_⟩ <;> simp only [UInt8.reduceToNat] <;> omega

theorem start_three (b : UInt8) (v : Nat) (lead : b.toNat = v / 4096 + 0xE0) (large : 0x800 ≤ v)
    (small : v ≤ 0xFFFF) (scalar : v < 0xD800 ∨ 0xDFFF < v) :
    ∃ p, start b = ([], some p) ∧ p.owed = 2 ∧ p.point = v / 4096 ∧ p.low.toNat ≤ v / 64 % 64 + 0x80 ∧
      v / 64 % 64 + 0x80 ≤ p.high.toNat := by
  unfold start
  rw [if_neg (by omega), dif_neg (by omega)]
  by_cases zero : b.toNat = 0xE0
  · rw [if_pos zero]
    refine ⟨_, rfl, rfl, ?_, ?_, ?_⟩ <;> simp only [UInt8.reduceToNat] <;> omega
  rw [if_neg zero]
  by_cases thirteen : b.toNat = 0xED
  · rw [if_pos thirteen]
    refine ⟨_, rfl, rfl, ?_, ?_, ?_⟩ <;> simp only [UInt8.reduceToNat] <;> omega
  rw [if_neg thirteen, dif_pos (by omega)]
  refine ⟨_, rfl, rfl, ?_, ?_, ?_⟩ <;> simp only [UInt8.reduceToNat] <;> omega

theorem start_four (b : UInt8) (v : Nat) (lead : b.toNat = v / 262144 + 0xF0) (large : 0x10000 ≤ v)
    (small : v ≤ 0x10FFFF) :
    ∃ p, start b = ([], some p) ∧ p.owed = 3 ∧ p.point = v / 262144 ∧ p.low.toNat ≤ v / 4096 % 64 + 0x80 ∧
      v / 4096 % 64 + 0x80 ≤ p.high.toNat := by
  unfold start
  rw [if_neg (by omega), dif_neg (by omega), if_neg (by omega), if_neg (by omega), dif_neg (by omega)]
  by_cases zero : b.toNat = 0xF0
  · rw [if_pos zero]
    refine ⟨_, rfl, rfl, ?_, ?_, ?_⟩ <;> simp only [UInt8.reduceToNat] <;> omega
  rw [if_neg zero]
  by_cases top : b.toNat = 0xF4
  · rw [if_pos top]
    refine ⟨_, rfl, rfl, ?_, ?_, ?_⟩ <;> simp only [UInt8.reduceToNat] <;> omega
  rw [if_neg top, dif_pos (by omega)]
  refine ⟨_, rfl, rfl, ?_, ?_, ?_⟩ <;> simp only [UInt8.reduceToNat] <;> omega

/-- An octet in range that is not the last one. -/
theorem step_more (p : Partial) (b : UInt8) (x : Nat) (value : b.toNat = x % 64 + 0x80)
    (within : p.low.toNat ≤ x % 64 + 0x80 ∧ x % 64 + 0x80 ≤ p.high.toNat) (owed : 1 < p.owed) :
    ∃ q, step (some p) b = ([], some q) ∧ q.owed = p.owed - 1 ∧ q.point = p.point * 64 + x % 64 ∧
      q.low = 0x80 ∧ q.high = 0xBF := by
  have low : b.toNat % 64 = x % 64 := by omega
  rw [step, dif_pos (by omega), dif_neg (by omega)]
  exact ⟨_, rfl, rfl, by simp [low], rfl, rfl⟩

theorem step_last (p : Partial) (b : UInt8) (x : Nat) (value : b.toNat = x % 64 + 0x80)
    (within : p.low.toNat ≤ x % 64 + 0x80 ∧ x % 64 + 0x80 ≤ p.high.toNat) (owed : p.owed = 1) :
    step (some p) b = ([Char.ofNat (p.point * 64 + x % 64)], none) := by
  have low : b.toNat % 64 = x % 64 := by omega
  rw [step, dif_pos (by omega), dif_pos (by omega), low]

theorem decodeFrom_encodeChar (c : Char) (rest : Bytes) :
    decodeFrom none (String.utf8EncodeChar c ++ rest) = c :: decodeFrom none rest := by
  have valid : c.toNat.isValidChar := c.valid
  have back := Char.ofNat_toNat c
  rw [Char.toNat] at valid back
  simp only [Nat.isValidChar] at valid
  unfold String.utf8EncodeChar
  generalize c.val.toNat = v at valid back ⊢
  have octet (n : Nat) (small : n < 256) : (UInt8.ofNat n).toNat = n := by
    rw [UInt8.toNat_ofNat', Nat.mod_eq_of_lt small]
  dsimp only
  by_cases one : v ≤ 0x7f
  · have here := octet v (by omega)
    rw [if_pos one, List.singleton_append, decodeFrom, step, start_ascii _ (by omega), here, back]
    rfl
  rw [if_neg one]
  by_cases two : v ≤ 0x7ff
  · obtain ⟨p, first, owed, point, range⟩ := start_two (UInt8.ofNat (v / 64 % 0x20 + 0xc0)) v
      (by rw [octet _ (by omega)]; omega) (by omega) two
    have last := step_last p (UInt8.ofNat (v % 0x40 + 0x80)) v (octet _ (by omega)) range owed
    have whole : p.point * 64 + v % 64 = v := by rw [point]; omega
    rw [if_pos two, List.cons_append, List.singleton_append, decodeFrom, step, first, decodeFrom, last, whole, back]
    rfl
  rw [if_neg two]
  by_cases three : v ≤ 0xffff
  · obtain ⟨p, first, owed, point, range⟩ := start_three (UInt8.ofNat (v / 4096 % 0x10 + 0xe0)) v
      (by rw [octet _ (by omega)]; omega) (by omega) three (by omega)
    obtain ⟨q, second, owed', point', low, high⟩ := step_more p (UInt8.ofNat (v / 64 % 0x40 + 0x80)) (v / 64)
      (octet _ (by omega)) range (by omega)
    have last := step_last q (UInt8.ofNat (v % 0x40 + 0x80)) v (octet _ (by omega)) (by rw [low, high]; simp; omega)
      (by omega)
    have whole : q.point * 64 + v % 64 = v := by rw [point', point]; omega
    rw [if_pos three, List.cons_append, List.cons_append, List.singleton_append, decodeFrom, step, first, decodeFrom,
      second, decodeFrom, last, whole, back]
    rfl
  · obtain ⟨p, first, owed, point, range⟩ := start_four (UInt8.ofNat (v / 262144 % 0x08 + 0xf0)) v
      (by rw [octet _ (by omega)]; omega) (by omega) (by omega)
    obtain ⟨q, second, owed', point', low, high⟩ := step_more p (UInt8.ofNat (v / 4096 % 0x40 + 0x80)) (v / 4096)
      (octet _ (by omega)) range (by omega)
    obtain ⟨r, third, owed'', point'', low', high'⟩ := step_more q (UInt8.ofNat (v / 64 % 0x40 + 0x80)) (v / 64)
      (octet _ (by omega)) (by rw [low, high]; simp; omega) (by omega)
    have last := step_last r (UInt8.ofNat (v % 0x40 + 0x80)) v (octet _ (by omega))
      (by rw [low', high']; simp; omega) (by omega)
    have whole : r.point * 64 + v % 64 = v := by rw [point'', point', point]; omega
    rw [if_neg three, List.cons_append, List.cons_append, List.cons_append, List.singleton_append, decodeFrom, step,
      first, decodeFrom, second, decodeFrom, third, decodeFrom, last, whole, back]
    rfl

/-- Decoding undoes encoding, whatever follows. -/
theorem decode_encode_append (s : List Char) (rest : Bytes) : decode (encode s ++ rest) = s ++ decode rest := by
  induction s with
  | nil => rfl
  | cons c s ih =>
    rw [encode, List.flatMap_cons, ← encode, List.append_assoc, decode, decodeFrom_encodeChar, ← decode, ih]
    rfl

@[simp] theorem decode_encode (s : List Char) : decode (encode s) = s := by
  simpa using decode_encode_append s []

end Utf8

end TeeProof
