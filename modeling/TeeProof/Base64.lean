import TeeProof.Utf8

/-! Base64 with padding (RFC 4648 §4), over octets. `decode` is the strict reader:
canonical padding, no stray bits, nothing outside the alphabet. -/
namespace TeeProof.Base64

def digit (n : Nat) : UInt8 :=
  if n < 26 then UInt8.ofNat (65 + n)
  else if n < 52 then UInt8.ofNat (71 + n)
  else if n < 62 then UInt8.ofNat (n - 4)
  else if n = 62 then 43 else 47

def value (c : UInt8) : Option Nat :=
  if 65 ≤ c.toNat ∧ c.toNat ≤ 90 then some (c.toNat - 65)
  else if 97 ≤ c.toNat ∧ c.toNat ≤ 122 then some (c.toNat - 71)
  else if 48 ≤ c.toNat ∧ c.toNat ≤ 57 then some (c.toNat + 4)
  else if c = 43 then some 62
  else if c = 47 then some 63
  else none

def pad : UInt8 := 61

def encode : Bytes → Bytes
  | [] => []
  | [a] => [digit (a.toNat / 4), digit (a.toNat % 4 * 16), pad, pad]
  | [a, b] =>
    [digit (a.toNat / 4), digit (a.toNat % 4 * 16 + b.toNat / 16), digit (b.toNat % 16 * 4), pad]
  | a :: b :: c :: rest =>
    digit (a.toNat / 4) :: digit (a.toNat % 4 * 16 + b.toNat / 16) ::
      digit (b.toNat % 16 * 4 + c.toNat / 64) :: digit (c.toNat % 64) :: encode rest

/-- The last group, where padding may stand. -/
def decodeLast (a b c d : UInt8) : Option Bytes := do
  let x ← value a
  let y ← value b
  if c = pad then
    if d = pad ∧ y % 16 = 0 then some [UInt8.ofNat (x * 4 + y / 16)] else none
  else
    let z ← value c
    if d = pad then
      if z % 4 = 0 then some [UInt8.ofNat (x * 4 + y / 16), UInt8.ofNat (y % 16 * 16 + z / 4)] else none
    else
      let w ← value d
      some [UInt8.ofNat (x * 4 + y / 16), UInt8.ofNat (y % 16 * 16 + z / 4), UInt8.ofNat (z % 4 * 64 + w)]

def decode : Bytes → Option Bytes
  | [] => some []
  | a :: b :: c :: d :: [] => decodeLast a b c d
  | a :: b :: c :: d :: rest => do
    let x ← value a
    let y ← value b
    let z ← value c
    let w ← value d
    let tail ← decode rest
    some (UInt8.ofNat (x * 4 + y / 16) :: UInt8.ofNat (y % 16 * 16 + z / 4) ::
      UInt8.ofNat (z % 4 * 64 + w) :: tail)
  | _ => none

/-- Characters a decodable text may hold. -/
def isText (c : UInt8) : Bool := (value c).isSome || c == pad

theorem isText_of_value (h : value c = some n) : isText c = true := by simp [isText, h]

theorem decodeLast_text (h : decodeLast a b c d = some out) :
    isText a ∧ isText b ∧ isText c ∧ isText d := by
  simp only [decodeLast, bind, Option.bind_eq_some_iff] at h
  obtain ⟨x, hx, y, hy, h⟩ := h
  refine ⟨isText_of_value hx, isText_of_value hy, ?_⟩
  split at h
  next hc =>
    split at h
    next hd => simp [isText, hc, hd.1]
    next => contradiction
  next =>
    simp only [Option.bind_eq_some_iff] at h
    obtain ⟨z, hz, h⟩ := h
    refine ⟨isText_of_value hz, ?_⟩
    split at h
    next hd => simp [isText, hd]
    next =>
      simp only [Option.bind_eq_some_iff] at h
      obtain ⟨w, hw, _⟩ := h
      exact isText_of_value hw

/-- What the strict reader accepts stays inside the alphabet. -/
theorem decode_text (text out : Bytes) (h : decode text = some out) : ∀ c ∈ text, isText c = true := by
  fun_induction decode text generalizing out with
  | case1 => simp
  | case2 a b c d => simpa using decodeLast_text h
  | case3 a b c d rest _ ih =>
    simp only [bind, Option.bind_eq_some_iff] at h
    obtain ⟨x, hx, y, hy, z, hz, w, hw, tail, ht, _⟩ := h
    intro e member
    simp only [List.mem_cons] at member
    rcases member with rfl | rfl | rfl | rfl | member
    · exact isText_of_value hx
    · exact isText_of_value hy
    · exact isText_of_value hz
    · exact isText_of_value hw
    · exact ih tail ht e member
  | case4 => simp at h

theorem digit_isText (n : Nat) (small : n < 64) : isText (digit n) = true := by
  revert n; decide

/-- Encoding stays inside the alphabet too. -/
theorem encode_text (bytes : Bytes) : ∀ c ∈ encode bytes, isText c = true := by
  have digitOk (n : Nat) (small : n < 64) : isText (digit n) = true := digit_isText n small
  have octet (x : UInt8) : x.toNat < 256 := x.toNat_lt
  fun_induction encode bytes with
  | case1 => simp
  | case2 a =>
    have := octet a
    simp only [List.forall_mem_cons]
    exact ⟨digitOk _ (by omega), digitOk _ (by omega), by decide, by decide, by simp⟩
  | case3 a b =>
    have := octet a; have := octet b
    simp only [List.forall_mem_cons]
    exact ⟨digitOk _ (by omega), digitOk _ (by omega), digitOk _ (by omega), by decide, by simp⟩
  | case4 a b c rest ih =>
    have := octet a; have := octet b; have := octet c
    simp only [List.forall_mem_cons]
    exact ⟨digitOk _ (by omega), digitOk _ (by omega), digitOk _ (by omega), digitOk _ (by omega), ih⟩

theorem value_digit (n : Nat) (small : n < 64) : value (digit n) = some n := by
  revert n; decide

theorem digit_ne_pad (n : Nat) (small : n < 64) : digit n ≠ pad := by
  revert n; decide

/-- A full group is decoded alike at the end of the text and before more of it. -/
theorem decode_group (a b c d : UInt8) (rest : Bytes) (third : c ≠ pad) (fourth : d ≠ pad) :
    decode (a :: b :: c :: d :: rest) = (do
      let x ← value a
      let y ← value b
      let z ← value c
      let w ← value d
      let tail ← decode rest
      some (UInt8.ofNat (x * 4 + y / 16) :: UInt8.ofNat (y % 16 * 16 + z / 4) ::
        UInt8.ofNat (z % 4 * 64 + w) :: tail)) := by
  cases rest with
  | nil =>
    simp only [decode, decodeLast, if_neg third, if_neg fourth, Option.bind_eq_bind, Option.bind_some]
  | cons e rest =>
    rw [decode]
    exact List.cons_ne_nil e rest

/-- Decoding undoes encoding. -/
@[simp] theorem decode_encode (bytes : Bytes) : decode (encode bytes) = some bytes := by
  have octet (x : UInt8) : x.toNat < 256 := x.toNat_lt
  have back (x : UInt8) (n : Nat) (same : n = x.toNat) : UInt8.ofNat n = x := by rw [same, UInt8.ofNat_toNat]
  fun_induction encode bytes with
  | case1 => rfl
  | case2 a =>
    have := octet a
    have stray : a.toNat % 4 * 16 % 16 = 0 := by omega
    simp only [decode, decodeLast, value_digit _ (show a.toNat / 4 < 64 by omega),
      value_digit _ (show a.toNat % 4 * 16 < 64 by omega), Option.bind_eq_bind, Option.bind_some, if_true, stray, and_self]
    rw [back a _ (by omega)]
  | case3 a b =>
    have := octet a; have := octet b
    have stray : b.toNat % 16 * 4 % 4 = 0 := by omega
    simp only [decode, decodeLast, value_digit _ (show a.toNat / 4 < 64 by omega),
      value_digit _ (show a.toNat % 4 * 16 + b.toNat / 16 < 64 by omega),
      value_digit _ (show b.toNat % 16 * 4 < 64 by omega), digit_ne_pad _ (show b.toNat % 16 * 4 < 64 by omega),
      Option.bind_eq_bind, Option.bind_some, if_true, if_false, stray]
    rw [back a _ (by omega), back b _ (by omega)]
  | case4 a b c rest ih =>
    have := octet a; have := octet b; have := octet c
    rw [decode_group _ _ _ _ _ (digit_ne_pad _ (by omega)) (digit_ne_pad _ (by omega)),
      value_digit _ (by omega), value_digit _ (by omega), value_digit _ (by omega), value_digit _ (by omega), ih]
    simp only [Option.bind_eq_bind, Option.bind_some]
    rw [back a _ (by omega), back b _ (by omega), back c _ (by omega)]

end TeeProof.Base64
