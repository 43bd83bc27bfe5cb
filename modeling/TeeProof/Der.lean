import TeeProof.BigEndian

/-! DER of unsigned numbers: lengths in their shortest form, and INTEGER contents that are
non-negative and minimal. -/
namespace TeeProof.Der

/-- The length `n` in its shortest form. -/
inductive Length (n : Nat) : Bytes → Prop
  | short : n < 0x80 → Length n [UInt8.ofNat n]
  | long {octets : Bytes} : 0x80 ≤ n → beNat octets = n → octets.head? ≠ some 0 → octets.length < 0x7F →
      Length n (UInt8.ofNat (0x80 + octets.length) :: octets)

/-- The content of an INTEGER: two's complement with the sign bit clear, and no zero octet
in front unless the next octet's top bit is set. -/
structure Content (value : Nat) (content : Bytes) : Prop where
  value : beNat content = value
  nonempty : content ≠ []
  nonneg : ∀ a rest, content = a :: rest → a.toNat < 0x80
  minimal : ∀ a b rest, content = a :: b :: rest → a = 0 → 0x80 ≤ b.toNat

inductive Integer (value : Nat) : Bytes → Prop
  | mk {length content : Bytes} : Length content.length length → Content value content →
      Integer value (0x02 :: (length ++ content))

/-- A SEQUENCE of two INTEGERs. -/
inductive Signature (r s : Nat) : Bytes → Prop
  | mk {length first second : Bytes} : Length (first ++ second).length length → Integer r first → Integer s second →
      Signature r s (0x30 :: (length ++ (first ++ second)))

theorem beNat_cons (x : UInt8) (b : Bytes) : beNat (x :: b) = x.toNat * 256 ^ b.length + beNat b := by
  induction b using List.reverseRecOn with
  | nil => simp [beNat]
  | append_singleton b y ih =>
    rw [← List.cons_append, beNat_concat, beNat_concat, ih, List.length_append, List.length_singleton, Nat.pow_succ]
    ring

theorem beNat_zero_cons (b : Bytes) : beNat (0 :: b) = beNat b := by
  rw [beNat_cons, UInt8.toNat_zero, Nat.zero_mul, Nat.zero_add]

/-- Without a zero in front, the number is as long as its octets. -/
theorem pow_le_beNat {x : UInt8} (rest : Bytes) (front : x ≠ 0) : 256 ^ rest.length ≤ beNat (x :: rest) := by
  have pos : 0 < x.toNat := by
    rw [Nat.pos_iff_ne_zero]
    exact fun zero => front (UInt8.toNat_inj.mp zero)
  rw [beNat_cons]
  exact Nat.le_add_right_of_le (Nat.le_mul_of_pos_left _ pos)

/-- Octets without a zero in front are no more than the number needs. -/
theorem length_le_of_lt {octets : Bytes} (front : octets.head? ≠ some 0) (small : beNat octets < 256 ^ k) :
    octets.length ≤ k := by
  cases octets with
  | nil => exact Nat.zero_le k
  | cons x rest =>
    have low := pow_le_beNat rest fun eq => front (congrArg some eq)
    exact (Nat.pow_lt_pow_iff_right (by decide)).mp (Nat.lt_of_le_of_lt low small)

theorem Content.lt {n : Nat} {x : UInt8} {rest : Bytes} (content : Content n (x :: rest)) :
    n < 0x80 * 256 ^ rest.length := by
  have sign := content.nonneg x rest rfl
  have below := beNat_lt rest
  have bound : x.toNat * 256 ^ rest.length ≤ 127 * 256 ^ rest.length := Nat.mul_le_mul_right _ (by omega)
  rw [← content.value, beNat_cons]
  omega

theorem Content.le {n : Nat} {x y : UInt8} {rest : Bytes} (content : Content n (x :: y :: rest)) :
    0x80 * 256 ^ rest.length ≤ n := by
  rw [← content.value]
  by_cases zero : x = 0
  · -- the octet behind the zero has its top bit set
    have top := content.minimal x y rest rfl zero
    rw [zero, beNat_zero_cons, beNat_cons]
    exact Nat.le_add_right_of_le (Nat.mul_le_mul_right _ top)
  · have low := pow_le_beNat (y :: rest) zero
    rw [List.length_cons, Nat.pow_succ'] at low
    omega

/-- The content of the larger number is the longer one. -/
theorem Content.length_le {m n : Nat} {a b : Bytes} (one : Content m a) (two : Content n b) (le : m ≤ n) :
    a.length ≤ b.length := by
  cases b with
  | nil => exact absurd rfl two.nonempty
  | cons x rest =>
    match a with
    | [] => exact Nat.zero_le _
    | [_] => exact Nat.succ_le_succ (Nat.zero_le _)
    | y :: z :: more =>
      have bound := Nat.lt_of_le_of_lt (Nat.le_trans one.le le) two.lt
      have shorter := (Nat.pow_lt_pow_iff_right (a := 256) (by decide)).mp (Nat.lt_of_mul_lt_mul_left bound)
      exact Nat.succ_le_succ shorter

/-- A number has one content only. -/
theorem Content.unique {n : Nat} {a b : Bytes} (one : Content n a) (two : Content n b) : a = b := by
  have same : a.length = b.length :=
    Nat.le_antisymm (one.length_le two (Nat.le_refl n)) (two.length_le one (Nat.le_refl n))
  rw [← beBytes_beNat a, ← beBytes_beNat b, one.value, two.value, same]

/-- Zero is a single zero octet. -/
theorem Content.zero {c : Bytes} (content : Content 0 c) : c = [0] := by
  refine content.unique ⟨rfl, nofun, ?_, nofun⟩
  rintro _ _ ⟨⟩
  decide

end TeeProof.Der
