import TeeProof.Der
import TeeProof.QingTian

/-! The DER form of a raw ECDSA signature. -/
namespace TeeProof.Verifier.QingTian

open Der

/-- Below 2^31 the signed shift is the division. -/
theorem shiftOctet_small (small : n < 2 ^ 31) : shiftOctet n = n / 256 := by
  have low : n % 2 ^ 32 = n := Nat.mod_eq_of_lt (by omega)
  rw [shiftOctet, low, if_pos small]

theorem lengthOctets_value (enough : n ≤ fuel) (small : n < 2 ^ 31) : beNat (lengthOctets fuel n) = n := by
  induction fuel generalizing n with
  | zero =>
    obtain rfl : n = 0 := Nat.le_zero.mp enough
    rfl
  | succ fuel ih =>
    rw [lengthOctets]
    split
    next zero => exact zero.symm
    next positive =>
      rw [shiftOctet_small small, beNat_concat, ih (by omega) (by omega), UInt8.toNat_ofNat']
      omega

theorem lengthOctets_front (enough : n ≤ fuel) (small : n < 2 ^ 31) :
    (lengthOctets fuel n).head? ≠ some 0 ∧ (lengthOctets fuel n = [] → n = 0) := by
  induction fuel generalizing n with
  | zero => exact ⟨nofun, fun _ => Nat.le_zero.mp enough⟩
  | succ fuel ih =>
    rw [lengthOctets]
    split
    next zero => exact ⟨nofun, fun _ => zero⟩
    next positive =>
      obtain ⟨front, none⟩ := ih (n := n / 256) (by omega) (by omega)
      rw [shiftOctet_small small]
      refine ⟨?_, fun nil => absurd nil (List.append_ne_nil_of_right_ne_nil _ (List.cons_ne_nil _ _))⟩
      cases octets : lengthOctets fuel (n / 256) with
      | nil =>
        -- the only octet is the whole number
        have high := none octets
        rw [List.nil_append, List.head?_cons]
        intro zero
        have low := congrArg UInt8.toNat (Option.some.inj zero)
        rw [UInt8.toNat_ofNat', UInt8.toNat_zero] at low
        omega
      | cons x rest =>
        rw [octets] at front
        exact front

theorem lengthOctets_few (small : n < 2 ^ 31) : (lengthOctets n n).length ≤ 4 := by
  refine length_le_of_lt (lengthOctets_front (Nat.le_refl n) small).1 ?_
  rw [lengthOctets_value (Nat.le_refl n) small]
  exact Nat.lt_trans small (by decide)

theorem derLength_minimal (small : n < 2 ^ 31) : Length n (derLength n) := by
  rw [derLength]
  split
  next short => exact .short short
  next long =>
    have few := lengthOctets_few small
    exact .long (Nat.le_of_not_lt long) (lengthOctets_value (Nat.le_refl n) small)
      (lengthOctets_front (Nat.le_refl n) small).1 (by omega)

theorem dropZeros_value (raw : Bytes) : beNat (dropZeros raw) = beNat raw := by
  fun_induction dropZeros raw with
  | case1 a b rest zero ih =>
    rw [ih, zero.1, beNat_zero_cons]
  | case2 => rfl
  | case3 => rfl

theorem dropZeros_nonempty {raw : Bytes} (nonempty : raw ≠ []) : dropZeros raw ≠ [] := by
  fun_induction dropZeros raw with
  | case1 a b rest zero ih => exact ih (List.cons_ne_nil b rest)
  | case2 a b rest keep => exact List.cons_ne_nil a _
  | case3 => exact nonempty

theorem dropZeros_minimal {raw : Bytes} (eq : dropZeros raw = a :: b :: rest) (zero : a = 0) : 0x80 ≤ b.toNat := by
  fun_induction dropZeros raw with
  | case1 _ _ _ _ ih => exact ih eq
  | case2 a' b' rest' keep =>
    cases eq
    exact Nat.le_of_not_lt fun small => keep ⟨zero, small⟩
  | case3 short apart => exact absurd eq (apart a b rest)

/-- The content octets, a zero in front of a set top bit. -/
def derContent (raw : Bytes) : Bytes :=
  if ((dropZeros raw).headD 0).toNat ≥ 0x80 then 0 :: dropZeros raw else dropZeros raw

theorem derInteger_eq (raw : Bytes) :
    derInteger raw = 0x02 :: (derLength (derContent raw).length ++ derContent raw) := rfl

theorem derContent_minimal {raw : Bytes} (nonempty : raw ≠ []) : Content (beNat raw) (derContent raw) := by
  have kept := dropZeros_nonempty nonempty
  rw [derContent]
  split
  next top =>
    refine ⟨by rw [beNat_zero_cons, dropZeros_value], List.cons_ne_nil _ _, ?_, ?_⟩
    · rintro a rest ⟨⟩
      decide
    · rintro a b rest eq _
      rw [(List.cons.inj eq).2] at top
      exact top
  next clear =>
    refine ⟨dropZeros_value raw, kept, ?_, fun a b rest eq zero => dropZeros_minimal eq zero⟩
    intro a rest eq
    rw [eq] at clear
    exact Nat.lt_of_not_le clear

theorem derInteger_minimal {raw : Bytes} (nonempty : raw ≠ []) (small : (derInteger raw).length < 2 ^ 31) :
    Integer (beNat raw) (derInteger raw) := by
  rw [derInteger_eq] at small ⊢
  rw [List.length_cons, List.length_append] at small
  exact .mk (derLength_minimal (by omega)) (derContent_minimal nonempty)

theorem derSequence_pair (a b : Bytes) : derSequence [a, b] = 0x30 :: (derLength (a ++ b).length ++ (a ++ b)) := by
  rw [derSequence, List.flatten_cons, List.flatten_cons, List.flatten_nil, List.append_nil]
  rfl

theorem rawEcdsaToDer_minimal (raw : Bytes) (n : Nat) (even : raw.length = 2 * n) (positive : 1 ≤ n)
    (small : (derInteger (raw.take n) ++ derInteger (raw.drop n)).length < 2 ^ 31) :
    Signature (beNat (raw.take n)) (beNat (raw.drop n)) (rawEcdsaToDer raw) := by
  have half : raw.length / 2 = n := by omega
  have sizes := small
  rw [List.length_append] at sizes
  have front : raw.take n ≠ [] := by
    refine List.ne_nil_of_length_pos ?_
    rw [List.length_take]
    omega
  have back : raw.drop n ≠ [] := by
    refine List.ne_nil_of_length_pos ?_
    rw [List.length_drop]
    omega
  rw [rawEcdsaToDer, half, derSequence_pair]
  exact .mk (derLength_minimal small) (derInteger_minimal front (by omega)) (derInteger_minimal back (by omega))

/-- A first half with its top bit set. -/
theorem rawEcdsaToDer_minimal_sample : Signature 0x80 1 (rawEcdsaToDer [0x80, 0x01]) :=
  rawEcdsaToDer_minimal [0x80, 0x01] 1 rfl (Nat.le_refl 1) (by decide)

/-! From 2^31 octets on -/

/-- The shift is negative after the first round, and one length octet is left. -/
theorem derLength_long (low : 2 ^ 31 ≤ n) (high : n < 2 ^ 32) : derLength n = [0x81, UInt8.ofNat n] := by
  have same : n % 2 ^ 32 = n := Nat.mod_eq_of_lt high
  have stops : shiftOctet n = 0 := by
    rw [shiftOctet, same, if_neg (Nat.not_lt_of_le low)]
  obtain ⟨k, rfl⟩ : ∃ k, n = k + 2 := ⟨n - 2, by omega⟩
  have octets : lengthOctets (k + 2) (k + 2) = [UInt8.ofNat (k + 2)] := by
    rw [lengthOctets, if_neg (Nat.succ_ne_zero _), stops, lengthOctets, if_pos rfl]
    rfl
  rw [derLength, if_neg (by omega), octets]
  rfl

theorem not_signature_long {body : Bytes} (low : 2 ^ 31 ≤ body.length) (high : body.length < 2 ^ 32) (r s : Nat) :
    ¬Signature r s (0x30 :: (derLength body.length ++ body)) := by
  rw [derLength_long low high]
  generalize eq : (0x30 :: ([0x81, UInt8.ofNat body.length] ++ body) : Bytes) = bytes
  rintro ⟨size, _, _⟩
  have tail := (List.cons.inj eq).2
  cases size with
  | short small =>
    have first := congrArg UInt8.toNat (List.cons.inj tail).1
    rw [UInt8.toNat_ofNat'] at first
    have literal : (0x81 : UInt8).toNat = 129 := rfl
    omega
  | @long octets large value _ few =>
    have first := congrArg UInt8.toNat (List.cons.inj tail).1
    rw [UInt8.toNat_ofNat'] at first
    have literal : (0x81 : UInt8).toNat = 129 := rfl
    obtain ⟨x, rfl⟩ : ∃ x, octets = [x] := List.length_eq_one_iff.mp (by omega)
    have rest : body = _ := (List.cons.inj (List.cons.inj tail).2).2
    have single := beNat_lt [x]
    rw [List.length_singleton, Nat.pow_one, value, ← List.nil_append (_ ++ _)] at single
    rw [rest] at low
    exact absurd (Nat.lt_of_le_of_lt low single) (by decide)

theorem dropZeros_ones (n : Nat) : dropZeros (List.replicate n 1) = List.replicate n 1 := by
  match n with
  | 0 => rfl
  | 1 => rfl
  | n + 2 => exact if_neg fun zero => absurd zero.1 (by decide)

theorem derContent_ones (n : Nat) : derContent (List.replicate n 1) = List.replicate n 1 := by
  have clear : ¬((List.replicate n (1 : UInt8)).headD 0).toNat ≥ 0x80 := by
    cases n with
    | zero => decide
    | succ n =>
      rw [List.replicate_succ, List.headD_cons]
      decide
  rw [derContent, dropZeros_ones, if_neg clear]

theorem derInteger_ones_length (n : Nat) (small : n < 2 ^ 31) :
    n < (derInteger (List.replicate n 1)).length ∧ (derInteger (List.replicate n 1)).length ≤ n + 6 := by
  rw [derInteger_eq, derContent_ones, List.length_cons, List.length_append, List.length_replicate]
  have size : (derLength n).length ≤ 5 := by
    rw [derLength]
    split
    · exact Nat.le_add_left 1 4
    · exact Nat.succ_le_succ (lengthOctets_few small)
  omega

/-- Two halves of 2^30 octets. -/
theorem rawEcdsaToDer_not_minimal :
    (List.replicate (2 ^ 31) (1 : UInt8)).length = 2 * 2 ^ 30 ∧
    ¬Signature (beNat ((List.replicate (2 ^ 31) 1).take (2 ^ 30))) (beNat ((List.replicate (2 ^ 31) 1).drop (2 ^ 30)))
      (rawEcdsaToDer (List.replicate (2 ^ 31) 1)) := by
  refine ⟨List.length_replicate, ?_⟩
  have half : (List.replicate (2 ^ 31) (1 : UInt8)).length / 2 = 2 ^ 30 := by
    rw [List.length_replicate]
    rfl
  have front : (List.replicate (2 ^ 31) (1 : UInt8)).take (2 ^ 30) = List.replicate (2 ^ 30) 1 := List.take_replicate
  have back : (List.replicate (2 ^ 31) (1 : UInt8)).drop (2 ^ 30) = List.replicate (2 ^ 30) 1 := List.drop_replicate
  have size := derInteger_ones_length (2 ^ 30) (by decide)
  rw [rawEcdsaToDer, half, front, back, derSequence_pair]
  apply not_signature_long
  · rw [List.length_append]
    omega
  · rw [List.length_append]
    omega

end TeeProof.Verifier.QingTian
