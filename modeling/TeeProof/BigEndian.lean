import TeeProof.Utf8

/-! Numbers as byte lists, the most significant byte first. -/
namespace TeeProof

/-- Big-endian reading. -/
def beNat (b : Bytes) : Nat := b.foldl (fun acc x => acc * 256 + x.toNat) 0

def beBytes (width n : Nat) : Bytes :=
  (List.range width).map fun i => UInt8.ofNat (n / 256 ^ (width - 1 - i))

@[simp] theorem beBytes_length (width n : Nat) : (beBytes width n).length = width := by
  simp [beBytes]

theorem beNat_concat (b : Bytes) (x : UInt8) : beNat (b ++ [x]) = beNat b * 256 + x.toNat := by
  simp [beNat]

theorem beBytes_succ (width n : Nat) : beBytes (width + 1) n = beBytes width (n / 256) ++ [UInt8.ofNat n] := by
  rw [beBytes, List.range_succ, List.map_append]
  have last : n / 256 ^ (width + 1 - 1 - width) = n := by simp
  simp only [List.map_singleton, last, List.append_cancel_right_eq, beBytes]
  apply List.map_congr_left
  intro i small
  rw [List.mem_range] at small
  have shift : width + 1 - 1 - i = (width - 1 - i) + 1 := by omega
  rw [shift, Nat.pow_succ', Nat.div_div_eq_div_mul]

theorem beNat_lt (b : Bytes) : beNat b < 256 ^ b.length := by
  induction b using List.reverseRecOn with
  | nil => simp [beNat]
  | append_singleton b x ih =>
    have := x.toNat_lt
    rw [beNat_concat, List.length_append, List.length_singleton, Nat.pow_succ]
    omega

theorem beNat_beBytes (width n : Nat) (small : n < 256 ^ width) : beNat (beBytes width n) = n := by
  induction width generalizing n with
  | zero =>
    obtain rfl : n = 0 := by simpa using small
    rfl
  | succ width ih =>
    rw [Nat.pow_succ] at small
    rw [beBytes_succ, beNat_concat, ih (n / 256) (by omega), UInt8.toNat_ofNat']
    omega

theorem beBytes_beNat (b : Bytes) : beBytes b.length (beNat b) = b := by
  induction b using List.reverseRecOn with
  | nil => rfl
  | append_singleton b x ih =>
    have small := x.toNat_lt
    have high : (beNat b * 256 + x.toNat) / 256 = beNat b := by omega
    have low : UInt8.ofNat (beNat b * 256 + x.toNat) = x := by
      apply UInt8.toNat_inj.mp
      rw [UInt8.toNat_ofNat']
      omega
    rw [List.length_append, List.length_singleton, beBytes_succ, beNat_concat, high, low, ih]

end TeeProof
