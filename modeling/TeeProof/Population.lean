import Mathlib.Algebra.BigOperators.Group.Finset.Basic
import Mathlib.Algebra.BigOperators.Pi
import Mathlib.Algebra.Order.BigOperators.Group.Finset
import Mathlib.Logic.Function.Basic

/-! Weights of the members of a family that change one at a time. -/
namespace TeeProof.Population

variable {ι σ M : Type} [Fintype ι] [AddCommMonoid M]

/-- What the members weigh together. -/
def total (w : σ → M) (f : ι → σ) : M := ∑ i, w (f i)

/-- The old weight of the changed member makes up for its new one. -/
theorem total_update [DecidableEq ι] (w : σ → M) (f : ι → σ) (i : ι) (x : σ) :
    total w (Function.update f i x) + w (f i) = total w f + w x := by
  have split (g : ι → σ) : total w g = w (g i) + ∑ j ∈ Finset.univ.erase i, w (g j) :=
    (Finset.add_sum_erase Finset.univ (fun j => w (g j)) (Finset.mem_univ i)).symm
  have others : ∑ j ∈ Finset.univ.erase i, w (Function.update f i x j) = ∑ j ∈ Finset.univ.erase i, w (f j) := by
    apply Finset.sum_congr rfl
    intro j apart
    rw [Function.update_of_ne (Finset.ne_of_mem_erase apart)]
  rw [split, others, Function.update_self, split f]
  ac_rfl

theorem total_eq_zero {w : σ → M} {f : ι → σ} (none : ∀ i, w (f i) = 0) : total w f = 0 :=
  Finset.sum_eq_zero fun i _ => none i

theorem total_le_card {w : σ → Nat} {f : ι → σ} (light : ∀ i, w (f i) ≤ 1) : total w f ≤ Fintype.card ι := by
  have bound := Finset.sum_le_card_nsmul Finset.univ (fun i => w (f i)) 1 fun i _ => light i
  rwa [smul_eq_mul, Nat.mul_one] at bound

theorem le_total (w : σ → Nat) (f : ι → σ) (i : ι) : w (f i) ≤ total w f :=
  Finset.single_le_sum (f := fun j => w (f j)) (fun _ _ => Nat.zero_le _) (Finset.mem_univ i)

end TeeProof.Population
