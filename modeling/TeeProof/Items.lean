import Mathlib.Data.List.Basic

/-! Values that stand one behind the other in a buffer, each from its position to the next
one's. -/
namespace TeeProof

/-- `item p v q`: the octets from `p` up to `q` are the value `v`. -/
abbrev Grammar (α : Type) := Nat → α → Nat → Prop

inductive Items (item : Grammar α) : Grammar (List α)
  | nil (p : Nat) : Items item p [] p
  | cons {p q r : Nat} {v : α} {vs : List α} : item p v q → Items item q vs r → Items item p (v :: vs) r

/-- Every value takes at least one octet and stays inside the first `size`. -/
def Grammar.Inside (item : Grammar α) (size : Nat) : Prop := ∀ p v q, item p v q → p < q ∧ q ≤ size

/-- Values that are all of a kind. -/
def Grammar.Within (item : Grammar α) (good : α → Prop) : Prop := ∀ p v q, item p v q → good v

namespace Items

theorem single {item : Grammar α} {v : α} (one : item p v q) : Items item p [v] q := .cons one (.nil q)

theorem append {item : Grammar α} {vs ws : List α} (first : Items item p vs q) (next : Items item q ws r) :
    Items item p (vs ++ ws) r := by
  induction first with
  | nil p => exact next
  | cons one _ ih => exact .cons one (ih next)

/-- Each value takes an octet. -/
theorem length_le {item : Grammar α} (inside : item.Inside size) {vs : List α} (all : Items item p vs q) :
    p + vs.length ≤ q := by
  induction all with
  | nil p => exact Nat.le_refl p
  | cons one _ ih =>
    have := (inside _ _ _ one).1
    rw [List.length_cons]
    omega

theorem le_size {item : Grammar α} (inside : item.Inside size) {vs : List α} (all : Items item p vs q)
    (start : p ≤ size) : q ≤ size := by
  induction all with
  | nil p => exact start
  | cons one _ ih => exact ih (inside _ _ _ one).2

theorem within {item : Grammar α} {good : α → Prop} (fine : item.Within good) {vs : List α}
    (all : Items item p vs q) : ∀ v ∈ vs, good v := by
  induction all with
  | nil p => exact nofun
  | cons one _ ih =>
    rintro v (_ | ⟨_, member⟩)
    · exact fine _ _ _ one
    · exact ih v member

theorem mono {item other : Grammar α} (weaker : ∀ p v q, item p v q → other p v q) {vs : List α}
    (all : Items item p vs q) : Items other p vs q := by
  induction all with
  | nil p => exact .nil p
  | cons one _ ih => exact .cons (weaker _ _ _ one) ih

end Items

end TeeProof
