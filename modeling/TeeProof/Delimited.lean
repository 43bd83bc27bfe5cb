import Mathlib.Data.List.Basic

/-! Texts whose end shows by the mark that follows, and lists of them between
separators: what is needed to see that a printer writes no text twice. -/
namespace TeeProof.Delimited

variable {U α : Type*} {mark : U → Prop}

/-- The rest is empty or begins with a mark. -/
def Ends (mark : U → Prop) (rest : List U) : Prop := ∀ u ∈ rest.head?, mark u

theorem ends_cons {u : U} (marked : mark u) (rest : List U) : Ends mark (u :: rest) := by
  intro v member
  obtain rfl := Option.some.inj member
  exact marked

/-- Before a mark, the text of `a` is that of no other item and no part of one. -/
def Reads (mark : U → Prop) (f : α → List U) (a : α) : Prop :=
  ∀ b x y, Ends mark x → Ends mark y → f a ++ x = f b ++ y → a = b ∧ x = y

/-- Texts without marks end where the first mark stands. -/
theorem unmarked_append {s t x y : List U} (plain : ∀ u ∈ s, ¬mark u) (plain' : ∀ u ∈ t, ¬mark u)
    (ends : Ends mark x) (ends' : Ends mark y) (eq : s ++ x = t ++ y) : s = t ∧ x = y := by
  induction s generalizing t with
  | nil =>
    cases t with
    | nil => exact ⟨rfl, eq⟩
    | cons v t =>
      obtain rfl : x = v :: (t ++ y) := eq
      exact absurd (ends v rfl) (plain' v (by simp))
  | cons u s ih =>
    cases t with
    | nil =>
      obtain rfl : u :: (s ++ x) = y := eq
      exact absurd (ends' u rfl) (plain u (by simp))
    | cons v t =>
      obtain ⟨rfl, rest⟩ := List.cons.inj eq
      obtain ⟨rfl, same⟩ := ih (fun w member => plain w (List.mem_cons_of_mem _ member))
        (fun w member => plain' w (List.mem_cons_of_mem _ member)) rest
      exact ⟨rfl, same⟩

/-- Texts with a separator between them. -/
def separated (sep : U) : List (List U) → List U
  | [] => []
  | s :: rest => s ++ rest.flatMap (sep :: ·)

section Lists

variable {sep close : U} (separates : mark sep) (closes : mark close) (apart : sep ≠ close) {f : α → List U}

include separates closes apart

theorem tail_reads (items : List α) (reads : ∀ a ∈ items, Reads mark f a) (others : List α) (x y : List U)
    (eq : (items.map f).flatMap (sep :: ·) ++ close :: x = (others.map f).flatMap (sep :: ·) ++ close :: y) :
    items = others ∧ x = y := by
  have ends (rest : List α) (z : List U) : Ends mark ((rest.map f).flatMap (sep :: ·) ++ close :: z) := by
    cases rest with
    | nil => exact ends_cons closes z
    | cons a rest => exact ends_cons separates _
  induction items generalizing others with
  | nil =>
    cases others with
    | nil => exact ⟨rfl, (List.cons.inj eq).2⟩
    | cons b others => exact absurd (List.cons.inj eq).1.symm apart
  | cons a items ih =>
    cases others with
    | nil => exact absurd (List.cons.inj eq).1 apart
    | cons b others =>
      simp only [List.map_cons, List.flatMap_cons, List.cons_append, List.append_assoc] at eq
      obtain ⟨rfl, rest⟩ := reads a (by simp) b _ _ (ends items x) (ends others y) (List.cons.inj eq).2
      obtain ⟨rfl, same⟩ := ih (fun c member => reads c (List.mem_cons_of_mem _ member)) others rest
      exact ⟨rfl, same⟩

/-- A closed list is read back item by item. -/
theorem separated_reads (fresh : ∀ a z w, f a ++ z ≠ close :: w) (items : List α) (reads : ∀ a ∈ items, Reads mark f a)
    (others : List α) (x y : List U)
    (eq : separated sep (items.map f) ++ close :: x = separated sep (others.map f) ++ close :: y) :
    items = others ∧ x = y := by
  have ends (rest : List α) (z : List U) : Ends mark ((rest.map f).flatMap (sep :: ·) ++ close :: z) := by
    cases rest with
    | nil => exact ends_cons closes z
    | cons a rest => exact ends_cons separates _
  cases items with
  | nil =>
    cases others with
    | nil => exact ⟨rfl, (List.cons.inj eq).2⟩
    | cons b others =>
      rw [List.map_cons, separated, List.append_assoc] at eq
      exact absurd eq.symm (fresh b _ _)
  | cons a items =>
    cases others with
    | nil =>
      rw [List.map_cons, separated, List.append_assoc] at eq
      exact absurd eq (fresh a _ _)
    | cons b others =>
      simp only [List.map_cons, separated, List.append_assoc] at eq
      obtain ⟨rfl, rest⟩ := reads a (by simp) b _ _ (ends items x) (ends others y) eq
      obtain ⟨rfl, same⟩ := tail_reads separates closes apart items
        (fun c member => reads c (List.mem_cons_of_mem _ member)) others x y rest
      exact ⟨rfl, same⟩

end Lists

end TeeProof.Delimited
