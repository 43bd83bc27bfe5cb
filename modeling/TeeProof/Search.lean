import TeeProof.Lines

/-! The last and the first place where a text stands in another one. -/
namespace TeeProof.Search

variable {α : Type*} [DecidableEq α]

def lastIndexOf (needle : List α) : List α → Option Nat
  | [] => if needle = [] then some 0 else none
  | x :: rest =>
    match lastIndexOf needle rest with
    | some i => some (i + 1)
    | none => if needle.isPrefixOf (x :: rest) then some 0 else none

theorem lastIndexOf_append {needle after : List α} {i : Nat} (found : lastIndexOf needle after = some i)
    (before : List α) : lastIndexOf needle (before ++ after) = some (before.length + i) := by
  induction before with
  | nil => simpa using found
  | cons x rest ih =>
    rw [List.cons_append, lastIndexOf, ih]
    simp only [List.length_cons, Option.some.injEq]
    omega

/-- What stands only before a cut begins before it. -/
theorem lastIndexOf_lt {needle before after : List α} {i : Nat} (none : lastIndexOf needle after = none)
    (found : lastIndexOf needle (before ++ after) = some i) : i < before.length := by
  induction before generalizing i with
  | nil => exact absurd (none.symm.trans found) nofun
  | cons x rest ih =>
    rw [List.cons_append, lastIndexOf] at found
    cases inner : lastIndexOf needle (rest ++ after) with
    | some j =>
      have below := ih inner
      rw [inner] at found
      obtain rfl := Option.some.inj found
      simpa using below
    | none =>
      simp only [inner] at found
      split at found
      next =>
        obtain rfl := Option.some.inj found
        simp
      next => cases found

/-- A line that ends in `needle` and the separator is among the ended lines. -/
theorem ended_suffix (sep : α) (needle front back : List α) (free : sep ∉ needle) :
    ∃ line ∈ Lines.ended sep (front ++ needle ++ sep :: back), needle <:+ line := by
  have clean : sep ∉ Lines.rest sep front ++ needle := by
    have piece := Lines.not_mem_piece sep front (Lines.rest sep front) (by rw [Lines.splitOn_eq]; simp)
    simpa [free] using piece
  refine ⟨Lines.rest sep front ++ needle, ?_, List.suffix_append _ _⟩
  rw [List.append_assoc, Lines.ended_append, ← List.append_assoc, Lines.ended_line sep _ back clean]
  simp

/-- A needle that closes a line stands nowhere when no ended line closes with it. -/
theorem lastIndexOf_eq_none (sep : α) (needle : List α) (free : sep ∉ needle) (s : List α)
    (other : ∀ line ∈ Lines.ended sep s, ¬needle <:+ line) : lastIndexOf (needle ++ [sep]) s = none := by
  have nowhere (front back : List α) (split : s = front ++ back) : (needle ++ [sep]).isPrefixOf back = false := by
    rw [Bool.eq_false_iff]
    intro here
    obtain ⟨rest, rfl⟩ := List.isPrefixOf_iff_prefix.mp here
    obtain ⟨line, member, ends⟩ := ended_suffix sep needle front rest free
    refine other line ?_ ends
    rw [split]
    simpa using member
  clear other
  induction s with
  | nil => simp [lastIndexOf]
  | cons x rest ih =>
    have here := nowhere [] (x :: rest) rfl
    rw [lastIndexOf, ih fun front back split => nowhere (x :: front) back (by rw [split, List.cons_append])]
    simp [here]

/-- Nothing begins in a stretch without the needle's first element. -/
theorem lastIndexOf_skip {first : α} {needle before after : List α} (absent : first ∉ before)
    (later : lastIndexOf (first :: needle) after = none) : lastIndexOf (first :: needle) (before ++ after) = none := by
  induction before with
  | nil => exact later
  | cons x rest ih =>
    have here : (first :: needle).isPrefixOf (x :: (rest ++ after)) = false := by
      rw [Bool.eq_false_iff]
      intro starts
      obtain ⟨_, eq⟩ := List.isPrefixOf_iff_prefix.mp starts
      rw [List.cons_append] at eq
      exact absent ((List.cons.inj eq).1 ▸ List.mem_cons_self)
    rw [List.cons_append, lastIndexOf, ih fun member => absent (List.mem_cons_of_mem x member)]
    simp [here]

/-- A needle that closes a line does not begin in one that closes otherwise. -/
theorem lastIndexOf_line {sep : α} {needle line after : List α} (free : sep ∉ needle) (clean : sep ∉ line)
    (other : ¬needle <:+ line) (later : lastIndexOf (needle ++ [sep]) after = none) :
    lastIndexOf (needle ++ [sep]) (line ++ sep :: after) = none := by
  induction line with
  | nil =>
    have here : (needle ++ [sep]).isPrefixOf (sep :: after) = false := by
      rw [Bool.eq_false_iff]
      intro starts
      obtain ⟨_, eq⟩ := List.isPrefixOf_iff_prefix.mp starts
      cases needle with
      | nil => exact other List.nil_suffix
      | cons x rest =>
        cases eq
        exact free List.mem_cons_self
    rw [List.nil_append, lastIndexOf, later]
    simp [here]
  | cons x line ih =>
    have here : (needle ++ [sep]).isPrefixOf (x :: (line ++ sep :: after)) = false := by
      rw [Bool.eq_false_iff]
      intro starts
      obtain ⟨back, eq⟩ := List.isPrefixOf_iff_prefix.mp starts
      have pieces := congrArg (List.splitOn sep) eq
      rw [List.append_assoc, List.singleton_append, List.splitOn_append_cons_self_of_not_mem free, ← List.cons_append,
        List.splitOn_append_cons_self_of_not_mem clean] at pieces
      rw [(List.cons.inj pieces).1] at other
      exact other (List.suffix_refl _)
    rw [List.cons_append, lastIndexOf, ih (fun member => clean (List.mem_cons_of_mem x member))
      fun ends => other (ends.trans (List.suffix_cons x line))]
    simp [here]

/-- The needle is found at the front when it stands nowhere behind it. -/
theorem lastIndexOf_front {needle rest : List α} {x : α} (starts : needle <+: x :: rest)
    (later : lastIndexOf needle rest = none) : lastIndexOf needle (x :: rest) = some 0 := by
  rw [lastIndexOf, later]
  simp [List.isPrefixOf_iff_prefix.mpr starts]

/-! The first place. -/

def indexOf (needle : List α) : List α → Option Nat
  | [] => if needle = [] then some 0 else none
  | x :: rest => if needle.isPrefixOf (x :: rest) then some 0 else (indexOf needle rest).map (· + 1)

theorem indexOf_here {needle s : List α} (starts : needle <+: s) : indexOf needle s = some 0 := by
  cases s with
  | nil => rw [List.prefix_nil.mp starts, indexOf, if_pos rfl]
  | cons x rest => rw [indexOf, if_pos (List.isPrefixOf_iff_prefix.mpr starts)]

theorem indexOf_step {needle rest : List α} {x : α} (apart : ¬needle <+: x :: rest) :
    indexOf needle (x :: rest) = (indexOf needle rest).map (· + 1) := by
  rw [indexOf, if_neg fun starts => apart (List.isPrefixOf_iff_prefix.mp starts)]

/-- Nothing begins in a stretch without the needle's first element. -/
theorem indexOf_skip {first : α} {needle before : List α} (absent : first ∉ before) (after : List α) :
    indexOf (first :: needle) (before ++ after) = (indexOf (first :: needle) after).map (· + before.length) := by
  induction before with
  | nil => cases h : indexOf (first :: needle) after <;> simp [h]
  | cons x rest ih =>
    have apart : ¬first :: needle <+: x :: (rest ++ after) := by
      rintro ⟨_, eq⟩
      exact absent ((List.cons.inj eq).1 ▸ List.mem_cons_self)
    rw [List.cons_append, indexOf_step apart, ih fun member => absent (List.mem_cons_of_mem x member)]
    cases indexOf (first :: needle) after with
    | none => rfl
    | some i => exact congrArg some (by simp only [List.length_cons]; omega)

theorem indexOf_absent {first : α} {needle s : List α} (absent : first ∉ s) : indexOf (first :: needle) s = none := by
  have skipped := @indexOf_skip _ _ first needle s absent []
  rw [List.append_nil] at skipped
  rw [skipped]
  rfl

theorem indexOf_infix {needle s : List α} (inside : needle <:+: s) : (indexOf needle s).isSome := by
  obtain ⟨before, after, rfl⟩ := inside
  induction before with
  | nil =>
    rw [List.nil_append, indexOf_here (List.prefix_append needle after)]
    rfl
  | cons x rest ih =>
    rw [List.cons_append, List.cons_append, indexOf]
    split
    · rfl
    · rwa [Option.isSome_map]

end TeeProof.Search
