import Mathlib.Data.List.Basic

/-! Runs of events that concern different parts of a state. Where events of different keys commute,
the state at the end of a run is known from what the run holds of each key. -/
namespace TeeProof.Interleaving

variable {σ ε κ : Type*}

/-- A step on states that are compared by a relation; a state that is related to itself is a good one. -/
structure Commutes (step : σ → ε → σ) (same : σ → σ → Prop) (key : ε → κ) (good : ε → Prop) : Prop where
  trans : ∀ s t u, same s t → same t u → same s u
  congr : ∀ e s t, same s t → same (step s e) (step t e)
  comm : ∀ a b s, good a → good b → key a ≠ key b → same s s → same (step (step s a) b) (step (step s b) a)

section

variable {step : σ → ε → σ} {same : σ → σ → Prop} {key : ε → κ} {good : ε → Prop}

theorem Commutes.run (steps : Commutes step same key good) (events : List ε) {s t : σ} (related : same s t) :
    same (events.foldl step s) (events.foldl step t) := by
  induction events generalizing s t with
  | nil => exact related
  | cons e rest ih => exact ih (steps.congr e s t related)

/-- An event goes to the front of events of other keys. -/
theorem Commutes.front (steps : Commutes step same key good) {e : ε} (own : good e) {events : List ε}
    (all : ∀ a ∈ events, good a) (apart : ∀ a ∈ events, key a ≠ key e) {s : σ} (fine : same s s) :
    same ((events ++ [e]).foldl step s) ((e :: events).foldl step s) := by
  induction events generalizing s with
  | nil => exact steps.congr e s s fine
  | cons a rest ih =>
    rw [List.forall_mem_cons] at all apart
    have moved := ih all.2 apart.2 (steps.congr a s s fine)
    have swapped := steps.comm a e s all.1 own apart.1 fine
    exact steps.trans _ _ _ moved (steps.run rest swapped)

variable [DecidableEq κ]

/-- The two runs hold the same events of every key, in the same order. -/
def SameByKey (key : ε → κ) (run other : List ε) : Prop :=
  ∀ k, run.filter (fun e => key e = k) = other.filter (fun e => key e = k)

/-- A run that holds an event of a key holds a first one. -/
theorem split_first {e : ε} {rest run : List ε} (held : run.filter (fun a => key a = key e) = e :: rest) :
    ∃ before after, run = before ++ e :: after ∧ ∀ a ∈ before, key a ≠ key e := by
  obtain ⟨before, after, split, none, -, -⟩ := List.filter_eq_cons_iff.mp held
  exact ⟨before, after, split, fun a member => by simpa using none a member⟩

theorem SameByKey.nil_left {run : List ε} (same : SameByKey key [] run) : run = [] := by
  cases run with
  | nil => rfl
  | cons e rest =>
    have held := same (key e)
    rw [List.filter_nil, List.filter_cons_of_pos (by simp)] at held
    cases held

theorem SameByKey.tail {e : ε} {run before after : List ε} (same : SameByKey key (e :: run) (before ++ e :: after))
    (apart : ∀ a ∈ before, key a ≠ key e) : SameByKey key run (before ++ after) := by
  intro k
  have held := same k
  by_cases here : key e = k
  · subst here
    have none : before.filter (fun a => key a = key e) = [] := List.filter_eq_nil_iff.mpr (by simpa using apart)
    rw [List.filter_cons_of_pos (by simp), List.filter_append, none, List.filter_cons_of_pos (by simp)] at held
    rw [List.filter_append, none]
    exact (List.cons.inj held).2
  · rw [List.filter_cons_of_neg (by simpa using here), List.filter_append, List.filter_cons_of_neg (by simpa using here)]
      at held
    rw [held, List.filter_append]

/-- Two events of different keys in either order. -/
theorem SameByKey.swap {a b : ε} (apart : key a ≠ key b) : SameByKey key [a, b] [b, a] := by
  intro k
  by_cases first : key a = k
  · have second : key b ≠ k := fun same => apart (first.trans same.symm)
    simp [first, second]
  · simp [first, List.filter_cons]

/-- Runs that hold the same events of every key end alike. -/
theorem Commutes.interleaved (steps : Commutes step same key good) {run other : List ε} (all : ∀ a ∈ other, good a)
    (held : SameByKey key run other) {s : σ} (fine : same s s) : same (other.foldl step s) (run.foldl step s) := by
  induction run generalizing other s with
  | nil =>
    obtain rfl := held.nil_left
    exact fine
  | cons e rest ih =>
    have first := (held (key e)).symm
    rw [List.filter_cons_of_pos (by simp)] at first
    obtain ⟨before, after, rfl, apart⟩ := split_first first
    have goodBefore : ∀ a ∈ before, good a := fun a member => all a (List.mem_append_left _ member)
    have goodAfter : ∀ a ∈ after, good a := fun a member =>
      all a (List.mem_append_right _ (List.mem_cons_of_mem _ member))
    have moved := steps.front (all e (List.mem_append_right _ List.mem_cons_self)) goodBefore apart fine
    have later := steps.run after moved
    rw [← List.foldl_append, ← List.foldl_append, List.append_assoc, List.singleton_append] at later
    refine steps.trans _ _ _ later ?_
    exact ih (List.forall_mem_append.mpr ⟨goodBefore, goodAfter⟩) (held.tail apart) (steps.congr e s s fine)

/-- Such runs stand for each other inside a longer run. -/
theorem Commutes.inside (steps : Commutes step same key good) {run other : List ε} (all : ∀ a ∈ other, good a)
    (held : SameByKey key run other) (before after : List ε) {s : σ} (fine : same s s) :
    same ((before ++ other ++ after).foldl step s) ((before ++ run ++ after).foldl step s) := by
  simp only [List.foldl_append]
  exact steps.run after (steps.interleaved all held (steps.run before fine))

end

end TeeProof.Interleaving
