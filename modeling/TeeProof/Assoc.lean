import Mathlib

/-! Association lists whose keys stand once, and loops over them in which the step of
one key reads and writes that key alone: the order of such a loop is of no account. -/
namespace TeeProof.Assoc

variable {κ α β σ : Type*}

section Lookup

variable [BEq κ] [LawfulBEq κ]

theorem mem_of_lookup {l : List (κ × α)} {key : κ} {value : α} (found : l.lookup key = some value) :
    (key, value) ∈ l := by
  obtain ⟨before, after, rfl, -⟩ := List.lookup_eq_some_iff.mp found
  simp

theorem lookup_of_mem {l : List (κ × α)} (nodup : (l.map Prod.fst).Nodup) {key : κ} {value : α}
    (member : (key, value) ∈ l) : l.lookup key = some value := by
  induction l with
  | nil => simp at member
  | cons p rest ih =>
    obtain ⟨k, v⟩ := p
    rw [List.map_cons, List.nodup_cons] at nodup
    rcases List.mem_cons.mp member with same | later
    · cases same
      simp
    · have apart : (key == k) = false := by
        rw [beq_eq_false_iff_ne]
        rintro rfl
        exact nodup.1 (List.mem_map.mpr ⟨_, later, rfl⟩)
      rw [List.lookup_cons, apart]
      exact ih nodup.2 later

theorem lookup_isSome {l : List (κ × α)} {key : κ} : (l.lookup key).isSome ↔ key ∈ l.map Prod.fst := by
  induction l with
  | nil => simp
  | cons p rest ih =>
    obtain ⟨k, v⟩ := p
    by_cases same : key = k
    · simp [List.lookup, same]
    · have apart : (key == k) = false := beq_eq_false_iff_ne.mpr same
      simp [List.lookup, apart, ih, same]

theorem lookup_eq_none {l : List (κ × α)} {key : κ} : l.lookup key = none ↔ key ∉ l.map Prod.fst := by
  rw [← lookup_isSome, Option.not_isSome_iff_eq_none]

theorem lookup_perm {l l' : List (κ × α)} (perm : l.Perm l') (nodup : (l.map Prod.fst).Nodup) (key : κ) :
    l.lookup key = l'.lookup key := by
  have nodup' : (l'.map Prod.fst).Nodup := (perm.map _).nodup_iff.mp nodup
  cases found : l.lookup key with
  | some value => exact (lookup_of_mem nodup' (perm.mem_iff.mp (mem_of_lookup found))).symm
  | none =>
    rw [lookup_eq_none] at found
    exact (lookup_eq_none.mpr fun member => found ((perm.map _).mem_iff.mpr member)).symm

omit [LawfulBEq κ] in
theorem lookup_map (f : α → β) (l : List (κ × α)) (key : κ) :
    (l.map (Prod.map id f)).lookup key = (l.lookup key).map f := by
  induction l with
  | nil => rfl
  | cons p rest ih =>
    obtain ⟨k, v⟩ := p
    rw [List.map_cons, Prod.map, id, List.lookup_cons, List.lookup_cons, ih]
    cases key == k <;> rfl

/-- Lists that answer every lookup alike have the same entries. -/
theorem perm_of_lookup {l l' : List (κ × α)} (nodup : (l.map Prod.fst).Nodup) (nodup' : (l'.map Prod.fst).Nodup)
    (same : ∀ key, l.lookup key = l'.lookup key) : l.Perm l' := by
  refine (List.perm_ext_iff_of_nodup nodup.of_map nodup'.of_map).mpr ?_
  rintro ⟨key, value⟩
  constructor
  · intro member
    exact mem_of_lookup (same key ▸ lookup_of_mem nodup member)
  · intro member
    exact mem_of_lookup ((same key).symm ▸ lookup_of_mem nodup' member)

end Lookup

section Loop

variable [DecidableEq κ] (get : σ → κ → Option β) (keeps : σ → Prop) (step : σ → κ × α → σ)
  (revise : κ → Option β → α → Option β)

/-- A loop whose steps keep `keeps` and revise one key each. -/
structure Revises (l : List (κ × α)) : Prop where
  keep : ∀ s, keeps s → ∀ p ∈ l, keeps (step s p)
  one : ∀ s, keeps s → ∀ p ∈ l, ∀ key,
    get (step s p) key = if key = p.1 then revise key (get s key) p.2 else get s key

variable {get keeps step revise}

theorem Revises.tail {p : κ × α} {l : List (κ × α)} (loop : Revises get keeps step revise (p :: l)) :
    Revises get keeps step revise l where
  keep s kept q member := loop.keep s kept q (List.mem_cons_of_mem _ member)
  one s kept q member := loop.one s kept q (List.mem_cons_of_mem _ member)

theorem Revises.kept {l : List (κ × α)} (loop : Revises get keeps step revise l) (s : σ) (start : keeps s) :
    keeps (l.foldl step s) := by
  induction l generalizing s with
  | nil => exact start
  | cons p rest ih => exact ih loop.tail _ (loop.keep s start p (by simp))

/-- What such a loop leaves under a key. -/
theorem Revises.get_foldl [BEq κ] [LawfulBEq κ] {l : List (κ × α)} (loop : Revises get keeps step revise l)
    (nodup : (l.map Prod.fst).Nodup) (s : σ) (start : keeps s) (key : κ) :
    get (l.foldl step s) key =
      match l.lookup key with
      | some value => revise key (get s key) value
      | none => get s key := by
  induction l generalizing s with
  | nil => rfl
  | cons p rest ih =>
    obtain ⟨k, v⟩ := p
    rw [List.map_cons, List.nodup_cons] at nodup
    have first := loop.one s start (k, v) (by simp) key
    rw [List.foldl_cons, ih loop.tail nodup.2 _ (loop.keep s start (k, v) (by simp)), first]
    by_cases same : key = k
    · subst same
      have absent : rest.lookup key = none := lookup_eq_none.mpr nodup.1
      simp [absent]
    · have apart : (key == k) = false := beq_eq_false_iff_ne.mpr same
      simp [List.lookup_cons, apart, same]

end Loop

end TeeProof.Assoc
