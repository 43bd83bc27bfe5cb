import TeeProof.Assoc

/-! Finite maps as association lists in ascending key order, the content of a
`BTreeMap`. Insertion keeps the order; iteration is the list itself. -/
namespace TeeProof.OrdMap

variable {κ β : Type*} [LinearOrder κ]

def insert (key : κ) (value : β) : List (κ × β) → List (κ × β)
  | [] => [(key, value)]
  | (k, v) :: rest =>
    if key < k then (key, value) :: (k, v) :: rest
    else if key = k then (key, value) :: rest
    else (k, v) :: insert key value rest

def find (key : κ) : List (κ × β) → Option β
  | [] => none
  | (k, v) :: rest => if k = key then some v else find key rest

def contains (key : κ) (m : List (κ × β)) : Bool := (find key m).isSome

def erase (key : κ) : List (κ × β) → List (κ × β)
  | [] => []
  | (k, v) :: rest => if k = key then rest else (k, v) :: erase key rest

def values (m : List (κ × β)) : List β := m.map Prod.snd

def Sorted (m : List (κ × β)) : Prop := m.Pairwise fun p q => p.1 < q.1

@[simp] theorem find_nil (key : κ) : find key ([] : List (κ × β)) = none := rfl

theorem sorted_nil : Sorted ([] : List (κ × β)) := List.Pairwise.nil

/-- Keys stand once, so a lookup is membership. -/
theorem Sorted.nodup {m : List (κ × β)} (sorted : Sorted m) : (m.map Prod.fst).Nodup := by
  rw [List.Nodup, List.pairwise_map]
  exact sorted.imp fun less => less.ne

theorem find_eq_lookup [BEq κ] [LawfulBEq κ] (key : κ) (m : List (κ × β)) : find key m = m.lookup key := by
  induction m with
  | nil => rfl
  | cons p rest ih =>
    obtain ⟨k, v⟩ := p
    by_cases same : k = key
    · subst same
      simp [find]
    · have apart : (key == k) = false := beq_eq_false_iff_ne.mpr (Ne.symm same)
      simp [find, same, ih, List.lookup, apart]

theorem find_insert_self (key : κ) (value : β) (m : List (κ × β)) : find key (insert key value m) = some value := by
  induction m with
  | nil => simp [insert, find]
  | cons p rest ih =>
    obtain ⟨k, v⟩ := p
    rcases lt_trichotomy key k with less | rfl | more
    · simp [insert, find, less]
    · simp [insert, find]
    · simp [insert, find, not_lt_of_gt more, more.ne', more.ne, ih]

theorem find_insert_ne (key other : κ) (apart : other ≠ key) (value : β) (m : List (κ × β)) :
    find other (insert key value m) = find other m := by
  induction m with
  | nil => simp [insert, find, apart.symm]
  | cons p rest ih =>
    obtain ⟨k, v⟩ := p
    rcases lt_trichotomy key k with less | rfl | more
    · simp [insert, find, less, apart.symm]
    · simp [insert, find, apart.symm]
    · simp [insert, find, not_lt_of_gt more, ih, more.ne']

theorem find_insert (key other : κ) (value : β) (m : List (κ × β)) :
    find other (insert key value m) = if other = key then some value else find other m := by
  split
  next same => rw [same, find_insert_self]
  next apart => exact find_insert_ne key other apart value m

theorem mem_insert {key : κ} {value : β} {m : List (κ × β)} {p : κ × β} (member : p ∈ insert key value m) :
    p = (key, value) ∨ p ∈ m := by
  induction m with
  | nil => simpa [insert] using member
  | cons q rest ih =>
    obtain ⟨k, v⟩ := q
    unfold insert at member
    split at member
    next => simpa using member
    next =>
      split at member
      next => grind
      next => grind

theorem Sorted.insert {m : List (κ × β)} (sorted : Sorted m) (key : κ) (value : β) :
    Sorted (insert key value m) := by
  induction m with
  | nil => exact List.pairwise_singleton _ _
  | cons p rest ih =>
    obtain ⟨k, v⟩ := p
    obtain ⟨first, tail⟩ := List.pairwise_cons.mp sorted
    unfold OrdMap.insert
    split
    next less =>
      refine List.pairwise_cons.mpr ⟨fun q member => ?_, sorted⟩
      rcases List.mem_cons.mp member with rfl | later
      · exact less
      · exact less.trans (first q later)
    next notLess =>
      split
      next same =>
        subst same
        exact List.pairwise_cons.mpr ⟨first, tail⟩
      next apart =>
        refine List.pairwise_cons.mpr ⟨fun q member => ?_, ih tail⟩
        rcases mem_insert member with rfl | later
        · exact lt_of_le_of_ne (not_lt.mp notLess) (Ne.symm apart)
        · exact first q later

theorem find_of_mem {m : List (κ × β)} (sorted : Sorted m) {key : κ} {value : β} (member : (key, value) ∈ m) :
    find key m = some value := by
  rw [find_eq_lookup]
  exact Assoc.lookup_of_mem sorted.nodup member

theorem mem_of_find {m : List (κ × β)} {key : κ} {value : β} (found : find key m = some value) :
    (key, value) ∈ m := by
  rw [find_eq_lookup] at found
  exact Assoc.mem_of_lookup found

theorem erase_absent (key : κ) (m : List (κ × β)) (absent : ∀ p ∈ m, p.1 ≠ key) : erase key m = m := by
  induction m with
  | nil => rfl
  | cons p rest ih =>
    obtain ⟨k, v⟩ := p
    rw [erase, if_neg (absent (k, v) (by simp)), ih fun q member => absent q (List.mem_cons_of_mem _ member)]

/-- Taking an entry out before it is written again changes nothing. -/
theorem insert_erase {m : List (κ × β)} (sorted : Sorted m) (key : κ) (value : β) :
    insert key value (erase key m) = insert key value m := by
  induction m with
  | nil => rfl
  | cons p rest ih =>
    obtain ⟨k, v⟩ := p
    obtain ⟨first, tail⟩ := List.pairwise_cons.mp sorted
    by_cases same : k = key
    · subst same
      have front : insert k value rest = (k, value) :: rest := by
        cases rest with
        | nil => rfl
        | cons q rest => simp [insert, first q (by simp)]
      simp [erase, insert, front]
    · by_cases less : key < k
      · have absent : erase key rest = rest :=
          erase_absent key rest fun q member => (less.trans (first q member)).ne'
        simp [erase, same, insert, less, absent]
      · simp [erase, same, insert, less, Ne.symm same, ih tail]

/-- Writing back what is there changes nothing. -/
theorem insert_found {m : List (κ × β)} (sorted : Sorted m) {key : κ} {value : β} (found : find key m = some value) :
    insert key value m = m := by
  induction m with
  | nil => cases found
  | cons p rest ih =>
    obtain ⟨k, v⟩ := p
    obtain ⟨first, tail⟩ := List.pairwise_cons.mp sorted
    by_cases here : k = key
    · subst here
      simp only [find, if_true, Option.some.injEq] at found
      simp [insert, found]
    · have later : find key rest = some value := by simpa [find, here] using found
      have more : ¬key < k := not_lt_of_gt (first _ (mem_of_find later))
      simp [insert, more, Ne.symm here, ih tail later]

/-- The second of two writes under one key wins. -/
theorem insert_insert (key : κ) (v w : β) (m : List (κ × β)) : insert key w (insert key v m) = insert key w m := by
  induction m with
  | nil => simp [insert]
  | cons p rest ih =>
    obtain ⟨k, x⟩ := p
    rcases lt_trichotomy key k with less | rfl | more
    · simp [insert, less]
    · simp [insert]
    · simp [insert, not_lt_of_gt more, more.ne', ih]

/-- Writes under two keys, the lesser one last or first. -/
theorem insert_comm_lt {key other : κ} (first : key < other) (v w : β) (m : List (κ × β)) :
    insert key v (insert other w m) = insert other w (insert key v m) := by
  induction m with
  | nil => simp [insert, first, not_lt_of_gt first, first.ne']
  | cons p rest ih =>
    obtain ⟨k, x⟩ := p
    by_cases before : other < k
    · simp [insert, before, first, first.trans before, not_lt_of_gt first, first.ne']
    · by_cases here : other = k
      · subst here
        simp [insert, first, not_lt_of_gt first, first.ne']
      · rcases lt_trichotomy key k with less | rfl | more
        · simp [insert, before, here, less, not_lt_of_gt first, first.ne']
        · simp [insert, before, here]
        · simp [insert, before, here, not_lt_of_gt more, more.ne', ih]

theorem insert_comm {key other : κ} (apart : key ≠ other) (v w : β) (m : List (κ × β)) :
    insert key v (insert other w m) = insert other w (insert key v m) := by
  rcases lt_or_gt_of_ne apart with less | more
  · exact insert_comm_lt less v w m
  · exact (insert_comm_lt more w v m).symm

/-- The members before and after a key do not depend on what stands under it. -/
theorem insert_split (key : κ) (m : List (κ × β)) :
    ∃ front back, ∀ v, insert key v m = front ++ (key, v) :: back := by
  induction m with
  | nil => exact ⟨[], [], fun v => rfl⟩
  | cons p rest ih =>
    obtain ⟨k, x⟩ := p
    rcases lt_trichotomy key k with less | rfl | more
    · exact ⟨[], (k, x) :: rest, fun v => by simp [insert, less]⟩
    · exact ⟨[], rest, fun v => by simp [insert]⟩
    · obtain ⟨front, back, split⟩ := ih
      exact ⟨(k, x) :: front, back, fun v => by simp [insert, not_lt_of_gt more, more.ne', split]⟩

/-- Maps with the same lookups are the same list. -/
theorem eq_of_find [BEq κ] [LawfulBEq κ] {m n : List (κ × β)} (sortedM : Sorted m) (sortedN : Sorted n)
    (same : ∀ key, find key m = find key n) : m = n := by
  have perm : m.Perm n := by
    refine Assoc.perm_of_lookup sortedM.nodup sortedN.nodup fun key => ?_
    rw [← find_eq_lookup, ← find_eq_lookup, same]
  refine List.Perm.eq_of_pairwise (fun p q _ _ less more => ?_) sortedM sortedN perm
  exact absurd (less.trans more) (lt_irrefl _)

end TeeProof.OrdMap
