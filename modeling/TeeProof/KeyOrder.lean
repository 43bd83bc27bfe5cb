import TeeProof.Agreement
import TeeProof.JsonTree

/-! The order in which a sorted object of the verifier is written: array indices by
number, then the other keys by code units, and `__proto__` not at all. -/
namespace TeeProof.JStr

theorem le_total (s t : JStr) : le s t = true ∨ le t s = true := by
  induction s generalizing t with
  | nil => exact .inl rfl
  | cons u s ih =>
    cases t with
    | nil => exact .inr rfl
    | cons v t =>
      by_cases same : u = v
      · subst same
        simpa [le] using ih t
      · have apart : u.toNat ≠ v.toNat := fun eq => same (UInt16.toNat_inj.mp eq)
        simp only [le, same, Ne.symm same, if_false, decide_eq_true_eq]
        omega

theorem le_trans {s t r : JStr} (first : le s t = true) (second : le t r = true) : le s r = true := by
  induction s generalizing t r with
  | nil => rfl
  | cons u s ih =>
    cases t with
    | nil => simp [le] at first
    | cons v t =>
      cases r with
      | nil => simp [le] at second
      | cons w r =>
        simp only [le] at first second ⊢
        by_cases uv : u = v
        · subst uv
          by_cases uw : u = w
          · subst uw
            simp only [if_true] at first second ⊢
            exact ih first second
          · simpa only [uw, if_false] using second
        · by_cases vw : v = w
          · subst vw
            simpa only [uv, if_false] using first
          · simp only [uv, vw, if_false, decide_eq_true_eq] at first second
            have apart : u ≠ w := by
              rintro rfl
              omega
            simp only [apart, if_false, decide_eq_true_eq]
            omega

theorem le_antisymm {s t : JStr} (first : le s t = true) (second : le t s = true) : s = t := by
  induction s generalizing t with
  | nil =>
    cases t with
    | nil => rfl
    | cons v t => simp [le] at second
  | cons u s ih =>
    cases t with
    | nil => simp [le] at first
    | cons v t =>
      by_cases same : u = v
      · subst same
        simp only [le, if_true] at first second
        rw [ih first second]
      · simp only [le, same, Ne.symm same, if_false, decide_eq_true_eq] at first second
        omega

end TeeProof.JStr

namespace TeeProof.Verifier

open JsVal

variable {α β : Type}

/-- The key `a` is written before the key `b`. -/
def writtenBefore (a b : JStr) : Bool :=
  match indexOfKey a, indexOfKey b with
  | some i, some j => i ≤ j
  | some _, none => true
  | none, some _ => false
  | none, none => JStr.le a b

theorem indexOfKey_digits {key : JStr} {n : Nat} (index : indexOfKey key = some n) : key = JStr.natDigits n := by
  simp only [indexOfKey] at index
  split at index
  next digits =>
    cases index
    exact digits.1.symm
  next => cases index

theorem writtenBefore_antisymm {a b : JStr} (first : writtenBefore a b = true) (second : writtenBefore b a = true) :
    a = b := by
  cases i : indexOfKey a with
  | some m =>
    cases j : indexOfKey b with
    | some n =>
      simp only [writtenBefore, i, j, decide_eq_true_eq] at first second
      rw [indexOfKey_digits i, indexOfKey_digits j, Nat.le_antisymm first second]
    | none => simp [writtenBefore, i, j] at second
  | none =>
    cases j : indexOfKey b with
    | some n => simp [writtenBefore, i, j] at first
    | none =>
      simp only [writtenBefore, i, j] at first second
      exact JStr.le_antisymm first second

/-- What is written of a list of members, and in which order. -/
def arranged (members : List (JStr × α)) : List (JStr × α) :=
  enumerate ((members.insertionSort fun p q => JStr.le p.1 q.1).filter fun p => p.1 ≠ protoKey)

theorem arranged_perm (members : List (JStr × α)) :
    (arranged members).Perm (members.filter fun p => p.1 ≠ protoKey) :=
  (enumerate_perm _).trans ((List.perm_insertionSort _ members).filter _)

theorem enumerate_ordered {members : List (JStr × α)} (sorted : members.Pairwise fun p q => JStr.le p.1 q.1 = true) :
    (enumerate members).Pairwise fun p q => writtenBefore p.1 q.1 = true := by
  have total : Std.Total fun p q : JStr × α => (indexOfKey p.1).getD 0 ≤ (indexOfKey q.1).getD 0 :=
    ⟨fun p q => Nat.le_total _ _⟩
  have trans : IsTrans (JStr × α) fun p q => (indexOfKey p.1).getD 0 ≤ (indexOfKey q.1).getD 0 :=
    ⟨fun p q r => Nat.le_trans⟩
  have indices := List.pairwise_insertionSort (fun p q : JStr × α => (indexOfKey p.1).getD 0 ≤ (indexOfKey q.1).getD 0)
    (members.filter fun p => (indexOfKey p.1).isSome)
  have numbered {p : JStr × α} (member : p ∈ (members.filter fun p => (indexOfKey p.1).isSome).insertionSort
      fun p q => (indexOfKey p.1).getD 0 ≤ (indexOfKey q.1).getD 0) : ∃ n, indexOfKey p.1 = some n := by
    rw [(List.perm_insertionSort _ _).mem_iff, List.mem_filter] at member
    exact Option.isSome_iff_exists.mp member.2
  have named {p : JStr × α} (member : p ∈ members.filter fun p => (indexOfKey p.1).isNone) : indexOfKey p.1 = none :=
    Option.isNone_iff_eq_none.mp (List.mem_filter.mp member).2
  refine List.pairwise_append.mpr ⟨?_, ?_, ?_⟩
  · refine indices.imp_of_mem ?_
    intro p q inside inside' ordered
    obtain ⟨m, i⟩ := numbered inside
    obtain ⟨n, j⟩ := numbered inside'
    simpa [writtenBefore, i, j] using ordered
  · refine (sorted.filter _).imp_of_mem ?_
    intro p q inside inside' ordered
    simpa [writtenBefore, named inside, named inside'] using ordered
  · intro p inside q inside'
    obtain ⟨m, i⟩ := numbered inside
    simp [writtenBefore, i, named inside']

theorem arranged_ordered (members : List (JStr × α)) :
    (arranged members).Pairwise fun p q => writtenBefore p.1 q.1 = true := by
  have total : Std.Total fun p q : JStr × α => JStr.le p.1 q.1 = true := ⟨fun p q => JStr.le_total _ _⟩
  have trans : IsTrans (JStr × α) fun p q => JStr.le p.1 q.1 = true := ⟨fun p q r => JStr.le_trans⟩
  exact enumerate_ordered ((List.pairwise_insertionSort _ members).filter _)

theorem map_fst_map (f : α → β) (members : List (JStr × α)) :
    (members.map (Prod.map id f)).map Prod.fst = members.map Prod.fst := by
  rw [List.map_map]
  rfl

theorem enumerate_map (f : α → β) (members : List (JStr × α)) :
    enumerate (members.map (Prod.map id f)) = (enumerate members).map (Prod.map id f) := by
  simp only [enumerate, List.filter_map, List.map_append]
  rw [List.map_insertionSort (s := fun p q => (indexOfKey p.1).getD 0 ≤ (indexOfKey q.1).getD 0) _ _ _
    (by intros; rfl)]
  rfl

theorem arranged_map (f : α → β) (members : List (JStr × α)) :
    arranged (members.map (Prod.map id f)) = (arranged members).map (Prod.map id f) := by
  simp only [arranged]
  rw [← List.map_insertionSort (r := fun p q => JStr.le p.1 q.1) _ _ _ (by intros; rfl), List.filter_map, enumerate_map]
  rfl

/-- Two orders of members whose keys stand once are one order. -/
theorem ordered_unique {l r : List (JStr × α)} (nodup : (l.map Prod.fst).Nodup)
    (left : l.Pairwise fun p q => writtenBefore p.1 q.1 = true)
    (right : r.Pairwise fun p q => writtenBefore p.1 q.1 = true) (perm : l.Perm r) : l = r := by
  refine List.Perm.eq_of_pairwise ?_ left right perm
  rintro ⟨a, x⟩ ⟨b, y⟩ inside inside' first second
  obtain rfl : a = b := writtenBefore_antisymm first second
  have found := Assoc.lookup_of_mem nodup inside
  rw [Assoc.lookup_of_mem nodup (perm.mem_iff.mpr inside'), Option.some.injEq] at found
  rw [found]

/-- The arrangement depends on what is written alone. -/
theorem arranged_congr {l r : List (JStr × α)} (nodup : (l.map Prod.fst).Nodup)
    (perm : (l.filter fun p => p.1 ≠ protoKey).Perm (r.filter fun p => p.1 ≠ protoKey)) : arranged l = arranged r := by
  have same := (arranged_perm l).trans (perm.trans (arranged_perm r).symm)
  have once : ((arranged l).map Prod.fst).Nodup :=
    ((arranged_perm l).map _).nodup_iff.mpr ((List.filter_sublist.map _).nodup nodup)
  exact ordered_unique once (arranged_ordered l) (arranged_ordered r) same

theorem filter_proto {l : List (JStr × α)} (safe : protoKey ∉ l.map Prod.fst) :
    (l.filter fun p => p.1 ≠ protoKey) = l := by
  refine List.filter_eq_self.mpr ?_
  intro p inside
  simpa using fun same : p.1 = protoKey => safe (same ▸ List.mem_map_of_mem inside)

/-- Members come out as another writer lists the same keys exactly when no key is
`__proto__`, that list is in the order of the writing, and the members are the same. -/
theorem arranged_eq_iff {members l r : List (JStr × α)} (perm : members.Perm l) (nodup : (l.map Prod.fst).Nodup)
    (keys : l.map Prod.fst = r.map Prod.fst) :
    arranged members = r ↔ protoKey ∉ r.map Prod.fst ∧
      (r.map Prod.fst).Pairwise (fun a b => writtenBefore a b = true) ∧ l = r := by
  have same := (arranged_perm members).trans (perm.filter _)
  constructor
  · rintro rfl
    have safe : protoKey ∉ (arranged members).map Prod.fst := by
      intro member
      obtain ⟨p, inside, key⟩ := List.mem_map.mp member
      rw [(arranged_perm members).mem_iff, List.mem_filter] at inside
      simp [key] at inside
    have ordered := arranged_ordered members
    rw [filter_proto (keys ▸ safe)] at same
    refine ⟨safe, List.pairwise_map.mpr ordered, ordered_unique nodup ?_ ordered same.symm⟩
    rw [← List.pairwise_map (f := Prod.fst) (R := fun a b => writtenBefore a b = true), keys, List.pairwise_map]
    exact ordered
  · rintro ⟨safe, ordered, rfl⟩
    rw [filter_proto safe] at same
    exact ordered_unique ((same.map _).nodup_iff.mpr nodup) (arranged_ordered members)
      (List.pairwise_map.mp ordered) same

end TeeProof.Verifier
