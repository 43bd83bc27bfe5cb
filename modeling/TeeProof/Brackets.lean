import Mathlib.Data.List.Induction
import Mathlib.Data.List.Pairwise
import Mathlib.Data.List.Sort

/-! Words of opening and closing marks: the groups that balance, a scan with a stack that
finds them all, and the outermost ones of a family of intervals. -/
namespace TeeProof.Brackets

inductive Mark where
  | opening
  | closing
  | plain
  deriving DecidableEq

abbrev Word := List Mark

inductive Balanced : Word → Prop
  | nil : Balanced []
  | plain {rest : Word} : Balanced rest → Balanced (.plain :: rest)
  | group {inner rest : Word} : Balanced inner → Balanced rest → Balanced (.opening :: (inner ++ .closing :: rest))

/-- From `start` up to, not including, `stop`. -/
structure Span where
  start : Nat
  stop : Nat
  deriving DecidableEq

/-- The marks of the span: an opening one, a balanced word and the closing one. -/
def IsGroup (word : Word) (s : Span) : Prop :=
  ∃ before inner after, word = before ++ .opening :: (inner ++ .closing :: after) ∧ Balanced inner ∧
    s = ⟨before.length, before.length + inner.length + 2⟩

/-- One span lies inside the other. -/
def Span.Inside (s t : Span) : Prop := t.start ≤ s.start ∧ s.stop ≤ t.stop

def Span.Apart (s t : Span) : Prop := s.stop ≤ t.start ∨ t.stop ≤ s.start

theorem Balanced.append {a b : Word} (left : Balanced a) (right : Balanced b) : Balanced (a ++ b) := by
  induction left with
  | nil => exact right
  | plain _ ih => exact .plain ih
  | group inner _ _ ih =>
    rw [List.cons_append, List.append_assoc, List.cons_append]
    exact .group inner ih

theorem balanced_plain {word : Word} (all : ∀ m ∈ word, m = .plain) : Balanced word := by
  induction word with
  | nil => exact .nil
  | cons m rest ih =>
    obtain rfl := all m List.mem_cons_self
    exact .plain (ih fun x member => all x (List.mem_cons_of_mem _ member))

theorem balanced_group {inner : Word} (balanced : Balanced inner) : Balanced (.opening :: (inner ++ [.closing])) :=
  .group balanced .nil

/-! The scan -/

structure Scan where
  position : Nat
  stack : List Nat
  spans : List Span

def Scan.init : Scan := ⟨0, [], []⟩

def step (s : Scan) : Mark → Scan
  | .opening => { s with position := s.position + 1, stack := s.position :: s.stack }
  | .closing =>
    match s.stack with
    | [] => { s with position := s.position + 1 }
    | start :: rest => ⟨s.position + 1, rest, s.spans ++ [⟨start, s.position + 1⟩]⟩
  | .plain => { s with position := s.position + 1 }

def scan (word : Word) : Scan := word.foldl step .init

theorem step_closing_nil {s : Scan} (top : s.stack = []) : step s .closing = { s with position := s.position + 1 } := by
  simp only [step, top]

theorem step_closing_cons {s : Scan} {start : Nat} {rest : List Nat} (top : s.stack = start :: rest) :
    step s .closing = ⟨s.position + 1, rest, s.spans ++ [⟨start, s.position + 1⟩]⟩ := by
  simp only [step, top]

/-- Unmatched opening marks, each with a balanced word behind it. -/
inductive Waiting : Word → List Nat → Prop
  | bottom (word : Word) : Waiting word []
  | push {word inner : Word} {stack : List Nat} : Waiting word stack → Balanced inner →
      Waiting (word ++ .opening :: inner) (word.length :: stack)

theorem Waiting.append {word more : Word} {stack : List Nat} (waiting : Waiting word stack) (balanced : Balanced more) :
    Waiting (word ++ more) stack := by
  cases waiting with
  | bottom => exact .bottom _
  | push below inner =>
    rw [List.append_assoc, List.cons_append]
    exact .push below (inner.append balanced)

theorem IsGroup.append {word : Word} {s : Span} (group : IsGroup word s) (more : Word) : IsGroup (word ++ more) s := by
  obtain ⟨before, inner, after, rfl, balanced, place⟩ := group
  exact ⟨before, inner, after ++ more, by simp, balanced, place⟩

/-- What holds of the scan of a word. -/
structure Scanned (word : Word) (s : Scan) : Prop where
  position : s.position = word.length
  waiting : Waiting word s.stack
  groups : ∀ span ∈ s.spans, IsGroup word span

theorem Scanned.step {word : Word} {s : Scan} (scanned : Scanned word s) (m : Mark) : Scanned (word ++ [m]) (step s m) := by
  have kept : ∀ span ∈ s.spans, IsGroup (word ++ [m]) span := fun span member => (scanned.groups span member).append [m]
  have next : s.position + 1 = (word ++ [m]).length := by rw [scanned.position, List.length_append, List.length_singleton]
  cases m with
  | opening =>
    refine ⟨next, ?_, kept⟩
    have pushed := Waiting.push scanned.waiting .nil
    rwa [← scanned.position] at pushed
  | plain => exact ⟨next, scanned.waiting.append (.plain .nil), kept⟩
  | closing =>
    cases top : s.stack with
    | nil =>
      rw [step_closing_nil top]
      exact ⟨next, top ▸ .bottom _, kept⟩
    | cons start rest =>
      obtain ⟨position, waiting, groups⟩ := scanned
      rw [top] at waiting
      rw [step_closing_cons top]
      cases waiting with
      | @push below inner _ beneath balanced =>
        refine ⟨next, ?_, ?_⟩
        · rw [List.append_assoc, List.cons_append]
          exact beneath.append (balanced_group balanced)
        · intro span member
          rcases List.mem_append.mp member with old | new
          · exact kept span old
          · obtain rfl := List.mem_singleton.mp new
            refine ⟨below, inner, [], by simp, balanced, ?_⟩
            rw [position, List.length_append, List.length_cons]
            rfl

theorem scanned (word : Word) : Scanned word (scan word) := by
  induction word using List.reverseRecOn with
  | nil => exact ⟨rfl, .bottom _, nofun⟩
  | append_singleton front m ih =>
    rw [scan, List.foldl_concat]
    exact ih.step m

theorem step_position (s : Scan) (m : Mark) : (step s m).position = s.position + 1 := by
  unfold step
  split
  · rfl
  · split <;> rfl
  · rfl

theorem step_spans (s : Scan) (m : Mark) : s.spans ⊆ (step s m).spans := by
  unfold step
  split
  · exact List.Subset.refl _
  · split
    · exact List.Subset.refl _
    · exact List.subset_append_left _ _
  · exact List.Subset.refl _

theorem foldl_position (word : Word) (s : Scan) : (word.foldl step s).position = s.position + word.length := by
  induction word generalizing s with
  | nil => rfl
  | cons m rest ih =>
    rw [List.foldl_cons, ih, step_position, List.length_cons]
    omega

theorem foldl_spans (word : Word) (s : Scan) : s.spans ⊆ (word.foldl step s).spans := by
  induction word generalizing s with
  | nil => exact List.Subset.refl _
  | cons m rest ih => exact List.Subset.trans (step_spans s m) (ih (step s m))

/-- A balanced word leaves the stack as it was. -/
theorem foldl_stack {word : Word} (balanced : Balanced word) (s : Scan) : (word.foldl step s).stack = s.stack := by
  induction balanced generalizing s with
  | nil => rfl
  | plain _ ih => exact ih _
  | @group inner rest _ _ inside behind =>
    rw [List.foldl_cons, List.foldl_append, List.foldl_cons, behind]
    have top := inside (step s .opening)
    generalize inner.foldl step (step s .opening) = reached at top
    have pushed : (step s .opening).stack = s.position :: s.stack := rfl
    rw [pushed] at top
    rw [step_closing_cons top]

/-- The scan finds the groups of the word, and nothing else. -/
theorem mem_scan_iff (word : Word) (s : Span) : s ∈ (scan word).spans ↔ IsGroup word s := by
  refine ⟨(scanned word).groups s, ?_⟩
  rintro ⟨before, inner, after, rfl, balanced, rfl⟩
  rw [scan, List.foldl_append, List.foldl_cons, List.foldl_append, List.foldl_cons]
  apply foldl_spans after
  have place : (before.foldl step .init).position = before.length := by rw [foldl_position, Scan.init, Nat.zero_add]
  generalize before.foldl step .init = front at place
  have top := foldl_stack balanced (step front .opening)
  have reached := foldl_position inner (step front .opening)
  rw [step_position, place] at reached
  generalize inner.foldl step (step front .opening) = found at top reached
  have pushed : (step front .opening).stack = before.length :: front.stack := by rw [← place]; rfl
  rw [pushed] at top
  rw [step_closing_cons top, reached]
  dsimp only
  have stop : before.length + 1 + inner.length + 1 = before.length + inner.length + 2 := by omega
  rw [stop]
  exact List.mem_append_right _ List.mem_cons_self

/-! Groups do not cross -/

def depth : Word → Int
  | [] => 0
  | .opening :: rest => depth rest + 1
  | .closing :: rest => depth rest - 1
  | .plain :: rest => depth rest

theorem depth_append (a b : Word) : depth (a ++ b) = depth a + depth b := by
  induction a with
  | nil => simp [depth]
  | cons m rest ih => cases m <;> simp only [List.cons_append, depth, ih] <;> omega

theorem Balanced.level {word : Word} (balanced : Balanced word) :
    depth word = 0 ∧ ∀ n, 0 ≤ depth (word.take n) := by
  induction balanced with
  | nil => exact ⟨rfl, fun n => by simp [depth]⟩
  | plain _ ih =>
    refine ⟨ih.1, fun n => ?_⟩
    cases n with
    | zero => exact le_rfl
    | succ n => exact ih.2 n
  | @group inner rest _ _ inside behind =>
    have whole : depth (inner ++ .closing :: rest) = -1 := by
      rw [depth_append, inside.1, depth, behind.1]
      rfl
    refine ⟨by rw [depth, whole]; rfl, fun n => ?_⟩
    cases n with
    | zero => exact le_rfl
    | succ n =>
      rw [List.take_succ_cons, depth, List.take_append, depth_append]
      have front := inside.2 n
      cases gap : n - inner.length with
      | zero =>
        rw [List.take_zero, depth]
        omega
      | succ m =>
        have all : inner.take n = inner := List.take_of_length_le (by omega)
        have back := behind.2 m
        rw [all, inside.1, List.take_succ_cons, depth]
        omega

/-- Between its ends a group is deeper than at them. -/
theorem IsGroup.deeper {word : Word} {s : Span} (group : IsGroup word s) :
    s.start < s.stop ∧ depth (word.take s.stop) = depth (word.take s.start) ∧
      ∀ n, s.start < n → n < s.stop → depth (word.take s.start) < depth (word.take n) := by
  obtain ⟨before, inner, after, rfl, balanced, rfl⟩ := group
  have start : depth ((before ++ .opening :: (inner ++ .closing :: after)).take before.length) = depth before := by
    rw [List.take_left]
  have within (m : Nat) (small : m ≤ inner.length) :
      depth ((before ++ .opening :: (inner ++ .closing :: after)).take (before.length + (m + 1))) =
        depth before + 1 + depth (inner.take m) := by
    rw [List.take_append, List.take_of_length_le (by omega), Nat.add_sub_cancel_left, List.take_succ_cons,
      List.take_append_of_le_length small, depth_append, depth]
    omega
  refine ⟨by dsimp only; omega, ?_, ?_⟩
  · dsimp only
    have stop : before.length + inner.length + 2 = (before ++ Mark.opening :: (inner ++ [Mark.closing])).length := by
      simp only [List.length_append, List.length_cons, List.length_nil]
      omega
    have layout : before ++ .opening :: (inner ++ .closing :: after) = before ++ .opening :: (inner ++ [.closing]) ++ after := by simp
    rw [start, stop, layout, List.take_left, depth_append, depth, depth_append, balanced.level.1]
    simp [depth]
  · intro n above below
    dsimp only at above below ⊢
    obtain ⟨m, rfl⟩ : ∃ m, n = before.length + (m + 1) := ⟨n - before.length - 1, by omega⟩
    have deep := balanced.level.2 m
    rw [start, within m (by omega)]
    omega

/-- Two groups of one word are the same, apart, or one inside the other, with no end shared. -/
theorem IsGroup.laminar {word : Word} {s t : Span} (left : IsGroup word s) (right : IsGroup word t) :
    s = t ∨ s.Apart t ∨ (s.start < t.start ∧ t.stop < s.stop) ∨ (t.start < s.start ∧ s.stop < t.stop) := by
  obtain ⟨orderS, levelS, deepS⟩ := left.deeper
  obtain ⟨orderT, levelT, deepT⟩ := right.deeper
  have sT := deepS t.start
  have sT' := deepS t.stop
  have tS := deepT s.start
  have tS' := deepT s.stop
  by_cases starts : s.start = t.start
  · have stops : s.stop = t.stop := by
      rw [starts] at levelS sT'
      omega
    exact .inl (by cases s; cases t; simp_all)
  · by_cases stops : s.stop = t.stop
    · rw [stops] at levelS tS'
      omega
    · simp only [Span.Apart]
      omega

/-! Outermost spans -/

/-- By start, and the longer one first. -/
def Span.Before (s t : Span) : Prop := s.start < t.start ∨ (s.start = t.start ∧ t.stop - t.start ≤ s.stop - s.start)

instance (s t : Span) : Decidable (s.Before t) := inferInstanceAs (Decidable (_ ∨ _))

instance : Std.Total Span.Before := ⟨fun s t => by simp only [Span.Before]; omega⟩

instance : IsTrans Span Span.Before := ⟨fun s t u => by simp only [Span.Before]; omega⟩

/-- Those that reach beyond `covered`, the end of the last one kept. -/
def keep : Int → List Span → List Span
  | _, [] => []
  | covered, s :: rest => if (s.stop : Int) ≤ covered then keep covered rest else s :: keep s.stop rest

def outermost (spans : List Span) : List Span := keep (-1) (spans.insertionSort Span.Before)

theorem keep_subset (covered : Int) (spans : List Span) : keep covered spans ⊆ spans := by
  fun_induction keep covered spans with
  | case1 => exact List.Subset.refl _
  | case2 covered s rest _ ih => exact List.subset_cons_of_subset s ih
  | case3 covered s rest _ ih => exact List.cons_subset_cons s ih

theorem keep_beyond (covered : Int) (spans : List Span) : ∀ s ∈ keep covered spans, covered < s.stop := by
  fun_induction keep covered spans with
  | case1 => nofun
  | case2 covered s rest _ ih => exact ih
  | case3 covered s rest short ih =>
    intro t member
    rcases List.mem_cons.mp member with rfl | later
    · omega
    · have := ih t later
      omega

/-- What is kept reaches further and further. -/
theorem keep_pairwise (covered : Int) (spans : List Span) (sorted : spans.Pairwise Span.Before) :
    (keep covered spans).Pairwise fun s t => s.Before t ∧ s.stop < t.stop := by
  fun_induction keep covered spans with
  | case1 => exact .nil
  | case2 covered s rest _ ih => exact ih (List.pairwise_cons.mp sorted).2
  | case3 covered s rest _ ih =>
    obtain ⟨first, others⟩ := List.pairwise_cons.mp sorted
    refine List.pairwise_cons.mpr ⟨fun t member => ⟨first t (keep_subset _ _ member), ?_⟩, ih others⟩
    have beyond := keep_beyond s.stop rest t member
    omega

/-- What is not kept lies inside what is, or in what was covered before. -/
theorem keep_covers (covered : Int) (spans : List Span) (sorted : spans.Pairwise Span.Before) :
    ∀ s ∈ spans, (s.stop : Int) ≤ covered ∨ ∃ k ∈ keep covered spans, s.Inside k := by
  fun_induction keep covered spans with
  | case1 => nofun
  | case2 covered s rest short ih =>
    intro t member
    rcases List.mem_cons.mp member with rfl | later
    · exact .inl short
    · exact ih (List.pairwise_cons.mp sorted).2 t later
  | case3 covered s rest _ ih =>
    obtain ⟨first, others⟩ := List.pairwise_cons.mp sorted
    intro t member
    rcases List.mem_cons.mp member with rfl | later
    · exact .inr ⟨t, List.mem_cons_self, le_rfl, le_rfl⟩
    · rcases ih others t later with inside | ⟨k, kept, within⟩
      · refine .inr ⟨s, List.mem_cons_self, ?_, by omega⟩
        rcases first t later with less | ⟨same, -⟩ <;> omega
      · exact .inr ⟨k, List.mem_cons_of_mem s kept, within⟩

/-- Every span lies inside one that is kept. -/
theorem outermost_covers (s : Span) (member : s ∈ spans) : ∃ k ∈ outermost spans, s.Inside k := by
  have sorted := List.pairwise_insertionSort Span.Before spans
  rcases keep_covers (-1) _ sorted s ((List.mem_insertionSort _).mpr member) with none | found
  · omega
  · exact found

section Family

variable {word : Word} {spans : List Span} (groups : ∀ s ∈ spans, IsGroup word s)

include groups

theorem outermost_groups : ∀ s ∈ outermost spans, IsGroup word s := fun s member =>
  groups s ((List.mem_insertionSort _).mp (keep_subset _ _ member))

/-- Kept groups follow one another. -/
theorem outermost_apart : (outermost spans).Pairwise fun s t => s.stop ≤ t.start := by
  have ordered := keep_pairwise (-1) _ (List.pairwise_insertionSort Span.Before spans)
  refine ordered.imp_of_mem fun {s t} here there both => ?_
  obtain ⟨before, further⟩ := both
  have left := outermost_groups groups s here
  have right := outermost_groups groups t there
  have size := right.deeper.1
  rcases left.laminar right with rfl | apart | inside | inside
  · omega
  · simp only [Span.Before, Span.Apart] at before apart
    omega
  · omega
  · simp only [Span.Before] at before
    omega

end Family

instance : Std.Symm Span.Apart := ⟨fun _ _ => Or.symm⟩

theorem outermost_disjoint {word : Word} {spans : List Span} (groups : ∀ s ∈ spans, IsGroup word s) :
    ∀ s ∈ outermost spans, ∀ t ∈ outermost spans, s ≠ t → s.Apart t := by
  have apart : (outermost spans).Pairwise Span.Apart := (outermost_apart groups).imp Or.inl
  intro s here t there different
  exact apart.forall here there different

theorem IsGroup.ends {word : Word} {s : Span} (group : IsGroup word s) : word[s.stop - 1]? = some .closing := by
  obtain ⟨before, inner, after, rfl, -, rfl⟩ := group
  have place : before.length + inner.length + 2 - 1 = before.length + (inner.length + 1) := by omega
  rw [place, List.getElem?_append_right (by omega), Nat.add_sub_cancel_left, List.getElem?_cons_succ,
    List.getElem?_append_right le_rfl, Nat.sub_self]
  rfl

/-- A group that lies inside no other one. -/
def Maximal (word : Word) (s : Span) : Prop := IsGroup word s ∧ ∀ t, IsGroup word t → s.Inside t → t = s

/-- The outermost spans of a scan are the maximal groups. -/
theorem mem_outermost_iff (word : Word) (s : Span) : s ∈ outermost (scan word).spans ↔ Maximal word s := by
  have groups : ∀ t ∈ (scan word).spans, IsGroup word t := fun t => (mem_scan_iff word t).mp
  constructor
  · intro kept
    refine ⟨outermost_groups groups s kept, fun t group inside => ?_⟩
    obtain ⟨k, member, within⟩ := outermost_covers t ((mem_scan_iff word t).mpr group)
    by_cases same : k = s
    · obtain rfl := same
      cases t
      cases k
      simp only [Span.Inside] at inside within
      simp only [Span.mk.injEq]
      omega
    · have nonempty := (outermost_groups groups s kept).deeper.1
      have nonempty' := group.deeper.1
      have apart := outermost_disjoint groups k member s kept same
      simp only [Span.Inside, Span.Apart] at inside within apart
      omega
  · rintro ⟨group, alone⟩
    obtain ⟨k, member, within⟩ := outermost_covers s ((mem_scan_iff word s).mpr group)
    exact alone k (outermost_groups groups k member) within ▸ member

end TeeProof.Brackets
