import Mathlib

/-! Line-delimited layouts: every line is followed by the separator. A layout whose
own lines hold no separator can be matched only by the pieces of another one. -/
namespace TeeProof.Lines

variable {α : Type*} [DecidableEq α]

def layout (sep : α) (lines : List (List α)) : List α := lines.flatMap (· ++ [sep])

omit [DecidableEq α] in
@[simp] theorem layout_cons (sep : α) (line : List α) (rest : List (List α)) :
    layout sep (line :: rest) = line ++ sep :: layout sep rest := by simp [layout]

theorem splitOn_layout (sep : α) (lines : List (List α)) :
    (layout sep lines).splitOn sep = lines.flatMap (·.splitOn sep) ++ [[]] := by
  induction lines with
  | nil => simp [layout, List.splitOn_nil]
  | cons line rest ih => simp [List.splitOn_append_cons_self, ih]

theorem flatMap_splitOn_free (sep : α) (lines : List (List α)) (free : ∀ l ∈ lines, sep ∉ l) :
    lines.flatMap (·.splitOn sep) = lines := by
  induction lines with
  | nil => rfl
  | cons line rest ih =>
    simp only [List.flatMap_cons, List.splitOn_eq_singleton (free line (by simp)),
      ih (fun l member => free l (List.mem_cons_of_mem _ member)), List.singleton_append]

/-- Equal layouts: the lines of the free one are the pieces of the other. -/
theorem layout_eq_pieces (sep : α) (free other : List (List α)) (clean : ∀ l ∈ free, sep ∉ l)
    (same : layout sep other = layout sep free) : other.flatMap (·.splitOn sep) = free := by
  have pieces := congrArg (List.splitOn sep) same
  rw [splitOn_layout, splitOn_layout, flatMap_splitOn_free sep free clean] at pieces
  exact List.append_cancel_right pieces

/-- No piece holds the separator. -/
theorem not_mem_piece (sep : α) (l : List α) : ∀ x ∈ l.splitOn sep, sep ∉ x := by
  induction l with
  | nil => simp [List.splitOn_nil]
  | cons a rest ih =>
    rw [List.splitOn_cons_eq_if_modifyHead]
    split
    next => simpa using ih
    next differ =>
      cases pieces : rest.splitOn sep with
      | nil => simp
      | cons head tail =>
        rw [pieces] at ih
        have apart : sep ≠ a := fun same => differ (by simp [same])
        simpa [apart] using ih

/-- The piece in the place of a line, when the lines before it are free. -/
theorem piece_at (sep : α) (before : List (List α)) (line : List α) (after : List (List α))
    (clean : ∀ l ∈ before, sep ∉ l) :
    ((layout sep (before ++ line :: after)).splitOn sep)[before.length]? = (line.splitOn sep).head? := by
  rw [splitOn_layout, List.flatMap_append, flatMap_splitOn_free sep before clean, List.append_assoc,
    List.getElem?_append_right (le_refl _), Nat.sub_self, List.flatMap_cons, List.append_assoc]
  cases pieces : line.splitOn sep with
  | nil => exact absurd pieces (List.splitOn_ne_nil sep line)
  | cons x rest => rfl

theorem length_splitOn_pos (sep : α) (l : List α) : 1 ≤ (l.splitOn sep).length :=
  List.length_pos_of_ne_nil (List.splitOn_ne_nil sep l)

theorem length_le_pieces (sep : α) (lines : List (List α)) :
    lines.length ≤ (lines.flatMap (·.splitOn sep)).length := by
  induction lines with
  | nil => simp
  | cons line rest ih =>
    have := length_splitOn_pos sep line
    simp only [List.flatMap_cons, List.length_append, List.length_cons]
    omega

theorem eq_of_splitOn_singleton (sep : α) (l x : List α) (h : l.splitOn sep = [x]) : l = x := by
  have joined : [sep].intercalate (l.splitOn sep) = l := List.intercalate_splitOn sep
  rw [h] at joined
  simpa using joined.symm

/-- As many pieces as lines: no line was cut. -/
theorem pieces_eq_self (sep : α) (lines : List (List α))
    (count : (lines.flatMap (·.splitOn sep)).length = lines.length) :
    lines.flatMap (·.splitOn sep) = lines := by
  induction lines with
  | nil => rfl
  | cons line rest ih =>
    have head := length_splitOn_pos sep line
    have tail := length_le_pieces sep rest
    simp only [List.flatMap_cons, List.length_append, List.length_cons] at count
    obtain ⟨x, single⟩ := List.length_eq_one_iff.mp (show (line.splitOn sep).length = 1 by omega)
    rw [List.flatMap_cons, ih (by omega), single, ← eq_of_splitOn_singleton sep line x single]
    rfl

theorem getLast_pieces (sep : α) (init : List (List α)) (last : List α) (clean : sep ∉ last) :
    ((init ++ [last]).flatMap (·.splitOn sep)).getLast? = some last := by
  simp [List.splitOn_eq_singleton clean]

/-- A text is one unfinished line, or a line and what follows it. -/
theorem induction (sep : α) {motive : List α → Prop} (free : ∀ s, sep ∉ s → motive s)
    (line : ∀ first after, sep ∉ first → motive after → motive (first ++ sep :: after)) (s : List α) :
    motive s := by
  induction h : s.length using Nat.strong_induction_on generalizing s with
  | _ n ih =>
    by_cases member : sep ∈ s
    · obtain ⟨first, after, rfl, clean⟩ := List.eq_append_cons_of_mem member
      exact line first after clean (ih after.length (by simp at h; omega) after rfl)
    · exact free s member

theorem mem_piece (sep : α) (s : List α) : ∀ a ∈ s, a = sep ∨ ∃ piece ∈ s.splitOn sep, a ∈ piece := by
  induction s using induction sep with
  | free s clean =>
    intro a member
    exact .inr ⟨s, by simp [List.splitOn_eq_singleton clean], member⟩
  | line first after clean ih =>
    intro a member
    rw [List.splitOn_append_cons_self_of_not_mem clean]
    rcases List.mem_append.mp member with inside | inside
    · exact .inr ⟨first, List.mem_cons_self, inside⟩
    · rcases List.mem_cons.mp inside with eq | later
      · exact .inl eq
      · refine (ih a later).imp_right ?_
        rintro ⟨piece, listed, inside⟩
        exact ⟨piece, List.mem_cons_of_mem _ listed, inside⟩

/-- A piece begins the text or stands right behind a separator. -/
theorem piece_start (sep : α) (s piece : List α) (member : piece ∈ s.splitOn sep) :
    ∃ before after, s = before ++ (piece ++ after) ∧ (before = [] ∨ before.getLast? = some sep) := by
  induction s using induction sep with
  | free s clean =>
    rw [List.splitOn_eq_singleton clean, List.mem_singleton] at member
    exact ⟨[], [], by simp [member], .inl rfl⟩
  | line first after clean ih =>
    rw [List.splitOn_append_cons_self_of_not_mem clean, List.mem_cons] at member
    rcases member with rfl | later
    · exact ⟨[], sep :: after, rfl, .inl rfl⟩
    · obtain ⟨before, rest, split, start⟩ := ih later
      refine ⟨first ++ sep :: before, rest, by simp [split], .inr ?_⟩
      rcases start with rfl | last
      · simp
      · rw [List.getLast?_append, List.getLast?_cons, last]
        simp

/-- The lines that are ended in a text, and what stands after the last of them. -/
def ended (sep : α) (s : List α) : List (List α) := (s.splitOn sep).dropLast
def rest (sep : α) (s : List α) : List α := (s.splitOn sep).getLast (List.splitOn_ne_nil sep s)

theorem splitOn_eq (sep : α) (s : List α) : s.splitOn sep = ended sep s ++ [rest sep s] :=
  (List.dropLast_append_getLast (List.splitOn_ne_nil sep s)).symm

theorem ended_free (sep : α) (s : List α) (free : sep ∉ s) : ended sep s = [] := by
  simp [ended, List.splitOn_eq_singleton free]

theorem rest_free (sep : α) (s : List α) (free : sep ∉ s) : rest sep s = s := by
  simp [rest, List.splitOn_eq_singleton free]

theorem ended_line (sep : α) (first after : List α) (free : sep ∉ first) :
    ended sep (first ++ sep :: after) = first :: ended sep after := by
  simp only [ended, List.splitOn_append_cons_self_of_not_mem free]
  exact List.dropLast_cons_of_ne_nil (List.splitOn_ne_nil sep after)

theorem rest_line (sep : α) (first after : List α) (free : sep ∉ first) :
    rest sep (first ++ sep :: after) = rest sep after := by
  simp only [rest, List.splitOn_append_cons_self_of_not_mem free]
  exact List.getLast_cons (List.splitOn_ne_nil sep after)

theorem ended_append (sep : α) (s t : List α) :
    ended sep (s ++ t) = ended sep s ++ ended sep (rest sep s ++ t) := by
  induction s using induction sep with
  | free s clean => simp [ended_free sep s clean, rest_free sep s clean]
  | line first after clean ih =>
    simp [ended_line sep _ _ clean, rest_line sep _ _ clean, ih]

theorem rest_append (sep : α) (s t : List α) : rest sep (s ++ t) = rest sep (rest sep s ++ t) := by
  induction s using induction sep with
  | free s clean => simp [rest_free sep s clean]
  | line first after clean ih => simp [rest_line sep _ _ clean, ih]

section Feed

variable {τ : Type*} (sep : α) (step : τ → List α → τ)

/-- A reader of chunks: whole lines go to `step`, the unfinished one waits. -/
def feed (state : List α × τ) (chunk : List α) : List α × τ :=
  (rest sep (state.1 ++ chunk), (ended sep (state.1 ++ chunk)).foldl step state.2)

theorem feed_feed (state : List α × τ) (a b : List α) :
    feed sep step (feed sep step state a) b = feed sep step state (a ++ b) := by
  simp only [feed, ← List.append_assoc]
  rw [← rest_append, ended_append sep (state.1 ++ a) b, List.foldl_append]

/-- The cut into chunks does not show. -/
theorem feed_chunks (state : List α × τ) (chunks : List (List α)) (nonempty : chunks ≠ []) :
    chunks.foldl (feed sep step) state = feed sep step state chunks.flatten := by
  induction chunks generalizing state with
  | nil => contradiction
  | cons chunk more ih =>
    cases more with
    | nil => simp
    | cons next more => rw [List.foldl_cons, ih _ (by simp), feed_feed, ← List.flatten_cons]

theorem feed_chunks_start (start : τ) (chunks : List (List α)) :
    chunks.foldl (feed sep step) ([], start) =
      (rest sep chunks.flatten, (ended sep chunks.flatten).foldl step start) := by
  cases chunks with
  | nil => simp [ended, rest]
  | cons chunk more => simpa [feed] using feed_chunks sep step ([], start) (chunk :: more) (by simp)

end Feed

/-- A line end of two signs: `mark` before the separator belongs to it. -/
def stripMark (mark : α) (line : List α) : List α :=
  if line.getLast? = some mark then line.dropLast else line

end TeeProof.Lines
