import TeeProof.Serde

/-! Trimming cuts white space off the two ends of a text and keeps what stands between. -/
namespace TeeProof.Str

theorem trim_split (text : Str) :
    ∃ before after, text = before ++ (trim text ++ after) ∧ (∀ c ∈ before, isWhitespace c = true) ∧
      ∀ c ∈ after, isWhitespace c = true := by
  refine ⟨text.takeWhile isWhitespace, ((trimStart text).reverse.takeWhile isWhitespace).reverse, ?_,
    fun c member => List.mem_takeWhile_imp member,
    fun c member => List.mem_takeWhile_imp (List.mem_reverse.mp member)⟩
  rw [trim, trimEnd, ← List.reverse_append, List.takeWhile_append_dropWhile, List.reverse_reverse,
    trimStart, List.takeWhile_append_dropWhile]

theorem head_trim (text : Str) : ∀ c ∈ (trim text).head?, isWhitespace c = false := by
  intro c first
  have kept : (trimStart text).head? = some c := by
    have whole := List.takeWhile_append_dropWhile (p := isWhitespace) (l := (trimStart text).reverse)
    have split := congrArg List.reverse whole
    rw [List.reverse_append, List.reverse_reverse] at split
    rw [← split, List.head?_append]
    simp [trim, trimEnd] at first
    simp [first]
  cases dropped : text.dropWhile isWhitespace with
  | nil => simp [trimStart, dropped] at kept
  | cons d rest =>
    have := List.head_dropWhile_not isWhitespace (l := text) (by simp [dropped])
    simp only [trimStart, dropped, List.head?_cons, Option.some.injEq] at kept
    simpa [dropped, kept] using this

theorem trimStart_solid {c : Char} (solid : isWhitespace c = false) (rest : Str) : trimStart (c :: rest) = c :: rest := by
  simp [trimStart, solid]

theorem trimEnd_solid {c : Char} (solid : isWhitespace c = false) (front : Str) (rest : Str) :
    ∃ kept, trimEnd (front ++ c :: rest) = front ++ c :: kept := by
  refine ⟨(rest.reverse.dropWhile isWhitespace).reverse, ?_⟩
  simp only [trimEnd, List.reverse_append, List.reverse_cons, List.append_assoc, List.singleton_append]
  rw [List.dropWhile_append]
  split
  next blank =>
    rw [List.isEmpty_iff] at blank
    simp [solid, blank]
  next => simp

theorem trimEnd_blank {blanks : Str} (blank : ∀ c ∈ blanks, isWhitespace c = true) (front : Str) :
    trimEnd (front ++ blanks) = trimEnd front := by
  have gone : blanks.reverse.dropWhile isWhitespace = [] := by
    rw [List.dropWhile_eq_nil_iff]
    intro c member
    exact blank c (List.mem_reverse.mp member)
  rw [trimEnd, trimEnd, List.reverse_append, List.dropWhile_append, gone]
  rfl

theorem trim_solid {text : Str} (solid : ∀ c ∈ text, isWhitespace c = false) : trim text = text := by
  cases text using List.reverseRecOn with
  | nil => rfl
  | append_singleton front c =>
    have kept (s : Str) (all : ∀ c ∈ s, isWhitespace c = false) : s.dropWhile isWhitespace = s := by
      cases s with
      | nil => rfl
      | cons c rest => simp [all c List.mem_cons_self]
    rw [trim, trimStart, kept _ solid, trimEnd, kept _ fun c member => solid c (List.mem_reverse.mp member),
      List.reverse_reverse]

end TeeProof.Str
