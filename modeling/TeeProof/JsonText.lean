import TeeProof.Delimited
import TeeProof.Node

/-! The strings of a JSON text. A quoted string is read back from what follows it, and it
is text: a lone surrogate is written as an escape. -/
namespace TeeProof.JStr

theorem WellFormed.nil : WellFormed [] := ⟨[], rfl⟩

theorem WellFormed.append {s t : JStr} (left : WellFormed s) (right : WellFormed t) : WellFormed (s ++ t) := by
  obtain ⟨a, rfl⟩ := left
  obtain ⟨b, rfl⟩ := right
  exact ⟨a ++ b, List.flatMap_append.symm⟩

/-- A unit that is no surrogate is a character. -/
theorem wellFormed_unit {u : UInt16} (high : isHigh u = false) (low : isLow u = false) : WellFormed [u] := by
  have bound := u.toNat_lt
  simp only [isHigh, isLow, Bool.and_eq_false_iff, decide_eq_false_iff_not] at high low
  have char : (Char.ofNat u.toNat).toNat = u.toNat := by
    rw [Char.toNat_ofNat, if_pos]
    simp only [Nat.isValidChar]
    omega
  refine ⟨[Char.ofNat u.toNat], ?_⟩
  simp only [ofChars, List.flatMap_singleton, ofChar, char]
  rw [if_pos (by omega), UInt16.ofNat_toNat]

theorem wellFormed_cons {u : UInt16} {s : JStr} (high : isHigh u = false) (low : isLow u = false)
    (text : WellFormed s) : WellFormed (u :: s) :=
  (wellFormed_unit high low).append text

/-- Two surrogates in order are a character. -/
theorem wellFormed_pair {u v : UInt16} (high : isHigh u = true) (low : isLow v = true) : WellFormed [u, v] := by
  simp only [isHigh, isLow, Bool.and_eq_true, decide_eq_true_eq] at high low
  have char : (pair u v).toNat = 0x10000 + (u.toNat - 0xD800) * 0x400 + (v.toNat - 0xDC00) := by
    rw [pair, Char.toNat_ofNat, if_pos]
    simp only [Nat.isValidChar]
    omega
  refine ⟨[pair u v], ?_⟩
  simp only [ofChars, List.flatMap_singleton, ofChar, char]
  rw [if_neg (by omega)]
  have first : 0xD800 + (0x10000 + (u.toNat - 0xD800) * 0x400 + (v.toNat - 0xDC00) - 0x10000) / 0x400 = u.toNat := by
    omega
  have second : 0xDC00 + (0x10000 + (u.toNat - 0xD800) * 0x400 + (v.toNat - 0xDC00) - 0x10000) % 0x400 = v.toNat := by
    omega
  rw [first, second, UInt16.ofNat_toNat, UInt16.ofNat_toNat]

theorem hexDigit_text (n : Nat) (small : n < 16) :
    isHigh (hexDigit n) = false ∧ isLow (hexDigit n) = false := by
  revert n
  decide

/-- Texts are told apart by their UTF-8. -/
theorem utf8_injective {s t : JStr} (left : WellFormed s) (right : WellFormed t) (same : s.utf8 = t.utf8) : s = t := by
  obtain ⟨a, rfl⟩ := left
  obtain ⟨b, rfl⟩ := right
  rw [utf8_ofChars, utf8_ofChars] at same
  rw [Utf8.encode_injective same]

theorem utf8_append_wellFormed {s t : JStr} (left : WellFormed s) (right : WellFormed t) :
    (s ++ t).utf8 = s.utf8 ++ t.utf8 := by
  obtain ⟨a, rfl⟩ := left
  obtain ⟨b, rfl⟩ := right
  rw [← ofChars_append, utf8_ofChars, utf8_ofChars, utf8_ofChars, Utf8.encode_append]

theorem wellFormed_ascii {s : JStr} (ascii : ∀ u ∈ s, u.toNat < 0x80) : WellFormed s := by
  induction s with
  | nil => exact WellFormed.nil
  | cons u rest ih =>
    have small := ascii u List.mem_cons_self
    have high : isHigh u = false := by
      simp only [isHigh, Bool.and_eq_false_iff, decide_eq_false_iff_not]
      omega
    have low : isLow u = false := by
      simp only [isLow, Bool.and_eq_false_iff, decide_eq_false_iff_not]
      omega
    exact wellFormed_cons high low (ih fun v member => ascii v (List.mem_cons_of_mem u member))

theorem lit_injective {a b : String} (same : JStr.lit a = JStr.lit b) : a = b :=
  String.toList_injective (ofChars_injective same)

theorem natDigits_digit (n : Nat) (u : UInt16) (inside : u ∈ natDigits n) : 48 ≤ u.toNat ∧ u.toNat ≤ 57 := by
  obtain ⟨c, digit, unit⟩ := List.mem_flatMap.mp inside
  have decimal := Nat.isDigit_of_mem_toDigits (by decide) (by decide) digit
  simp only [Char.isDigit, Bool.and_eq_true, decide_eq_true_eq] at decimal
  have bounds : 48 ≤ c.toNat ∧ c.toNat ≤ 57 := decimal
  simp only [ofChar, if_pos (show c.toNat < 0x10000 by omega), List.mem_singleton] at unit
  rw [unit, UInt16.toNat_ofNat']
  omega

theorem natDigits_injective {m n : Nat} (same : natDigits m = natDigits n) : m = n := by
  have digits := congrArg (Nat.ofDigitChars 10 · 0) (ofChars_injective same)
  simpa only [Nat.ofDigitChars_toDigits (b := 10) (by decide) (by decide)] using digits

end TeeProof.JStr

namespace TeeProof.Verifier

open JStr

theorem commaJoin_eq (parts : List JStr) : commaJoin parts = Delimited.separated 0x2C parts := by
  fun_induction commaJoin parts with
  | case1 => rfl
  | case2 s => simp [Delimited.separated]
  | case3 s t rest ih => simp [Delimited.separated, ih]

def hexValue (u : UInt16) : Nat := if u.toNat < 58 then u.toNat - 48 else u.toNat - 87

theorem hexValue_hexDigit (n : Nat) (small : n < 16) : hexValue (hexDigit n) = n := by
  revert n
  decide

/-- The unit that a short escape stands for. -/
def named (u : UInt16) : UInt16 :=
  if u = 0x62 then 0x08
  else if u = 0x66 then 0x0C
  else if u = 0x6E then 0x0A
  else if u = 0x72 then 0x0D
  else if u = 0x74 then 0x09
  else u

def unescapeUnit : JStr → Option (UInt16 × JStr)
  | [] => none
  | u :: rest =>
    if u = 0x5C then
      match rest with
      | [] => none
      | v :: more =>
        if v = 0x75 then
          match more with
          | a :: b :: c :: d :: z =>
            some (UInt16.ofNat (hexValue a * 4096 + hexValue b * 256 + hexValue c * 16 + hexValue d), z)
          | _ => none
        else some (named v, more)
    else some (u, rest)

theorem unescapeUnit_hex (u : UInt16) (z : JStr) :
    unescapeUnit ([0x5C, 0x75, hexDigit (u.toNat / 4096), hexDigit (u.toNat / 256 % 16),
      hexDigit (u.toNat / 16 % 16), hexDigit (u.toNat % 16)] ++ z) = some (u, z) := by
  have bound := u.toNat_lt
  have whole : u.toNat / 4096 * 4096 + u.toNat / 256 % 16 * 256 + u.toNat / 16 % 16 * 16 + u.toNat % 16 = u.toNat := by
    omega
  simp only [List.cons_append, List.nil_append, unescapeUnit, if_true]
  rw [hexValue_hexDigit _ (by omega), hexValue_hexDigit _ (by omega), hexValue_hexDigit _ (by omega),
    hexValue_hexDigit _ (by omega), whole, UInt16.ofNat_toNat]

/-- A unit is read back from its escape. -/
theorem unescapeUnit_escapeUnit (u : UInt16) (z : JStr) : unescapeUnit (escapeUnit u ++ z) = some (u, z) := by
  by_cases quoted : u = 0x22
  · subst quoted; rfl
  by_cases slash : u = 0x5C
  · subst slash; rfl
  by_cases back : u = 0x08
  · subst back; rfl
  by_cases form : u = 0x0C
  · subst form; rfl
  by_cases line : u = 0x0A
  · subst line; rfl
  by_cases carriage : u = 0x0D
  · subst carriage; rfl
  by_cases tab : u = 0x09
  · subst tab; rfl
  simp only [escapeUnit, quoted, slash, back, form, line, carriage, tab, if_false]
  split
  next => exact unescapeUnit_hex u z
  next => simp [unescapeUnit, slash]

/-- The first unit of an escape is no quotation mark and no surrogate. -/
theorem escapeUnit_head (u : UInt16) : ∃ v rest, escapeUnit u = v :: rest ∧ v ≠ 0x22 ∧ isHigh v = false := by
  unfold escapeUnit
  repeat' split
  all_goals first
    | exact ⟨_, _, rfl, by decide, by decide⟩
    | exact ⟨_, _, rfl, by assumption, by simp_all⟩

/-- The units of the string that a text begins with, and the rest of the text. -/
def unescapeStep : JStr → Option (JStr × JStr)
  | [] => none
  | u :: rest =>
    if isHigh u then
      match rest with
      | [] => none
      | v :: more => some ([u, v], more)
    else (unescapeUnit (u :: rest)).map fun p => ([p.1], p.2)

theorem unescapeStep_unit (u : UInt16) (z : JStr) : unescapeStep (escapeUnit u ++ z) = some ([u], z) := by
  obtain ⟨v, rest, eq, _, plain⟩ := escapeUnit_head u
  have read := unescapeUnit_escapeUnit u z
  rw [eq, List.cons_append] at read ⊢
  simp [unescapeStep, plain, read]

/-- A nonempty string is escaped one piece at a time. -/
theorem escape_step (s : JStr) (nonempty : s ≠ []) :
    ∃ taken left, s = taken ++ left ∧ taken ≠ [] ∧ (∀ z, (escape s ++ z).head? ≠ some 0x22) ∧
      ∀ z, unescapeStep (escape s ++ z) = some (taken, escape left ++ z) := by
  have single (u : UInt16) (left : JStr) (eq : escape (u :: left) = escapeUnit u ++ escape left) :
      ∃ taken rest, u :: left = taken ++ rest ∧ taken ≠ [] ∧ (∀ z, (escape (u :: left) ++ z).head? ≠ some 0x22) ∧
        ∀ z, unescapeStep (escape (u :: left) ++ z) = some (taken, escape rest ++ z) := by
    refine ⟨[u], left, rfl, by simp, ?_, ?_⟩
    · intro z
      obtain ⟨v, rest, head, plain, _⟩ := escapeUnit_head u
      simp [eq, head, plain]
    · intro z
      rw [eq, List.append_assoc]
      exact unescapeStep_unit u _
  cases s with
  | nil => exact absurd rfl nonempty
  | cons u rest =>
    cases rest with
    | nil => exact single u [] (by simp [escape])
    | cons v rest =>
      cases both : isHigh u && isLow v with
      | false => exact single u (v :: rest) (by simp [escape, both])
      | true =>
        have high : isHigh u = true := by simp_all
        refine ⟨[u, v], rest, rfl, by simp, ?_, ?_⟩
        · intro z same
          simp only [escape, both, if_true, List.cons_append, List.head?_cons, Option.some.injEq] at same
          rw [same] at high
          exact absurd high (by decide)
        · intro z
          have pair : escape (u :: v :: rest) = u :: v :: escape rest := by simp only [escape, both, if_true]
          simp [pair, unescapeStep, high]

theorem escape_reads (s t x y : JStr) (eq : escape s ++ 0x22 :: x = escape t ++ 0x22 :: y) : s = t ∧ x = y := by
  induction n : s.length using Nat.strong_induction_on generalizing s t with
  | _ n ih =>
    subst n
    by_cases none : s = []
    · subst none
      by_cases empty : t = []
      · subst empty
        exact ⟨rfl, (List.cons.inj eq).2⟩
      · obtain ⟨_, _, _, _, head, _⟩ := escape_step t empty
        exact absurd (congrArg List.head? eq).symm (head _)
    · obtain ⟨taken, left, rfl, some, head, step⟩ := escape_step s none
      by_cases empty : t = []
      · subst empty
        exact absurd (congrArg List.head? eq) (head _)
      · obtain ⟨taken', left', rfl, _, _, step'⟩ := escape_step t empty
        have same := congrArg unescapeStep eq
        rw [step, step', Option.some.injEq, Prod.mk.injEq] at same
        obtain ⟨rfl, rest⟩ := same
        have shorter : left.length < (taken ++ left).length := by
          have := List.length_pos_iff.mpr some
          rw [List.length_append]
          omega
        obtain ⟨rfl, same⟩ := ih left.length shorter left left' rest rfl
        exact ⟨rfl, same⟩

/-- A quoted string ends at its own quotation mark. -/
theorem quote_reads (s t x y : JStr) (eq : quote s ++ x = quote t ++ y) : s = t ∧ x = y := by
  simp only [quote, List.cons_append, List.append_assoc, List.nil_append] at eq
  exact escape_reads s t x y (List.cons.inj eq).2

theorem escapeUnit_wellFormed (u : UInt16) : WellFormed (escapeUnit u) := by
  have bound := u.toNat_lt
  have short (v : UInt16) (high : isHigh v = false) (low : isLow v = false) : WellFormed [0x5C, v] :=
    wellFormed_cons (by decide) (by decide) (wellFormed_unit high low)
  have digit (n : Nat) (small : n < 16) {s : JStr} (text : WellFormed s) : WellFormed (hexDigit n :: s) :=
    wellFormed_cons (hexDigit_text n small).1 (hexDigit_text n small).2 text
  unfold escapeUnit
  split
  · exact short _ (by decide) (by decide)
  split
  · exact short _ (by decide) (by decide)
  split
  · exact short _ (by decide) (by decide)
  split
  · exact short _ (by decide) (by decide)
  split
  · exact short _ (by decide) (by decide)
  split
  · exact short _ (by decide) (by decide)
  split
  · exact short _ (by decide) (by decide)
  split
  next =>
    refine wellFormed_cons (by decide) (by decide) (wellFormed_cons (by decide) (by decide) ?_)
    exact digit _ (by omega) (digit _ (by omega) (digit _ (by omega) (digit _ (by omega) .nil)))
  next plain =>
    simp only [not_or, Bool.not_eq_true] at plain
    exact wellFormed_unit plain.2.1 plain.2.2

theorem escape_wellFormed (s : JStr) : WellFormed (escape s) := by
  fun_induction escape s with
  | case1 => exact .nil
  | case2 u => exact escapeUnit_wellFormed u
  | case3 u v rest both ih =>
    rw [Bool.and_eq_true] at both
    exact (wellFormed_pair both.1 both.2).append ih
  | case4 u v rest _ ih => exact (escapeUnit_wellFormed u).append ih

theorem quote_wellFormed (s : JStr) : WellFormed (quote s) :=
  wellFormed_cons (by decide) (by decide) ((escape_wellFormed s).append (wellFormed_unit (by decide) (by decide)))

end TeeProof.Verifier
