import TeeProof.AliyunProof

/-! The helper's canonical JSON and the enclave's: the same text but for the characters that
`encoding/json` escapes and `serde_json` does not. -/
namespace TeeProof.AliyunProof

open Enclave (escapeChar)

/-! Characters. -/

def isSeparator (c : Char) : Prop := c.toNat = 0x2028 ∨ c.toNat = 0x2029

def isHtml (c : Char) : Prop := c = '<' ∨ c = '>' ∨ c = '&'

instance : DecidablePred isSeparator := fun c => inferInstanceAs (Decidable (c.toNat = 0x2028 ∨ c.toNat = 0x2029))
instance : DecidablePred isHtml := fun c => inferInstanceAs (Decidable (c = '<' ∨ c = '>' ∨ c = '&'))

/-- What the writer escapes beyond what JSON asks for. -/
def special (escapeHtml : Bool) (c : Char) : Prop := isSeparator c ∨ escapeHtml = true ∧ isHtml c

theorem hex4_small (n : Nat) (small : n < 0x100) :
    hex4 n = ['\\', 'u', '0', '0', Str.hexDigit (n / 16), Str.hexDigit (n % 16)] := by
  have first : n / 4096 = 0 := by omega
  have second : n / 256 % 16 = 0 := by omega
  have third : n / 16 % 16 = n / 16 := by omega
  rw [hex4, first, second, third]
  rfl

theorem escapeRune_plain {escapeHtml : Bool} {c : Char} (plain : ¬special escapeHtml c) :
    escapeRune escapeHtml c = escapeChar c := by
  have notSeparator : ¬(c.toNat = 0x2028 ∨ c.toNat = 0x2029) := fun h => plain (.inl h)
  have notHtml : ¬(escapeHtml = true ∧ (c = '<' ∨ c = '>' ∨ c = '&')) := fun h => plain (.inr h)
  unfold escapeRune escapeChar
  simp only [notSeparator, notHtml, if_false]
  by_cases quotation : c = '"'
  · simp [quotation]
  · by_cases backslash : c = '\\'
    · simp [backslash]
    · simp only [quotation, backslash, or_self, if_false]
      split_ifs with _ _ _ _ _ control
      · rfl
      · rfl
      · rfl
      · rfl
      · rfl
      · exact hex4_small _ (by omega)
      · rfl

theorem special_mono {escapeHtml : Bool} {c : Char} (found : special escapeHtml c) : special true c := by
  rcases found with separator | ⟨-, html⟩
  · exact .inl separator
  · exact .inr ⟨rfl, html⟩

instance (escapeHtml : Bool) : DecidablePred (special escapeHtml) := fun c =>
  inferInstanceAs (Decidable (isSeparator c ∨ escapeHtml = true ∧ isHtml c))

theorem hexDigit_plain (n : Nat) (small : n < 16) : ¬special true (Str.hexDigit n) := by
  revert n
  decide

theorem hex4_clean (n : Nat) (small : n < 0x10000) : ∀ d ∈ hex4 n, ¬special true d := by
  simp only [hex4, List.forall_mem_cons, List.not_mem_nil, false_imp_iff, implies_true, and_true]
  exact ⟨by decide, by decide, hexDigit_plain _ (by omega), hexDigit_plain _ (by omega), hexDigit_plain _ (by omega),
    hexDigit_plain _ (by omega)⟩

/-- Nothing that the writer escapes is left in its output. -/
theorem escapeRune_clean (escapeHtml : Bool) (c : Char) : ∀ d ∈ escapeRune escapeHtml c, ¬special escapeHtml d := by
  intro d member found
  have all := special_mono found
  unfold escapeRune at member
  split_ifs at member with quoted _ _ _ _ _ control html separator
  · rcases quoted with rfl | rfl <;> simp only [List.mem_cons, List.not_mem_nil, or_false] at member <;>
      rcases member with rfl | rfl <;> exact absurd all (by decide)
  · simp only [List.mem_cons, List.not_mem_nil, or_false] at member
    rcases member with rfl | rfl <;> exact absurd all (by decide)
  · simp only [List.mem_cons, List.not_mem_nil, or_false] at member
    rcases member with rfl | rfl <;> exact absurd all (by decide)
  · simp only [List.mem_cons, List.not_mem_nil, or_false] at member
    rcases member with rfl | rfl <;> exact absurd all (by decide)
  · simp only [List.mem_cons, List.not_mem_nil, or_false] at member
    rcases member with rfl | rfl <;> exact absurd all (by decide)
  · simp only [List.mem_cons, List.not_mem_nil, or_false] at member
    rcases member with rfl | rfl <;> exact absurd all (by decide)
  · exact hex4_clean _ (by omega) d member all
  · refine hex4_clean _ ?_ d member all
    obtain ⟨-, rfl | rfl | rfl⟩ := html <;> decide
  · exact hex4_clean _ (by omega) d member all
  · rw [List.mem_singleton.mp member] at found
    rcases found with here | here
    · exact separator here
    · exact html here

/-- JSON does not ask to escape it. -/
theorem escapeChar_special {escapeHtml : Bool} {c : Char} (found : special escapeHtml c) : escapeChar c = [c] := by
  have apart (d : Char) (plain : ¬special true d) : c ≠ d := by
    rintro rfl
    exact plain (special_mono found)
  have large : ¬c.toNat < 0x20 := by
    rcases found with (here | here) | ⟨-, rfl | rfl | rfl⟩
    · omega
    · omega
    · decide
    · decide
    · decide
  simp only [escapeChar, apart '"' (by decide), apart '\\' (by decide), apart '\x08' (by decide),
    apart '\x0C' (by decide), apart '\n' (by decide), apart '\r' (by decide), apart '\t' (by decide), large, if_false]

section Strings

variable (escapeHtml : Bool) (s : Str)

def quoted : Str := '"' :: s.flatMap (escapeRune escapeHtml) ++ ['"']

theorem quoted_clean : ∀ d ∈ quoted escapeHtml s, ¬special escapeHtml d := by
  intro d member found
  simp only [quoted, List.cons_append, List.mem_cons, List.mem_append, List.mem_flatMap, List.not_mem_nil, or_false]
    at member
  rcases member with rfl | ⟨c, -, inside⟩ | rfl
  · exact absurd (special_mono found) (by decide)
  · exact escapeRune_clean escapeHtml c d inside found
  · exact absurd (special_mono found) (by decide)

variable {escapeHtml s}

theorem quoted_plain (plain : ∀ c ∈ s, ¬special escapeHtml c) : quoted escapeHtml s = Enclave.quote s := by
  have body : s.flatMap (escapeRune escapeHtml) = s.flatMap escapeChar :=
    List.flatMap_congr fun c member => escapeRune_plain (plain c member)
  rw [quoted, Enclave.quote, body]

theorem mem_quote {c : Char} (member : c ∈ s) (found : special escapeHtml c) : c ∈ Enclave.quote s := by
  have inside : c ∈ s.flatMap escapeChar :=
    List.mem_flatMap.mpr ⟨c, member, by rw [escapeChar_special found]; exact List.mem_singleton_self c⟩
  simp [Enclave.quote, inside]

end Strings

/-! Documents. -/

mutual

/-- The document as `serde_json` holds it. -/
def document : Any → Value
  | .nil => .null
  | .bool b => .bool b
  | .float64 bits => .number (.float bits)
  | .string s => .string s
  | .slice items => .array (documents items)
  | .map members => .object (documentMembers members)

def documents : List Any → List Value
  | [] => []
  | v :: rest => document v :: documents rest

def documentMembers : List (Str × Any) → List (Str × Value)
  | [] => []
  | (k, v) :: rest => (k, document v) :: documentMembers rest

end

mutual

/-- The characters of the names and strings of a document. -/
def characters : Any → Str
  | .string s => s
  | .slice items => itemCharacters items
  | .map members => memberCharacters members
  | _ => []

def itemCharacters : List Any → Str
  | [] => []
  | v :: rest => characters v ++ itemCharacters rest

def memberCharacters : List (Str × Any) → Str
  | [] => []
  | (k, v) :: rest => k ++ characters v ++ memberCharacters rest

end

/-- Induction over a document, the items and members of which come before it. -/
theorem Any.induction {motive : Any → Prop} (nil : motive .nil) (bool : ∀ b, motive (.bool b))
    (float64 : ∀ bits, motive (.float64 bits)) (string : ∀ s, motive (.string s))
    (slice : ∀ items, (∀ v ∈ items, motive v) → motive (.slice items))
    (map : ∀ members, (∀ p ∈ members, motive p.2) → motive (.map members)) (v : Any) : motive v := by
  match v with
  | .nil => exact nil
  | .bool b => exact bool b
  | .float64 bits => exact float64 bits
  | .string s => exact string s
  | .slice items => exact slice items fun v _ => Any.induction nil bool float64 string slice map v
  | .map members => exact map members fun p _ => Any.induction nil bool float64 string slice map p.2
termination_by sizeOf v
decreasing_by
  · have := List.sizeOf_lt_of_mem ‹v ∈ items›
    simp
    omega
  · have := List.sizeOf_lt_of_mem ‹p ∈ members›
    have : sizeOf p = 1 + sizeOf p.1 + sizeOf p.2 := rfl
    simp
    omega

theorem documents_eq (items : List Any) : documents items = items.map document := by
  induction items with
  | nil => rfl
  | cons v rest ih => rw [documents, ih, List.map_cons]

theorem documentMembers_eq (members : List (Str × Any)) :
    documentMembers members = members.map (Prod.map id document) := by
  induction members with
  | nil => rfl
  | cons p rest ih =>
    rw [documentMembers, ih]
    rfl

theorem itemCharacters_eq (items : List Any) : itemCharacters items = items.flatMap characters := by
  induction items with
  | nil => rfl
  | cons v rest ih => rw [itemCharacters, ih, List.flatMap_cons]

theorem memberCharacters_eq (members : List (Str × Any)) :
    memberCharacters members = members.flatMap fun p => p.1 ++ characters p.2 := by
  induction members with
  | nil => rfl
  | cons p rest ih => rw [memberCharacters, ih, List.flatMap_cons]

variable (go : Go) (rust : Rust)

theorem canonicalItems_eq (items : List Any) : canonicalItems go items = items.map (canonicalJson go) := by
  induction items with
  | nil => rfl
  | cons v rest ih => rw [canonicalItems, ih, List.map_cons]

theorem canonicalMembers_eq (members : List (Str × Any)) :
    canonicalMembers go members = members.map (Prod.map id (canonicalJson go)) := by
  induction members with
  | nil => rfl
  | cons p rest ih =>
    rw [canonicalMembers, ih]
    rfl

/-! The two canonical texts. -/

theorem mem_join {sep : Str} {c : Char} (apart : c ∉ sep) (parts : List Str) :
    c ∈ Str.join sep parts ↔ ∃ part ∈ parts, c ∈ part := by
  fun_induction Str.join sep parts with
  | case1 => simp
  | case2 s => simp
  | case3 s t rest ih => simp [ih, apart]

theorem mem_sorted {p : Str × Str} {members : List (Str × Str)} :
    p ∈ members.insertionSort (fun p q => p.1 ≤ q.1) ↔ p ∈ members :=
  (List.perm_insertionSort _ _).mem_iff

variable {go rust} (same : ∀ bits, go.formatFloat bits = rust.formatFloat bits)
  (digits : ∀ bits, ∀ c ∈ go.formatFloat bits, ¬special true c)

include same in
theorem canonicalJson_plain (v : Any) (plain : ∀ c ∈ characters v, ¬special true c) :
    canonicalJson go v = Enclave.canonicalJson rust (document v) := by
  induction v using Any.induction with
  | nil => rfl
  | bool b => cases b <;> rfl
  | float64 bits => exact same bits
  | string s => exact quoted_plain plain
  | slice items ih =>
    rw [characters, itemCharacters_eq] at plain
    rw [canonicalJson, canonicalItems_eq, document, documents_eq, Enclave.canonicalJson, Enclave.canonicalItems_eq,
      List.map_map]
    congr 3
    refine List.map_congr_left fun v member => ih v member fun c inside => ?_
    exact plain c (List.mem_flatMap.mpr ⟨v, member, inside⟩)
  | map members ih =>
    rw [characters, memberCharacters_eq] at plain
    have values : members.map (Prod.map id (canonicalJson go)) =
        (members.map (Prod.map id document)).map (Prod.map id (Enclave.canonicalJson rust)) := by
      rw [List.map_map]
      refine List.map_congr_left fun p member => ?_
      have value := ih p member fun c inside =>
        plain c (List.mem_flatMap.mpr ⟨p, member, List.mem_append_right _ inside⟩)
      exact congrArg (Prod.mk p.1) value
    rw [canonicalJson, canonicalMembers_eq, document, documentMembers_eq, Enclave.canonicalJson,
      Enclave.canonicalFields_eq, ← values]
    congr 3
    refine List.map_congr_left fun p member => ?_
    obtain ⟨q, origin, rfl⟩ := List.mem_map.mp (mem_sorted.mp member)
    have name : marshalString q.1 = Enclave.quote q.1 :=
      quoted_plain fun c inside => plain c (List.mem_flatMap.mpr ⟨q, origin, List.mem_append_left _ inside⟩)
    exact congrArg (· ++ _) name

include digits in
theorem canonicalJson_clean (v : Any) : ∀ c ∈ canonicalJson go v, ¬special true c := by
  intro c member found
  have apart (d : Char) (fixed : ¬special true d) : c ≠ d := by
    rintro rfl
    exact fixed found
  have noComma : c ∉ ([','] : Str) := by simpa using apart ',' (by decide)
  induction v using Any.induction with
  | nil =>
    have fixed : ∀ d ∈ canonicalJson go .nil, ¬special true d := by
      change ∀ d ∈ ['n', 'u', 'l', 'l'], ¬special true d
      simp only [List.forall_mem_cons, List.not_mem_nil, false_imp_iff, implies_true, and_true]
      decide
    exact fixed c member found
  | bool b =>
    have fixed : ∀ d ∈ canonicalJson go (.bool b), ¬special true d := by
      cases b with
      | false =>
        change ∀ d ∈ ['f', 'a', 'l', 's', 'e'], ¬special true d
        simp only [List.forall_mem_cons, List.not_mem_nil, false_imp_iff, implies_true, and_true]
        decide
      | true =>
        change ∀ d ∈ ['t', 'r', 'u', 'e'], ¬special true d
        simp only [List.forall_mem_cons, List.not_mem_nil, false_imp_iff, implies_true, and_true]
        decide
    exact fixed c member found
  | float64 bits => exact digits bits c member found
  | string s => exact quoted_clean true s c member found
  | slice items ih =>
    simp only [canonicalJson, canonicalItems_eq, List.cons_append, List.mem_cons, List.mem_append, List.not_mem_nil,
      or_false, apart '[' (by decide), apart ']' (by decide), false_or, mem_join noComma, List.mem_map,
      exists_exists_and_eq_and] at member
    obtain ⟨v, inside, here⟩ := member
    exact ih v inside here
  | map members ih =>
    simp only [canonicalJson, canonicalMembers_eq, List.cons_append, List.mem_cons, List.mem_append, List.not_mem_nil,
      or_false, apart '\x7b' (by decide), apart '\x7d' (by decide), false_or, mem_join noComma, List.mem_map,
      exists_exists_and_eq_and] at member
    obtain ⟨p, inside, here⟩ := member
    obtain ⟨q, origin, rfl⟩ := List.mem_map.mp (mem_sorted.mp inside)
    rcases here with name | rfl | value
    · exact quoted_clean true q.1 c name found
    · exact absurd found (by decide)
    · exact ih q origin value

theorem mem_canonicalJson {c : Char} (found : special true c) (v : Any) (member : c ∈ characters v) :
    c ∈ Enclave.canonicalJson rust (document v) := by
  have noComma : c ∉ ([','] : Str) := by
    rw [List.mem_singleton]
    rintro rfl
    exact absurd found (by decide)
  induction v using Any.induction with
  | nil => simp [characters] at member
  | bool b => simp [characters] at member
  | float64 bits => simp [characters] at member
  | string s => exact mem_quote member found
  | slice items ih =>
    rw [characters, itemCharacters_eq] at member
    obtain ⟨v, inside, here⟩ := List.mem_flatMap.mp member
    rw [document, documents_eq, Enclave.canonicalJson, Enclave.canonicalItems_eq, List.map_map]
    refine List.mem_append_left _ (List.mem_cons_of_mem _ ((mem_join noComma _).mpr ⟨_, List.mem_map_of_mem inside, ?_⟩))
    exact ih v inside here
  | map members ih =>
    rw [characters, memberCharacters_eq] at member
    obtain ⟨p, inside, here⟩ := List.mem_flatMap.mp member
    rw [document, documentMembers_eq, Enclave.canonicalJson, Enclave.canonicalFields_eq, List.map_map]
    have written := List.mem_map_of_mem (f := Prod.map id (Enclave.canonicalJson rust) ∘ Prod.map id document) inside
    refine List.mem_append_left _ (List.mem_cons_of_mem _ ((mem_join noComma _).mpr
      ⟨_, List.mem_map_of_mem (mem_sorted.mpr written), ?_⟩))
    rcases List.mem_append.mp here with name | value
    · exact List.mem_append_left _ (mem_quote name found)
    · exact List.mem_append_right _ (List.mem_cons_of_mem _ (ih p inside value))

/-- The helper and the enclave write a document alike exactly when none of its names and strings
holds one of the five characters that only the helper escapes. -/
theorem canonicalJson_enclave_iff (same : ∀ bits, go.formatFloat bits = rust.formatFloat bits)
    (digits : ∀ bits, ∀ c ∈ go.formatFloat bits, ¬special true c) (v : Any) :
    canonicalJson go v = Enclave.canonicalJson rust (document v) ↔ ∀ c ∈ characters v, ¬special true c := by
  refine ⟨fun equal c member found => ?_, canonicalJson_plain same v⟩
  exact canonicalJson_clean digits v c (equal ▸ mem_canonicalJson found v member) found

end TeeProof.AliyunProof
