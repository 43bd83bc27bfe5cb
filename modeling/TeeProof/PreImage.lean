import TeeProof.Canonical

/-! The text that is signed tells the values apart: two parsed values with one canonical
text are the same value. -/
namespace TeeProof.Enclave

open JsonTree

variable (rust : Rust)

/-- A number as the parser builds it: no negative variant for what is not negative, and no
infinity or NaN. -/
inductive ParsedNumber : Number → Prop
  | posInt (n : UInt64) : ParsedNumber (.posInt n)
  | negInt (n : Int64) (negative : n.toInt < 0) : ParsedNumber (.negInt n)
  | float (bits : UInt64) (finite : bits.toNat / 2 ^ 52 % 2 ^ 11 ≠ 2 ^ 11 - 1) : ParsedNumber (.float bits)

/-- A value whose numbers are parsed and whose objects are maps. -/
inductive ParsedValue : Value → Prop
  | null : ParsedValue .null
  | bool (b : Bool) : ParsedValue (.bool b)
  | number {n : Number} (parsed : ParsedNumber n) : ParsedValue (.number n)
  | string (s : Str) : ParsedValue (.string s)
  | array {items : List Value} (inside : ∀ v ∈ items, ParsedValue v) : ParsedValue (.array items)
  | object {map : Value.Map} (sorted : OrdMap.Sorted map) (values : ∀ p ∈ map, ParsedValue p.2) : ParsedValue (.object map)

/-- The characters of a JSON number. -/
def isNumberChar (c : Char) : Bool := c.isDigit || c = '-' || c = '+' || c = '.' || c = 'e' || c = 'E'

/-- What the library's number formatting does: it writes JSON numbers, and no two alike. -/
structure FormatsNumbers : Prop where
  nonempty : ∀ bits, rust.formatFloat bits ≠ []
  chars : ∀ bits, ∀ c ∈ rust.formatFloat bits, isNumberChar c = true
  injective : Set.InjOn (formatNumber rust) {n | ParsedNumber n}

theorem ParsedValue.ordered {v : Value} (parsed : ParsedValue v) : Ordered v := by
  induction parsed with
  | null => exact .null
  | bool b => exact .bool b
  | number => exact .number _
  | string s => exact .string s
  | array _ ih => exact .array ih
  | object sorted _ ih => exact .object sorted ih

section Formats

variable {rust} (formats : FormatsNumbers rust)

include formats

theorem FormatsNumbers.atoms (bits : UInt64) : IsAtom (JStr.ofChars (rust.formatFloat bits)) := by
  constructor
  · intro none
    exact formats.nonempty bits (ofChars_injective none)
  · intro u member inside
    obtain ⟨c, among, unit⟩ := List.mem_flatMap.mp member
    have number := formats.chars bits c among
    have ascii : u.toNat < 0x80 := by
      simp only [structural, List.mem_cons, List.not_mem_nil, or_false] at inside
      rcases inside with rfl | rfl | rfl | rfl | rfl | rfl <;> decide
    rw [JStr.ofChar_ascii unit ascii] at number
    simp only [structural, List.mem_cons, List.not_mem_nil, or_false] at inside
    rcases inside with rfl | rfl | rfl | rfl | rfl | rfl <;> cases number

theorem FormatsNumbers.digits (n : Number) : ∀ c ∈ formatNumber rust n, isNumberChar c = true := by
  have digit (n : Nat) : ∀ c ∈ Str.natDigits n, isNumberChar c = true := by
    intro c member
    rw [isNumberChar, Nat.isDigit_of_mem_toDigits (by decide) (by decide) member]
    rfl
  cases n with
  | posInt n => exact digit _
  | negInt n =>
    rw [formatNumber]
    split
    · exact List.forall_mem_cons.mpr ⟨rfl, digit _⟩
    · exact digit _
  | float bits => exact formats.chars bits

/-- No number is written as one of the three words. -/
theorem FormatsNumbers.ne_word (n : Number) {word : String} {letter : Char} (inside : letter ∈ word.toList)
    (other : isNumberChar letter = false) : JStr.ofChars (formatNumber rust n) ≠ JStr.lit word := by
  intro same
  have texts : formatNumber rust n = word.toList := ofChars_injective same
  have number := formats.digits n letter (texts ▸ inside)
  rw [other] at number
  cases number

theorem treeOf_injective {v w : Value} (left : ParsedValue v) (right : ParsedValue w)
    (same : treeOf rust formats.atoms v = treeOf rust formats.atoms w) : v = w := by
  have bools (n : Number) (b : Bool) : JStr.ofChars (formatNumber rust n) ≠ boolText b := by
    cases b with
    | false => exact formats.ne_word n (show 'f' ∈ "false".toList by decide) rfl
    | true => exact formats.ne_word n (show 't' ∈ "true".toList by decide) rfl
  have nulls (n : Number) : JStr.ofChars (formatNumber rust n) ≠ JStr.lit "null" :=
    formats.ne_word n (show 'n' ∈ "null".toList by decide) rfl
  have words (b : Bool) : boolText b ≠ JStr.lit "null" := by cases b <;> decide
  induction left generalizing w with
  | null =>
    cases right with
    | null => rfl
    | bool b => exact absurd (congrArg Atom.text (Tree.atom.inj same)).symm (words b)
    | number => exact absurd (congrArg Atom.text (Tree.atom.inj same)).symm (nulls _)
    | string => cases same
    | array => cases same
    | object => cases same
  | bool b =>
    cases right with
    | null => exact absurd (congrArg Atom.text (Tree.atom.inj same)) (words b)
    | bool c =>
      have texts : boolText b = boolText c := congrArg Atom.text (Tree.atom.inj same)
      cases b <;> cases c
      · rfl
      · exact absurd texts (by decide)
      · exact absurd texts (by decide)
      · rfl
    | number => exact absurd (congrArg Atom.text (Tree.atom.inj same)).symm (bools _ b)
    | string => cases same
    | array => cases same
    | object => cases same
  | @number n parsed =>
    cases right with
    | null => exact absurd (congrArg Atom.text (Tree.atom.inj same)) (nulls n)
    | bool b => exact absurd (congrArg Atom.text (Tree.atom.inj same)) (bools n b)
    | @number m parsed' =>
      have texts : JStr.ofChars (formatNumber rust n) = JStr.ofChars (formatNumber rust m) :=
        congrArg Atom.text (Tree.atom.inj same)
      rw [formats.injective parsed parsed' (ofChars_injective texts)]
    | string => cases same
    | array => cases same
    | object => cases same
  | string s =>
    cases right with
    | string t =>
      have bodies := Verifier.bodyOf_injective (Tree.str.inj same)
      rw [ofChars_injective bodies]
    | null => cases same
    | bool => cases same
    | number => cases same
    | array => cases same
    | object => cases same
  | @array items inside ih =>
    cases right with
    | @array others inside' =>
      have trees := Tree.arr.inj same
      rw [treesOf_eq, treesOf_eq] at trees
      congr 1
      clear same inside
      induction items generalizing others with
      | nil => exact (List.map_eq_nil_iff.mp trees.symm).symm
      | cons v rest tail =>
        cases others with
        | nil => cases trees
        | cons w others =>
          obtain ⟨first, rest'⟩ := List.cons.inj trees
          rw [ih v List.mem_cons_self (inside' w List.mem_cons_self) first,
            tail (fun x member => ih x (List.mem_cons_of_mem v member))
              (fun x member => inside' x (List.mem_cons_of_mem w member)) rest']
    | null => cases same
    | bool => cases same
    | number => cases same
    | string => cases same
    | object => cases same
  | @object map sorted values ih =>
    cases right with
    | @object others sorted' values' =>
      have members := Tree.obj.inj same
      rw [memberTrees_eq, memberTrees_eq] at members
      congr 1
      clear same sorted sorted' values
      induction map generalizing others with
      | nil => exact (List.map_eq_nil_iff.mp members.symm).symm
      | cons p rest tail =>
        cases others with
        | nil => cases members
        | cons q others =>
          obtain ⟨first, rest'⟩ := List.cons.inj members
          obtain ⟨keys, trees⟩ := Prod.mk.inj first
          have key : p.1 = q.1 := ofChars_injective (Verifier.bodyOf_injective keys)
          have value := ih p List.mem_cons_self (values' q List.mem_cons_self) trees
          rw [Prod.ext key value,
            tail (fun x member => ih x (List.mem_cons_of_mem p member))
              (fun x member => values' x (List.mem_cons_of_mem q member)) rest']
    | null => cases same
    | bool => cases same
    | number => cases same
    | string => cases same
    | array => cases same

/-- Distinct values have distinct pre-images. -/
theorem canonicalJson_injective {v w : Value} (left : ParsedValue v) (right : ParsedValue w)
    (same : canonicalJson rust v = canonicalJson rust w) : v = w := by
  apply treeOf_injective formats left right
  apply print_injective
  rw [← canonicalJson_eq rust formats.atoms left.ordered, ← canonicalJson_eq rust formats.atoms right.ordered, same]

end Formats

/-- A host that writes a float as its bits and an exponent. -/
def exponentRust : Rust := { Rust.sample [] [] with formatFloat := fun bits => Str.natDigits bits.toNat ++ ['e', '0'] }

theorem isDigit_natDigits (n : Nat) : ∀ c ∈ Str.natDigits n, c.isDigit = true := fun _ member =>
  Nat.isDigit_of_mem_toDigits (by decide) (by decide) member

theorem natDigits_inj {m n : Nat} (same : Str.natDigits m = Str.natDigits n) : m = n :=
  JStr.natDigits_injective (congrArg JStr.ofChars same)

theorem exponentRust_formats : FormatsNumbers exponentRust where
  nonempty bits := by simp [exponentRust]
  chars bits c member := by
    rcases List.mem_append.mp member with digit | exponent
    · rw [isNumberChar, isDigit_natDigits _ c digit]
      rfl
    · rcases List.mem_pair.mp exponent with rfl | rfl <;> rfl
  injective := by
    have apart (n : Nat) (bits : UInt64) : Str.natDigits n ≠ Str.natDigits bits.toNat ++ ['e', '0'] := by
      intro same
      have digit := isDigit_natDigits n 'e' (by rw [same]; simp)
      cases digit
    have signed (k n : Nat) : '-' :: Str.natDigits k ≠ Str.natDigits n := by
      intro same
      have digit := isDigit_natDigits n '-' (by rw [← same]; simp)
      cases digit
    have signedFloat (k : Nat) (bits : UInt64) : '-' :: Str.natDigits k ≠ Str.natDigits bits.toNat ++ ['e', '0'] := by
      intro same
      have minus : '-' ∈ Str.natDigits bits.toNat ++ ['e', '0'] := by rw [← same]; exact List.mem_cons_self
      rcases List.mem_append.mp minus with digit | exponent
      · cases isDigit_natDigits _ _ digit
      · rcases List.mem_pair.mp exponent with eq | eq <;> cases eq
    rintro m left n right same
    cases left with
    | posInt i =>
      cases right with
      | posInt j => rw [UInt64.toNat_inj.mp (natDigits_inj same)]
      | negInt j negative =>
        simp only [formatNumber, negative, if_true] at same
        exact absurd same.symm (signed _ _)
      | float bits => exact absurd same (apart _ bits)
    | negInt i negative =>
      simp only [formatNumber, negative, if_true] at same
      cases right with
      | posInt j => exact absurd same (signed _ _)
      | negInt j negative' =>
        simp only [negative', if_true] at same
        have sizes := natDigits_inj (List.cons.inj same).2
        have equal : i = j := Int64.toInt_inj.mp (by omega)
        rw [equal]
      | float bits => exact absurd same (signedFloat _ bits)
    | float bits =>
      cases right with
      | posInt j => exact absurd same.symm (apart _ bits)
      | negInt j negative =>
        simp only [formatNumber, negative, if_true] at same
        exact absurd same.symm (signedFloat _ bits)
      | float bits' => rw [UInt64.toNat_inj.mp (natDigits_inj (List.append_cancel_right same))]

def sampleMembers : Value.Map :=
  [(['a'], .array [.null, .number (.posInt 7), .string ['"', ',']]), (['b'], .bool true)]

theorem sampleMembers_parsed : ParsedValue (.object sampleMembers) := by
  refine .object (by unfold sampleMembers OrdMap.Sorted; decide) ?_
  simp only [sampleMembers, List.forall_mem_cons, List.not_mem_nil, false_implies, implies_true, and_true]
  refine ⟨.array ?_, .bool true⟩
  simp only [List.forall_mem_cons, List.not_mem_nil, false_implies, implies_true, and_true]
  exact ⟨.null, .number (.posInt 7), .string _⟩

/-- The order in which members were put in leaves no trace in the text. -/
theorem canonicalJson_injective_sample :
    Value.ofFields [("b", .bool true), ("a", .array [.null, .number (.posInt 7), .string ['"', ',']])] =
      .object sampleMembers :=
  canonicalJson_injective exponentRust_formats sampleMembers_parsed sampleMembers_parsed rfl

end TeeProof.Enclave
