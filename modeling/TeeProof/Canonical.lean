import TeeProof.JsonText
import TeeProof.KeyOrder

/-! The two canonical JSON writers as trees. Both write the same brackets, so two texts
are equal exactly when their trees are; on one document the trees differ in the order
of keys, in a `__proto__` member and in how a number is written. -/
namespace TeeProof

open JsVal JsonTree

/-- A text that can stand for a number. -/
def IsAtom (s : JStr) : Prop := s ≠ [] ∧ ∀ u ∈ s, u ∉ structural

def IsAtom.atom {s : JStr} (h : IsAtom s) : Atom := ⟨s, h.1, h.2⟩

theorem natDigits_isAtom (n : Nat) : IsAtom (JStr.natDigits n) := by
  constructor
  · intro none
    have digits : Nat.toDigits 10 n = [] := ofChars_injective none
    exact absurd digits (by simp)
  · intro u member inside
    have digit := JStr.natDigits_digit n u member
    simp only [structural, List.mem_cons, List.not_mem_nil, or_false] at inside
    rcases inside with rfl | rfl | rfl | rfl | rfl | rfl <;> simp at digit

theorem minus_isAtom {s : JStr} (h : IsAtom s) : IsAtom (0x2D :: s) := by
  refine ⟨by simp, ?_⟩
  intro u member
  rcases List.mem_cons.mp member with rfl | later
  · decide
  · exact h.2 u later

/-- The texts `null`, `true` and `false`. -/
theorem word_isAtom (s : JStr) (nonempty : s ≠ []) (letters : (s.all fun u => 97 ≤ u.toNat && u.toNat ≤ 122) = true) :
    IsAtom s := by
  refine ⟨nonempty, ?_⟩
  intro u member inside
  have letter := List.all_eq_true.mp letters u member
  simp only [structural, List.mem_cons, List.not_mem_nil, or_false] at inside
  rcases inside with rfl | rfl | rfl | rfl | rfl | rfl <;> simp at letter

theorem null_isAtom : IsAtom "null" := word_isAtom _ (by decide) (by decide)

def nullTree : Tree := .atom null_isAtom.atom

def boolText : Bool → JStr
  | true => "true"
  | false => "false"

theorem bool_isAtom (b : Bool) : IsAtom (boolText b) := by
  cases b
  · exact word_isAtom _ (by decide) (by decide)
  · exact word_isAtom _ (by decide) (by decide)

namespace Verifier

theorem escapeUnit_inert (u : UInt16) : Inert (escapeUnit u) := by
  have digit (n : Nat) (small : n < 16) : Inert [JStr.hexDigit n] := by
    have plain : ∀ n < 16, JStr.hexDigit n ≠ 0x22 ∧ JStr.hexDigit n ≠ 0x5C := by decide
    exact inert_unit (plain n small).1 (plain n small).2
  unfold escapeUnit
  split
  · exact inert_pair _
  split
  · exact inert_pair _
  split
  · exact inert_pair _
  split
  · exact inert_pair _
  split
  · exact inert_pair _
  split
  · exact inert_pair _
  split
  · exact inert_pair _
  split
  · have bound := u.toNat_lt
    exact (inert_pair _).append ((digit _ (by omega)).append ((digit _ (by omega)).append
      ((digit _ (by omega)).append (digit _ (by omega)))))
  next => exact inert_unit (by assumption) (by assumption)

theorem escape_inert (s : JStr) : Inert (escape s) := by
  fun_induction escape s with
  | case1 => exact .nil
  | case2 u => exact escapeUnit_inert u
  | case3 u v rest both ih =>
    rw [Bool.and_eq_true] at both
    have plain (w : UInt16) (surrogate : JStr.isHigh w = true ∨ JStr.isLow w = true) : Inert [w] := by
      refine inert_unit ?_ ?_ <;> rintro rfl <;> revert surrogate <;> decide
    exact (plain u (.inl both.1)).append ((plain v (.inr both.2)).append ih)
  | case4 u v rest _ ih => exact (escapeUnit_inert u).append ih

/-- What `JSON.stringify` writes between the quotation marks. -/
def bodyOf (s : JStr) : Body := ⟨escape s, escape_inert s⟩

theorem bodyOf_injective : Function.Injective bodyOf := fun s t same => by
  have texts : escape s = escape t := congrArg Body.text same
  exact (escape_reads s t [] [] (by rw [texts])).1

variable (node : Node)

theorem number_isAtom (formats : ∀ q, IsAtom (node.formatNumber q)) (n : JsNumber) :
    IsAtom (stringify node (.num n)) := by
  cases n with
  | finite q =>
    simp only [stringify, numberToString]
    split
    · unfold intDigits
      split
      · exact minus_isAtom (natDigits_isAtom _)
      · exact natDigits_isAtom _
    · exact formats q
  | posInf => exact null_isAtom
  | negInf => exact null_isAtom

section Tree

variable (formats : ∀ q, IsAtom (node.formatNumber q))

mutual

/-- The tree of `canonicalJson`. -/
def treeOf : JsVal → Tree
  | .undefined => nullTree
  | .null => nullTree
  | .bool b => .atom (bool_isAtom b).atom
  | .num n => .atom (number_isAtom node formats n).atom
  | .str s => .str (bodyOf s)
  | .arr items => .arr (treesOf items)
  | .obj _ props => .obj ((arranged (memberTrees props)).map (Prod.map bodyOf id))

def treesOf : List JsVal → List Tree
  | [] => []
  | v :: rest => treeOf v :: treesOf rest

def memberTrees : List (JStr × JsVal) → List (JStr × Tree)
  | [] => []
  | (key, v) :: rest => (key, treeOf v) :: memberTrees rest

end

theorem treesOf_eq (items : List JsVal) : treesOf node formats items = items.map (treeOf node formats) := by
  induction items with
  | nil => rfl
  | cons v rest ih => rw [treesOf, ih, List.map_cons]

theorem memberTrees_eq (props : Props) :
    memberTrees node formats props = props.map (Prod.map id (treeOf node formats)) := by
  induction props with
  | nil => rfl
  | cons p rest ih => rw [memberTrees, ih, List.map_cons, Prod.map, id]

end Tree

theorem sortItems_eq (items : List JsVal) : sortItems items = items.map sortJson := by
  induction items with
  | nil => rfl
  | cons v rest ih => rw [sortItems, ih, List.map_cons]

theorem sortProps_eq (props : Props) : sortProps props = props.map (Prod.map id sortJson) := by
  induction props with
  | nil => rfl
  | cons p rest ih => rw [sortProps, ih, List.map_cons, Prod.map, id]

theorem stringifyItems_eq (items : List JsVal) : stringifyItems node items = items.map (stringify node) := by
  induction items with
  | nil => rfl
  | cons v rest ih => rw [stringifyItems, ih, List.map_cons]

theorem stringifyProps_eq {props : Props} (defined : ∀ p ∈ props, p.2 ≠ .undefined) :
    stringifyProps node props = props.map (Prod.map id (stringify node)) := by
  induction props with
  | nil => rfl
  | cons p rest ih =>
    obtain ⟨key, v⟩ := p
    have first := defined (key, v) (by simp)
    rw [stringifyProps, ih fun q member => defined q (List.mem_cons_of_mem _ member), List.map_cons, Prod.map, id]
    exact first

/-- A value as `JSON.parse` builds it: keys stand once and no member is `undefined`. -/
inductive Tidy : JsVal → Prop
  | undefined : Tidy .undefined
  | null : Tidy .null
  | bool (b : Bool) : Tidy (.bool b)
  | num (n : JsNumber) : Tidy (.num n)
  | str (s : JStr) : Tidy (.str s)
  | arr {items : List JsVal} (inside : ∀ v ∈ items, Tidy v) : Tidy (.arr items)
  | obj (proto : JsVal) {props : Props} (nodup : (props.map Prod.fst).Nodup) (defined : ∀ p ∈ props, p.2 ≠ .undefined)
    (values : ∀ p ∈ props, Tidy p.2) : Tidy (.obj proto props)

theorem own_none {props : Props} {key : JStr} : own props key = none ↔ key ∉ props.map Prod.fst := Assoc.lookup_eq_none

/-- Assignment of fresh keys appends them, except that `__proto__` goes to the prototype. -/
theorem set_fresh (proto : JsVal) {props : Props} {key : JStr} (value : JsVal) (fresh : key ∉ props.map Prod.fst)
    (reached : key = protoKey → accessor proto = true) :
    ∃ proto', (JsVal.obj proto props).set key value =
      .obj proto' (if key = protoKey then props else props ++ [(key, value)]) ∧
      (key ≠ protoKey → proto' = proto) := by
  unfold JsVal.set
  simp only [own_none.mpr fresh, Option.isSome_none, Bool.false_eq_true, if_false]
  by_cases same : key = protoKey
  · simp only [same, decide_true, reached same, Bool.and_self, if_true]
    split
    · exact ⟨_, rfl, fun apart => absurd rfl apart⟩
    · split
      · exact ⟨_, rfl, fun apart => absurd rfl apart⟩
      · exact ⟨_, rfl, fun apart => absurd rfl apart⟩
  · simp only [same, decide_false, Bool.false_and, Bool.false_eq_true, if_false]
    exact ⟨_, rfl, fun _ => rfl⟩

theorem assign_foldl (members : Props) (proto : JsVal) (props : Props)
    (nodup : ((props ++ members).map Prod.fst).Nodup)
    (reached : protoKey ∈ members.map Prod.fst → accessor proto = true) :
    ∃ proto', members.foldl (fun out p => out.set p.1 p.2) (JsVal.obj proto props) =
      .obj proto' (props ++ members.filter fun p => p.1 ≠ protoKey) := by
  induction members generalizing proto props with
  | nil => exact ⟨proto, by simp⟩
  | cons p rest ih =>
    obtain ⟨key, value⟩ := p
    have apart : (props.map Prod.fst ++ key :: rest.map Prod.fst).Nodup := by simpa using nodup
    obtain ⟨left, right, cross⟩ := List.nodup_append.mp apart
    have fresh : key ∉ props.map Prod.fst := fun inside => cross key inside key (by simp) rfl
    obtain ⟨proto', step, kept⟩ := set_fresh proto value fresh fun same => reached (by simp [same])
    rw [List.foldl_cons, step]
    by_cases same : key = protoKey
    · have absent : protoKey ∉ rest.map Prod.fst := same ▸ (List.nodup_cons.mp right).1
      obtain ⟨last, eq⟩ := ih proto' props (by
        rw [List.map_append, List.nodup_append]
        exact ⟨left, (List.nodup_cons.mp right).2, fun a inside b later => cross a inside b (by simp [later])⟩)
        fun inside => absurd inside absent
      exact ⟨last, by rw [if_pos same, eq]; simp [same]⟩
    · obtain ⟨last, eq⟩ := ih proto' (props ++ [(key, value)]) (by simpa using nodup) fun inside => by
        rw [kept same]
        exact reached (by simp at inside ⊢; exact .inr inside)
      exact ⟨last, by rw [if_neg same, eq]; simp [same]⟩

theorem assignAll_eq (members : Props) (nodup : (members.map Prod.fst).Nodup) :
    ∃ proto, assignAll members = .obj proto (members.filter fun p => p.1 ≠ protoKey) := by
  obtain ⟨proto, eq⟩ := assign_foldl members .undefined [] (by simpa using nodup) fun _ => rfl
  exact ⟨proto, by simpa [assignAll, JsVal.empty] using eq⟩

theorem sortJson_defined {v : JsVal} (tidy : Tidy v) (defined : v ≠ .undefined) : sortJson v ≠ .undefined := by
  cases tidy with
  | undefined => exact absurd rfl defined
  | null => simp [sortJson]
  | bool b => simp [sortJson]
  | num n => simp [sortJson]
  | str s => simp [sortJson]
  | arr items => simp [sortJson]
  | obj proto nodup _ _ =>
    rw [sortJson, sortProps_eq]
    obtain ⟨proto', eq⟩ := assignAll_eq ((List.map (Prod.map id sortJson) _).insertionSort
      fun p q => JStr.le p.1 q.1) (((List.perm_insertionSort _ _).map _).nodup_iff.mpr (by rw [map_fst_map]; exact nodup))
    rw [eq]
    simp

/-- A sorted object is written member by member in the arranged order. -/
theorem canonicalJson_obj {proto : JsVal} {props : Props} (nodup : (props.map Prod.fst).Nodup)
    (defined : ∀ p ∈ props, p.2 ≠ .undefined) (values : ∀ p ∈ props, Tidy p.2) :
    canonicalJson node (.obj proto props) = 0x7B :: commaJoin ((arranged (props.map
      (Prod.map id (canonicalJson node)))).map fun p => quote p.1 ++ 0x3A :: p.2) ++ [0x7D] := by
  have sorted : ((props.map (Prod.map id sortJson)).insertionSort fun p q => JStr.le p.1 q.1).Perm
      (props.map (Prod.map id sortJson)) := List.perm_insertionSort _ _
  obtain ⟨proto', eq⟩ := assignAll_eq ((props.map (Prod.map id sortJson)).insertionSort
    fun p q => JStr.le p.1 q.1) ((sorted.map _).nodup_iff.mpr (by rw [map_fst_map]; exact nodup))
  have present : ∀ p ∈ ((props.map (Prod.map id sortJson)).insertionSort fun p q => JStr.le p.1 q.1).filter
      (fun p => p.1 ≠ protoKey), p.2 ≠ .undefined := by
    intro p member
    have inside := sorted.mem_iff.mp (List.mem_filter.mp member).1
    obtain ⟨q, origin, rfl⟩ := List.mem_map.mp inside
    exact sortJson_defined (values q origin) (defined q origin)
  rw [canonicalJson, sortJson, sortProps_eq, eq, stringify, stringifyProps_eq node present]
  congr 4
  rw [enumerate_map, ← arranged, ← arranged_map, List.map_map]
  rfl

variable (formats : ∀ q, IsAtom (node.formatNumber q))

theorem canonicalJson_eq {v : JsVal} (tidy : Tidy v) : canonicalJson node v = print (treeOf node formats v) := by
  induction tidy with
  | undefined => rfl
  | null => rfl
  | bool b => cases b <;> rfl
  | num n => simp only [canonicalJson, sortJson, treeOf, print, IsAtom.atom]
  | str s => rfl
  | arr items ih =>
    simp only [canonicalJson, sortJson, sortItems_eq, stringify, stringifyItems_eq, commaJoin_eq, treeOf, print,
      treesOf_eq, printItems_eq, List.map_map]
    congr 3
    exact List.map_congr_left fun v member => ih v member
  | obj proto nodup defined values ih =>
    rw [canonicalJson_obj node nodup defined values, commaJoin_eq, treeOf, print, printMembers_eq, List.map_map,
      memberTrees_eq]
    rename_i props
    have inner : props.map (Prod.map id (canonicalJson node)) =
        (props.map (Prod.map id (treeOf node formats))).map (Prod.map id print) := by
      rw [List.map_map]
      refine List.map_congr_left fun p member => ?_
      rw [Prod.map, ih p member]
      rfl
    rw [inner, arranged_map, List.map_map]
    congr 3
    refine List.map_congr_left fun p _ => ?_
    simp [Function.comp, printMember, quote, bodyOf]

end Verifier

namespace Enclave

open Verifier (bodyOf)

theorem escape_cons {u : UInt16} (rest : JStr) (plain : JStr.isHigh u = false) :
    Verifier.escape (u :: rest) = Verifier.escapeUnit u ++ Verifier.escape rest := by
  cases rest with
  | nil => simp [Verifier.escape]
  | cons v rest => simp [Verifier.escape, plain]

theorem ofChar_hexDigit (n : Nat) (small : n < 16) : JStr.ofChar (Str.hexDigit n) = [JStr.hexDigit n] := by
  revert n
  decide

/-- Both writers escape a character of the first plane alike. -/
theorem escapeUnit_char (c : Char) (small : c.toNat < 0x10000) :
    Verifier.escapeUnit (UInt16.ofNat c.toNat) = JStr.ofChars (escapeChar c) := by
  have valid : c.toNat.isValidChar := c.valid
  simp only [Nat.isValidChar] at valid
  have unit : (UInt16.ofNat c.toNat).toNat = c.toNat := by rw [UInt16.toNat_ofNat']; omega
  have same (d : Char) (v : UInt16) (value : v.toNat = d.toNat) : UInt16.ofNat c.toNat = v ↔ c = d := by
    rw [← UInt16.toNat_inj, unit, value, Char.toNat_inj]
  have surrogate : ¬(JStr.isHigh (UInt16.ofNat c.toNat) = true ∨ JStr.isLow (UInt16.ofNat c.toNat) = true) := by
    simp only [JStr.isHigh, JStr.isLow, unit, Bool.and_eq_true, decide_eq_true_eq]
    omega
  simp only [Verifier.escapeUnit, escapeChar, same '"' 0x22 rfl, same '\\' 0x5C rfl, same '\x08' 0x08 rfl,
    same '\x0C' 0x0C rfl, same '\n' 0x0A rfl, same '\r' 0x0D rfl, same '\t' 0x09 rfl, unit, surrogate, or_false]
  split_ifs with _ _ _ _ _ _ _ control
  · rfl
  · rfl
  · rfl
  · rfl
  · rfl
  · rfl
  · rfl
  · have first : c.toNat / 4096 = 0 := by omega
    have second : c.toNat / 256 % 16 = 0 := by omega
    have third : c.toNat / 16 % 16 = c.toNat / 16 := by omega
    simp only [JStr.ofChars, List.flatMap_cons, List.flatMap_nil, List.append_nil,
      ofChar_hexDigit _ (show c.toNat / 16 < 16 by omega), ofChar_hexDigit _ (show c.toNat % 16 < 16 by omega),
      first, second, third]
    rfl
  · simp [JStr.ofChars, JStr.ofChar, small]

theorem escape_ofChar (c : Char) (rest : JStr) :
    Verifier.escape (JStr.ofChar c ++ rest) = JStr.ofChars (escapeChar c) ++ Verifier.escape rest := by
  have valid : c.toNat.isValidChar := c.valid
  simp only [Nat.isValidChar] at valid
  by_cases small : c.toNat < 0x10000
  · have plain : JStr.isHigh (UInt16.ofNat c.toNat) = false := by
      have unit : (UInt16.ofNat c.toNat).toNat = c.toNat := by rw [UInt16.toNat_ofNat']; omega
      simp only [JStr.isHigh, unit, Bool.and_eq_false_iff, decide_eq_false_iff_not]
      omega
    rw [← escapeUnit_char c small, JStr.ofChar, if_pos small, List.singleton_append, escape_cons rest plain]
  · have high : JStr.isHigh (UInt16.ofNat (0xD800 + (c.toNat - 0x10000) / 0x400)) = true := by
      simp [JStr.isHigh]
      omega
    have low : JStr.isLow (UInt16.ofNat (0xDC00 + (c.toNat - 0x10000) % 0x400)) = true := by
      simp [JStr.isLow]
      omega
    have itself : escapeChar c = [c] := by
      have apart (d : Char) (ascii : d.toNat < 0x80) : c ≠ d := by
        rintro rfl
        omega
      simp only [escapeChar, apart '"' (by decide), apart '\\' (by decide), apart '\x08' (by decide),
        apart '\x0C' (by decide), apart '\n' (by decide), apart '\r' (by decide), apart '\t' (by decide), if_false]
      rw [if_neg (by omega)]
    rw [itself]
    simp only [JStr.ofChars, List.flatMap_singleton, JStr.ofChar, small, if_false, List.cons_append, List.nil_append,
      Verifier.escape, high, low, Bool.and_self, if_true]

theorem escape_ofChars (s : Str) : Verifier.escape (JStr.ofChars s) = JStr.ofChars (s.flatMap escapeChar) := by
  induction s with
  | nil => rfl
  | cons c rest ih =>
    rw [List.flatMap_cons, ofChars_append, ← ih]
    exact escape_ofChar c _

theorem ofChars_quote (s : Str) : JStr.ofChars (quote s) = 0x22 :: (bodyOf (JStr.ofChars s)).text ++ [0x22] := by
  have body : (bodyOf (JStr.ofChars s)).text = JStr.ofChars (s.flatMap escapeChar) := escape_ofChars s
  rw [body, quote, ofChars_append]
  rfl

theorem ofChars_join (parts : List Str) :
    JStr.ofChars (Str.join [','] parts) = Delimited.separated 0x2C (parts.map JStr.ofChars) := by
  fun_induction Str.join [','] parts with
  | case1 => rfl
  | case2 s => simp [Delimited.separated]
  | case3 s t rest ih =>
    rw [ofChars_append, ofChars_append, ih]
    simp only [List.map_cons, Delimited.separated, List.flatMap_cons, List.append_assoc, List.cons_append]
    rfl

variable (rust : Rust)

theorem number_isAtom (formats : ∀ bits, IsAtom (JStr.ofChars (rust.formatFloat bits))) (n : Number) :
    IsAtom (JStr.ofChars (formatNumber rust n)) := by
  cases n with
  | posInt n => exact natDigits_isAtom _
  | negInt n =>
    rw [formatNumber]
    split
    · exact minus_isAtom (natDigits_isAtom _)
    · exact natDigits_isAtom _
  | float bits => exact formats bits

section Tree

variable (formats : ∀ bits, IsAtom (JStr.ofChars (rust.formatFloat bits)))

mutual

/-- The tree of `canonical_json`. -/
def treeOf : Value → Tree
  | .null => nullTree
  | .bool b => .atom (bool_isAtom b).atom
  | .number n => .atom (number_isAtom rust formats n).atom
  | .string s => .str (bodyOf (JStr.ofChars s))
  | .array items => .arr (treesOf items)
  | .object map => .obj (memberTrees map)

def treesOf : List Value → List Tree
  | [] => []
  | v :: rest => treeOf v :: treesOf rest

def memberTrees : List (Str × Value) → List (Body × Tree)
  | [] => []
  | (key, v) :: rest => (bodyOf (JStr.ofChars key), treeOf v) :: memberTrees rest

end

theorem treesOf_eq (items : List Value) : treesOf rust formats items = items.map (treeOf rust formats) := by
  induction items with
  | nil => rfl
  | cons v rest ih => rw [treesOf, ih, List.map_cons]

theorem memberTrees_eq (map : Value.Map) :
    memberTrees rust formats map = map.map (Prod.map (bodyOf ∘ JStr.ofChars) (treeOf rust formats)) := by
  induction map with
  | nil => rfl
  | cons p rest ih =>
    rw [memberTrees, ih]
    rfl

end Tree

theorem canonicalItems_eq (items : List Value) : canonicalItems rust items = items.map (canonicalJson rust) := by
  induction items with
  | nil => rfl
  | cons v rest ih => rw [canonicalItems, ih, List.map_cons]

theorem canonicalFields_eq (map : Value.Map) :
    canonicalFields rust map = map.map (Prod.map id (canonicalJson rust)) := by
  induction map with
  | nil => rfl
  | cons p rest ih =>
    rw [canonicalFields, ih]
    rfl

theorem ofChars_array (items : List Value) :
    JStr.ofChars (canonicalJson rust (.array items)) =
      0x5B :: Delimited.separated 0x2C (items.map fun v => JStr.ofChars (canonicalJson rust v)) ++ [0x5D] := by
  have inner (parts : List Str) : JStr.ofChars ('[' :: Str.join [','] parts) =
      0x5B :: Delimited.separated 0x2C (parts.map JStr.ofChars) := by
    rw [← ofChars_join]
    rfl
  rw [canonicalJson, canonicalItems_eq, ofChars_append, inner, List.map_map]
  rfl

theorem ofChars_object {map : Value.Map} (sorted : OrdMap.Sorted map) :
    JStr.ofChars (canonicalJson rust (.object map)) =
      0x7B :: Delimited.separated 0x2C (map.map fun p => 0x22 :: (bodyOf (JStr.ofChars p.1)).text ++
        0x22 :: 0x3A :: JStr.ofChars (canonicalJson rust p.2)) ++ [0x7D] := by
  have order : (canonicalFields rust map).Pairwise fun p q => p.1 ≤ q.1 := by
    rw [canonicalFields_eq, List.pairwise_map]
    exact sorted.imp fun less => less.le
  have inner (parts : List Str) : JStr.ofChars ('{' :: Str.join [','] parts) =
      0x7B :: Delimited.separated 0x2C (parts.map JStr.ofChars) := by
    rw [← ofChars_join]
    rfl
  have colon (s : Str) : JStr.ofChars (':' :: s) = 0x3A :: JStr.ofChars s := rfl
  rw [canonicalJson, order.insertionSort_eq, canonicalFields_eq, ofChars_append, inner, List.map_map, List.map_map]
  congr 3
  refine List.map_congr_left fun p _ => ?_
  simp only [Function.comp, Prod.map, id, ofChars_append, ofChars_quote, colon, List.cons_append, List.append_assoc,
    List.nil_append]

/-- A value whose objects are maps. -/
inductive Ordered : Value → Prop
  | null : Ordered .null
  | bool (b : Bool) : Ordered (.bool b)
  | number (n : Number) : Ordered (.number n)
  | string (s : Str) : Ordered (.string s)
  | array {items : List Value} (inside : ∀ v ∈ items, Ordered v) : Ordered (.array items)
  | object {map : Value.Map} (sorted : OrdMap.Sorted map) (values : ∀ p ∈ map, Ordered p.2) : Ordered (.object map)

variable (formats : ∀ bits, IsAtom (JStr.ofChars (rust.formatFloat bits)))

theorem canonicalJson_eq {v : Value} (ordered : Ordered v) :
    JStr.ofChars (canonicalJson rust v) = print (treeOf rust formats v) := by
  induction ordered with
  | null => rfl
  | bool b => cases b <;> rfl
  | number n => rfl
  | string s =>
    rw [canonicalJson, ofChars_quote]
    rfl
  | array inside ih =>
    rw [ofChars_array, treeOf, print, treesOf_eq, printItems_eq, List.map_map]
    congr 3
    exact List.map_congr_left fun v member => ih v member
  | object sorted values ih =>
    rw [ofChars_object rust sorted, treeOf, print, memberTrees_eq, printMembers_eq, List.map_map]
    congr 3
    refine List.map_congr_left fun p member => ?_
    rw [ih p member]
    rfl

end Enclave

end TeeProof
