import TeeProof.Canonical

/-! What the verifier's canonical text tells apart. A value is read back from its text
up to the order of members, except that members named `__proto__` are not written and
a number too large for a double is written as `null`. -/
namespace TeeProof.Verifier

open JsVal JsonTree

/-- The finite doubles. -/
def IsDouble (q : ℚ) : Prop := ∃ m e : ℤ, |m| < 2 ^ 53 ∧ -1074 ≤ e ∧ e ≤ 971 ∧ q = m * 2 ^ e

/-- What `JSON.parse` makes of a text in which no object repeats a key. -/
inductive Parsed : JsVal → Prop
  | null : Parsed .null
  | bool (b : Bool) : Parsed (.bool b)
  | finite {q : ℚ} (double : IsDouble q) : Parsed (.num (.finite q))
  | posInf : Parsed (.num .posInf)
  | negInf : Parsed (.num .negInf)
  | str (s : JStr) : Parsed (.str s)
  | arr {items : List JsVal} (inside : ∀ v ∈ items, Parsed v) : Parsed (.arr items)
  | obj {props : Props} (nodup : (props.map Prod.fst).Nodup) (values : ∀ p ∈ props, Parsed p.2) :
    Parsed (.obj .undefined props)

/-- The two are the same JSON value: members are compared key by key. -/
inductive SameValue : JsVal → JsVal → Prop
  | null : SameValue .null .null
  | bool (b : Bool) : SameValue (.bool b) (.bool b)
  | num (n : JsNumber) : SameValue (.num n) (.num n)
  | str (s : JStr) : SameValue (.str s) (.str s)
  | arr {items items' : List JsVal} (same : List.Forall₂ SameValue items items') : SameValue (.arr items) (.arr items')
  | obj {props props' : Props} (fields : ∀ key, Option.Rel SameValue (own props key) (own props' key)) :
    SameValue (.obj .undefined props) (.obj .undefined props')

mutual

/-- The value without its `__proto__` members and with `null` for the infinities. -/
def visible : JsVal → JsVal
  | .num .posInf => .null
  | .num .negInf => .null
  | .arr items => .arr (visibleItems items)
  | .obj proto props => .obj proto (visibleProps props)
  | value => value

def visibleItems : List JsVal → List JsVal
  | [] => []
  | v :: rest => visible v :: visibleItems rest

def visibleProps : List (JStr × JsVal) → List (JStr × JsVal)
  | [] => []
  | (key, v) :: rest => if key = protoKey then visibleProps rest else (key, visible v) :: visibleProps rest

end

theorem visibleItems_eq (items : List JsVal) : visibleItems items = items.map visible := by
  induction items with
  | nil => rfl
  | cons v rest ih => rw [visibleItems, ih, List.map_cons]

theorem visibleProps_eq (props : Props) :
    visibleProps props = (props.filter fun p => p.1 ≠ protoKey).map (Prod.map id visible) := by
  induction props with
  | nil => rfl
  | cons p rest ih =>
    obtain ⟨key, v⟩ := p
    by_cases same : key = protoKey
    · simp [visibleProps, same, ih]
    · simp [visibleProps, same, ih]

theorem Parsed.defined {v : JsVal} (parsed : Parsed v) : v ≠ .undefined := by
  cases parsed <;> simp

theorem Parsed.tidy {v : JsVal} (parsed : Parsed v) : Tidy v := by
  induction parsed with
  | null => exact .null
  | bool b => exact .bool b
  | finite double => exact .num _
  | posInf => exact .num _
  | negInf => exact .num _
  | str s => exact .str s
  | arr _ ih => exact .arr ih
  | obj nodup values ih => exact .obj _ nodup (fun p member => (values p member).defined) ih

/-- A value that is written in full. -/
inductive Shown : JsVal → Prop
  | null : Shown .null
  | bool (b : Bool) : Shown (.bool b)
  | finite {q : ℚ} (double : IsDouble q) : Shown (.num (.finite q))
  | str (s : JStr) : Shown (.str s)
  | arr {items : List JsVal} (inside : ∀ v ∈ items, Shown v) : Shown (.arr items)
  | obj {props : Props} (nodup : (props.map Prod.fst).Nodup) (safe : protoKey ∉ props.map Prod.fst)
    (values : ∀ p ∈ props, Shown p.2) : Shown (.obj .undefined props)

theorem Parsed.visible {v : JsVal} (parsed : Parsed v) : Shown (visible v) := by
  induction parsed with
  | null => exact .null
  | bool b => exact .bool b
  | finite double => exact .finite double
  | posInf => exact .null
  | negInf => exact .null
  | str s => exact .str s
  | arr _ ih =>
    rw [Verifier.visible, visibleItems_eq]
    refine .arr fun v member => ?_
    obtain ⟨w, inside, rfl⟩ := List.mem_map.mp member
    exact ih w inside
  | obj nodup _ ih =>
    rw [Verifier.visible, visibleProps_eq]
    refine .obj ?_ ?_ ?_
    · rw [map_fst_map]
      exact (List.filter_sublist.map _).nodup nodup
    · rw [map_fst_map]
      intro member
      obtain ⟨p, inside, key⟩ := List.mem_map.mp member
      simp [key] at inside
    · intro p member
      obtain ⟨q, inside, rfl⟩ := List.mem_map.mp member
      exact ih q (List.mem_filter.mp inside).1

variable (node : Node)

section Trees

variable (formats : ∀ q, IsAtom (node.formatNumber q))

theorem lookup_arranged {props : Props} (nodup : (props.map Prod.fst).Nodup) (safe : protoKey ∉ props.map Prod.fst)
    (f : JsVal → Tree) (key : JStr) : (arranged (props.map (Prod.map id f))).lookup key = (own props key).map f := by
  have perm := arranged_perm (props.map (Prod.map id f))
  rw [filter_proto (by rw [map_fst_map]; exact safe)] at perm
  rw [Assoc.lookup_perm perm ((perm.map _).nodup_iff.mpr (by rw [map_fst_map]; exact nodup)), Assoc.lookup_map, own]

theorem treeOf_visible {v : JsVal} (parsed : Parsed v) : treeOf node formats (visible v) = treeOf node formats v := by
  induction parsed with
  | null => rfl
  | bool b => rfl
  | finite double => rfl
  | posInf => rfl
  | negInf => rfl
  | str s => rfl
  | arr _ ih =>
    rw [visible, visibleItems_eq, treeOf, treeOf, treesOf_eq, treesOf_eq, List.map_map]
    congr 1
    exact List.map_congr_left fun v member => ih v member
  | @obj props nodup _ ih =>
    have inner : (visibleProps props).map (Prod.map id (treeOf node formats)) =
        (props.map (Prod.map id (treeOf node formats))).filter fun p => p.1 ≠ protoKey := by
      rw [visibleProps_eq, List.filter_map, List.map_map]
      refine List.map_congr_left fun p member => ?_
      simp only [Function.comp, Prod.map, id, ih p (List.mem_filter.mp member).1]
    rw [visible, treeOf, treeOf, memberTrees_eq, memberTrees_eq, inner]
    congr 2
    refine (arranged_congr (by rw [map_fst_map]; exact nodup) (List.Perm.of_eq ?_)).symm
    rw [List.filter_filter]
    simp

theorem treeOf_congr {v w : JsVal} (left : Shown v) (right : Shown w)
    (same : SameValue v w) : treeOf node formats v = treeOf node formats w := by
  induction left generalizing w with
  | null => cases same; rfl
  | bool b => cases same; rfl
  | finite double => cases same; rfl
  | str s => cases same; rfl
  | arr inside ih =>
    cases same with
    | arr items =>
      cases right with
      | arr inside' =>
        simp only [treeOf, treesOf_eq, Tree.arr.injEq]
        clear inside
        induction items with
        | nil => rfl
        | cons head _ step =>
          rw [List.map_cons, List.map_cons, ih _ (by simp) (inside' _ (by simp)) head]
          congr 1
          exact step (fun x member => ih x (List.mem_cons_of_mem _ member))
            fun x member => inside' x (List.mem_cons_of_mem _ member)
  | @obj props nodup safe values ih =>
    cases same with
    | @obj _ props' fields =>
      cases right with
      | obj nodup' safe' values' =>
        simp only [treeOf, memberTrees_eq, Tree.obj.injEq]
        congr 1
        refine arranged_congr (by rw [map_fst_map]; exact nodup) (List.Perm.filter _ ?_)
        refine Assoc.perm_of_lookup (by rw [map_fst_map]; exact nodup) (by rw [map_fst_map]; exact nodup') fun key => ?_
        rw [Assoc.lookup_map, Assoc.lookup_map]
        have field := fields key
        simp only [own] at field
        cases found : props.lookup key with
        | none =>
          rw [found] at field
          generalize props'.lookup key = o at field
          cases field
          rfl
        | some v =>
          rw [found] at field
          cases found' : props'.lookup key with
          | none =>
            rw [found'] at field
            cases field
          | some w =>
            rw [found'] at field
            cases field with
            | some same =>
              rw [Option.map_some, Option.map_some, ih (key, v) (Assoc.mem_of_lookup found)
                (values' (key, w) (Assoc.mem_of_lookup found')) same]

end Trees

/-- What the host's number format is relied on for: a numeral is no word, and doubles
are told apart by their numerals. -/
structure Numerals : Prop where
  atoms : ∀ q, IsAtom (node.formatNumber q)
  heads : ∀ q, ∀ u ∈ (node.formatNumber q).head?, ¬(97 ≤ u.toNat ∧ u.toNat ≤ 122)
  injective : ∀ p q, IsDouble p → IsDouble q →
    numberToString node (.finite p) = numberToString node (.finite q) → p = q

section Injective

variable {node} (numerals : Numerals node)

include numerals

theorem Numerals.head (q : ℚ) : ∀ u ∈ (numberToString node (.finite q)).head?, ¬(97 ≤ u.toNat ∧ u.toNat ≤ 122) := by
  have digits (n : Nat) : ∀ u ∈ (JStr.natDigits n).head?, ¬(97 ≤ u.toNat ∧ u.toNat ≤ 122) := by
    intro u member letter
    have digit := JStr.natDigits_digit n u (List.mem_of_mem_head? member)
    omega
  rw [numberToString]
  split
  · unfold intDigits
    split
    · intro u member
      obtain rfl : 0x2D = u := Option.some.inj member
      decide
    · exact digits _
  · exact numerals.heads q

/-- A numeral is none of the words. -/
theorem Numerals.ne_word (q : ℚ) (word : String) (letter : UInt16) (rest : JStr)
    (spelled : JStr.lit word = letter :: rest) (lower : 97 ≤ letter.toNat ∧ letter.toNat ≤ 122) :
    numberToString node (.finite q) ≠ JStr.lit word := by
  intro same
  exact numerals.head q letter (by rw [same, spelled]; rfl) lower

theorem treeOf_injective {v w : JsVal} (left : Shown v) (right : Shown w)
    (same : treeOf node numerals.atoms v = treeOf node numerals.atoms w) : SameValue v w := by
  induction left generalizing w with
  | null =>
    cases right with
    | null => exact .null
    | bool b =>
      have words : JStr.lit "null" = boolText b := congrArg Atom.text (Tree.atom.inj same)
      cases b <;> exact absurd words (by decide)
    | @finite q double =>
      have words : JStr.lit "null" = numberToString node (.finite q) := congrArg Atom.text (Tree.atom.inj same)
      exact absurd words.symm (numerals.ne_word _ "null" _ _ rfl (by decide))
    | str s => cases same
    | arr _ => cases same
    | obj _ _ _ => cases same
  | bool b =>
    cases right with
    | null =>
      have words : boolText b = JStr.lit "null" := congrArg Atom.text (Tree.atom.inj same)
      cases b <;> exact absurd words (by decide)
    | bool c =>
      have words : boolText b = boolText c := congrArg Atom.text (Tree.atom.inj same)
      cases b <;> cases c <;> first | exact .bool _ | exact absurd words (by decide)
    | @finite q double =>
      have words : boolText b = numberToString node (.finite q) := congrArg Atom.text (Tree.atom.inj same)
      cases b
      · exact absurd words.symm (numerals.ne_word _ "false" _ _ rfl (by decide))
      · exact absurd words.symm (numerals.ne_word _ "true" _ _ rfl (by decide))
    | str s => cases same
    | arr _ => cases same
    | obj _ _ _ => cases same
  | @finite q double =>
    cases right with
    | null =>
      have words : numberToString node (.finite q) = JStr.lit "null" := congrArg Atom.text (Tree.atom.inj same)
      exact absurd words (numerals.ne_word _ "null" _ _ rfl (by decide))
    | bool b =>
      have words : numberToString node (.finite q) = boolText b := congrArg Atom.text (Tree.atom.inj same)
      cases b
      · exact absurd words (numerals.ne_word _ "false" _ _ rfl (by decide))
      · exact absurd words (numerals.ne_word _ "true" _ _ rfl (by decide))
    | @finite r double' =>
      have words : numberToString node (.finite q) = numberToString node (.finite r) :=
        congrArg Atom.text (Tree.atom.inj same)
      rw [numerals.injective q r double double' words]
      exact .num _
    | str s => cases same
    | arr _ => cases same
    | obj _ _ _ => cases same
  | str s =>
    cases right with
    | str t =>
      rw [bodyOf_injective (Tree.str.inj same)]
      exact .str t
    | null => cases same
    | bool b => cases same
    | finite double => cases same
    | arr _ => cases same
    | obj _ _ _ => cases same
  | @arr items inside ih =>
    cases right with
    | @arr items' inside' =>
      have trees : items.map (treeOf node numerals.atoms) = items'.map (treeOf node numerals.atoms) := by
        simpa only [treeOf, treesOf_eq, Tree.arr.injEq] using same
      refine .arr ?_
      clear same inside
      induction items generalizing items' with
      | nil =>
        obtain rfl : items' = [] := by simpa using trees.symm
        exact .nil
      | cons v rest step =>
        cases items' with
        | nil => simp at trees
        | cons w rest' =>
          obtain ⟨head, tail⟩ := List.cons.inj trees
          refine .cons (ih v (by simp) (inside' w (by simp)) head) ?_
          exact step (fun x member => ih x (List.mem_cons_of_mem _ member))
            (fun x member => inside' x (List.mem_cons_of_mem _ member)) tail
    | null => cases same
    | bool b => cases same
    | finite double => cases same
    | str s => cases same
    | obj _ _ _ => cases same
  | @obj props nodup safe values ih =>
    cases right with
    | @obj props' nodup' safe' values' =>
      have bodies : Function.Injective (Prod.map bodyOf (id : Tree → Tree)) :=
        bodyOf_injective.prodMap Function.injective_id
      have trees : arranged (props.map (Prod.map id (treeOf node numerals.atoms))) =
          arranged (props'.map (Prod.map id (treeOf node numerals.atoms))) := by
        simpa only [treeOf, memberTrees_eq, Tree.obj.injEq, (List.map_injective_iff.mpr bodies).eq_iff] using same
      refine .obj fun key => ?_
      have lookups := congrArg (List.lookup key) trees
      rw [lookup_arranged nodup safe, lookup_arranged nodup' safe'] at lookups
      cases found : own props key with
      | none =>
        cases found' : own props' key with
        | none => exact .none
        | some w => simp [found, found'] at lookups
      | some v =>
        cases found' : own props' key with
        | none => simp [found, found'] at lookups
        | some w =>
          have equal : treeOf node numerals.atoms v = treeOf node numerals.atoms w := by
            simpa [found, found'] using lookups
          exact .some (ih (key, v) (Assoc.mem_of_lookup found) (values' (key, w) (Assoc.mem_of_lookup found')) equal)
    | null => cases same
    | bool b => cases same
    | finite double => cases same
    | str s => cases same
    | arr _ => cases same

/-- Two texts are equal exactly when the visible values are the same. -/
theorem canonicalJson_eq_iff {v w : JsVal} (left : Parsed v) (right : Parsed w) :
    canonicalJson node v = canonicalJson node w ↔ SameValue (visible v) (visible w) := by
  rw [canonicalJson_eq node numerals.atoms left.tidy, canonicalJson_eq node numerals.atoms right.tidy,
    print_injective.eq_iff, ← treeOf_visible node numerals.atoms left, ← treeOf_visible node numerals.atoms right]
  exact ⟨treeOf_injective numerals left.visible right.visible, treeOf_congr node numerals.atoms left.visible right.visible⟩

end Injective

/-- Equal texts mean equal values unless the two values differ only in what is not written. -/
theorem canonicalJson_separates_iff {node : Node} (numerals : Numerals node) (v w : JsVal) (left : Parsed v) (right : Parsed w) :
    (canonicalJson node v = canonicalJson node w → SameValue v w) ↔
      (SameValue (visible v) (visible w) → SameValue v w) := by
  rw [canonicalJson_eq_iff numerals left right]

/-- A host that numbers the rationals and writes the number behind a plus sign. -/
def countingNode : Node :=
  { Node.sample [] [] [] [] 0 with
    formatNumber := fun q => 0x2B :: JStr.natDigits (Encodable.encode (q.num, q.den)) }

theorem natDigits_ne_cons (n : Nat) (u : UInt16) (rest : JStr) (sign : u.toNat < 48) : JStr.natDigits n ≠ u :: rest := by
  intro same
  have digit := JStr.natDigits_digit n u (by rw [same]; simp)
  omega

theorem intDigits_injective {a b : Int} (same : intDigits a = intDigits b) : a = b := by
  unfold intDigits at same
  split at same
  · split at same
    · have digits := JStr.natDigits_injective (List.cons.inj same).2
      omega
    · exact absurd same.symm (natDigits_ne_cons _ _ _ (by decide))
  · split at same
    · exact absurd same (natDigits_ne_cons _ _ _ (by decide))
    · have digits := JStr.natDigits_injective same
      omega

theorem intDigits_ne_plus (a : Int) (rest : JStr) : intDigits a ≠ 0x2B :: rest := by
  unfold intDigits
  split
  · intro same
    have head : (0x2D : UInt16) = 0x2B := (List.cons.inj same).1
    exact absurd head (by decide)
  · exact natDigits_ne_cons _ _ _ (by decide)

theorem countingNode_numerals : Numerals countingNode where
  atoms q := by
    have digits := natDigits_isAtom (Encodable.encode (q.num, q.den))
    refine ⟨by simp [countingNode], fun u member => ?_⟩
    rcases List.mem_cons.mp member with rfl | later
    · decide
    · exact digits.2 u later
  heads q u member := by
    obtain rfl : 0x2B = u := Option.some.inj member
    decide
  injective p q _ _ same := by
    simp only [numberToString] at same
    split at same
    next whole =>
      split at same
      next whole' =>
        exact Rat.ext (intDigits_injective same) (whole.1.trans whole'.1.symm)
      next => exact absurd same (intDigits_ne_plus _ _)
    next =>
      split at same
      next => exact absurd same.symm (intDigits_ne_plus _ _)
      next =>
        have codes := Encodable.encode_injective (JStr.natDigits_injective (List.cons.inj same).2)
        obtain ⟨num, den⟩ := Prod.mk.inj codes
        exact Rat.ext num den

/-- A body with a member that is not written, and the body without it. -/
def withProto : JsVal := .obj .undefined [(protoKey, lit "x"), (JStr.lit "model", lit "m")]
def withoutProto : JsVal := .obj .undefined [(JStr.lit "model", lit "m")]

theorem withProto_parsed : Parsed withProto := by
  refine .obj (by decide) ?_
  intro p member
  rcases List.mem_cons.mp member with rfl | later
  · exact .str _
  · rw [List.mem_singleton.mp later]
    exact .str _

theorem withoutProto_parsed : Parsed withoutProto := by
  refine .obj (by decide) ?_
  intro p member
  rw [List.mem_singleton.mp member]
  exact .str _

theorem canonicalJson_separates_sample :
    canonicalJson countingNode withoutProto = canonicalJson countingNode withoutProto ∧
      SameValue withoutProto withoutProto := by
  refine ⟨rfl, ?_⟩
  refine (canonicalJson_separates_iff countingNode_numerals withoutProto withoutProto withoutProto_parsed
    withoutProto_parsed).mpr ?_ rfl
  exact fun same => same

/-- Both bodies have one text. -/
theorem canonicalJson_drops_proto :
    Parsed withProto ∧ Parsed withoutProto ∧
      canonicalJson countingNode withProto = canonicalJson countingNode withoutProto ∧
      ¬SameValue withProto withoutProto := by
  refine ⟨withProto_parsed, withoutProto_parsed, by decide, ?_⟩
  intro same
  cases same with
  | obj fields => cases fields protoKey

end TeeProof.Verifier
