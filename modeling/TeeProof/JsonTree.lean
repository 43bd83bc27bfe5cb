import TeeProof.JsonText

/-! JSON texts as trees of their leaves. Writers that agree on brackets, commas and colons
differ only in the leaves; two trees are written alike only if they are the same. -/
namespace TeeProof.JsonTree

open Delimited

/-- The units that end a value: a comma or a closing bracket. -/
def EndsValue (u : UInt16) : Prop := u = 0x2C ∨ u = 0x5D ∨ u = 0x7D

/-- The units that begin or end a value. -/
def structural : List UInt16 := [0x22, 0x2C, 0x5B, 0x5D, 0x7B, 0x7D]

/-- The text of a number or of one of the three literals. -/
@[ext] structure Atom where
  text : JStr
  nonempty : text ≠ []
  plain : ∀ u ∈ text, u ∉ structural

theorem Atom.unended (a : Atom) : ∀ u ∈ a.text, ¬EndsValue u := by
  intro u member ends
  apply a.plain u member
  rcases ends with rfl | rfl | rfl <;> decide

/-- The units up to the closing quotation mark, and those after it. -/
def closeString : JStr → Option (JStr × JStr)
  | [] => none
  | [u] => if u = 0x22 then some ([], []) else none
  | u :: v :: rest =>
    if u = 0x22 then some ([], v :: rest)
    else if u = 0x5C then (closeString rest).map fun p => (u :: v :: p.1, p.2)
    else (closeString (v :: rest)).map fun p => (u :: p.1, p.2)

theorem closeString_close (z : JStr) : closeString (0x22 :: z) = some ([], z) := by
  cases z <;> rfl

/-- A text in which no string can end. -/
def Inert (s : JStr) : Prop := ∀ z, closeString (s ++ z) = (closeString z).map fun p => (s ++ p.1, p.2)

theorem Inert.nil : Inert [] := fun z => by simp

theorem Inert.append {s t : JStr} (left : Inert s) (right : Inert t) : Inert (s ++ t) := by
  intro z
  rw [List.append_assoc, left, right, Option.map_map]
  simp [Function.comp_def]

theorem inert_unit {u : UInt16} (quoted : u ≠ 0x22) (slash : u ≠ 0x5C) : Inert [u] := by
  intro z
  cases z with
  | nil => simp [closeString, quoted]
  | cons v rest => simp [closeString, quoted, slash]

/-- A backslash takes the next unit with it. -/
theorem inert_pair (v : UInt16) : Inert [0x5C, v] := by
  intro z
  simp [closeString]

theorem inert_units {s : JStr} (plain : ∀ u ∈ s, u ≠ 0x22 ∧ u ≠ 0x5C) : Inert s := by
  induction s with
  | nil => exact .nil
  | cons u rest ih =>
    have first := plain u (by simp)
    exact (inert_unit first.1 first.2).append (ih fun v member => plain v (List.mem_cons_of_mem _ member))

/-- What stands between the quotation marks of a string. -/
@[ext] structure Body where
  text : JStr
  inert : Inert text

theorem Body.closed (b : Body) (z : JStr) : closeString (b.text ++ 0x22 :: z) = some (b.text, z) := by
  rw [b.inert, closeString_close]
  simp

theorem Body.reads (a b : Body) (x y : JStr) (eq : a.text ++ 0x22 :: x = b.text ++ 0x22 :: y) : a = b ∧ x = y := by
  have closed := a.closed x
  rw [eq, b.closed y, Option.some.injEq, Prod.mk.injEq] at closed
  exact ⟨Body.ext closed.1.symm, closed.2.symm⟩

inductive Tree where
  | atom (a : Atom)
  | str (b : Body)
  | arr (items : List Tree)
  | obj (members : List (Body × Tree))

mutual

def print : Tree → JStr
  | .atom a => a.text
  | .str b => 0x22 :: b.text ++ [0x22]
  | .arr items => 0x5B :: separated 0x2C (printItems items) ++ [0x5D]
  | .obj members => 0x7B :: separated 0x2C (printMembers members) ++ [0x7D]

def printItems : List Tree → List JStr
  | [] => []
  | t :: rest => print t :: printItems rest

def printMembers : List (Body × Tree) → List JStr
  | [] => []
  | (key, t) :: rest => (0x22 :: key.text ++ 0x22 :: 0x3A :: print t) :: printMembers rest

end

def printMember (p : Body × Tree) : JStr := 0x22 :: p.1.text ++ 0x22 :: 0x3A :: print p.2

theorem printItems_eq (items : List Tree) : printItems items = items.map print := by
  induction items with
  | nil => rfl
  | cons t rest ih => rw [printItems, ih, List.map_cons]

theorem printMembers_eq (members : List (Body × Tree)) : printMembers members = members.map printMember := by
  induction members with
  | nil => rfl
  | cons p rest ih => rw [printMembers, ih, List.map_cons, printMember]

/-- The first unit of a tree's text, by the kind of the tree. -/
def opens : Tree → UInt16 → Prop
  | .atom _, u => u ∉ structural
  | .str _, u => u = 0x22
  | .arr _, u => u = 0x5B
  | .obj _, u => u = 0x7B

theorem print_opens (t : Tree) : ∃ u rest, print t = u :: rest ∧ opens t u := by
  cases t with
  | atom a =>
    obtain ⟨u, rest, eq⟩ := List.exists_cons_of_ne_nil a.nonempty
    exact ⟨u, rest, by rw [print, eq], a.plain u (by simp [eq])⟩
  | str b => exact ⟨_, _, by rw [print]; rfl, rfl⟩
  | arr items => exact ⟨_, _, by rw [print]; rfl, rfl⟩
  | obj members => exact ⟨_, _, by rw [print]; rfl, rfl⟩

/-- Texts that begin alike are texts of trees that begin alike. -/
theorem opens_of_eq {s t : Tree} {x y : JStr} (eq : print s ++ x = print t ++ y) : ∃ u, opens s u ∧ opens t u := by
  obtain ⟨u, rest, first, opened⟩ := print_opens s
  obtain ⟨v, rest', second, opened'⟩ := print_opens t
  rw [first, second] at eq
  obtain rfl : u = v := (List.cons.inj eq).1
  exact ⟨u, opened, opened'⟩

theorem print_fresh (close : UInt16) (closes : close = 0x5D ∨ close = 0x7D) (t : Tree) (z w : JStr) :
    print t ++ z ≠ close :: w := by
  intro eq
  obtain ⟨u, rest, first, opened⟩ := print_opens t
  rw [first] at eq
  obtain rfl : u = close := (List.cons.inj eq).1
  cases t with
  | atom a =>
    apply opened
    rcases closes with rfl | rfl <;> decide
  | str b =>
    rw [opens] at opened
    subst opened
    exact absurd closes (by decide)
  | arr items =>
    rw [opens] at opened
    subst opened
    exact absurd closes (by decide)
  | obj members =>
    rw [opens] at opened
    subst opened
    exact absurd closes (by decide)

theorem printMember_reads {p : Body × Tree} (value : Delimited.Reads EndsValue print p.2) :
    Delimited.Reads EndsValue printMember p := by
  obtain ⟨key, t⟩ := p
  rintro ⟨key', t'⟩ x y ends ends' eq
  simp only [printMember, List.cons_append, List.append_assoc] at eq
  obtain ⟨rfl, rest⟩ := Body.reads _ _ _ _ (List.cons.inj eq).2
  obtain ⟨rfl, same⟩ := value t' x y ends ends' (List.cons.inj rest).2
  exact ⟨rfl, same⟩

theorem printMember_fresh (p : Body × Tree) (z w : JStr) : printMember p ++ z ≠ 0x7D :: w := by
  intro eq
  have head : (0x22 : UInt16) = 0x7D := (List.cons.inj eq).1
  exact absurd head (by decide)

mutual

/-- A tree is read back from its text. -/
theorem print_reads (t : Tree) : Delimited.Reads EndsValue print t := by
  intro s x y ends ends' eq
  obtain ⟨u, first, second⟩ := opens_of_eq eq
  match t, s with
  | .atom a, .atom b =>
    rw [print, print] at eq
    obtain ⟨same, rest⟩ := unmarked_append a.unended b.unended ends ends' eq
    exact ⟨congrArg Tree.atom (Atom.ext same), rest⟩
  | .str a, .str b =>
    simp only [print, List.cons_append, List.append_assoc, List.nil_append] at eq
    obtain ⟨rfl, rest⟩ := Body.reads a b x y (List.cons.inj eq).2
    exact ⟨rfl, rest⟩
  | .arr items, .arr others =>
    simp only [print, List.cons_append, List.append_assoc, List.nil_append, printItems_eq] at eq
    obtain ⟨rfl, rest⟩ := separated_reads (.inl rfl) (.inr (.inl rfl)) (by decide) (print_fresh _ (.inl rfl))
      items (items_read items) others x y (List.cons.inj eq).2
    exact ⟨rfl, rest⟩
  | .obj members, .obj others =>
    simp only [print, List.cons_append, List.append_assoc, List.nil_append, printMembers_eq] at eq
    obtain ⟨rfl, rest⟩ := separated_reads (.inl rfl) (.inr (.inr rfl)) (by decide) printMember_fresh members
      (members_read members) others x y (List.cons.inj eq).2
    exact ⟨rfl, rest⟩
  | .atom a, .str b => exact absurd (second ▸ first : 0x22 ∉ structural) (by decide)
  | .atom a, .arr items => exact absurd (second ▸ first : 0x5B ∉ structural) (by decide)
  | .atom a, .obj members => exact absurd (second ▸ first : 0x7B ∉ structural) (by decide)
  | .str b, .atom a => exact absurd (first ▸ second : 0x22 ∉ structural) (by decide)
  | .arr items, .atom a => exact absurd (first ▸ second : 0x5B ∉ structural) (by decide)
  | .obj members, .atom a => exact absurd (first ▸ second : 0x7B ∉ structural) (by decide)
  | .str b, .arr items => exact absurd (first.symm.trans second) (by decide)
  | .str b, .obj members => exact absurd (first.symm.trans second) (by decide)
  | .arr items, .str b => exact absurd (first.symm.trans second) (by decide)
  | .arr items, .obj members => exact absurd (first.symm.trans second) (by decide)
  | .obj members, .str b => exact absurd (first.symm.trans second) (by decide)
  | .obj members, .arr items => exact absurd (first.symm.trans second) (by decide)

theorem items_read (items : List Tree) : ∀ t ∈ items, Delimited.Reads EndsValue print t := by
  match items with
  | [] => simp
  | t :: rest =>
    intro s member
    rcases List.mem_cons.mp member with same | later
    · rw [same]
      exact print_reads t
    · exact items_read rest s later

theorem members_read (members : List (Body × Tree)) :
    ∀ p ∈ members, Delimited.Reads EndsValue printMember p := by
  match members with
  | [] => simp
  | (key, t) :: rest =>
    intro p member
    rcases List.mem_cons.mp member with same | later
    · rw [same]
      exact printMember_reads (print_reads t)
    · exact members_read rest p later

end

theorem print_injective : Function.Injective print := fun s t same =>
  (print_reads s t [] [] (by simp [Ends]) (by simp [Ends]) (by rw [same])).1

end TeeProof.JsonTree
