import TeeProof.Aggregate
import TeeProof.FieldAggregate

/-! JSON documents as the two sides read them, and when a value of the enclave and a
value of the verifier stand for the same JSON value. -/
namespace TeeProof

open JsVal

/-- How the two sides read the number tokens of a text. Integers below `2 ^ 53` are
read exactly by both; `serde_json` keeps its signed integers for negative ones. -/
structure Numbers where
  Token : Type
  rust : Token → Number
  js : Token → JsNumber
  literal : ∀ n < 2 ^ 53, ∃ t, rust t = .posInt (UInt64.ofNat n) ∧ js t = .finite n
  exact : ∀ t n, rust t = .posInt n → n.toNat < 2 ^ 53 → js t = .finite n.toNat
  negative : ∀ t n, rust t = .negInt n → n.toInt < 0

/-- The integers below `2 ^ 53` alone. -/
def Numbers.sample : Numbers where
  Token := Fin (2 ^ 53)
  rust t := .posInt (UInt64.ofNat t.val)
  js t := .finite t.val
  literal n small := ⟨⟨n, small⟩, rfl, rfl⟩
  exact t n read _ := by
    cases read
    rw [UInt64.toNat_ofNat', Nat.mod_eq_of_lt (by have := t.isLt; omega)]
  negative _ _ read := nomatch read

def Numbers.zero : Numbers.sample.Token := (0 : Fin (2 ^ 53))

inductive Json (τ : Type) where
  | null
  | bool (b : Bool)
  | num (t : τ)
  | str (s : Str)
  | arr (items : List (Json τ))
  | obj (members : List (Str × Json τ))

/-- A parser's object: the last member of a name counts. -/
def Value.ofMembers (members : Value.Map) : Value :=
  .object (members.foldl (fun map p => Enclave.put map p.1 p.2) [])

def JsVal.ofMembers (members : Props) : JsVal :=
  members.foldl (fun out p => Verifier.spread2.define out p.1 p.2) empty

def protoName : Str := "__proto__".toList

/-- The longest array of the language. -/
def maxArray : Nat := 2 ^ 32 - 1

namespace Json

variable (numbers : Numbers)

mutual

/-- `serde_json::from_str` of the document's text. -/
def toRust : Json numbers.Token → Value
  | null => .null
  | bool b => .bool b
  | num t => .number (numbers.rust t)
  | str s => .string s
  | arr items => .array (toRustItems items)
  | obj members => .ofMembers (toRustMembers members)

def toRustItems : List (Json numbers.Token) → List Value
  | [] => []
  | d :: rest => toRust d :: toRustItems rest

def toRustMembers : List (Str × Json numbers.Token) → Value.Map
  | [] => []
  | (key, d) :: rest => (key, toRust d) :: toRustMembers rest

end

mutual

/-- `JSON.parse` of the document's text. -/
def toJs : Json numbers.Token → JsVal
  | null => .null
  | bool b => .bool b
  | num t => .num (numbers.js t)
  | str s => .str (JStr.ofChars s)
  | arr items => .arr (toJsItems items)
  | obj members => .ofMembers (toJsMembers members)

def toJsItems : List (Json numbers.Token) → List JsVal
  | [] => []
  | d :: rest => toJs d :: toJsItems rest

def toJsMembers : List (Str × Json numbers.Token) → Props
  | [] => []
  | (key, d) :: rest => (JStr.ofChars key, toJs d) :: toJsMembers rest

end

mutual

/-- No key is `__proto__`, and no array is longer than the language allows. -/
def plain : Json τ → Bool
  | arr items => items.length ≤ maxArray && plainItems items
  | obj members => plainMembers members
  | _ => true

def plainItems : List (Json τ) → Bool
  | [] => true
  | d :: rest => plain d && plainItems rest

def plainMembers : List (Str × Json τ) → Bool
  | [] => true
  | (key, d) :: rest => key ≠ protoName && plain d && plainMembers rest

end

end Json

namespace JsVal

mutual

/-- No array in the value is longer than the language allows. -/
def short : JsVal → Bool
  | arr items => items.length ≤ maxArray && shortItems items
  | obj _ props => shortProps props
  | _ => true

def shortItems : List JsVal → Bool
  | [] => true
  | v :: rest => short v && shortItems rest

def shortProps : Props → Bool
  | [] => true
  | (_, v) :: rest => short v && shortProps rest

end

end JsVal

/-- Own properties of an object made of text keys other than `__proto__`. -/
structure Plain (props : Props) : Prop where
  nodup : (props.map Prod.fst).Nodup
  defined : ∀ p ∈ props, p.2 ≠ .undefined
  named : ∀ p ∈ props, ∃ key, p.1 = JStr.ofChars key ∧ key ≠ protoName

/-- The two values serialise to the same JSON value: a number is one token read twice,
and a hole of an array stands for `null`. -/
inductive Same (numbers : Numbers) : Value → JsVal → Prop
  | hole : Same numbers .null .undefined
  | null : Same numbers .null .null
  | bool (b : Bool) : Same numbers (.bool b) (.bool b)
  | number (t : numbers.Token) : Same numbers (.number (numbers.rust t)) (.num (numbers.js t))
  | string (s : Str) : Same numbers (.string s) (.str (JStr.ofChars s))
  | array {items : List Value} {items' : List JsVal} (same : List.Forall₂ (Same numbers) items items') :
    Same numbers (.array items) (.arr items')
  | object {map : Value.Map} {props : Props} (sorted : OrdMap.Sorted map) (plain : Plain props)
    (fields : ∀ key, Option.Rel (Same numbers) (OrdMap.find key map) (own props (JStr.ofChars key))) :
    Same numbers (.object map) (.obj .undefined props)

end TeeProof
