import TeeProof.JsString

/-! JavaScript values as `JSON.parse` and the verifier's own code build them.
An object keeps its own properties in insertion order and its prototype, because
assignment to `__proto__` replaces the prototype and a read goes through it. -/
namespace TeeProof

/-- A number of the program. `-0` is not told apart from `0`: no modelled function
can see the difference. `JSON.parse` gives the infinities for `1e999`. -/
inductive JsNumber where
  | finite (q : ℚ)
  | posInf
  | negInf
  deriving DecidableEq

instance : OfNat JsNumber n := ⟨.finite n⟩

def JsNumber.le : JsNumber → JsNumber → Bool
  | .negInf, _ => true
  | _, .posInf => true
  | .finite p, .finite q => p ≤ q
  | _, _ => false

/-- The array position a number names, if it names one. -/
def JsNumber.arrayIndex : JsNumber → Option Nat
  | .finite q => if q.den = 1 ∧ 0 ≤ q.num ∧ q.num < 2 ^ 32 - 1 then some q.num.toNat else none
  | _ => none

/-- `undefined` stands in `proto` for `Object.prototype`. A hole of an array is
`undefined` too: both serialise as `null` and neither is a record. -/
inductive JsVal where
  | undefined
  | null
  | bool (b : Bool)
  | num (n : JsNumber)
  | str (s : JStr)
  | arr (items : List JsVal)
  | obj (proto : JsVal) (props : List (JStr × JsVal))

namespace JsVal

abbrev Props := List (JStr × JsVal)

instance : Inhabited JsVal := ⟨undefined⟩

/-- The text of a string literal as a value. -/
def lit (s : String) : JsVal := str (JStr.lit s)

def protoKey : JStr := JStr.lit "__proto__"

/-- The own property `key`. -/
def own (props : Props) (key : JStr) : Option JsVal := props.lookup key

def replace (key : JStr) (value : JsVal) : Props → Props
  | [] => []
  | (k, v) :: rest => if k = key then (k, value) :: rest else (k, v) :: replace key value rest

def empty : JsVal := obj undefined []

def isRecord : JsVal → Bool
  | obj _ _ => true
  | _ => false

def isObject : JsVal → Bool
  | obj _ _ => true
  | arr _ => true
  | _ => false

/-- The array position a property key names, if it names one. -/
def indexOfKey (key : JStr) : Option Nat :=
  let n := key.foldl (fun acc u => acc * 10 + (u.toNat - 48)) 0
  if JStr.natDigits n = key ∧ n < 2 ^ 32 - 1 then some n else none

/-- Whether the accessor `Object.prototype.__proto__` is reached from a prototype. -/
def accessor : JsVal → Bool
  | undefined => true
  | arr _ => true
  | obj proto props => (own props protoKey).isNone && accessor proto
  | _ => false

/-- `value[key]` for a string key. The functions of `Object.prototype` are left out:
the source only asks whether a property is a string, a record or absent, and a
function is none of these where an inherited one can be met. -/
def get : JsVal → JStr → JsVal
  | obj proto props, key =>
    match own props key with
    | some value => value
    | none => if key = protoKey && accessor proto then proto else get proto key
  | arr items, key =>
    match indexOfKey key with
    | some i => items.getD i undefined
    | none => if key = JStr.lit "length" then num (.finite items.length) else undefined
  | _, _ => undefined

/-- `target[key] = value`. -/
def set (target : JsVal) (key : JStr) (value : JsVal) : JsVal :=
  match target with
  | obj proto props =>
    if (own props key).isSome then obj proto (replace key value props)
    else if key = protoKey && accessor proto then
      if value.isObject then obj value props
      else match value with
        | null => obj null props
        | _ => obj proto props
    else obj proto (props ++ [(key, value)])
  | other => other

/-- `{ ...value }`: own properties are defined, not assigned. -/
def spread : JsVal → JsVal
  | obj _ props => obj undefined props
  | _ => empty

/-- Properties in the order of `Object.entries`: array indices ascending, then the
rest as inserted. -/
def enumerate (props : List (JStr × α)) : List (JStr × α) :=
  (props.filter fun p => (indexOfKey p.1).isSome).insertionSort
      (fun p q => (indexOfKey p.1).getD 0 ≤ (indexOfKey q.1).getD 0) ++
    props.filter fun p => (indexOfKey p.1).isNone

theorem enumerate_perm (props : List (JStr × α)) : (enumerate props).Perm props := by
  refine .trans (.append_right _ (List.perm_insertionSort _ _)) ?_
  have halves := List.filter_append_perm (fun p : JStr × α => (indexOfKey p.1).isSome) props
  simpa using halves

def entries : JsVal → Props
  | obj _ props => enumerate props
  | _ => []

def hasOwn : JsVal → JStr → Bool
  | obj _ props, key => (own props key).isSome
  | _, _ => false

def items : JsVal → List JsVal
  | arr items => items
  | _ => []

/-- `array[index]` for a number index. -/
def nth (items : List JsVal) (index : JsNumber) : JsVal :=
  match index.arrayIndex with
  | some i => items.getD i undefined
  | none => undefined

/-- `array[index] = value`. A number that is no array position becomes a plain
property of the array, which no later copy or serialisation keeps. -/
def setAt (items : List JsVal) (index : JsNumber) (value : JsVal) : List JsVal :=
  match index.arrayIndex with
  | some i => (items ++ List.replicate (i + 1 - items.length) undefined).set i value
  | none => items

def ofObject (fields : List (String × JsVal)) : JsVal :=
  obj undefined (fields.map fun p => (JStr.lit p.1, p.2))

end JsVal

/-- `Map<number, Record<string, unknown>>`, in insertion order. -/
abbrev NumMap := List (JsNumber × JsVal)

namespace NumMap

def get (m : NumMap) (index : JsNumber) : Option JsVal := m.lookup index

def set (index : JsNumber) (value : JsVal) : NumMap → NumMap
  | [] => [(index, value)]
  | (k, v) :: rest => if k = index then (k, value) :: rest else (k, v) :: set index value rest

/-- The entries in the order of their numbers; two entries never share one. -/
def sorted (m : NumMap) : NumMap := m.insertionSort fun p q => JsNumber.le p.1 q.1

def values (m : NumMap) : List JsVal := m.map Prod.snd

end NumMap

end TeeProof
