import TeeProof.OrdMap
import TeeProof.Utf8

/-! The enclave's data: Rust strings as lists of scalar values, `serde_json`
values with `BTreeMap` objects, and what the enclave takes from its libraries. -/
namespace TeeProof

abbrev Str := List Char

instance : Coe String Str := ⟨String.toList⟩

/-- `serde_json::Number` without arbitrary precision; an `f64` is its bit pattern. -/
inductive Number where
  | posInt (n : UInt64)
  | negInt (n : Int64)
  | float (bits : UInt64)
  deriving DecidableEq

inductive Value where
  | null
  | bool (b : Bool)
  | number (n : Number)
  | string (s : Str)
  | array (items : List Value)
  | object (map : List (Str × Value))

namespace Value

instance : Inhabited Value := ⟨null⟩

/-- `serde_json::Map`: keys ascending in byte order, which is scalar order. -/
abbrev Map := List (Str × Value)

def lit (s : String) : Value := string s.toList

def ofNat (n : Nat) : Value := number (.posInt (UInt64.ofNat n))

/-- `json!(index)` of an `i64`. -/
def ofInt (n : Int) : Value :=
  if 0 ≤ n then number (.posInt (UInt64.ofNat n.toNat)) else number (.negInt (Int64.ofInt n))

/-- `json!({ … })`. -/
def ofFields (fields : List (String × Value)) : Value :=
  object (fields.foldl (fun map p => OrdMap.insert p.1.toList p.2 map) [])

def asObject : Value → Option Map
  | object map => some map
  | _ => none

def asArray : Value → Option (List Value)
  | array items => some items
  | _ => none

def asStr : Value → Option Str
  | string s => some s
  | _ => none

def asBool : Value → Option Bool
  | bool b => some b
  | _ => none

def asI64 : Value → Option Int
  | number (.posInt n) => if n.toNat < 2 ^ 63 then some n.toNat else none
  | number (.negInt n) => some n.toInt
  | _ => none

def asU64 : Value → Option Nat
  | number (.posInt n) => some n.toNat
  | _ => none

def isNull : Value → Bool
  | null => true
  | _ => false

def isArray : Value → Bool
  | array _ => true
  | _ => false

/-- `value.get(key)`: a field of an object, nothing of any other value. -/
def get (value : Value) (key : Str) : Option Value := value.asObject.bind (OrdMap.find key)

end Value

/-- `char::is_whitespace`, the Unicode property White_Space. -/
def isWhitespace (c : Char) : Bool :=
  let n := c.toNat
  (0x09 ≤ n && n ≤ 0x0D) || n == 0x20 || n == 0x85 || n == 0xA0 || n == 0x1680 ||
    (0x2000 ≤ n && n ≤ 0x200A) || n == 0x2028 || n == 0x2029 || n == 0x202F || n == 0x205F ||
    n == 0x3000

namespace Str

def trimStart (s : Str) : Str := s.dropWhile isWhitespace
def trimEnd (s : Str) : Str := (s.reverse.dropWhile isWhitespace).reverse
def trim (s : Str) : Str := trimEnd (trimStart s)

def stripPrefix (part s : Str) : Option Str :=
  if part.isPrefixOf s then some (s.drop part.length) else none

def startsWith (part s : Str) : Bool := part.isPrefixOf s
def endsWith (part s : Str) : Bool := part.isSuffixOf s
def contains (part s : Str) : Bool := s.tails.any part.isPrefixOf

/-- `s.split(sep)` for one character. -/
def split (sep : Char) (s : Str) : List Str := s.splitOn sep

def toAsciiLowercase (s : Str) : Str := s.map Char.toLower
def toAsciiUppercase (s : Str) : Str := s.map Char.toUpper
def eqIgnoreAsciiCase (s t : Str) : Bool := toAsciiLowercase s == toAsciiLowercase t

def join (sep : Str) : List Str → Str
  | [] => []
  | [s] => s
  | s :: t :: rest => s ++ sep ++ join sep (t :: rest)

def natDigits (n : Nat) : Str := Nat.toDigits 10 n

def hexDigit (n : Nat) : Char := if n < 10 then Char.ofNat (48 + n) else Char.ofNat (87 + n)

/-- `hex`: two lowercase digits an octet. -/
def hex (b : Bytes) : Str := b.flatMap fun x => [hexDigit (x.toNat / 16), hexDigit (x.toNat % 16)]

end Str

/-- The library functions of the enclave whose result is not fixed by the source:
the hash, the JSON reader, `f64` formatting and the Unicode case tables, of which
the code relies on mapping no other character to a line break. -/
structure Rust where
  sha256 : Bytes → Digest
  /-- `serde_json::from_str`. -/
  fromStr : Str → Option Value
  formatFloat : UInt64 → Str
  toLowercase : Str → Str
  toUppercase : Str → Str
  lowercase_break : ∀ (s : Str) (c : Char), c = '\n' ∨ c = '\r' → c ∈ toLowercase s → c ∈ s
  uppercase_break : ∀ (s : Str) (c : Char), c = '\n' ∨ c = '\r' → c ∈ toUppercase s → c ∈ s

theorem toLower_break (c d : Char) (line : c = '\n' ∨ c = '\r') (h : d.toLower = c) : d = c := by
  rw [Char.toLower] at h
  split at h
  next upper =>
    exfalso
    have bounds : 65 ≤ d.toNat ∧ d.toNat ≤ 90 := upper
    have value := congrArg (fun c => c.val.toNat) h
    simp only [UInt32.toNat_add, show ('a'.val - 'A'.val).toNat = 32 from rfl] at value
    rcases line with rfl | rfl <;> simp at value <;> omega
  next => exact h

theorem toUpper_break (c d : Char) (line : c = '\n' ∨ c = '\r') (h : d.toUpper = c) : d = c := by
  rw [Char.toUpper] at h
  split at h
  next lower =>
    exfalso
    have bounds : 97 ≤ d.toNat ∧ d.toNat ≤ 122 := lower
    have value := congrArg (fun c => c.val.toNat) h
    simp only [UInt32.toNat_add, show ('A'.val - 'a'.val).toNat = 4294967264 from rfl] at value
    rcases line with rfl | rfl <;> simp at value <;> omega
  next => exact h
def noDigest : Digest := ⟨List.replicate 32 0, length_zeros⟩

/-- A library that knows the case of ASCII and what the two tables list. -/
def Rust.sample (digests : List (Bytes × Digest)) (texts : List (Str × Value)) : Rust where
  sha256 b := (digests.lookup b).getD noDigest
  fromStr s := texts.lookup s
  formatFloat _ := []
  toLowercase s := s.map Char.toLower
  toUppercase s := s.map Char.toUpper
  lowercase_break s c line member := by
    obtain ⟨d, inside, eq⟩ := List.mem_map.mp member
    exact toLower_break c d line eq ▸ inside
  uppercase_break s c line member := by
    obtain ⟨d, inside, eq⟩ := List.mem_map.mp member
    exact toUpper_break c d line eq ▸ inside

namespace Enclave

variable (rust : Rust)

def sha256Hex (b : Bytes) : Str := Str.hex (rust.sha256 b).1

def formatNumber : Number → Str
  | .posInt n => Str.natDigits n.toNat
  | .negInt n => if n.toInt < 0 then '-' :: Str.natDigits n.toInt.natAbs else Str.natDigits n.toInt.natAbs
  | .float bits => rust.formatFloat bits

def escapeChar (c : Char) : Str :=
  if c = '"' then ['\\', '"']
  else if c = '\\' then ['\\', '\\']
  else if c = '\x08' then ['\\', 'b']
  else if c = '\x0C' then ['\\', 'f']
  else if c = '\n' then ['\\', 'n']
  else if c = '\r' then ['\\', 'r']
  else if c = '\t' then ['\\', 't']
  else if c.toNat < 0x20 then
    ['\\', 'u', '0', '0', Str.hexDigit (c.toNat / 16), Str.hexDigit (c.toNat % 16)]
  else [c]

/-- `serde_json::to_string` of a string. -/
def quote (s : Str) : Str := '"' :: s.flatMap escapeChar ++ ['"']

mutual

def canonicalJson : Value → Str
  | .null => "null"
  | .bool true => "true"
  | .bool false => "false"
  | .number n => formatNumber rust n
  | .string s => quote s
  | .array items => '[' :: Str.join [','] (canonicalItems items) ++ [']']
  | .object map =>
    '{' :: Str.join [','] (((canonicalFields map).insertionSort fun p q => p.1 ≤ q.1).map
      fun p => quote p.1 ++ ':' :: p.2) ++ ['}']

def canonicalItems : List Value → List Str
  | [] => []
  | v :: rest => canonicalJson v :: canonicalItems rest

def canonicalFields : List (Str × Value) → List (Str × Str)
  | [] => []
  | (k, v) :: rest => (k, canonicalJson v) :: canonicalFields rest

end

def fieldClaimsSha256Hex (claims : Value) : Str :=
  sha256Hex rust (Utf8.encode (canonicalJson rust claims))

mutual

/-- `Value::to_string`: compact, objects in map order. -/
def toJsonString : Value → Str
  | .null => "null"
  | .bool true => "true"
  | .bool false => "false"
  | .number n => formatNumber rust n
  | .string s => quote s
  | .array items => '[' :: Str.join [','] (toJsonItems items) ++ [']']
  | .object map => '{' :: Str.join [','] (toJsonFields map) ++ ['}']

def toJsonItems : List Value → List Str
  | [] => []
  | v :: rest => toJsonString v :: toJsonItems rest

def toJsonFields : List (Str × Value) → List Str
  | [] => []
  | (k, v) :: rest => (quote k ++ ':' :: toJsonString v) :: toJsonFields rest

end

end Enclave

end TeeProof
