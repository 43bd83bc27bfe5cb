import TeeProof.Base64
import TeeProof.JsValue

/-! What the verifier takes from its host: hashing, signatures, certificates, the
JSON reader and the Unicode case tables. Everything written in the repository
itself is defined in the modules that follow. -/
namespace TeeProof

/-- `throw new Error(message)` ends a computation with its message. -/
abbrev Throws := Except JStr

theorem Throws.bind_ok {x : Throws α} {f : α → Throws β} (h : x >>= f = .ok r) :
    ∃ a, x = .ok a ∧ f a = .ok r := by
  cases x with
  | error e => cases h
  | ok a => exact ⟨a, rfl, h⟩

theorem Throws.map_ok {x : Throws α} {f : α → β} (h : f <$> x = .ok r) :
    ∃ a, x = .ok a ∧ f a = r := by
  cases x with
  | error e => cases h
  | ok a => exact ⟨a, rfl, Except.ok.inj h⟩

/-- The functions of `node:crypto`, `Buffer`, `JSON`, `RegExp` and `Date` the
verifier calls. `Key` and `Cert` are `KeyObject` and `X509Certificate`. -/
structure Node where
  Key : Type
  Cert : Type
  sha256 : Bytes → Digest
  toLowerCase : JStr → JStr
  toUpperCase : JStr → JStr
  /-- The case tables map no other character to LF and take text to text. -/
  lowerCase_newline : ∀ s, 0x0A ∈ toLowerCase s → 0x0A ∈ s
  upperCase_newline : ∀ s, 0x0A ∈ toUpperCase s → 0x0A ∈ s
  lowerCase_wellFormed : ∀ s, s.WellFormed → (toLowerCase s).WellFormed
  upperCase_wellFormed : ∀ s, s.WellFormed → (toUpperCase s).WellFormed
  /-- `String(x)` of the double nearest to a number that is no integer below 2^53. -/
  formatNumber : ℚ → JStr
  parseJson : JStr → Throws JsVal
  /-- `Buffer.from(s, 'base64')`. -/
  fromBase64 : JStr → Bytes
  /-- `createPublicKey` of SPKI DER. -/
  createPublicKey : Bytes → Throws Key
  /-- `verify(null, data, key, signature)`. -/
  edVerify : Key → Bytes → Bytes → Throws Bool
  /-- `verify('sha384', data, { key, dsaEncoding: 'ieee-p1363' }, signature)`. -/
  verifyP1363 : Key → Bytes → Bytes → Throws Bool
  /-- `verify('sha384', data, key, signature)`. -/
  verifySha384 : Key → Bytes → Bytes → Throws Bool
  /-- `verify('sha256', data, key, signature)`. -/
  verifySha256 : Key → Bytes → Bytes → Throws Bool
  /-- `verify('sha256', …)` with PSS padding and a salt of 32 octets. -/
  verifyPss : Key → Bytes → Bytes → Throws Bool
  /-- `new X509Certificate(der)`. -/
  parseCert : Bytes → Throws Cert
  /-- `new X509Certificate(pem)`. -/
  parsePem : JStr → Throws Cert
  publicKey : Cert → Throws Key
  certVerify : Cert → Key → Bool
  checkIssued : Cert → Cert → Bool
  fingerprint256 : Cert → JStr
  subject : Cert → JStr
  issuer : Cert → JStr
  raw : Cert → Bytes
  validTo : Cert → JStr
  /-- `Date.parse` of the two validity texts, in milliseconds; `none` is `NaN`. -/
  validFromMs : Cert → Option Int
  validToMs : Cert → Option Int
  /-- `new RegExp(pattern).test(text)`. -/
  regExpTest : JStr → JStr → Throws Bool
  /-- `new Date(ms).toISOString()`. -/
  toIsoString : Int → Throws JStr
  /-- `Date.now()`. -/
  dateNow : Int

/-- SHA-256 of the text of an empty object. -/
def emptyObjectDigest : Digest := ⟨[68, 19, 111, 163, 85, 179, 103, 138, 17, 70, 173, 22, 247, 232, 100, 158, 148, 251, 79, 194, 31, 231, 126, 131, 16, 192, 96, 246, 28, 170, 255, 138], by decide⟩

namespace JStr

/-- ASCII case: the units of a letter range moved onto the other one. -/
def asciiCase (low target : Nat) (s : JStr) : JStr :=
  s.map fun u => if low ≤ u.toNat ∧ u.toNat ≤ low + 25 then UInt16.ofNat (u.toNat - low + target) else u

theorem asciiCase_newline (low target : Nat) (s : JStr) (above : 10 < target) (small : target < 0x80)
    (member : 0x0A ∈ asciiCase low target s) : 0x0A ∈ s := by
  obtain ⟨u, inside, eq⟩ := List.mem_map.mp member
  split at eq
  next range =>
    have value := congrArg UInt16.toNat eq
    rw [UInt16.toNat_ofNat'] at value
    simp at value
    omega
  next => exact eq ▸ inside

theorem asciiCase_wellFormed (low target : Nat) (s : JStr) (bounded : low < 0x80) (small : target < 0x80)
    (text : WellFormed s) : WellFormed (asciiCase low target s) := by
  obtain ⟨chars, rfl⟩ := text
  refine ⟨chars.map fun c => if low ≤ c.toNat ∧ c.toNat ≤ low + 25 then Char.ofNat (c.toNat - low + target) else c, ?_⟩
  induction chars with
  | nil => rfl
  | cons c rest ih =>
    have head : (ofChar c).map (fun u => if low ≤ u.toNat ∧ u.toNat ≤ low + 25
        then UInt16.ofNat (u.toNat - low + target) else u) =
        ofChar (if low ≤ c.toNat ∧ c.toNat ≤ low + 25 then Char.ofNat (c.toNat - low + target) else c) := by
      have valid : c.toNat.isValidChar := c.valid
      simp only [Nat.isValidChar] at valid
      by_cases plane : c.toNat < 0x10000
      · have unit : (UInt16.ofNat c.toNat).toNat = c.toNat := by rw [UInt16.toNat_ofNat']; omega
        simp only [ofChar, plane, if_true, List.map_cons, List.map_nil, unit]
        split
        next range =>
          have letter : (Char.ofNat (c.toNat - low + target)).toNat = c.toNat - low + target := by
            rw [Char.toNat_ofNat, if_pos]
            simp only [Nat.isValidChar]
            omega
          rw [letter, if_pos (by omega)]
        next => simp
      · have outside : ¬(low ≤ c.toNat ∧ c.toNat ≤ low + 25) := by omega
        simp only [ofChar, plane, if_false, outside, List.map_cons, List.map_nil, UInt16.toNat_ofNat']
        rw [if_neg (by omega), if_neg (by omega)]
    simp only [asciiCase, ofChars, List.flatMap_cons, List.map_append, List.map_cons, head] at ih ⊢
    rw [ih]

end JStr

/-- A host that knows the case of ASCII, canonical base64 and what the tables list.
Keys and certificates are their own bytes; a signature is good when it is listed. -/
def Node.sample (digests : List (Bytes × Digest)) (texts : List (JStr × JsVal))
    (signatures : List (Bytes × Bytes × Bytes)) (roots : List (Bytes × JStr)) (now : Int) : Node where
  Key := Bytes
  Cert := Bytes
  sha256 b := (digests.lookup b).getD ⟨List.replicate 32 0, length_zeros⟩
  toLowerCase := JStr.asciiCase 65 97
  toUpperCase := JStr.asciiCase 97 65
  lowerCase_newline s := JStr.asciiCase_newline 65 97 s (by decide) (by decide)
  upperCase_newline s := JStr.asciiCase_newline 97 65 s (by decide) (by decide)
  lowerCase_wellFormed s := JStr.asciiCase_wellFormed 65 97 s (by decide) (by decide)
  upperCase_wellFormed s := JStr.asciiCase_wellFormed 97 65 s (by decide) (by decide)
  formatNumber _ := []
  parseJson s := match texts.lookup s with
    | some value => .ok value
    | none => .error "Unexpected token"
  fromBase64 s := (Base64.decode s.utf8).getD []
  createPublicKey der := .ok der
  edVerify key data signature := .ok (signatures.contains (key, data, signature))
  verifyP1363 key data signature := .ok (signatures.contains (key, data, signature))
  verifySha384 key data signature := .ok (signatures.contains (key, data, signature))
  verifySha256 key data signature := .ok (signatures.contains (key, data, signature))
  verifyPss key data signature := .ok (signatures.contains (key, data, signature))
  parseCert der := .ok der
  parsePem pem := .ok pem.utf8
  publicKey cert := .ok cert
  certVerify _ _ := true
  checkIssued _ _ := true
  fingerprint256 cert := (roots.lookup cert).getD []
  subject _ := []
  issuer _ := []
  raw cert := cert
  validTo _ := []
  validFromMs _ := some 0
  validToMs _ := some 4102444800000
  regExpTest _ _ := .ok false
  toIsoString _ := .ok []
  dateNow := now

namespace Verifier

variable (node : Node)

def intDigits (n : Int) : JStr :=
  if n < 0 then JStr.lit "-" ++ JStr.natDigits n.natAbs else JStr.natDigits n.natAbs

/-- `String(x)` of a number. -/
def numberToString : JsNumber → JStr
  | .finite q =>
    if q.den = 1 ∧ q.num.natAbs < 2 ^ 53 then intDigits q.num else node.formatNumber q
  | .posInf => "Infinity"
  | .negInf => "-Infinity"

/-- `buffer.toString('utf8')`. -/
def bufferText (body : Bytes) : JStr := JStr.ofChars (Utf8.decode body)

theorem bufferText_utf8 (s : JStr) (text : s.WellFormed) : bufferText s.utf8 = s := by
  obtain ⟨chars, rfl⟩ := text
  rw [bufferText, JStr.utf8_ofChars, Utf8.decode_encode]

/-- `WhiteSpace` and `LineTerminator` of the language, what `trim` removes. -/
def isSpace (u : UInt16) : Bool :=
  let n := u.toNat
  (0x09 ≤ n && n ≤ 0x0D) || n == 0x20 || n == 0xA0 || n == 0x1680 || (0x2000 ≤ n && n ≤ 0x200A) ||
    n == 0x2028 || n == 0x2029 || n == 0x202F || n == 0x205F || n == 0x3000 || n == 0xFEFF

def trimStart (s : JStr) : JStr := s.dropWhile isSpace
def trim (s : JStr) : JStr := ((trimStart s).reverse.dropWhile isSpace).reverse

/-- `b.toString('base64')`. -/
def toBase64 (b : Bytes) : JStr := (Base64.encode b).map fun c => UInt16.ofNat c.toNat

mutual

/-- `String(value)`; an item of a joined array shows `null` and `undefined` as empty.
An object whose own `toString` hides the inherited one has no primitive form. -/
def showText (joined : Bool) : JsVal → Throws JStr
  | .undefined => if joined then .ok [] else .ok "undefined"
  | .null => if joined then .ok [] else .ok "null"
  | .bool true => .ok "true"
  | .bool false => .ok "false"
  | .num n => .ok (numberToString node n)
  | .str s => .ok s
  | .arr items => showTexts items
  | .obj proto props =>
    match JsVal.get (.obj proto props) (JStr.lit "toString") with
    | .undefined => .ok "[object Object]"
    | _ => .error "Cannot convert object to primitive value"

/-- `items.join(',')`. -/
def showTexts : List JsVal → Throws JStr
  | [] => .ok []
  | v :: rest => do
    let head ← showText true v
    match rest with
    | [] => .ok head
    | _ :: _ => do
      let tail ← showTexts rest
      .ok (head ++ 0x2C :: tail)

end

def toText (value : JsVal) : Throws JStr := showText node false value

def sha256Hex (data : Bytes) : JStr := JStr.hex (node.sha256 data).1

/-- Assigning the sorted entries to a fresh object, as `sortJson` does. -/
def assignAll (props : JsVal.Props) : JsVal :=
  props.foldl (fun out p => out.set p.1 p.2) JsVal.empty

mutual

def sortJson : JsVal → JsVal
  | .arr items => .arr (sortItems items)
  | .obj _ props => assignAll ((sortProps props).insertionSort fun p q => JStr.le p.1 q.1)
  | value => value

def sortItems : List JsVal → List JsVal
  | [] => []
  | v :: rest => sortJson v :: sortItems rest

def sortProps : List (JStr × JsVal) → List (JStr × JsVal)
  | [] => []
  | (k, v) :: rest => (k, sortJson v) :: sortProps rest

end

/-- One code unit of a JSON string, taken by itself. -/
def escapeUnit (u : UInt16) : JStr :=
  if u = 0x22 then [0x5C, 0x22]
  else if u = 0x5C then [0x5C, 0x5C]
  else if u = 0x08 then [0x5C, 0x62]
  else if u = 0x0C then [0x5C, 0x66]
  else if u = 0x0A then [0x5C, 0x6E]
  else if u = 0x0D then [0x5C, 0x72]
  else if u = 0x09 then [0x5C, 0x74]
  else if u.toNat < 0x20 ∨ JStr.isHigh u ∨ JStr.isLow u then
    [0x5C, 0x75, JStr.hexDigit (u.toNat / 4096), JStr.hexDigit (u.toNat / 256 % 16),
      JStr.hexDigit (u.toNat / 16 % 16), JStr.hexDigit (u.toNat % 16)]
  else [u]

/-- Surrogate pairs are written as they are, lone surrogates as `\u` escapes. -/
def escape : JStr → JStr
  | [] => []
  | [u] => escapeUnit u
  | u :: v :: rest =>
    if JStr.isHigh u && JStr.isLow v then u :: v :: escape rest else escapeUnit u ++ escape (v :: rest)

def quote (s : JStr) : JStr := 0x22 :: escape s ++ [0x22]

def commaJoin : List JStr → JStr
  | [] => []
  | [s] => s
  | s :: t :: rest => s ++ 0x2C :: commaJoin (t :: rest)

mutual

/-- `JSON.stringify`. `undefined` is written `null` inside an array and left out of
an object; no call reaches it at the top. -/
def stringify : JsVal → JStr
  | .undefined => "null"
  | .null => "null"
  | .bool true => "true"
  | .bool false => "false"
  | .num (.finite q) => numberToString node (.finite q)
  | .num _ => "null"
  | .str s => quote s
  | .arr items => 0x5B :: commaJoin (stringifyItems items) ++ [0x5D]
  | .obj _ props =>
    0x7B :: commaJoin ((JsVal.enumerate (stringifyProps props)).map fun p => quote p.1 ++ 0x3A :: p.2)
      ++ [0x7D]

def stringifyItems : List JsVal → List JStr
  | [] => []
  | v :: rest => stringify v :: stringifyItems rest

def stringifyProps : List (JStr × JsVal) → List (JStr × JStr)
  | [] => []
  | (_, .undefined) :: rest => stringifyProps rest
  | (k, v) :: rest => (k, stringify v) :: stringifyProps rest

end

def canonicalJson (value : JsVal) : JStr := stringify node (sortJson value)

def fieldClaimsSha256Hex (claims : JsVal) : JStr :=
  sha256Hex node (JStr.utf8 (canonicalJson node claims))

end Verifier

end TeeProof
