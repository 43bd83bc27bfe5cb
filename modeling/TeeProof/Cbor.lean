import TeeProof.BigEndian
import TeeProof.Node

/-! The bounded CBOR decoder of the Nitro verifier. A position is an offset into the
buffer; `left` counts the nesting levels still allowed. -/
namespace TeeProof.Verifier

inductive Cbor where
  | int (n : Int)
  | bytes (b : Bytes)
  | text (s : JStr)
  | array (items : List Cbor)
  | map (entries : List (JStr × Cbor))
  | bool (b : Bool)
  | null

instance : Inhabited Cbor := ⟨.null⟩

def maxAttestationBytes : Nat := 256 * 1024
def maxCborDepth : Nat := 32
def maxCborContainerItems : Nat := 1024
def maxCborStringBytes : Nat := maxAttestationBytes
def maxSafeInteger : Nat := 2 ^ 53 - 1

def byteAt (b : Bytes) (p : Nat) : Nat := (b.getD p 0).toNat

def slice (b : Bytes) (p n : Nat) : Bytes := (b.drop p).take n

def cborError (message : JStr) : Throws α := .error (JStr.lit "invalid CBOR: " ++ message)

def requireAvailable (b : Bytes) (p n : Nat) : Throws Unit :=
  if p + n > b.length then cborError "truncated item" else .ok ()

/-- A big-endian argument of `n` octets. -/
def readWide (b : Bytes) (p n : Nat) : Throws (Nat × Nat) := do
  requireAvailable b p n
  .ok (beNat (slice b p n), p + n)

def readAdditional (b : Bytes) (p ai : Nat) : Throws (Nat × Nat) :=
  if ai < 24 then .ok (ai, p)
  else if ai = 24 then readWide b p 1
  else if ai = 25 then readWide b p 2
  else if ai = 26 then readWide b p 4
  else if ai = 27 then do
    let (v, next) ← readWide b p 8
    if v > maxSafeInteger then cborError "integer too large" else .ok (v, next)
  else if ai = 31 then cborError "unexpected indefinite-length marker"
  else cborError "invalid additional information"

def boundedSlice (b : Bytes) (p len : Nat) (kind : JStr) : Throws Bytes :=
  if len > maxCborStringBytes then cborError (kind ++ " too large")
  else do
    requireAvailable b p len
    .ok (slice b p len)

mutual

/-- `String(value)`; an item of a joined array shows `null` as the empty text. -/
def keyText (joined : Bool) : Cbor → Throws JStr
  | .int n => .ok (intDigits n)
  | .bytes b => .ok (bufferText b)
  | .text s => .ok s
  | .array items => joinKeys items
  | .map _ => .error "Cannot convert object to primitive value"
  | .bool true => .ok "true"
  | .bool false => .ok "false"
  | .null => if joined then .ok [] else .ok "null"

/-- `items.join(',')`. -/
def joinKeys : List Cbor → Throws JStr
  | [] => .ok []
  | v :: rest => do
    let head ← keyText true v
    match rest with
    | [] => .ok head
    | _ :: _ => do
      let tail ← joinKeys rest
      .ok (head ++ 0x2C :: tail)

end

/-- A map key becomes a property name. -/
def propertyKey (key : Cbor) : Throws JStr := keyText false key

/-- `m[k] = v` on an object without prototype. -/
def setKey (key : JStr) (value : α) : List (JStr × α) → List (JStr × α)
  | [] => [(key, value)]
  | (k, v) :: rest => if k = key then (k, value) :: rest else (k, v) :: setKey key value rest

/-- A decoder at some depth: position and `allowBreak` to an item, `none` for the
break, and the position after it. -/
abbrev Decoder := Nat → Bool → Throws (Option Cbor × Nat)

/-- An item where no break is allowed. -/
def decItem (dec : Decoder) (p : Nat) : Throws (Cbor × Nat) := do
  let (item, next) ← dec p false
  match item with
  | some v => .ok (v, next)
  | none => cborError "unexpected break"

def decArray (dec : Decoder) : Nat → List Cbor → Nat → Throws (Cbor × Nat)
  | 0, items, p => .ok (.array items, p)
  | n + 1, items, p => do
    let (v, p) ← decItem dec p
    decArray dec n (items ++ [v]) p

def decMap (dec : Decoder) : Nat → List (JStr × Cbor) → Nat → Throws (Cbor × Nat)
  | 0, entries, p => .ok (.map entries, p)
  | n + 1, entries, p => do
    let (k, p) ← decItem dec p
    let (v, p) ← decItem dec p
    let key ← propertyKey k
    decMap dec n (setKey key v entries) p

/-- The chunks of an indefinite byte string; `room` of them may still follow. -/
def decBytesChunks (dec : Decoder) (chunks : Bytes) (p : Nat) (room : Nat) : Throws (Cbor × Nat) := do
  let (item, p) ← dec p true
  match item with
  | none => .ok (.bytes chunks, p)
  | some (.bytes chunk) =>
    match room with
    | 0 => cborError "byte string too large"
    | room + 1 =>
      if chunks.length + chunk.length > maxCborStringBytes then cborError "byte string too large"
      else decBytesChunks dec (chunks ++ chunk) p room
  | some _ => cborError "non-bytes chunk in indefinite byte string"

def decTextChunks (dec : Decoder) (chunks : JStr) (total p : Nat) (room : Nat) : Throws (Cbor × Nat) := do
  let (item, p) ← dec p true
  match item with
  | none => .ok (.text chunks, p)
  | some (.text chunk) =>
    match room with
    | 0 => cborError "text string too large"
    | room + 1 =>
      if total + chunk.utf8.length > maxCborStringBytes then cborError "text string too large"
      else decTextChunks dec (chunks ++ chunk) (total + chunk.utf8.length) p room
  | some _ => cborError "non-text chunk in indefinite text string"

def decArrayItems (dec : Decoder) (items : List Cbor) (p : Nat) (room : Nat) : Throws (Cbor × Nat) := do
  let (item, p) ← dec p true
  match item with
  | none => .ok (.array items, p)
  | some v =>
    match room with
    | 0 => cborError "array too large"
    | room + 1 => decArrayItems dec (items ++ [v]) p room

def decMapEntries (dec : Decoder) (entries : List (JStr × Cbor)) (p : Nat) (room : Nat) : Throws (Cbor × Nat) := do
  let (item, p) ← dec p true
  match item with
  | none => .ok (.map entries, p)
  | some k =>
    let (v, p) ← decItem dec p
    match room with
    | 0 => cborError "map too large"
    | room + 1 =>
      let key ← propertyKey k
      decMapEntries dec (setKey key v entries) p room

def decodeIndefiniteCbor (dec : Decoder) (mt p : Nat) : Throws (Cbor × Nat) :=
  match mt with
  | 2 => decBytesChunks dec [] p maxCborContainerItems
  | 3 => decTextChunks dec [] 0 p maxCborContainerItems
  | 4 => decArrayItems dec [] p maxCborContainerItems
  | 5 => decMapEntries dec [] p maxCborContainerItems
  | _ => cborError "invalid indefinite-length item"

def decodeDefiniteCbor (dec : Decoder) (b : Bytes) (mt ai len p : Nat) : Throws (Cbor × Nat) :=
  match mt with
  | 0 => .ok (.int len, p)
  | 1 => .ok (.int (-1 - len), p)
  | 2 => do
    let bytes ← boundedSlice b p len "byte string"
    .ok (.bytes bytes, p + len)
  | 3 => do
    let bytes ← boundedSlice b p len "text string"
    .ok (.text (bufferText bytes), p + len)
  | 4 => if len > maxCborContainerItems then cborError "array too large" else decArray dec len [] p
  | 5 => if len > maxCborContainerItems then cborError "map too large" else decMap dec len [] p
  | 6 => decItem dec p
  | 7 => .ok (if ai = 20 then .bool false else if ai = 21 then .bool true else .null, p)
  | _ => cborError "unknown major type"

def dec (b : Bytes) : (left : Nat) → Decoder
  | 0, _, _ => cborError "nesting too deep"
  | left + 1, p, allowBreak => do
    requireAvailable b p 1
    let ib := byteAt b p
    if ib = 0xFF then
      if allowBreak then .ok (none, p + 1) else cborError "unexpected break"
    else
      let mt := ib / 32
      let ai := ib % 32
      let (v, next) ←
        if ai = 31 then decodeIndefiniteCbor (dec b left) mt (p + 1)
        else do
          let (len, p) ← readAdditional b (p + 1) ai
          decodeDefiniteCbor (dec b left) b mt ai len p
      .ok (some v, next)

def decodeComplete (b : Bytes) : Throws Cbor := do
  let (value, p) ← decItem (dec b (maxCborDepth + 1)) 0
  if p ≠ b.length then cborError "trailing bytes" else .ok value

end TeeProof.Verifier
