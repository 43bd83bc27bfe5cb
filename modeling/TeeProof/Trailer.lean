import TeeProof.CanonicalAgreement
import TeeProof.FieldProof
import TeeProof.Views

/-! The trailer of a locally attested exchange, from the enclave's checks on a request to
the verifier's reading of the proof. Host, path and method are normalised on the way
into the trailer, into the statement and into the claims, and again by the verifier. -/
namespace TeeProof.Enclave

open Value (Map)

structure Evidence where
  profile : Str
  attestation : Bytes
  pcr0 : Option Str
  pcr8 : Option Str
  /-- A `BTreeMap`, in its order. -/
  measurements : List (Str × Str)

/-- The signing key by what it signs, and the evidence provider. -/
structure LocalEvidenceBackend where
  spki : Bytes
  sign : Bytes → Bytes
  attest : Bytes → Bytes → Except Str Evidence

/-- What `handle` checks of a request head before it connects. -/
structure Admitted (head : ReqHead) : Prop where
  nonce : (Base64.decode (Utf8.encode head.nonce)).isSome
  host : noCrlf head.upstream.host
  method : noCrlf head.upstream.method
  path : noCrlf head.upstream.path
  headers : ∀ p ∈ head.upstream.headers, noCrlf p.1 ∧ noCrlf p.2
  token : ∀ t ∈ head.token, noCrlf t

/-- The arguments the two trailer writers share. -/
structure TrailerInput where
  head : ReqHead
  nonceBytes : Bytes
  normMethod : Str
  status : UInt16
  contentType : Str
  reqBodyHex : Str
  respBodyHex : Str
  fieldClaims : Option Value

variable (rust : Rust)

/-- `handle` hashes the two bodies and takes the method in upper case. -/
def trailerInput (head : ReqHead) (status : UInt16) (contentType : Str) (reqBody respBody : Bytes)
    (fieldClaims : Option Value) : TrailerInput where
  head
  nonceBytes := (Base64.decode (Utf8.encode head.nonce)).getD []
  normMethod := rust.toUppercase head.upstream.method
  status
  contentType
  reqBodyHex := sha256Hex rust reqBody
  respBodyHex := sha256Hex rust respBody
  fieldClaims

/-- The payload of a `RESP_TRAILER` frame, with the bytes that were signed. -/
inductive Trailer where
  | attested (statement : Bytes) (payload : Value)
  | unavailable (payload : Value)

def buildProofUnavailablePayload (x : TrailerInput) (code : String) (message : Str) : Value :=
  .ofFields
    [("type", .lit "tee.proof_unavailable"),
      ("code", .lit code),
      ("message", .string message),
      ("attested", .bool false),
      ("upstream_host", .string (Str.toAsciiLowercase x.head.upstream.host)),
      ("upstream_path", .string (pathNoQuery x.head.upstream.path)),
      ("http_method", .string (Str.toAsciiUppercase x.normMethod)),
      ("http_status", .ofNat x.status.toNat),
      ("resp_content_type", .string x.contentType),
      ("request_body_sha256", .string x.reqBodyHex),
      ("response_body_sha256", .string x.respBodyHex)]

def base64Text (b : Bytes) : Value := .string ((Base64.encode b).map fun c => Char.ofNat c.toNat)

/-- The map of a `json!` object. -/
def jsonMap (fields : List (String × Value)) : Map :=
  fields.foldl (fun map p => OrdMap.insert p.1.toList p.2 map) []

/-- `if let Some(value) = … { map.insert(key, value) }`. -/
def insertSome (key : String) (value : Option Value) (map : Map) : Map :=
  match value with
  | some v => OrdMap.insert key.toList v map
  | none => map

def attestedFields (backend : LocalEvidenceBackend) (x : TrailerInput) (normHost normPath : Str) (signature : Bytes)
    (evidence : Evidence) : List (String × Value) :=
  [("v", .ofNat 2),
    ("alg", .lit "ed25519"),
    ("public_key", base64Text backend.spki),
    ("nonce", .string x.head.nonce),
    ("upstream_host", .string normHost),
    ("upstream_path", .string normPath),
    ("http_method", .string x.normMethod),
    ("http_status", .ofNat x.status.toNat),
    ("resp_content_type", .string x.contentType),
    ("request_body_sha256", .string x.reqBodyHex),
    ("response_body_sha256", .string x.respBodyHex),
    ("signature", base64Text signature),
    ("attestation", base64Text evidence.attestation)]

def measurementsValue (evidence : Evidence) : Option Value :=
  if evidence.measurements.isEmpty then none
  else some (.object (evidence.measurements.map (Prod.map id .string)))

def attestedPayload (backend : LocalEvidenceBackend) (x : TrailerInput) (normHost normPath : Str) (signature : Bytes)
    (evidence : Evidence) : Value :=
  let map := jsonMap (attestedFields backend x normHost normPath signature evidence)
  let map := insertSome "profile" (if evidence.profile ≠ "nitro" then some (.string evidence.profile) else none) map
  let map := insertSome "pcr0" (evidence.pcr0.map .string) map
  let map := insertSome "pcr8" (evidence.pcr8.map .string) map
  let map := insertSome "measurements" (measurementsValue evidence) map
  .object (insertSome "field_claims" x.fieldClaims map)

def signedFields (x : TrailerInput) (normHost normPath : Str) : SignedFields where
  nonceB64 := x.head.nonce
  upstreamHost := normHost
  upstreamPath := normPath
  httpMethod := x.normMethod
  httpStatus := x.status
  respContentType := x.contentType
  requestBodySha256Hex := x.reqBodyHex
  responseBodySha256Hex := x.respBodyHex
  fieldClaims := x.fieldClaims

def writeLocalAttestedTrailer (backend : LocalEvidenceBackend) (x : TrailerInput) (normHost normPath : Str) : Trailer :=
  let statement := buildV2Statement rust (signedFields x normHost normPath)
  match backend.attest backend.spki x.nonceBytes with
  | .error message => .unavailable (buildProofUnavailablePayload x "attestation_failed" message)
  | .ok evidence =>
    .attested statement (attestedPayload backend x normHost normPath (backend.sign statement) evidence)

/-- `write_attested_trailer` with the local backend. -/
def writeAttestedTrailer (backend : LocalEvidenceBackend) (x : TrailerInput) : Trailer :=
  if !noCrlf x.contentType then
    .unavailable (buildProofUnavailablePayload x "invalid_content_type" "上游 content-type 含非法 CR/LF")
  else
    writeLocalAttestedTrailer rust backend x (rust.toLowercase x.head.upstream.host) (pathNoQuery x.head.upstream.path)

theorem writeAttestedTrailer_attested {backend : LocalEvidenceBackend} {x : TrailerInput} {statement : Bytes}
    {payload : Value} (written : writeAttestedTrailer rust backend x = .attested statement payload) :
    ∃ evidence, statement = buildV2Statement rust (signedFields x (rust.toLowercase x.head.upstream.host)
        (pathNoQuery x.head.upstream.path)) ∧
      payload = attestedPayload backend x (rust.toLowercase x.head.upstream.host) (pathNoQuery x.head.upstream.path)
        (backend.sign statement) evidence := by
  unfold writeAttestedTrailer at written
  split at written
  · cases written
  · unfold writeLocalAttestedTrailer at written
    dsimp only at written
    split at written
    next => cases written
    next evidence _ =>
      cases written
      exact ⟨evidence, rfl, rfl⟩

/-! Fields of the two objects. -/

theorem find_insertSome (key other : String) (value : Option Value) (map : Map) :
    OrdMap.find other.toList (insertSome key value map) =
      if other = key then value.or (OrdMap.find other.toList map) else OrdMap.find other.toList map := by
  cases value with
  | none => simp [insertSome]
  | some v =>
    rw [insertSome, OrdMap.find_insert]
    simp only [String.toList_inj]
    split <;> rfl

theorem find_jsonMap (fields : List (String × Value)) (nodup : (fields.map Prod.fst).Nodup) (key : String) :
    OrdMap.find key.toList (jsonMap fields) = fields.lookup key := by
  have run (map : Map) : OrdMap.find key.toList (fields.foldl (fun map p => OrdMap.insert p.1.toList p.2 map) map) =
      (fields.lookup key).or (OrdMap.find key.toList map) := by
    induction fields generalizing map with
    | nil => rfl
    | cons p rest ih =>
      obtain ⟨k, v⟩ := p
      rw [List.map_cons, List.nodup_cons] at nodup
      rw [List.foldl_cons, ih nodup.2, OrdMap.find_insert, List.lookup_cons]
      simp only [String.toList_inj]
      by_cases same : key = k
      · subst same
        have absent : rest.lookup key = none := Assoc.lookup_eq_none.mpr nodup.1
        simp [absent]
      · have apart : (key == k) = false := beq_eq_false_iff_ne.mpr same
        simp [apart, same]
  rw [jsonMap, run]
  simp

end TeeProof.Enclave

namespace TeeProof

open JsVal
open Value (Map)
open Verifier (arranged writtenBefore)

theorem lit_append (s t : String) : JStr.lit (s ++ t) = JStr.lit s ++ JStr.lit t := by
  rw [JStr.lit, String.toList_append, ofChars_append]
  rfl

section Received

/-! The text of a value read back; `double` is how `JSON.parse` reads a number's text. -/

variable (double : Number → JsNumber)

mutual

/-- `JSON.parse(value.to_string())`. -/
def received : Value → JsVal
  | .null => .null
  | .bool b => .bool b
  | .number n => .num (double n)
  | .string s => .str (JStr.ofChars s)
  | .array items => .arr (receivedItems items)
  | .object map => .obj .undefined (receivedMembers map)

def receivedItems : List Value → List JsVal
  | [] => []
  | v :: rest => received v :: receivedItems rest

def receivedMembers : List (Str × Value) → List (JStr × JsVal)
  | [] => []
  | (key, v) :: rest => (JStr.ofChars key, received v) :: receivedMembers rest

end

theorem receivedItems_eq (items : List Value) : receivedItems double items = items.map (received double) := by
  induction items with
  | nil => rfl
  | cons v rest ih => rw [receivedItems, ih, List.map_cons]

theorem receivedMembers_eq (map : Map) :
    receivedMembers double map = map.map (Prod.map JStr.ofChars (received double)) := by
  induction map with
  | nil => rfl
  | cons p rest ih =>
    rw [receivedMembers, ih]
    rfl

theorem received_defined (v : Value) : received double v ≠ .undefined := by
  cases v <;> simp [received]

/-- A field of an object as the verifier reads it. -/
theorem received_get (map : Map) (key : String) (safe : key.toList ≠ protoName) :
    (received double (.object map)).get (JStr.lit key) =
      ((OrdMap.find key.toList map).map (received double)).getD .undefined := by
  rw [received, JStr.lit, get_plain _ (ofChars_ne_proto safe), receivedMembers_eq, own, OrdMap.find_eq_lookup]
  congr 1
  induction map with
  | nil => rfl
  | cons p rest ih =>
    obtain ⟨k, v⟩ := p
    rw [List.map_cons, Prod.map, List.lookup_cons, List.lookup_cons, ih]
    have same : (JStr.ofChars key.toList == JStr.ofChars k) = (key.toList == k) := by
      rw [Bool.eq_iff_iff, beq_iff_eq, beq_iff_eq]
      exact ofChars_injective.eq_iff
    rw [same]
    cases key.toList == k <;> rfl

variable (rust : Rust) (node : Node)

/-- A value that both sides write alike once it is read back. -/
inductive Portable : Value → Prop
  | null : Portable .null
  | bool (b : Bool) : Portable (.bool b)
  | number {n : Number}
    (same : Verifier.stringify node (.num (double n)) = JStr.ofChars (Enclave.formatNumber rust n)) :
    Portable (.number n)
  | string (s : Str) : Portable (.string s)
  | array {items : List Value} (inside : ∀ v ∈ items, Portable v) : Portable (.array items)
  | object {map : Map} (sorted : OrdMap.Sorted map) (safe : protoName ∉ map.map Prod.fst)
    (order : ((map.map Prod.fst).map JStr.ofChars).Pairwise fun a b => writtenBefore a b = true)
    (values : ∀ p ∈ map, Portable p.2) : Portable (.object map)

variable {double rust node}

theorem Portable.tidy {v : Value} (portable : Portable double rust node v) : Verifier.Tidy (received double v) := by
  induction portable with
  | null => exact .null
  | bool b => exact .bool b
  | number same => exact .num _
  | string s => exact .str _
  | array inside ih =>
    rw [received, receivedItems_eq]
    refine .arr fun w member => ?_
    obtain ⟨v, origin, rfl⟩ := List.mem_map.mp member
    exact ih v origin
  | object sorted safe order values ih =>
    rw [received, receivedMembers_eq]
    refine .obj _ ?_ ?_ ?_
    · rw [List.map_map]
      have keys := sorted.nodup.map ofChars_injective
      rwa [List.map_map] at keys
    · intro p member
      obtain ⟨q, _, rfl⟩ := List.mem_map.mp member
      exact received_defined double q.2
    · intro p member
      obtain ⟨q, origin, rfl⟩ := List.mem_map.mp member
      exact ih q origin

/-- Both canonical writers agree on a portable value. -/
theorem Portable.canonicalJson_received {v : Value} (portable : Portable double rust node v) :
    Verifier.canonicalJson node (received double v) = JStr.ofChars (Enclave.canonicalJson rust v) := by
  induction portable with
  | null => rfl
  | bool b => cases b <;> rfl
  | number same => exact same
  | string s =>
    rw [Enclave.canonicalJson, Enclave.ofChars_quote]
    rfl
  | array inside ih =>
    rw [Enclave.ofChars_array, received, receivedItems_eq, Verifier.canonicalJson, Verifier.sortJson,
      Verifier.sortItems_eq, Verifier.stringify, Verifier.stringifyItems_eq, Verifier.commaJoin_eq, List.map_map,
      List.map_map]
    congr 3
    exact List.map_congr_left fun v member => ih v member
  | @object map sorted safe order values ih =>
    have tidy := Portable.tidy (.object sorted safe order values)
    rw [received, receivedMembers_eq] at tidy ⊢
    obtain ⟨nodup, defined, inside⟩ : ((map.map (Prod.map JStr.ofChars (received double))).map Prod.fst).Nodup ∧
        (∀ p ∈ map.map (Prod.map JStr.ofChars (received double)), p.2 ≠ .undefined) ∧
        ∀ p ∈ map.map (Prod.map JStr.ofChars (received double)), Verifier.Tidy p.2 := by
      cases tidy with
      | obj proto nodup defined values => exact ⟨nodup, defined, values⟩
    have members : (map.map (Prod.map JStr.ofChars (received double))).map
        (Prod.map id (Verifier.canonicalJson node)) =
        map.map (Prod.map JStr.ofChars fun v => JStr.ofChars (Enclave.canonicalJson rust v)) := by
      rw [List.map_map]
      refine List.map_congr_left fun p member => ?_
      simp only [Function.comp, Prod.map, id, ih p member]
    have keys : (map.map (Prod.map JStr.ofChars fun v => JStr.ofChars (Enclave.canonicalJson rust v))).map Prod.fst =
        (map.map Prod.fst).map JStr.ofChars := by
      rw [List.map_map, List.map_map]
      rfl
    have written : arranged (map.map (Prod.map JStr.ofChars fun v => JStr.ofChars (Enclave.canonicalJson rust v))) =
        map.map (Prod.map JStr.ofChars fun v => JStr.ofChars (Enclave.canonicalJson rust v)) := by
      refine (Verifier.arranged_eq_iff .rfl ?_ rfl).mpr ⟨?_, ?_, rfl⟩
      · rw [keys]
        exact sorted.nodup.map ofChars_injective
      · rw [keys, show protoKey = JStr.ofChars protoName from rfl, List.mem_map_of_injective ofChars_injective]
        exact safe
      · rw [keys]
        exact order
    rw [Verifier.canonicalJson_obj node nodup defined inside, members, written, Verifier.commaJoin_eq,
      Enclave.ofChars_object rust sorted, List.map_map]
    congr 3
    refine List.map_congr_left fun p _ => ?_
    simp [Function.comp, Prod.map, Verifier.quote, Verifier.bodyOf]

/-- An object of literal names, in an order both languages share. -/
theorem portable_jsonMap {fields : List (String × Value)} (safe : "__proto__" ∉ fields.map Prod.fst)
    (order : ∀ a ∈ fields.map Prod.fst, ∀ b ∈ fields.map Prod.fst, a.toList < b.toList →
      writtenBefore (JStr.lit a) (JStr.lit b) = true)
    (values : ∀ p ∈ fields, Portable double rust node p.2) :
    Portable double rust node (.object (Enclave.jsonMap fields)) := by
  have eq : Enclave.jsonMap fields = counted (fields.map (Prod.map String.toList id)) := by
    rw [Enclave.jsonMap, counted, List.foldl_map]
    rfl
  have named {p : Str × Value} (member : p ∈ fields.map (Prod.map String.toList id)) :
      ∃ q ∈ fields, Prod.map String.toList id q = p := List.mem_map.mp member
  rw [eq]
  refine .object (counted_sorted _) ?_ ((ordered_keys_iff _).mpr ?_) ?_
  · rw [counted_keys]
    intro member
    obtain ⟨p, inside, key⟩ := List.mem_map.mp member
    obtain ⟨q, origin, rfl⟩ := named inside
    have name : q.1 = "__proto__" := String.toList_inj.mp key
    exact safe (name ▸ List.mem_map_of_mem origin)
  · intro p inside q inside' less
    obtain ⟨a, origin, rfl⟩ := named inside
    obtain ⟨b, origin', rfl⟩ := named inside'
    exact order a.1 (List.mem_map_of_mem origin) b.1 (List.mem_map_of_mem origin') less
  · intro p member
    obtain ⟨q, origin, rfl⟩ := named (mem_of_counted member)
    exact values q origin

end Received

/-! ASCII case. -/

theorem isAscii_map {f : Char → Char} (keeps : ∀ c : Char, c.toNat < 0x80 → (f c).toNat < 0x80) {s : Str}
    (ascii : JStr.isAscii s = true) : JStr.isAscii (s.map f) = true := by
  simp only [JStr.isAscii, List.all_map, List.all_eq_true, decide_eq_true_eq, Function.comp] at ascii ⊢
  exact fun c member => keeps c (ascii c member)

theorem ascii_induction {P : Char → Prop} (all : ∀ n < 128, P (Char.ofNat n)) (c : Char) (ascii : c.toNat < 0x80) :
    P c := by
  have found := all c.toNat ascii
  rwa [Char.ofNat_toNat] at found

theorem toLower_ascii (c : Char) (ascii : c.toNat < 0x80) : c.toLower.toNat < 0x80 ∧ c.toLower.toLower = c.toLower :=
  ascii_induction (P := fun c => c.toLower.toNat < 0x80 ∧ c.toLower.toLower = c.toLower) (by decide) c ascii

theorem toUpper_ascii (c : Char) (ascii : c.toNat < 0x80) : c.toUpper.toNat < 0x80 ∧ c.toUpper.toUpper = c.toUpper :=
  ascii_induction (P := fun c => c.toUpper.toNat < 0x80 ∧ c.toUpper.toUpper = c.toUpper) (by decide) c ascii

theorem map_idem {f : Char → Char} (fixed : ∀ c : Char, c.toNat < 0x80 → f (f c) = f c) {s : Str}
    (ascii : JStr.isAscii s = true) : (s.map f).map f = s.map f := by
  rw [List.map_map]
  refine List.map_congr_left fun c member => fixed c ?_
  simpa using List.all_eq_true.mp ascii c member

/-- What both hosts document: SHA-256, and the case of ASCII text. -/
structure SameHosts (rust : Rust) (node : Node) : Prop where
  sha256 : ∀ b, node.sha256 b = rust.sha256 b
  rustLower : ∀ s, JStr.isAscii s = true → rust.toLowercase s = Str.toAsciiLowercase s
  rustUpper : ∀ s, JStr.isAscii s = true → rust.toUppercase s = Str.toAsciiUppercase s
  nodeLower : ∀ s, JStr.isAscii s = true → node.toLowerCase (JStr.ofChars s) = JStr.ofChars (Str.toAsciiLowercase s)
  nodeUpper : ∀ s, JStr.isAscii s = true → node.toUpperCase (JStr.ofChars s) = JStr.ofChars (Str.toAsciiUppercase s)

section Hosts

variable {rust : Rust} {node : Node} (hosts : SameHosts rust node) {s : Str} (ascii : JStr.isAscii s = true)

include hosts ascii

/-- Lowering twice on either side is lowering once. -/
theorem SameHosts.lower_twice :
    rust.toLowercase (rust.toLowercase s) = Str.toAsciiLowercase s ∧
      node.toLowerCase (JStr.ofChars (rust.toLowercase s)) = JStr.ofChars (Str.toAsciiLowercase s) := by
  have lowered : JStr.isAscii (Str.toAsciiLowercase s) = true := isAscii_map (fun c h => (toLower_ascii c h).1) ascii
  have idem : Str.toAsciiLowercase (Str.toAsciiLowercase s) = Str.toAsciiLowercase s :=
    map_idem (fun c h => (toLower_ascii c h).2) ascii
  rw [hosts.rustLower s ascii, hosts.rustLower _ lowered, hosts.nodeLower _ lowered, idem]
  exact ⟨rfl, rfl⟩

theorem SameHosts.upper_twice :
    rust.toUppercase (rust.toUppercase s) = Str.toAsciiUppercase s ∧
      node.toUpperCase (JStr.ofChars (rust.toUppercase s)) = JStr.ofChars (Str.toAsciiUppercase s) ∧
      Str.toAsciiUppercase (rust.toUppercase s) = Str.toAsciiUppercase s := by
  have raised : JStr.isAscii (Str.toAsciiUppercase s) = true := isAscii_map (fun c h => (toUpper_ascii c h).1) ascii
  have idem : Str.toAsciiUppercase (Str.toAsciiUppercase s) = Str.toAsciiUppercase s :=
    map_idem (fun c h => (toUpper_ascii c h).2) ascii
  rw [hosts.rustUpper s ascii, hosts.rustUpper _ raised, hosts.nodeUpper _ raised, idem]
  exact ⟨rfl, rfl, rfl⟩

end Hosts

theorem pathNoQuery_idem (p : Str) : Enclave.pathNoQuery (Enclave.pathNoQuery p) = Enclave.pathNoQuery p := by
  unfold Enclave.pathNoQuery
  rw [List.takeWhile_takeWhile]
  simp

theorem ofChars_hex (b : Bytes) : JStr.ofChars (Str.hex b) = JStr.hex b := by
  induction b with
  | nil => rfl
  | cons x rest ih =>
    have bound := x.toNat_lt
    simp only [Str.hex, JStr.hex, List.flatMap_cons, ofChars_append] at ih ⊢
    rw [ih]
    simp only [JStr.ofChars, List.flatMap_cons, List.flatMap_nil, List.append_nil,
      Enclave.ofChar_hexDigit _ (show x.toNat / 16 < 16 by omega),
      Enclave.ofChar_hexDigit _ (show x.toNat % 16 < 16 by omega), List.cons_append, List.nil_append]

theorem SameHosts.claims_hash {double : Number → JsNumber} {rust : Rust} {node : Node} (hosts : SameHosts rust node)
    {claims : Value} (portable : Portable double rust node claims) :
    Verifier.fieldClaimsSha256Hex node (received double claims) =
      JStr.ofChars (Enclave.fieldClaimsSha256Hex rust claims) := by
  rw [Verifier.fieldClaimsSha256Hex, portable.canonicalJson_received, Enclave.fieldClaimsSha256Hex,
    Enclave.sha256Hex, ofChars_hex, Verifier.sha256Hex, JStr.utf8_ofChars, hosts.sha256]

/-! The trailer as the verifier reads it. -/

section Trailer

open Enclave

variable (double : Number → JsNumber) (rust : Rust) (node : Node)

/-- The claims of an exchange, field by field. -/
def claimsFields (head : ReqHead) (normMethod : Str) (status : UInt16) (protocol : ProtocolFamily)
    (reqView respView : Value) (streaming : Bool) : List (String × Value) :=
  let viewHash (view : Value) : Value := .string (sha256Hex rust (Utf8.encode (canonicalJson rust view)))
  [("v", .ofNat 1),
    ("proof_type", .lit "field-proof"),
    ("nonce", .string head.nonce),
    ("protocol_family", .lit protocol.name),
    ("assurance_level", .lit "strong"),
    ("verification_mode", .lit "field_claims"),
    ("cross_protocol", .bool false),
    ("semantic_equivalence_not_proven", .bool false),
    ("request_schema_version", versioned protocol),
    ("response_schema_version", versioned protocol),
    ("upstream_host", .string (Str.toAsciiLowercase head.upstream.host)),
    ("upstream_path", .string (pathNoQuery head.upstream.path)),
    ("http_method", .string (Str.toAsciiUppercase normMethod)),
    ("http_status", .ofNat status.toNat),
    ("field_policy_id", .lit (protocol.name ++ "." ++ ProtocolFamily.policy ++ "@" ++ protocol.policyVersion)),
    ("upstream_request_fields_sha256", viewHash reqView),
    ("upstream_response_fields_sha256", viewHash respView),
    ("request_body_sha256_severity", .lit "advisory"),
    ("response_body_sha256_severity", .lit "advisory"),
    ("body_hash_policy", .lit "advisory"),
    ("streaming", .bool streaming)]

theorem buildFieldClaimsFromViews_fields {head : ReqHead} {normMethod : Str} {status : UInt16}
    {protocol : ProtocolFamily} {reqView respView : Value} {streaming : Bool} {claims : Value}
    (built : buildFieldClaimsFromViews rust head normMethod status protocol reqView respView streaming = some claims) :
    claims = .object (jsonMap (claimsFields rust head normMethod status protocol reqView respView streaming)) := by
  unfold buildFieldClaimsFromViews at built
  split at built
  · cases built
  · split at built
    · cases built
    · exact (Option.some.inj built).symm

theorem buildFieldClaimsFromViews_present {head : ReqHead} {normMethod : Str} {status : UInt16}
    {protocol : ProtocolFamily} {reqView respView : Value} {streaming : Bool}
    (request : hasRequiredPresence protocol .request reqView = true)
    (response : hasRequiredPresence protocol .response respView = true) :
    buildFieldClaimsFromViews rust head normMethod status protocol reqView respView streaming =
      some (.object (jsonMap (claimsFields rust head normMethod status protocol reqView respView streaming))) := by
  rw [buildFieldClaimsFromViews, request, response]
  rfl

def claimsNames : List String :=
  ["v", "proof_type", "nonce", "protocol_family", "assurance_level", "verification_mode", "cross_protocol",
    "semantic_equivalence_not_proven", "request_schema_version", "response_schema_version", "upstream_host",
    "upstream_path", "http_method", "http_status", "field_policy_id", "upstream_request_fields_sha256",
    "upstream_response_fields_sha256", "request_body_sha256_severity", "response_body_sha256_severity",
    "body_hash_policy", "streaming"]

theorem claimsNames_order : ∀ a ∈ claimsNames, ∀ b ∈ claimsNames, a.toList < b.toList →
    writtenBefore (JStr.lit a) (JStr.lit b) = true := by
  decide

variable {double rust}

theorem received_claims_get {head : ReqHead} {normMethod : Str} {status : UInt16} {protocol : ProtocolFamily}
    {reqView respView : Value} {streaming : Bool} {key : String} {value : Value}
    (safe : key.toList ≠ protoName)
    (found : (claimsFields rust head normMethod status protocol reqView respView streaming).lookup key = some value) :
    (received double (.object (jsonMap (claimsFields rust head normMethod status protocol reqView respView
      streaming)))).get (JStr.lit key) = received double value := by
  have names : (claimsFields rust head normMethod status protocol reqView respView streaming).map Prod.fst =
      claimsNames := rfl
  rw [received_get double _ key safe, find_jsonMap _ (by rw [names]; decide), found]
  rfl

def attestedNames : List String :=
  ["v", "alg", "public_key", "nonce", "upstream_host", "upstream_path", "http_method", "http_status",
    "resp_content_type", "request_body_sha256", "response_body_sha256", "signature", "attestation"]

def optionalNames : List String := ["profile", "pcr0", "pcr8", "measurements", "field_claims"]

/-- The members of the trailer that are always there. -/
theorem received_attested_get (backend : LocalEvidenceBackend) (x : TrailerInput) (normHost normPath : Str)
    (signature : Bytes) (evidence : Evidence) {key : String} {value : Value} (safe : key.toList ≠ protoName)
    (always : key ∉ optionalNames)
    (found : (attestedFields backend x normHost normPath signature evidence).lookup key = some value) :
    (received double (attestedPayload backend x normHost normPath signature evidence)).get (JStr.lit key) =
      received double value := by
  have names : (attestedFields backend x normHost normPath signature evidence).map Prod.fst = attestedNames := rfl
  simp only [optionalNames, List.mem_cons, List.not_mem_nil, or_false, not_or] at always
  dsimp only [attestedPayload]
  rw [received_get double _ key safe]
  simp only [find_insertSome, always, if_false]
  rw [find_jsonMap _ (by rw [names]; decide), found]
  rfl

theorem received_claims (backend : LocalEvidenceBackend) (x : TrailerInput) (normHost normPath : Str)
    (signature : Bytes) (evidence : Evidence) :
    (received double (attestedPayload backend x normHost normPath signature evidence)).get (JStr.lit "field_claims") =
      (x.fieldClaims.map (received double)).getD .undefined := by
  have names : (attestedFields backend x normHost normPath signature evidence).map Prod.fst = attestedNames := rfl
  have absent : (attestedFields backend x normHost normPath signature evidence).lookup "field_claims" = none := by
    rw [Assoc.lookup_eq_none, names]
    decide
  dsimp only [attestedPayload]
  rw [received_get double _ "field_claims" (by decide)]
  simp only [find_insertSome, if_true, show "field_claims" ≠ "measurements" by decide,
    show "field_claims" ≠ "pcr8" by decide, show "field_claims" ≠ "pcr0" by decide,
    show "field_claims" ≠ "profile" by decide, if_false]
  rw [find_jsonMap _ (by rw [names]; decide), absent, Option.or_none]

variable {node} (exact : ∀ n : UInt64, n.toNat < 2 ^ 53 → double (.posInt n) = .finite n.toNat)

include exact

theorem received_ofNat (n : Nat) (small : n < 2 ^ 53) : received double (.ofNat n) = .num (.finite n) := by
  have value : (UInt64.ofNat n).toNat = n := by rw [UInt64.toNat_ofNat', Nat.mod_eq_of_lt (by omega)]
  rw [Value.ofNat, received, exact _ (by omega), value]

theorem portable_ofNat (n : Nat) (small : n < 2 ^ 53) : Portable double rust node (.ofNat n) := by
  have value : (UInt64.ofNat n).toNat = n := by rw [UInt64.toNat_ofNat', Nat.mod_eq_of_lt (by omega)]
  refine .number ?_
  rw [exact _ (by omega), value, Verifier.stringify, numberToString_nat node n small, formatNumber, value]
  rfl

theorem claims_portable (head : ReqHead) (normMethod : Str) (status : UInt16) (protocol : ProtocolFamily)
    (reqView respView : Value) (streaming : Bool) : Portable double rust node (.object (jsonMap
      (claimsFields rust head normMethod status protocol reqView respView streaming))) := by
  have names : (claimsFields rust head normMethod status protocol reqView respView streaming).map Prod.fst =
      claimsNames := rfl
  have bound := status.toNat_lt
  refine portable_jsonMap (by rw [names]; decide) (by rw [names]; exact claimsNames_order) ?_
  simp only [claimsFields, List.forall_mem_cons, List.not_mem_nil, false_imp_iff, implies_true, and_true]
  refine ⟨portable_ofNat exact 1 (by decide), .string _, .string _, .string _, .string _, .string _, .bool _, .bool _,
    .string _, .string _, .string _, .string _, .string _, portable_ofNat exact _ (by omega), .string _, .string _,
    .string _, .string _, .string _, .string _, .bool _⟩

/-- What the verifier reads of a trailer the enclave wrote. -/
theorem readWire_attested (backend : LocalEvidenceBackend) (x : TrailerInput) (normHost normPath : Str)
    (signature : Bytes) (evidence : Evidence) :
    let t := Verifier.readWire (received double (attestedPayload backend x normHost normPath signature evidence))
    t.nonce = JStr.ofChars x.head.nonce ∧ t.upstreamHost = JStr.ofChars normHost ∧
      t.upstreamPath = JStr.ofChars normPath ∧ t.httpMethod = JStr.ofChars x.normMethod ∧
      t.httpStatus = .finite x.status.toNat ∧ t.respContentType = JStr.ofChars x.contentType ∧
      t.requestBodySha256 = JStr.ofChars x.reqBodyHex ∧ t.responseBodySha256 = JStr.ofChars x.respBodyHex ∧
      t.fieldClaims = (x.fieldClaims.map (received double)).getD .undefined := by
  have bound := x.status.toNat_lt
  have text {key : String} {s : Str} (safe : key.toList ≠ protoName) (always : key ∉ optionalNames)
      (found : (attestedFields backend x normHost normPath signature evidence).lookup key = some (.string s)) :
      Verifier.stringOr [] ((received double (attestedPayload backend x normHost normPath signature evidence)).get
        (JStr.lit key)) = JStr.ofChars s := by
    rw [received_attested_get backend x normHost normPath signature evidence safe always found, received]
    rfl
  refine ⟨text (by decide) (by decide) rfl, text (by decide) (by decide) rfl, text (by decide) (by decide) rfl,
    text (by decide) (by decide) rfl, ?_, text (by decide) (by decide) rfl, text (by decide) (by decide) rfl,
    text (by decide) (by decide) rfl, received_claims backend x normHost normPath signature evidence⟩
  have status : (received double (attestedPayload backend x normHost normPath signature evidence)).get
      (JStr.lit "http_status") = received double (.ofNat x.status.toNat) :=
    received_attested_get backend x normHost normPath signature evidence (by decide) (by decide) rfl
  rw [received_ofNat exact _ (by omega)] at status
  rw [Verifier.readWire, status]
  rfl

end Trailer

theorem throwFirst_ok {checks : List (Bool × JStr)} (all : ∀ p ∈ checks, p.1 = true) :
    Verifier.throwFirst checks = .ok () := by
  induction checks with
  | nil => rfl
  | cons p rest ih =>
    obtain ⟨passed, message⟩ := p
    obtain rfl : passed = true := all (passed, message) (by simp)
    exact ih fun q member => all q (List.mem_cons_of_mem _ member)

theorem isStr_of_eq {value : JsVal} {text expected : JStr} (found : value = .str text) (same : text = expected) :
    Verifier.isStr expected value = true := by
  rw [found, Verifier.isStr, same, decide_eq_true rfl]

/-- The claims of an exchange pass the envelope check against its own trailer. -/
theorem claims_envelope {double : Number → JsNumber} {rust : Rust} {node : Node} (hosts : SameHosts rust node)
    (exact : ∀ n : UInt64, n.toNat < 2 ^ 53 → double (.posInt n) = .finite n.toNat) (head : Enclave.ReqHead)
    (host : JStr.isAscii head.upstream.host = true) (method : JStr.isAscii head.upstream.method = true)
    (status : UInt16) (protocol : ProtocolFamily) (reqView respView : Value) (streaming : Bool)
    {t : Verifier.TeeProofWire} (nonceRead : t.nonce = JStr.ofChars head.nonce)
    (hostRead : t.upstreamHost = JStr.ofChars (rust.toLowercase head.upstream.host))
    (pathRead : t.upstreamPath = JStr.ofChars (Enclave.pathNoQuery head.upstream.path))
    (methodRead : t.httpMethod = JStr.ofChars (rust.toUppercase head.upstream.method))
    (statusRead : t.httpStatus = .finite status.toNat) :
    Verifier.validateFieldClaimsEnvelope node protocol (received double (.object (Enclave.jsonMap (claimsFields rust head
      (rust.toUppercase head.upstream.method) status protocol reqView respView streaming)))) t = .ok () := by
  have bound := status.toNat_lt
  have found (key : String) {value : Value} (safe : key.toList ≠ protoName)
      (listed : (claimsFields rust head (rust.toUppercase head.upstream.method) status protocol reqView respView
        streaming).lookup key = some value) :
      (received double (.object (Enclave.jsonMap (claimsFields rust head (rust.toUppercase head.upstream.method) status
        protocol reqView respView streaming)))).get (JStr.lit key) = received double value :=
    received_claims_get safe listed
  have path : Verifier.pathWithoutQuery t.upstreamPath = JStr.ofChars (Enclave.pathNoQuery head.upstream.path) := by
    rw [pathRead, Verifier.pathWithoutQuery, Verifier.before_ofChars]
    exact congrArg JStr.ofChars (pathNoQuery_idem _)
  refine throwFirst_ok ?_
  simp only [Verifier.envelopeChecks, List.forall_mem_cons, List.not_mem_nil, false_imp_iff, implies_true, and_true]
  refine ⟨?_, ?_, ?_, ?_, ?_, ?_, ?_, ?_, ?_, ?_, ?_, ?_, ?_, ?_⟩
  · exact isStr_of_eq (found "request_schema_version" (by decide) rfl) (lit_append _ _)
  · exact isStr_of_eq (found "response_schema_version" (by decide) rfl) (lit_append _ _)
  · refine isStr_of_eq (found "field_policy_id" (by decide) rfl) ?_
    rw [Verifier.fieldPolicyId, Verifier.familyName, ← lit_append, ← lit_append, ← lit_append, ← lit_append]
    rfl
  · exact isStr_of_eq (found "assurance_level" (by decide) rfl) rfl
  · rw [found "cross_protocol" (by decide) rfl]
    rfl
  · rw [found "semantic_equivalence_not_proven" (by decide) rfl]
    rfl
  · exact isStr_of_eq (found "body_hash_policy" (by decide) rfl) rfl
  · exact isStr_of_eq (found "request_body_sha256_severity" (by decide) rfl) rfl
  · exact isStr_of_eq (found "response_body_sha256_severity" (by decide) rfl) rfl
  · exact isStr_of_eq (found "nonce" (by decide) rfl) nonceRead.symm
  · refine isStr_of_eq (found "upstream_host" (by decide) rfl) ?_
    rw [hostRead, (hosts.lower_twice host).2]
  · exact isStr_of_eq (found "upstream_path" (by decide) rfl) path.symm
  · refine isStr_of_eq (found "http_method" (by decide) rfl) ?_
    rw [methodRead, (hosts.upper_twice method).2.1, (hosts.upper_twice method).2.2]
  · rw [found "http_status" (by decide) rfl, received_ofNat exact _ (by omega), statusRead, Verifier.isNum, decide_eq_true rfl]

/-- Every trailer of the local backend rebuilds to the bytes that were signed, and its claims
pass the check against it. `double` is how the verifier's `JSON.parse` reads a number. -/
theorem attestedTrailer_rederives (rust : Rust) (node : Node) (double : Number → JsNumber) (hosts : SameHosts rust node)
    (exact : ∀ n : UInt64, n.toNat < 2 ^ 53 → double (.posInt n) = .finite n.toNat)
    (backend : Enclave.LocalEvidenceBackend) (head : Enclave.ReqHead)
    (host : JStr.isAscii head.upstream.host = true) (method : JStr.isAscii head.upstream.method = true)
    (status : UInt16) (contentType : Str) (reqBody respBody : Bytes) (claims : Option Value)
    (built : ∀ c ∈ claims, ∃ protocol reqView respView streaming, Enclave.buildFieldClaimsFromViews rust head
      (rust.toUppercase head.upstream.method) status protocol reqView respView streaming = some c)
    (statement : Bytes) (payload : Value)
    (written : Enclave.writeAttestedTrailer rust backend (Enclave.trailerInput rust head status contentType
      reqBody respBody claims) = .attested statement payload)
    (reads : node.parseJson (JStr.ofChars (Enclave.toJsonString rust payload)) = .ok (received double payload)) :
    ∃ proof, node.parseJson (JStr.ofChars (Enclave.toJsonString rust payload)) = .ok proof ∧
      Verifier.buildV2Statement node (Verifier.readWire proof).statementFields = statement ∧
      ∀ c ∈ claims, ∃ protocol, Verifier.protocolFamilyFromValue
          ((Verifier.readWire proof).fieldClaims.get "protocol_family") = some protocol ∧
        Verifier.validateFieldClaimsEnvelope node protocol (Verifier.readWire proof).fieldClaims
          (Verifier.readWire proof) = .ok () := by
  obtain ⟨x, given⟩ : ∃ x, x = Enclave.trailerInput rust head status contentType reqBody respBody claims := ⟨_, rfl⟩
  rw [← given] at written
  obtain ⟨evidence, signed, shown⟩ := Enclave.writeAttestedTrailer_attested rust written
  have read := readWire_attested exact backend x (rust.toLowercase x.head.upstream.host)
    (Enclave.pathNoQuery x.head.upstream.path) (backend.sign statement) evidence
  rw [← shown] at read
  refine ⟨_, reads, ?_⟩
  rw [signed]
  revert read
  generalize Verifier.readWire (received double payload) = t
  subst given
  dsimp only [Enclave.trailerInput, Enclave.signedFields]
  rintro ⟨nonceRead, hostRead, pathRead, methodRead, statusRead, contentRead, requestRead, responseRead, claimsRead⟩
  have fields {c : Value} (member : c ∈ claims) : ∃ protocol reqView respView streaming,
      c = .object (Enclave.jsonMap (claimsFields rust head (rust.toUppercase head.upstream.method) status protocol
        reqView respView streaming)) ∧ t.fieldClaims = received double c := by
    obtain ⟨protocol, reqView, respView, streaming, eq⟩ := built c member
    refine ⟨protocol, reqView, respView, streaming, buildFieldClaimsFromViews_fields rust eq, ?_⟩
    rw [claimsRead, Option.mem_def.mp member]
    rfl
  constructor
  · refine statement_of_sameFields rust node
      { nonce := by rw [nonceRead, JStr.utf8_ofChars]
        host := ?_
        path := ?_
        method := ?_
        status := statusRead
        contentType := by rw [contentRead, JStr.utf8_ofChars]
        request := by rw [requestRead, JStr.utf8_ofChars]
        response := by rw [responseRead, JStr.utf8_ofChars]
        present := ?_
        claims := ?_ }
    · rw [hostRead, (hosts.lower_twice host).2, JStr.utf8_ofChars, (hosts.lower_twice host).1]
    · rw [pathRead, Verifier.pathWithoutQuery, Verifier.before_ofChars, JStr.utf8_ofChars]
      rfl
    · rw [methodRead, (hosts.upper_twice method).2.1, JStr.utf8_ofChars, (hosts.upper_twice method).1]
    · rw [claimsRead]
      cases claims with
      | none => rfl
      | some c =>
        have defined := received_defined double c
        simp only [Option.map_some, Option.getD_some, Option.isNone_some]
        cases eq : received double c <;> first | rfl | exact absurd eq defined
    · intro c member
      obtain ⟨protocol, reqView, respView, streaming, rfl, eq⟩ := fields member
      rw [eq, hosts.claims_hash (claims_portable exact _ _ _ _ _ _ _), JStr.utf8_ofChars]
  · intro c member
    obtain ⟨protocol, reqView, respView, streaming, rfl, eq⟩ := fields member
    refine ⟨protocol, ?_, ?_⟩
    · have family : (received double (.object (Enclave.jsonMap (claimsFields rust head
          (rust.toUppercase head.upstream.method) status protocol reqView respView streaming)))).get
          (JStr.lit "protocol_family") = received double (.lit protocol.name) :=
        received_claims_get (by decide) rfl
      rw [eq, family]
      cases protocol <;> rfl
    · rw [eq]
      exact claims_envelope hosts exact head host method status protocol reqView respView streaming nonceRead hostRead
        pathRead methodRead statusRead

/-! One exchange with claims. -/

theorem asciiCase_ofChars {low target : Nat} {f : Char → Char}
    (same : ∀ c : Char, c.toNat < 0x80 → JStr.asciiCase low target (JStr.ofChar c) = JStr.ofChar (f c)) {s : Str}
    (ascii : JStr.isAscii s = true) : JStr.asciiCase low target (JStr.ofChars s) = JStr.ofChars (s.map f) := by
  induction s with
  | nil => rfl
  | cons c rest ih =>
    simp only [JStr.isAscii, List.all_cons, Bool.and_eq_true, decide_eq_true_eq] at ascii ih
    have tail := ih ascii.2
    simp only [JStr.asciiCase, JStr.ofChars, List.flatMap_cons, List.map_append, List.map_cons] at tail ⊢
    rw [tail]
    congr 1
    exact same c ascii.1

theorem sample_sameHosts (texts : List (JStr × JsVal)) : SameHosts (Rust.sample [] []) (Node.sample [] texts [] [] 0) where
  sha256 _ := rfl
  rustLower _ _ := rfl
  rustUpper _ _ := rfl
  nodeLower _ ascii := by
    refine asciiCase_ofChars (fun c small => ?_) ascii
    exact ascii_induction (P := fun c => JStr.asciiCase 65 97 (JStr.ofChar c) = JStr.ofChar c.toLower) (by decide) c small
  nodeUpper _ ascii := by
    refine asciiCase_ofChars (fun c small => ?_) ascii
    exact ascii_induction (P := fun c => JStr.asciiCase 97 65 (JStr.ofChar c) = JStr.ofChar c.toUpper) (by decide) c small

/-- Integers as they are; the trailer holds no other number. -/
def wholeDouble : Number → JsNumber
  | .posInt n => .finite n.toNat
  | _ => 0

def localBackend : Enclave.LocalEvidenceBackend where
  spki := [1]
  sign _ := [2]
  attest _ _ := .ok ⟨"nitro", [3], none, none, []⟩

def postHead : Enclave.ReqHead where
  nonce := "AAAA"
  upstream := ⟨"API.Example", "post", "/v1/chat?a=b", [], none⟩
  token := none
  clientProtocolFamily := none
  downstreamProtocolFamily := none
  protocolFamily := none

def chatRequest : Value := .ofFields [("model", .lit "m"), ("messages", .array [.null])]
def chatResponse : Value := .ofFields [("choices", .array [.null])]

def chatClaims : Value :=
  .object (Enclave.jsonMap (claimsFields (Rust.sample [] []) postHead
    ((Rust.sample [] []).toUppercase postHead.upstream.method) 200 .openaiChat chatRequest chatResponse false))

def postInput : Enclave.TrailerInput :=
  Enclave.trailerInput (Rust.sample [] []) postHead 200 "text/plain" [] [] (some chatClaims)

def postPayload : Value :=
  Enclave.attestedPayload localBackend postInput ((Rust.sample [] []).toLowercase postInput.head.upstream.host)
    (Enclave.pathNoQuery postInput.head.upstream.path) [2] ⟨"nitro", [3], none, none, []⟩

def postText : JStr := JStr.ofChars (Enclave.toJsonString (Rust.sample [] []) postPayload)

def postNode : Node := Node.sample [] [(postText, received wholeDouble postPayload)] [] [] 0

theorem postText_reads : postNode.parseJson (JStr.ofChars (Enclave.toJsonString (Rust.sample [] []) postPayload)) =
    .ok (received wholeDouble postPayload) := by
  rw [← postText, postNode, Node.sample]
  simp [List.lookup]

theorem postInput_written : ∃ statement,
    Enclave.writeAttestedTrailer (Rust.sample [] []) localBackend postInput = .attested statement postPayload := by
  have clean : Enclave.noCrlf postInput.contentType = true := by decide
  rw [Enclave.writeAttestedTrailer, clean]
  exact ⟨_, rfl⟩

theorem attestedTrailer_rederives_sample :
    ∃ statement proof, Enclave.writeAttestedTrailer (Rust.sample [] []) localBackend postInput =
        .attested statement postPayload ∧
      postNode.parseJson (JStr.ofChars (Enclave.toJsonString (Rust.sample [] []) postPayload)) = .ok proof ∧
      Verifier.buildV2Statement postNode (Verifier.readWire proof).statementFields = statement := by
  have claimed : Enclave.buildFieldClaimsFromViews (Rust.sample [] []) postHead
      ((Rust.sample [] []).toUppercase postHead.upstream.method) 200 .openaiChat chatRequest
      chatResponse false = some chatClaims := buildFieldClaimsFromViews_present _ (by decide) (by decide)
  obtain ⟨statement, written⟩ := postInput_written
  obtain ⟨proof, parsed, same, _⟩ := attestedTrailer_rederives (Rust.sample [] []) postNode wholeDouble
    (sample_sameHosts _) (fun _ _ => rfl) localBackend postHead (by decide) (by decide) 200 "text/plain" [] []
    (some chatClaims) (fun c member => ⟨_, _, _, _, Option.some.inj member ▸ claimed⟩) statement postPayload written
    postText_reads
  exact ⟨statement, proof, written, parsed, same⟩

end TeeProof
