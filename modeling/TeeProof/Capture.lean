import TeeProof.Wire
import TeeProof.Search

/-! The proof event at the end of a captured stream, as the verifier cuts it off. -/
namespace TeeProof.Verifier

variable (node : Node)

structure ParsedTeeProofStream where
  body : Bytes
  proof : Option JsVal := none
  bodyContentType : Option JStr := none
  ignoredLeadingBlankBytes : Option Nat := none
  ignoredTransportKeepaliveBytes : Option Nat := none
  ignoredTransportKeepaliveCount : Option Nat := none

def eventMarker : Bytes := JStr.utf8 "event: tee.proof"
def lfMarker : Bytes := eventMarker ++ [0x0A]
def crlfMarker : Bytes := eventMarker ++ [0x0D, 0x0A]

/-- `Math.max` of the last places of the two markers. -/
def markerIndex (bytes : Bytes) : Option Nat :=
  match Search.lastIndexOf lfMarker bytes, Search.lastIndexOf crlfMarker bytes with
  | some i, some j => some (max i j)
  | some i, none => some i
  | none, some j => some j
  | none, none => none

/-- WOKEY_SSE_TRANSPORT_KEEPALIVE_V1. -/
def keepalive : Bytes := JStr.utf8 ": wokey-transport-keepalive-v1\n\n"

def expectedHash (proof : JsVal) : JStr :=
  match proof.get "response_body_sha256" with
  | .str s => node.toLowerCase s
  | _ => []

/-- The loop over leading comments, with what is left of the body; `fuel` bounds the
number of comments. -/
def keepaliveLoop (expected : JStr) : Nat → Bytes → Nat → Option (Bytes × Nat)
  | 0, _, _ => none
  | fuel + 1, rest, count =>
    if keepalive.isPrefixOf rest then
      let candidate := rest.drop keepalive.length
      if sha256Hex node candidate = expected then some (candidate, count + 1)
      else keepaliveLoop expected fuel candidate (count + 1)
    else none

def removeLeadingTransportKeepalivesIfSignedHashMatches (body : Bytes) (proof : JsVal) : ParsedTeeProofStream :=
  let expected := expectedHash node proof
  if !expected.isHex64 then { body, proof := some proof }
  else if sha256Hex node body = expected then { body, proof := some proof }
  else match keepaliveLoop node expected (body.length + 1) body 0 with
  | some (candidate, count) =>
    { body := candidate
      proof := some proof
      ignoredTransportKeepaliveBytes := some (count * keepalive.length)
      ignoredTransportKeepaliveCount := some count }
  | none => { body, proof := some proof }

def stripLit (text : String) (s : JStr) : Option JStr :=
  if (JStr.lit text).isPrefixOf s then some (s.drop (JStr.lit text).length) else none

def skipCr : JStr → JStr
  | 0x0D :: rest => rest
  | s => s

def isBreak (u : UInt16) : Bool := u = 0x0A || u = 0x0D
def isBlank (u : UInt16) : Bool := u = 0x09 || u = 0x0A || u = 0x0D || u = 0x20

/-- `/^event: tee\.proof\r?\ndata: ([^\r\n]+)\r?\n\r?\n[\t\n\r ]*$/`. A sign that is
no line break never has to be given back: what follows the data is a line break. -/
def matchEvent (s : JStr) : Option JStr := do
  let s ← stripLit "event: tee.proof" s
  let s ← stripLit "\n" (skipCr s)
  let s ← stripLit "data: " s
  let data := s.takeWhile fun u => !isBreak u
  if data = [] then none
  else do
    let s ← stripLit "\n" (skipCr (s.dropWhile fun u => !isBreak u))
    let s ← stripLit "\n" (skipCr s)
    if s.all isBlank then some data else none

def parseTeeProofEvent (bytes : Bytes) : ParsedTeeProofStream :=
  match markerIndex bytes with
  | none => { body := bytes }
  | some index =>
    match matchEvent (bufferText (bytes.drop index)) with
    | none => { body := bytes }
    | some data =>
      match node.parseJson data with
      | .error _ => { body := bytes }
      | .ok proof => removeLeadingTransportKeepalivesIfSignedHashMatches node (bytes.take index) proof

/-! A capture that ends in one proof event. -/

/-- A compact JSON text of an object: one line, from brace to brace, and no lone
surrogate in it, as both serialisers write it. -/
structure JsonLine (value : JsVal) (json : JStr) : Prop where
  parses : node.parseJson json = .ok value
  wellFormed : json.WellFormed
  oneLine : ∀ u ∈ json, isBreak u = false
  braces : ∃ inner, json = 0x7B :: inner ++ [0x7D]

def proofEvent (json : JStr) : JStr := JStr.lit "event: tee.proof\ndata: " ++ json ++ JStr.lit "\n\n"

theorem stripLit_append (text : String) (s : JStr) : stripLit text (JStr.lit text ++ s) = some s := by
  have here : (JStr.lit text).isPrefixOf (JStr.lit text ++ s) = true :=
    List.isPrefixOf_iff_prefix.mpr (List.prefix_append _ _)
  rw [stripLit, if_pos here, List.drop_left]

theorem takeWhile_line (json rest : JStr) (oneLine : ∀ u ∈ json, isBreak u = false) :
    (json ++ 0x0A :: rest).takeWhile (fun u => !isBreak u) = json ∧
      (json ++ 0x0A :: rest).dropWhile (fun u => !isBreak u) = 0x0A :: rest := by
  have inside : ∀ u ∈ json, (!isBreak u) = true := fun u member => by rw [oneLine u member]; rfl
  rw [List.takeWhile_append_of_pos inside, List.dropWhile_append_of_pos inside]
  simp [List.takeWhile, List.dropWhile, isBreak]

theorem matchEvent_proofEvent (json : JStr) (oneLine : ∀ u ∈ json, isBreak u = false) (nonempty : json ≠ []) :
    matchEvent (proofEvent json) = some json := by
  have layout : proofEvent json = JStr.lit "event: tee.proof" ++ (JStr.lit "\n" ++ (JStr.lit "data: " ++
      (json ++ 0x0A :: [0x0A]))) := by
    have parts : JStr.lit "event: tee.proof\ndata: " = JStr.lit "event: tee.proof" ++ JStr.lit "\n" ++ JStr.lit "data: " :=
      rfl
    rw [proofEvent, parts]
    simp only [List.append_assoc]
    rfl
  have first : skipCr (JStr.lit "\n" ++ (JStr.lit "data: " ++ (json ++ 0x0A :: [0x0A]))) =
      JStr.lit "\n" ++ (JStr.lit "data: " ++ (json ++ 0x0A :: [0x0A])) := rfl
  have blank : stripLit "\n" (skipCr (0x0A :: [0x0A])) = some [0x0A] := by decide
  have ended : stripLit "\n" (skipCr [0x0A]) = some [] := by decide
  obtain ⟨data, rest⟩ := takeWhile_line json [0x0A] oneLine
  unfold matchEvent
  rw [layout, stripLit_append]
  simp only [Option.bind_eq_bind, Option.bind_some, first, stripLit_append, data, rest, blank, ended, nonempty,
    if_false, List.all_nil, if_true]

theorem JsonLine.nonempty {value : JsVal} {json : JStr} (line : JsonLine node value json) : json ≠ [] := by
  obtain ⟨inner, rfl⟩ := line.braces
  simp

theorem JsonLine.noNewline {value : JsVal} {json : JStr} (line : JsonLine node value json) : (10 : UInt8) ∉ json.utf8 := by
  rw [JStr.mem_utf8_newline]
  intro member
  exact absurd (line.oneLine _ member) (by decide)

theorem JsonLine.last {value : JsVal} {json : JStr} (line : JsonLine node value json) :
    ∃ front, json.utf8 = front ++ [0x7D] := by
  obtain ⟨inner, rfl⟩ := line.braces
  refine ⟨JStr.utf8 (0x7B :: inner), ?_⟩
  rw [JStr.utf8_append _ _ (by simp [JStr.isLow])]
  rfl

/-- The octets of the event, line by line. -/
theorem utf8_proofEvent (json : JStr) (text : json.WellFormed) :
    (proofEvent json).utf8 = eventMarker ++ 10 :: (JStr.utf8 "data: " ++ json.utf8 ++ 10 :: [10]) := by
  obtain ⟨chars, rfl⟩ := text
  have joined : proofEvent (JStr.ofChars chars) =
      JStr.ofChars ("event: tee.proof\ndata: ".toList ++ chars ++ "\n\n".toList) := by
    simp only [proofEvent, JStr.lit, JStr.ofChars, List.flatMap_append]
  rw [joined, JStr.utf8_ofChars, JStr.utf8_ofChars, Utf8.encode_append, Utf8.encode_append]
  have front : Utf8.encode "event: tee.proof\ndata: ".toList = eventMarker ++ 10 :: JStr.utf8 "data: " := by decide
  have back : Utf8.encode "\n\n".toList = [10, 10] := by decide
  rw [front, back]
  simp only [List.append_assoc, List.cons_append]

theorem ended_proofEvent (first data : Bytes) (clean : 10 ∉ first) (line : (10 : UInt8) ∉ data) :
    Lines.ended 10 (first ++ 10 :: (data ++ 10 :: [10])) = [first, data, []] := by
  rw [Lines.ended_line _ _ _ clean, Lines.ended_line _ _ _ line]
  rfl

section Marker

variable {node} {value : JsVal} {json : JStr} (line : JsonLine node value json)

include line

theorem data_free : (10 : UInt8) ∉ JStr.utf8 "data: " ++ json.utf8 := by
  have label : (10 : UInt8) ∉ JStr.utf8 "data: " := by decide
  simpa [label] using line.noNewline

/-- No other line of the event closes as its first one. -/
theorem data_other (needle : Bytes) (last : needle.getLast? ≠ some 0x7D) (given : needle ≠ []) :
    ¬needle <:+ JStr.utf8 "data: " ++ json.utf8 := by
  rintro ⟨front, eq⟩
  obtain ⟨inner, ends⟩ := line.last
  have both := congrArg List.getLast? eq
  rw [ends, ← List.append_assoc, List.getLast?_append, List.getLast?_append] at both
  cases needle with
  | nil => exact given rfl
  | cons b rest =>
    rw [List.getLast?_cons] at both last
    exact last (by simpa using both)

theorem lastIndexOf_lf : Search.lastIndexOf lfMarker (proofEvent json).utf8 = some 0 := by
  have rest : Search.lastIndexOf lfMarker (eventMarker.tail ++ 10 :: (JStr.utf8 "data: " ++ json.utf8 ++ 10 :: [10])) =
      none := by
    refine Search.lastIndexOf_eq_none 10 eventMarker (by decide) _ ?_
    rw [ended_proofEvent _ _ (by decide) (data_free line)]
    intro l member
    simp only [List.mem_cons, List.not_mem_nil, or_false] at member
    rcases member with rfl | rfl | rfl
    · intro ends
      exact absurd ends.length_le (by decide)
    · exact data_other line eventMarker (by decide) (by decide)
    · intro ends
      exact absurd ends.length_le (by decide)
  have here : lfMarker.isPrefixOf (proofEvent json).utf8 = true := by
    rw [utf8_proofEvent json line.wellFormed, List.isPrefixOf_iff_prefix]
    exact ⟨JStr.utf8 "data: " ++ json.utf8 ++ 10 :: [10], by simp [lfMarker]⟩
  have cut : eventMarker = 0x65 :: eventMarker.tail := by decide
  rw [utf8_proofEvent json line.wellFormed, cut, List.cons_append] at here ⊢
  rw [Search.lastIndexOf, rest]
  dsimp only
  rw [if_pos here]

theorem lastIndexOf_crlf : Search.lastIndexOf crlfMarker (proofEvent json).utf8 = none := by
  have split : crlfMarker = eventMarker ++ [0x0D] ++ [10] := by decide
  rw [split, utf8_proofEvent json line.wellFormed]
  refine Search.lastIndexOf_eq_none 10 _ (by decide) _ ?_
  rw [ended_proofEvent _ _ (by decide) (data_free line)]
  intro l member
  simp only [List.mem_cons, List.not_mem_nil, or_false] at member
  rcases member with rfl | rfl | rfl
  · intro ends
    exact absurd ends.length_le (by decide)
  · exact data_other line _ (by decide) (by decide)
  · intro ends
    exact absurd ends.length_le (by decide)

/-- The event at the end is the one that is found. -/
theorem markerIndex_capture (body : Bytes) : markerIndex (body ++ (proofEvent json).utf8) = some body.length := by
  have lf := Search.lastIndexOf_append (lastIndexOf_lf line) body
  rw [markerIndex, lf]
  cases other : Search.lastIndexOf crlfMarker (body ++ (proofEvent json).utf8) with
  | none => simp
  | some j =>
    have below := Search.lastIndexOf_lt (lastIndexOf_crlf line) other
    simp only [Nat.add_zero, Option.some.injEq]
    omega

theorem proofEvent_wellFormed : (proofEvent json).WellFormed := by
  obtain ⟨chars, eq⟩ := line.wellFormed
  refine ⟨"event: tee.proof\ndata: ".toList ++ chars ++ "\n\n".toList, ?_⟩
  rw [eq]
  simp only [proofEvent, JStr.lit, JStr.ofChars, List.flatMap_append]

/-- The verifier reads the proof, and looks for the body before the event. -/
theorem parseTeeProofEvent_capture (body : Bytes) :
    parseTeeProofEvent node (body ++ (proofEvent json).utf8) =
      removeLeadingTransportKeepalivesIfSignedHashMatches node body value := by
  unfold parseTeeProofEvent
  rw [markerIndex_capture line body]
  dsimp only
  rw [List.drop_left, List.take_left, bufferText_utf8 _ (proofEvent_wellFormed line),
    matchEvent_proofEvent json line.oneLine line.nonempty]
  dsimp only
  rw [line.parses]

end Marker

/-- The body that the proof signs is left alone. -/
theorem removeLeading_signed (lower : ∀ s, s.all JStr.isHexUnit = true → node.toLowerCase s = s) (body : Bytes)
    (proof : JsVal) (signed : proof.get "response_body_sha256" = .str (sha256Hex node body)) :
    removeLeadingTransportKeepalivesIfSignedHashMatches node body proof = { body, proof := some proof } := by
  have expected : expectedHash node proof = sha256Hex node body := by
    rw [expectedHash, signed]
    exact lower _ (JStr.hex_all _)
  unfold removeLeadingTransportKeepalivesIfSignedHashMatches
  rw [expected]
  dsimp only
  split
  · rfl
  · rw [if_pos rfl]

/-! A capture to look at. -/

/-- A proof of a body, in the fields that the two readers look at. -/
def captureProof (hash : String) : JsVal := .ofObject
  [("public_key", .lit "k"), ("nonce", .lit "n"), ("signature", .lit "s"), ("attestation", .lit "a"),
    ("upstream_host", .lit "h"), ("request_body_sha256", .lit hash), ("response_body_sha256", .lit hash)]

/-- The text of that proof, between its braces. -/
def captureText (hash : String) : List Char :=
  "\"public_key\":\"k\",\"nonce\":\"n\",\"signature\":\"s\",\"attestation\":\"a\",\"upstream_host\":\"h\",".toList ++
    "\"request_body_sha256\":\"".toList ++ hash.toList ++ "\",\"response_body_sha256\":\"".toList ++ hash.toList ++ ['"']

def captureJson (hash : String) : JStr := JStr.ofChars ('{' :: captureText hash ++ ['}'])

def plainHash : String := "44136fa355b3678a1146ad16f7e8649e94fb4fc21fe77e8310c060f61caaff8a"

def plainBody : Bytes := [0x7B, 0x7D]
def plainDigests : List (Bytes × Digest) := [(plainBody, emptyObjectDigest)]

/-- A host that knows these digests and reads this one proof. -/
def captureNode (digests : List (Bytes × Digest)) (hash : String) : Node :=
  Node.sample digests [(captureJson hash, captureProof hash)] [] [] 0

theorem captureNode_lower (digests : List (Bytes × Digest)) (hash : String) (s : JStr) (hex : s.all JStr.isHexUnit = true) : (captureNode digests hash).toLowerCase s = s := by
  have unit (u : UInt16) (member : u ∈ s) :
      (if 65 ≤ u.toNat ∧ u.toNat ≤ 65 + 25 then UInt16.ofNat (u.toNat - 65 + 97) else u) = u := by
    have digit := List.all_eq_true.mp hex u member
    simp only [JStr.isHexUnit, Bool.or_eq_true, Bool.and_eq_true, decide_eq_true_eq] at digit
    rw [if_neg (by omega)]
  exact (List.map_congr_left unit).trans (List.map_id' s)

theorem captureJson_line (digests : List (Bytes × Digest)) (hash : String) (oneLine : (captureJson hash).all (fun u => !isBreak u) = true) :
    JsonLine (captureNode digests hash) (captureProof hash) (captureJson hash) where
  parses := by simp only [captureNode, Node.sample, List.lookup_cons_self]
  wellFormed := ⟨_, rfl⟩
  oneLine u member := by simpa using List.all_eq_true.mp oneLine u member
  braces := ⟨JStr.ofChars (captureText hash), by
    rw [captureJson, JStr.ofChars, List.cons_append, List.flatMap_cons, List.flatMap_append]
    rfl⟩

theorem plainCapture_line : JsonLine (captureNode plainDigests plainHash) (captureProof plainHash) (captureJson plainHash) :=
  captureJson_line plainDigests plainHash (by decide +kernel)

theorem plain_signed :
    (captureProof plainHash).get "response_body_sha256" = .str (sha256Hex (captureNode plainDigests plainHash) plainBody) := by
  have hash : JStr.lit plainHash = sha256Hex (captureNode plainDigests plainHash) plainBody := by decide
  exact congrArg JsVal.str hash

end TeeProof.Verifier
