import TeeProof.Capture
import TeeProof.Statement
import TeeProof.Soundness

/-! The verifier of the documentation page, an independent copy of two functions of
the TypeScript one: the statement it rebuilds and the body it cuts from a capture. -/
namespace TeeProof.Browser

open Verifier

variable (node : Node)

/-! The statement. -/

/-- `x || ''`. -/
def orEmpty (value : JsVal) : JsVal := if isTruthy value then value else .str []

/-- A list has `indexOf` and `slice` too. -/
def pathNoQuery (p : JsVal) : Throws JsVal :=
  match orEmpty p with
  | .str s => .ok (.str (JStr.before questionMark s))
  | .arr items => .ok (.arr (items.takeWhile fun item => !Verifier.isText "?" item))
  | _ => .error "s.indexOf is not a function"

def buildV2Statement (t : JsVal) : Throws Bytes := do
  let nonce ← toText node (t.get "nonce")
  let host ← toText node (orEmpty (t.get "upstream_host"))
  let path ← pathNoQuery (t.get "upstream_path")
  let path ← toText node path
  let method ← toText node (orEmpty (t.get "http_method"))
  let status ← toText node (t.get "http_status")
  let contentType ← toText node (orEmpty (t.get "resp_content_type"))
  let request ← toText node (t.get "request_body_sha256")
  let response ← toText node (t.get "response_body_sha256")
  let lines : List JStr :=
    [JStr.lit "tee-exchange-v2",
      JStr.lit "nonce=" ++ nonce,
      JStr.lit "upstream-host=" ++ node.toLowerCase host,
      JStr.lit "upstream-path=" ++ path,
      JStr.lit "http-method=" ++ node.toUpperCase method,
      JStr.lit "http-status=" ++ status,
      JStr.lit "resp-content-type=" ++ contentType,
      JStr.lit "request-body-sha256=" ++ request,
      JStr.lit "response-body-sha256=" ++ response]
  .ok (JStr.utf8 (lines.flatMap fun line => line ++ [0x0A]))

theorem toText_str (s : JStr) : toText node (.str s) = .ok s := rfl

theorem orEmpty_str (s : JStr) : orEmpty (.str s) = .str s := by
  cases s <;> rfl

theorem pathNoQuery_str (s : JStr) : pathNoQuery (.str s) = .ok (.str (pathWithoutQuery s)) := by
  rw [pathNoQuery, orEmpty_str, pathWithoutQuery]

theorem toText_status (value : JsVal) (valid : isHttpStatus value = true) :
    toText node value = .ok (numberToString node (numberOr 0 value)) := by
  cases value with
  | num n => rfl
  | _ => cases valid

/-- The nine lines without claims. -/
theorem buildV2Statement_accepted (proof : JsVal) (accepted : Accepted proof) :
    buildV2Statement node proof = .ok (Verifier.buildV2Statement node
      { (readWire proof).statementFields with fieldClaims := .undefined }) := by
  have string (name : String) (listed : name ∈ requiredProofStringFields) :
      proof.get name = .str (stringOr [] (proof.get name)) := by
    obtain ⟨s, eq, -⟩ := accepted.strings name listed
    rw [eq]
    rfl
  unfold buildV2Statement
  rw [string "nonce" (by decide), string "upstream_host" (by decide), string "upstream_path" (by decide),
    string "http_method" (by decide), string "resp_content_type" (by decide),
    string "request_body_sha256" (by decide), string "response_body_sha256" (by decide),
    toText_status node _ accepted.status]
  simp only [orEmpty_str, pathNoQuery_str, toText_str]
  rfl

/-- A line of claims makes the statement longer. -/
theorem statement_claims (f : V2StatementFields) :
    Verifier.buildV2Statement node { f with fieldClaims := .undefined } = Verifier.buildV2Statement node f ↔
      isUndefined f.fieldClaims = true := by
  have lines : statementLines node f = statementLines node { f with fieldClaims := .undefined } ++
      (if isUndefined f.fieldClaims then []
        else [JStr.lit "field-claims-sha256=" ++ fieldClaimsSha256Hex node f.fieldClaims]) := rfl
  rw [buildV2Statement_layout, buildV2Statement_layout, lines, List.map_append, Lines.layout, Lines.layout,
    List.flatMap_append, List.self_eq_append_right]
  cases isUndefined f.fieldClaims <;> simp

/-- The page rebuilds the statement of an accepted proof exactly when it carries no
claims: the line of their hash is missing on the page. -/
theorem buildV2Statement_same_iff (proof : JsVal) (check : TeeCheck)
    (run : verifyWireEnvelope node proof = .ok check) (ok : check.ok = true) :
    buildV2Statement node proof = .ok (Verifier.buildV2Statement node (readWire proof).statementFields) ↔
      isUndefined (proof.get "field_claims") = true := by
  have accepted := verifyWireEnvelope_accepted node proof check run ok
  rw [buildV2Statement_accepted node proof accepted, Except.ok.injEq]
  exact statement_claims node (readWire proof).statementFields

/-- A proof with claims that the envelope check accepts. -/
def claimsProof : JsVal :=
  (samplePlainProof "api.example" "/v1" "POST").set "field_claims" .empty

theorem envelope_accepts (proof : JsVal) (run : (verifyWireEnvelope node proof).map TeeCheck.ok = .ok true) :
    ∃ check, verifyWireEnvelope node proof = .ok check ∧ check.ok = true := Throws.map_ok run

theorem buildV2Statement_same_plain :
    ∃ check, verifyWireEnvelope nitroNode (samplePlainProof "api.example" "/v1" "POST") = .ok check ∧ check.ok = true ∧
      buildV2Statement nitroNode (samplePlainProof "api.example" "/v1" "POST") =
        .ok (Verifier.buildV2Statement nitroNode
          (readWire (samplePlainProof "api.example" "/v1" "POST")).statementFields) := by
  obtain ⟨check, run, ok⟩ := envelope_accepts nitroNode (samplePlainProof "api.example" "/v1" "POST") (by decide +kernel)
  exact ⟨check, run, ok, (buildV2Statement_same_iff nitroNode _ check run ok).mpr (by decide)⟩

/-- Ten lines on one side, nine on the page. -/
theorem statement_differs :
    (∃ check, verifyWireEnvelope nitroNode claimsProof = .ok check ∧ check.ok = true) ∧
      buildV2Statement nitroNode claimsProof ≠
        .ok (Verifier.buildV2Statement nitroNode (readWire claimsProof).statementFields) :=
  ⟨envelope_accepts nitroNode claimsProof (by decide +kernel), by decide +kernel⟩

/-! The capture. -/

def isProofWire (o : JsVal) : Bool :=
  o.isObject && isTruthy (o.get "public_key") && isTruthy (o.get "nonce") && isTruthy (o.get "signature") &&
    isTruthy (o.get "attestation") && !isUndefined (o.get "upstream_host") &&
    !isUndefined (o.get "request_body_sha256") && !isUndefined (o.get "response_body_sha256")

/-- The first position after a line break where `part` stands. -/
def afterBreak (part : Bytes) : Bytes → Option Nat
  | [] => none
  | b :: rest => if b = 10 ∧ part.isPrefixOf rest then some 1 else (afterBreak part rest).map (· + 1)

def findFirstLinePrefix (bytes part : Bytes) : Option Nat :=
  if part.isPrefixOf bytes then some 0 else afterBreak part bytes

def dataLabel : Bytes := JStr.utf8 "data:"
def eventLabel : Bytes := JStr.utf8 "event: "

def isSpaceByte (b : UInt8) : Bool := b = 32 || b = 9
def isAsciiWhitespaceByte (b : UInt8) : Bool := b = 9 || b = 10 || b = 13 || b = 32

def trimSseDataPrefix (line label : Bytes) : Bytes := (line.drop label.length).dropWhile isSpaceByte

/-- `td.decode`: a byte-order mark at the start is dropped. -/
def textDecode (bytes : Bytes) : JStr :=
  bufferText (if [0xEF, 0xBB, 0xBF].isPrefixOf bytes then bytes.drop 3 else bytes)

/-- The lines of the event up to the blank one that ends it, and those after it. -/
def dataLoop : List Bytes → List JStr → List JStr × List Bytes
  | [], dataLines => (dataLines, [])
  | line :: rest, dataLines =>
    let line := Lines.stripMark 13 line
    if dataLabel.isPrefixOf line then dataLoop rest (dataLines ++ [textDecode (trimSseDataPrefix line dataLabel)])
    else if line = [] ∧ dataLines ≠ [] then (dataLines, rest)
    else dataLoop rest dataLines

/-- The message is this text or its English form, by the language of the page. -/
def parseProofEventBytes (bytes : Bytes) : Throws (Option (Bytes × JsVal)) :=
  match markerIndex bytes with
  | none => .ok none
  | some index =>
    let before := bytes.take index
    let event := dataLoop ((bytes.drop index).splitOn 10) []
    if event.1 = [] then .ok none
    else if !event.2.all fun line => line.all isAsciiWhitespaceByte then .ok none
    else do
      let proof ← node.parseJson (joinWith "\n" event.1)
      if !isProofWire proof then .error "tee.proof data 字段不是有效证明材料"
      else .ok (some (before.drop ((findFirstLinePrefix before eventLabel).getD 0), proof))

theorem dataLoop_event {value : JsVal} {json : JStr} (line : JsonLine node value json) :
    dataLoop ((proofEvent json).utf8.splitOn 10) [] = ([json], [[]]) := by
  have split : (proofEvent json).utf8.splitOn 10 = [eventMarker, JStr.utf8 "data: " ++ json.utf8, [], []] := by
    rw [utf8_proofEvent json line.wellFormed, List.splitOn_append_cons_self_of_not_mem (by decide),
      List.splitOn_append_cons_self_of_not_mem (data_free line)]
    rfl
  have head : json.utf8.head? = some 0x7B := by
    obtain ⟨inner, rfl⟩ := line.braces
    rw [List.cons_append, JStr.utf8, JStr.toChars_cons _ _ (by decide)]
    rfl
  have kept : Lines.stripMark 13 (JStr.utf8 "data: " ++ json.utf8) = JStr.utf8 "data: " ++ json.utf8 := by
    obtain ⟨front, ends⟩ := line.last
    rw [Lines.stripMark, ends, ← List.append_assoc, List.getLast?_append]
    rfl
  have labelled : dataLabel.isPrefixOf (JStr.utf8 "data: " ++ json.utf8) = true :=
    List.isPrefixOf_iff_prefix.mpr ⟨[32] ++ json.utf8, rfl⟩
  have trimmed : trimSseDataPrefix (JStr.utf8 "data: " ++ json.utf8) dataLabel = json.utf8 := by
    have spaced : (JStr.utf8 "data: " ++ json.utf8).drop dataLabel.length = 32 :: json.utf8 := rfl
    rw [trimSseDataPrefix, spaced]
    cases bytes : json.utf8 with
    | nil => rfl
    | cons b rest =>
      obtain rfl : b = 0x7B := by
        rw [bytes] at head
        exact Option.some.inj head
      rfl
  have text : textDecode json.utf8 = json := by
    have unmarked : ([0xEF, 0xBB, 0xBF] : Bytes).isPrefixOf json.utf8 = false := by
      cases bytes : json.utf8 with
      | nil => rfl
      | cons b rest =>
        obtain rfl : b = 0x7B := by
          rw [bytes] at head
          exact Option.some.inj head
        rfl
    rw [textDecode, unmarked]
    exact bufferText_utf8 json line.wellFormed
  have first : Lines.stripMark 13 eventMarker = eventMarker := by decide
  have other : dataLabel.isPrefixOf eventMarker = false := by decide
  have blank : Lines.stripMark 13 ([] : Bytes) = [] := rfl
  have unlabelled : dataLabel.isPrefixOf [] = false := by decide
  rw [split, dataLoop, first, other]
  simp only [Bool.false_eq_true, if_false, ne_eq, not_true_eq_false, and_false]
  rw [dataLoop, kept]
  simp only [labelled, if_true, trimmed, text, List.nil_append]
  rw [dataLoop, blank]
  simp only [unlabelled, Bool.false_eq_true, if_false]
  rw [if_pos (by simp)]

/-- What the page makes of a capture that ends in one proof event. -/
theorem parseProofEventBytes_capture {value : JsVal} {json : JStr} (line : JsonLine node value json) (body : Bytes) :
    parseProofEventBytes node (body ++ (proofEvent json).utf8) =
      if isProofWire value then .ok (some (body.drop ((findFirstLinePrefix body eventLabel).getD 0), value))
      else .error "tee.proof data 字段不是有效证明材料" := by
  unfold parseProofEventBytes
  rw [markerIndex_capture line body]
  dsimp only
  rw [List.drop_left, List.take_left, dataLoop_event node line]
  simp only [List.cons_ne_nil, if_false, joinWith, line.parses]
  cases wire : isProofWire value with
  | true => simp [wire, Bind.bind, Except.bind]
  | false => simp [wire, Bind.bind, Except.bind]

theorem afterBreak_eq_none (part s : Bytes) :
    afterBreak part s = none ↔ ∀ front back, s ≠ front ++ 10 :: (part ++ back) := by
  induction s with
  | nil => simp [afterBreak]
  | cons b rest ih =>
    rw [afterBreak]
    by_cases here : b = 10 ∧ part.isPrefixOf rest = true
    · obtain ⟨rfl, starts⟩ := here
      obtain ⟨back, rfl⟩ := List.isPrefixOf_iff_prefix.mp starts
      rw [if_pos ⟨rfl, starts⟩]
      exact iff_of_false (by simp) fun none => none [] back rfl
    · rw [if_neg here, Option.map_eq_none_iff, ih]
      constructor
      · intro none front back eq
        cases front with
        | nil =>
          obtain ⟨rfl, rfl⟩ := List.cons.inj eq
          exact here ⟨rfl, List.isPrefixOf_iff_prefix.mpr (List.prefix_append _ _)⟩
        | cons c front =>
          exact none front back (List.cons.inj eq).2
      · intro none front back eq
        exact none (b :: front) back (by rw [eq, List.cons_append])

theorem afterBreak_bound {part s : Bytes} {i : Nat} (found : afterBreak part s = some i) : 1 ≤ i ∧ i ≤ s.length := by
  induction s generalizing i with
  | nil => cases found
  | cons b rest ih =>
    rw [afterBreak] at found
    split at found
    · obtain rfl := Option.some.inj found
      simp
    · obtain ⟨j, inner, rfl⟩ := Option.map_eq_some_iff.mp found
      have := ih inner
      simp only [List.length_cons]
      omega

/-- Nothing is cut off when the first event line stands at the start or nowhere. -/
theorem drop_firstLine (body part : Bytes) :
    body.drop ((findFirstLinePrefix body part).getD 0) = body ↔
      part.isPrefixOf body = true ∨ ∀ front back, body ≠ front ++ 10 :: (part ++ back) := by
  rw [findFirstLinePrefix]
  by_cases starts : part.isPrefixOf body = true
  · simp [starts]
  · rw [if_neg starts, ← afterBreak_eq_none]
    cases found : afterBreak part body with
    | none => simp
    | some i =>
      have bounds := afterBreak_bound found
      refine iff_of_false (fun same => ?_) (by simpa using starts)
      have length := congrArg List.length same
      rw [List.length_drop, Option.getD_some] at length
      omega

/-- On a capture that ends in the proof of its body, the page and the verifier read the
same body and proof exactly when the page takes the object for a proof and no event line
follows other lines. -/
theorem parseProofEventBytes_same_iff (lower : ∀ s, s.all JStr.isHexUnit = true → node.toLowerCase s = s) (body : Bytes)
    (proof : JsVal) (json : JStr) (line : JsonLine node proof json)
    (signed : proof.get "response_body_sha256" = .str (sha256Hex node body)) :
    (parseProofEventBytes node (body ++ (proofEvent json).utf8) = .ok (some (body, proof)) ∧
        (parseTeeProofEvent node (body ++ (proofEvent json).utf8)).body = body ∧
        (parseTeeProofEvent node (body ++ (proofEvent json).utf8)).proof = some proof) ↔
      isProofWire proof = true ∧
        (eventLabel.isPrefixOf body = true ∨ ∀ front back, body ≠ front ++ 10 :: (eventLabel ++ back)) := by
  rw [parseTeeProofEvent_capture line, removeLeading_signed node lower body proof signed,
    parseProofEventBytes_capture node line, ← drop_firstLine]
  cases isProofWire proof <;> simp

/-- A data line before the first event line. -/
def mixedBody : Bytes := JStr.utf8 "data: 1\n\nevent: a\n\n"
def mixedHash : String := "e56f535cff05ab3d71f89c8b7a42e134b756e2a9fed33be4a6acb8941a7b9fcd"
def mixedDigest : Digest := ⟨[229, 111, 83, 92, 255, 5, 171, 61, 113, 248, 156, 139, 122, 66, 225, 52, 183, 86, 226, 169, 254, 211, 59, 228, 166, 172, 184, 148, 26, 123, 159, 205], by decide⟩

def mixedDigests : List (Bytes × Digest) := [(mixedBody, mixedDigest)]

theorem mixedCapture_line : JsonLine (captureNode mixedDigests mixedHash) (captureProof mixedHash) (captureJson mixedHash) :=
  captureJson_line mixedDigests mixedHash (by decide +kernel)

theorem mixed_signed :
    (captureProof mixedHash).get "response_body_sha256" = .str (sha256Hex (captureNode mixedDigests mixedHash) mixedBody) := by
  have hash : JStr.lit mixedHash = sha256Hex (captureNode mixedDigests mixedHash) mixedBody := by decide
  exact congrArg JsVal.str hash

/-- A body of one line is read alike. -/
theorem parseProofEventBytes_same_plain :
    parseProofEventBytes (captureNode plainDigests plainHash) (plainBody ++ (proofEvent (captureJson plainHash)).utf8) =
      .ok (some (plainBody, captureProof plainHash)) := by
  refine ((parseProofEventBytes_same_iff (captureNode plainDigests plainHash) (captureNode_lower plainDigests plainHash) plainBody
    (captureProof plainHash) (captureJson plainHash) plainCapture_line plain_signed).mpr ⟨by decide, .inr ?_⟩).1
  rw [← afterBreak_eq_none]
  decide

/-- The page drops the data line before the first event line. -/
theorem capture_differs :
    JsonLine (captureNode mixedDigests mixedHash) (captureProof mixedHash) (captureJson mixedHash) ∧
      (captureProof mixedHash).get "response_body_sha256" = .str (sha256Hex (captureNode mixedDigests mixedHash) mixedBody) ∧
      isProofWire (captureProof mixedHash) = true ∧
      parseProofEventBytes (captureNode mixedDigests mixedHash) (mixedBody ++ (proofEvent (captureJson mixedHash)).utf8) ≠
        .ok (some (mixedBody, captureProof mixedHash)) := by
  refine ⟨mixedCapture_line, mixed_signed, by decide, fun same => ?_⟩
  rw [parseProofEventBytes_capture _ mixedCapture_line, if_pos (by decide)] at same
  have kept := (Prod.mk.inj (Option.some.inj (Except.ok.inj same))).1
  exact absurd kept (by decide)

end TeeProof.Browser
