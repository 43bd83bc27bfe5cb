import TeeProof.AliyunCanonical
import TeeProof.HonestExchange
import TeeProof.Challenge

/-! The verifier against the proofs of the vTPM helper: when it rebuilds the bytes that the helper
signed, and those that the vTPM quoted. -/
namespace TeeProof.AliyunProof

open Verifier (readWire)

/-- What both hosts document. -/
structure GoHosts (go : Go) (node : Node) : Prop where
  sha256 : ∀ b, node.sha256 b = go.sha256 b
  lowerTwice : ∀ s, go.toLower (go.toLower s) = go.toLower s
  /-- The case tables map no other character to LF. -/
  lowerBreak : ∀ s, '\n' ∈ go.toLower s → '\n' ∈ s
  upperBreak : ∀ s, '\n' ∈ go.toUpper s → '\n' ∈ s
  /-- Nothing outside ASCII decodes. -/
  base64Ascii : ∀ s b, go.decodeBase64 s = .ok b → JStr.isAscii s = true

/-! A proof that the generator issues. -/

section Issued

def Proof.statementFacts (p : Proof) : StatementFacts where
  nonceB64 := p.nonce
  upstreamHost := p.upstreamHost
  upstreamPath := p.upstreamPath
  httpMethod := p.httpMethod
  httpStatus := p.httpStatus
  responseContentType := p.respContentType
  requestBodySha256Hex := p.requestBodySha256
  responseBodySha256Hex := p.responseBodySha256
  fieldClaims := p.fieldClaims

def Proof.challengeFacts (p : Proof) (keyDigest : Str) : ChallengeFacts where
  profile := "aliyun-vtpm"
  nonceB64 := p.nonce
  statementPublicKeySha256 := keyDigest
  requestBodySha256Hex := p.requestBodySha256
  responseBodySha256Hex := p.responseBodySha256
  upstreamHost := p.upstreamHost
  upstreamPath := p.upstreamPath
  httpMethod := p.httpMethod
  httpStatus := p.httpStatus
  responseContentType := p.respContentType
  fieldClaims := p.fieldClaims

/-- A digest as the generator leaves it. -/
structure Normal (go : Go) (digest : Str) : Prop where
  lower : go.toLower digest = digest
  hex : digest.all isHexDigit = true

/-- What holds of every proof the generator issues. -/
structure Issued (go : Go) (opts : GenerateOptions) (g : Generated) : Prop where
  publicKey : g.proof.publicKey = base64Text opts.spki
  statement : g.statement = buildV2Statement go g.proof.statementFacts
  challenge : buildAliyunVtpmChallengePayload go (g.proof.challengeFacts (sha256Hex go opts.spki)) = .ok g.challengePayload
  nonce : ∃ b, go.decodeBase64 g.proof.nonce = .ok b
  oneLine : ∀ s ∈ [g.proof.nonce, g.proof.upstreamHost, g.proof.upstreamPath, g.proof.httpMethod, g.proof.respContentType],
    '\n' ∉ s
  request : Normal go g.proof.requestBodySha256
  response : Normal go g.proof.responseBodySha256
  claims : ∃ digest, fieldClaimsSha256Hex go g.proof.fieldClaims = .ok digest

theorem bind_ok {x : Except Str α} {f : α → Except Str β} {r : β} (h : x >>= f = .ok r) :
    ∃ a, x = .ok a ∧ f a = .ok r := by
  cases x with
  | error e => cases h
  | ok a => exact ⟨a, rfl, h⟩

theorem mapError_ok {x : Except Str α} {f : Str → Str} {a : α} (h : x.mapError f = .ok a) : x = .ok a := by
  cases x with
  | error e => cases h
  | ok a => exact h

variable {go : Go}

theorem normalizeSha256Hex_ok (twice : ∀ s, go.toLower (go.toLower s) = go.toLower s) {value digest : Str} {label : String}
    (run : normalizeSha256Hex go value label = .ok digest) : Normal go digest := by
  unfold normalizeSha256Hex at run
  dsimp only at run
  split at run
  next => cases run
  next =>
    split at run
    next => cases run
    next hex =>
      cases run
      exact ⟨twice _, by simpa using hex⟩

theorem validateNoCrlf_ok {values : List (String × Str)} (run : validateNoCrlf values = .ok ()) :
    ∀ p ∈ values, '\n' ∉ p.2 := by
  unfold validateNoCrlf at run
  split at run
  next => cases run
  next none =>
    intro p member inside
    have clean := List.find?_eq_none.mp none p member
    simp only [List.any_eq_true, Bool.or_eq_true, decide_eq_true_eq, not_exists, not_and, not_or] at clean
    exact (clean _ inside).2 rfl

theorem generateFromHashes_issued (twice : ∀ s, go.toLower (go.toLower s) = go.toLower s) {input : GenerateHashedInput}
    {opts : GenerateOptions} {g : Generated} (run : generateFromHashes go input opts = .ok g) : Issued go opts g := by
  obtain ⟨_, -, run⟩ := bind_ok run
  obtain ⟨⟨⟩, crlf, run⟩ := bind_ok run
  obtain ⟨nonce, decoded, run⟩ := bind_ok run
  obtain ⟨requestHash, request, run⟩ := bind_ok run
  obtain ⟨responseHash, response, run⟩ := bind_ok run
  obtain ⟨digest, claims, run⟩ := bind_ok run
  obtain ⟨payload, challenge, run⟩ := bind_ok run
  obtain ⟨⟨report, attester⟩, -, run⟩ := bind_ok run
  cases run
  have clean := validateNoCrlf_ok crlf
  simp only [List.forall_mem_cons, List.not_mem_nil, false_imp_iff, implies_true, and_true] at clean
  exact {
    publicKey := rfl
    statement := rfl
    challenge
    nonce := ⟨nonce, mapError_ok decoded⟩
    oneLine := by simpa using clean
    request := normalizeSha256Hex_ok twice request
    response := normalizeSha256Hex_ok twice response
    claims := ⟨digest, claims⟩ }

/-- The proof carries the exchange as it was given. -/
theorem generateFromHashes_echoes {input : GenerateHashedInput} {opts : GenerateOptions} {g : Generated}
    (run : generateFromHashes go input opts = .ok g) :
    g.proof.upstreamHost = input.upstreamHost ∧ g.proof.upstreamPath = input.upstreamPath ∧
      g.proof.httpMethod = input.httpMethod ∧ g.proof.httpStatus = input.httpStatus ∧
      g.proof.respContentType = input.responseContentType ∧ g.proof.fieldClaims = input.fieldClaims := by
  obtain ⟨_, -, run⟩ := bind_ok run
  obtain ⟨_, -, run⟩ := bind_ok run
  obtain ⟨_, -, run⟩ := bind_ok run
  obtain ⟨_, -, run⟩ := bind_ok run
  obtain ⟨_, -, run⟩ := bind_ok run
  obtain ⟨_, -, run⟩ := bind_ok run
  obtain ⟨_, -, run⟩ := bind_ok run
  obtain ⟨⟨_, _⟩, -, run⟩ := bind_ok run
  cases run
  exact ⟨rfl, rfl, rfl, rfl, rfl, rfl⟩

end Issued

/-! The proof as the verifier reads it. -/

/-- The members of a proof's text, with the values of its claims and its evidence. -/
def wireMembers (p : Proof) (claims : Option JsVal) (evidence : JsVal) : List (String × JsVal) :=
  [("v", .num 2), ("profile", .lit "aliyun-vtpm"), ("alg", .lit "ed25519"), ("public_key", .str (JStr.ofChars p.publicKey)),
    ("nonce", .str (JStr.ofChars p.nonce)), ("upstream_host", .str (JStr.ofChars p.upstreamHost)),
    ("upstream_path", .str (JStr.ofChars p.upstreamPath)), ("http_method", .str (JStr.ofChars p.httpMethod)),
    ("http_status", .num (.finite p.httpStatus)), ("resp_content_type", .str (JStr.ofChars p.respContentType)),
    ("request_body_sha256", .str (JStr.ofChars p.requestBodySha256)),
    ("response_body_sha256", .str (JStr.ofChars p.responseBodySha256))] ++
  (claims.map fun value => ("field_claims", value)).toList ++
  [("signature", .str (JStr.ofChars p.signature)), ("attestation", .str (JStr.ofChars p.attestation)), ("evidence", evidence)]

/-- What `JSON.parse` makes of a proof's text. -/
def wire (p : Proof) (claims : Option JsVal) (evidence : JsVal) : JsVal := .ofObject (wireMembers p claims evidence)

/-- The claims of a proof and what they are read as: both there, or both missing. -/
structure ReadClaims (raw : Str) (claims : Option JsVal) : Prop where
  present : claims.isSome = true ↔ raw ≠ []
  record : ∀ value ∈ claims, value.isRecord = true

/-- Both sides hash the claims alike. -/
def ClaimsAgree (go : Go) (node : Node) (raw : Str) (claims : Option JsVal) : Prop :=
  ∀ value ∈ claims, ∃ digest, fieldClaimsSha256Hex go raw = .ok digest ∧
    Verifier.fieldClaimsSha256Hex node value = JStr.ofChars digest

theorem get_ofObject (fields : List (String × JsVal)) (key : String) (safe : key.toList ≠ protoName) :
    (JsVal.ofObject fields).get (JStr.lit key) = (fields.lookup key).getD .undefined := by
  have apart : JStr.lit key ≠ JsVal.protoKey := ofChars_ne_proto safe
  rw [JsVal.ofObject, get_plain _ apart, JsVal.own, Verifier.AliyunVtpm.lookup_lit]

theorem wire_get (p : Proof) (claims : Option JsVal) (evidence : JsVal) (key : String) (safe : key.toList ≠ protoName) :
    (wire p claims evidence).get (JStr.lit key) = ((wireMembers p claims evidence).lookup key).getD .undefined :=
  get_ofObject _ key safe

/-- The fields that the verifier rebuilds the bytes from. -/
theorem readWire_wire (p : Proof) (claims : Option JsVal) (evidence : JsVal) :
    readWire (wire p claims evidence) = {
      publicKey := JStr.ofChars p.publicKey
      nonce := JStr.ofChars p.nonce
      upstreamHost := JStr.ofChars p.upstreamHost
      upstreamPath := JStr.ofChars p.upstreamPath
      httpMethod := JStr.ofChars p.httpMethod
      httpStatus := .finite p.httpStatus
      respContentType := JStr.ofChars p.respContentType
      requestBodySha256 := JStr.ofChars p.requestBodySha256
      responseBodySha256 := JStr.ofChars p.responseBodySha256
      signature := JStr.ofChars p.signature
      attestation := JStr.ofChars p.attestation
      profile := some (JStr.lit "aliyun-vtpm")
      evidence := evidence
      fieldClaims := claims.getD .undefined } := by
  have found (key : String) (safe : key.toList ≠ protoName) := wire_get p claims evidence key safe
  rw [readWire, found "public_key" (by decide), found "nonce" (by decide), found "upstream_host" (by decide),
    found "upstream_path" (by decide), found "http_method" (by decide), found "http_status" (by decide),
    found "resp_content_type" (by decide), found "request_body_sha256" (by decide),
    found "response_body_sha256" (by decide), found "signature" (by decide), found "attestation" (by decide),
    found "profile" (by decide), found "evidence" (by decide), found "field_claims" (by decide)]
  cases claims <;> rfl

/-! The statement. -/

section Statement

variable {go : Go} {node : Node} (hosts : GoHosts go node)

theorem join_newline (lines : List Str) (nonempty : lines ≠ []) :
    Str.join ['\n'] lines ++ ['\n'] = lines.flatMap fun line => line ++ ['\n'] := by
  fun_induction Str.join ['\n'] lines with
  | case1 => exact absurd rfl nonempty
  | case2 s => simp
  | case3 s t rest ih =>
    rw [List.append_assoc, List.append_assoc, ih (List.cons_ne_nil t rest), List.flatMap_cons]
    simp

theorem buildV2Statement_layout (f : StatementFacts) :
    buildV2Statement go f = Lines.layout 10 ((statementLines go f).map Utf8.encode) := by
  have nonempty : statementLines go f ≠ [] := by simp [statementLines]
  rw [buildV2Statement, join_newline _ nonempty, Lines.layout]
  induction statementLines go f with
  | nil => rfl
  | cons line rest ih =>
    have newline : String.utf8EncodeChar '\n' = [10] := by decide
    simpa [newline] using ih

/-- The digest of claims that are there. -/
theorem fieldClaimsSha256Hex_hex {raw digest : Str} (present : raw ≠ [])
    (hashed : fieldClaimsSha256Hex go raw = .ok digest) : ∃ d : Digest, digest = Str.hex d.1 := by
  rw [fieldClaimsSha256Hex, if_neg present] at hashed
  split at hashed
  next => cases hashed
  next value _ =>
    cases hashed
    exact ⟨_, rfl⟩

theorem statementLines_eq (f : StatementFacts) {digest : Str} (hashed : fieldClaimsSha256Hex go f.fieldClaims = .ok digest) :
    statementLines go f =
      ["tee-exchange-v2".toList,
        "nonce=".toList ++ f.nonceB64,
        "upstream-host=".toList ++ go.toLower f.upstreamHost,
        "upstream-path=".toList ++ pathWithoutQuery f.upstreamPath,
        "http-method=".toList ++ go.toUpper f.httpMethod,
        "http-status=".toList ++ decimal f.httpStatus,
        "resp-content-type=".toList ++ f.responseContentType,
        "request-body-sha256=".toList ++ go.toLower f.requestBodySha256Hex,
        "response-body-sha256=".toList ++ go.toLower f.responseBodySha256Hex] ++
      if f.fieldClaims = [] then [] else ["field-claims-sha256=".toList ++ digest] := by
  rw [statementLines, hashed]
  by_cases present : f.fieldClaims = []
  · rw [present, fieldClaimsSha256Hex, if_pos rfl] at hashed
    cases hashed
    rw [if_pos present]
  · obtain ⟨d, rfl⟩ := fieldClaimsSha256Hex_hex present hashed
    obtain ⟨c, rest, eq⟩ : ∃ c rest, Str.hex d.1 = c :: rest := by
      obtain ⟨b, length⟩ := d
      cases b with
      | nil => simp at length
      | cons x rest => exact ⟨_, _, rfl⟩
    rw [eq, if_neg present]

/-- Lines without a break in them can be told from their layout. -/
theorem layout_inj {lines others : List Bytes} (clean : ∀ l ∈ lines, (10 : UInt8) ∉ l)
    (clean' : ∀ l ∈ others, (10 : UInt8) ∉ l) : Lines.layout 10 lines = Lines.layout 10 others ↔ lines = others := by
  refine ⟨fun same => ?_, congrArg _⟩
  rw [← Lines.layout_eq_pieces 10 others lines clean' same, Lines.flatMap_splitOn_free 10 lines clean]

theorem line_iff (label : String) (plain : JStr.isAscii label.toList = true) {x : JStr} (text : x.WellFormed) (y : Str) :
    JStr.utf8 (JStr.lit label ++ x) = Utf8.encode (label.toList ++ y) ↔ x = JStr.ofChars y := by
  refine ⟨fun same => ?_, ?_⟩
  · have value := Verifier.value_of_line label plain x y same
    rw [← JStr.utf8_ofChars] at value
    exact JStr.utf8_injective text ⟨y, rfl⟩ value
  · rintro rfl
    rw [JStr.lit, ← ofChars_append, JStr.utf8_ofChars]

theorem numberToString_decimal (n : Int) (small : n.natAbs < 2 ^ 53) :
    Verifier.numberToString node (.finite n) = JStr.ofChars (decimal n) := by
  have whole : ((n : ℚ).den = 1 ∧ (n : ℚ).num.natAbs < 2 ^ 53) := ⟨rfl, small⟩
  rw [Verifier.numberToString, if_pos whole, Verifier.intDigits, decimal]
  rw [Rat.num_intCast]
  by_cases negative : n < 0
  · rw [if_pos negative, if_pos negative]
    exact (ofChars_append ['-'] _).symm
  · rw [if_neg negative, if_neg negative]
    rfl

theorem oneLine_of_hex {s : Str} (hex : s.all isHexDigit = true) : '\n' ∉ s := by
  intro member
  have digit := List.all_eq_true.mp hex _ member
  revert digit
  decide

theorem oneLine_decimal (n : Int) : '\n' ∉ decimal n := by
  rw [decimal]
  split
  · rw [List.mem_cons, not_or]
    exact ⟨by decide, Enclave.oneLine_digits _⟩
  · exact Enclave.oneLine_digits _

theorem ofChars_newline {s : Str} (clean : '\n' ∉ s) : (0x0A : UInt16) ∉ JStr.ofChars s := by
  rwa [← JStr.mem_toChars_newline, JStr.toChars_ofChars]

include hosts in
/-- A statement's lines hold no break. -/
theorem statementLines_clean {opts : GenerateOptions} {g : Generated} (issued : Issued go opts g) :
    ∀ l ∈ (statementLines go g.proof.statementFacts).map Utf8.encode, (10 : UInt8) ∉ l := by
  obtain ⟨digest, hashed⟩ := issued.claims
  have oneLine := issued.oneLine
  simp only [List.forall_mem_cons, List.not_mem_nil, false_imp_iff, implies_true, and_true] at oneLine
  obtain ⟨nonce, host, path, method, contentType⟩ := oneLine
  have request := oneLine_of_hex issued.request.hex
  have response := oneLine_of_hex issued.response.hex
  rw [← issued.request.lower] at request
  rw [← issued.response.lower] at response
  have shortPath : '\n' ∉ pathWithoutQuery g.proof.upstreamPath := fun member =>
    path ((List.takeWhile_prefix _).subset member)
  have label (s : String) (plain : '\n' ∉ s.toList) {t : Str} (clean : '\n' ∉ t) : '\n' ∉ s.toList ++ t := by
    simp [plain, clean]
  intro l member
  obtain ⟨line, inside, rfl⟩ := List.mem_map.mp member
  refine Enclave.encode_oneLine ?_
  rw [statementLines_eq _ hashed] at inside
  rcases List.mem_append.mp inside with fixed | claims
  · simp only [List.mem_cons, List.not_mem_nil, or_false] at fixed
    rcases fixed with rfl | rfl | rfl | rfl | rfl | rfl | rfl | rfl | rfl
    · simp [Enclave.OneLine]
    · exact label _ (by decide) nonce
    · exact label _ (by decide) fun inside => host (hosts.lowerBreak _ inside)
    · exact label _ (by decide) shortPath
    · exact label _ (by decide) fun inside => method (hosts.upperBreak _ inside)
    · exact label _ (by decide) (oneLine_decimal _)
    · exact label _ (by decide) contentType
    · exact label _ (by decide) request
    · exact label _ (by decide) response
  · split at claims
    next => simp at claims
    next present =>
      obtain ⟨d, rfl⟩ := fieldClaimsSha256Hex_hex present hashed
      rw [List.mem_singleton.mp claims]
      exact label _ (by decide) (Enclave.oneLine_hex (Enclave.all_hex d.1))

/-- The lines that the verifier rebuilds. -/
theorem rebuiltLines_eq (p : Proof) (small : p.httpStatus.natAbs < 2 ^ 53) {claims : Option JsVal}
    (record : ∀ value ∈ claims, value.isRecord = true) (evidence : JsVal) :
    Verifier.statementLines node (readWire (wire p claims evidence)).statementFields =
      [JStr.lit "tee-exchange-v2",
        JStr.lit "nonce=" ++ JStr.ofChars p.nonce,
        JStr.lit "upstream-host=" ++ node.toLowerCase (JStr.ofChars p.upstreamHost),
        JStr.lit "upstream-path=" ++ JStr.ofChars (pathWithoutQuery p.upstreamPath),
        JStr.lit "http-method=" ++ node.toUpperCase (JStr.ofChars p.httpMethod),
        JStr.lit "http-status=" ++ JStr.ofChars (decimal p.httpStatus),
        JStr.lit "resp-content-type=" ++ JStr.ofChars p.respContentType,
        JStr.lit "request-body-sha256=" ++ JStr.ofChars p.requestBodySha256,
        JStr.lit "response-body-sha256=" ++ JStr.ofChars p.responseBodySha256] ++
      (claims.map fun value => JStr.lit "field-claims-sha256=" ++ Verifier.fieldClaimsSha256Hex node value).toList := by
  have last : (if Verifier.isUndefined (claims.getD .undefined) = true then []
      else [JStr.lit "field-claims-sha256=" ++ Verifier.fieldClaimsSha256Hex node (claims.getD .undefined)]) =
      (claims.map fun value => JStr.lit "field-claims-sha256=" ++ Verifier.fieldClaimsSha256Hex node value).toList := by
    cases claims with
    | none => rfl
    | some value =>
      have isRecord := record value rfl
      cases value with
      | obj proto props => rfl
      | _ => cases isRecord
  have status : Verifier.numberToString node (.finite p.httpStatus) = JStr.ofChars (decimal p.httpStatus) :=
    numberToString_decimal _ small
  rw [readWire_wire, ← last, ← status, pathWithoutQuery, ← Verifier.before_ofChars]
  rfl

/-- Nor do they hold one. -/
theorem rebuiltLines_clean {opts : GenerateOptions} {g : Generated} (issued : Issued go opts g)
    (small : g.proof.httpStatus.natAbs < 2 ^ 53) {claims : Option JsVal}
    (record : ∀ value ∈ claims, value.isRecord = true) (evidence : JsVal) :
    ∀ l ∈ (Verifier.statementLines node (readWire (wire g.proof claims evidence)).statementFields).map JStr.utf8,
      (10 : UInt8) ∉ l := by
  have oneLine := issued.oneLine
  simp only [List.forall_mem_cons, List.not_mem_nil, false_imp_iff, implies_true, and_true] at oneLine
  obtain ⟨nonce, host, path, method, contentType⟩ := oneLine
  have shortPath : '\n' ∉ pathWithoutQuery g.proof.upstreamPath := fun member =>
    path ((List.takeWhile_prefix _).subset member)
  have label (s : String) (plain : (0x0A : UInt16) ∉ JStr.lit s) {t : JStr} (clean : (0x0A : UInt16) ∉ t) :
      (0x0A : UInt16) ∉ JStr.lit s ++ t := by
    simp [plain, clean]
  intro l member
  obtain ⟨line, inside, rfl⟩ := List.mem_map.mp member
  rw [JStr.mem_utf8_newline]
  rw [rebuiltLines_eq _ small record] at inside
  rcases List.mem_append.mp inside with fixed | claimed
  · simp only [List.mem_cons, List.not_mem_nil, or_false] at fixed
    rcases fixed with rfl | rfl | rfl | rfl | rfl | rfl | rfl | rfl | rfl
    · decide
    · exact label _ (by decide) (ofChars_newline nonce)
    · exact label _ (by decide) fun inside => ofChars_newline host (node.lowerCase_newline _ inside)
    · exact label _ (by decide) (ofChars_newline shortPath)
    · exact label _ (by decide) fun inside => ofChars_newline method (node.upperCase_newline _ inside)
    · exact label _ (by decide) (ofChars_newline (oneLine_decimal _))
    · exact label _ (by decide) (ofChars_newline contentType)
    · exact label _ (by decide) (ofChars_newline (oneLine_of_hex issued.request.hex))
    · exact label _ (by decide) (ofChars_newline (oneLine_of_hex issued.response.hex))
  · obtain ⟨value, -, rfl⟩ := Option.mem_map.mp (Option.mem_toList.mp claimed)
    refine label _ (by decide) fun inside => ?_
    have digit := List.all_eq_true.mp (JStr.hex_all _) _ inside
    revert digit
    decide

/-- The lines for the claims are the same on both sides when the digests are. -/
theorem claimsLine_iff {raw digest : Str} (hashed : fieldClaimsSha256Hex go raw = .ok digest) {claims : Option JsVal}
    (read : ReadClaims raw claims) :
    (claims.map fun value => JStr.lit "field-claims-sha256=" ++ Verifier.fieldClaimsSha256Hex node value).toList.map
        JStr.utf8 = (if raw = [] then [] else ["field-claims-sha256=".toList ++ digest]).map Utf8.encode ↔
      ClaimsAgree go node raw claims := by
  cases claims with
  | none =>
    have missing : raw = [] := by
      by_contra present
      cases read.present.mpr present
    simp [missing, ClaimsAgree]
  | some value =>
    have present : raw ≠ [] := read.present.mp rfl
    have text : (Verifier.fieldClaimsSha256Hex node value).WellFormed := ⟨_, (ofChars_hex _).symm⟩
    rw [if_neg present, Option.map_some, Option.toList_some, List.map_singleton, List.map_singleton, List.singleton_inj,
      line_iff _ (by decide) text]
    simp [ClaimsAgree, hashed]

include hosts in
/-- The verifier rebuilds the signed bytes of a proof exactly when both sides lower the host alike,
raise the method alike and hash the claims alike. -/
theorem statement_rebuilt {opts : GenerateOptions} {g : Generated} (issued : Issued go opts g) {claims : Option JsVal}
    (read : ReadClaims g.proof.fieldClaims claims) (evidence : JsVal) (small : g.proof.httpStatus.natAbs < 2 ^ 53) :
    Verifier.buildV2Statement node (readWire (wire g.proof claims evidence)).statementFields = g.statement ↔
      node.toLowerCase (JStr.ofChars g.proof.upstreamHost) = JStr.ofChars (go.toLower g.proof.upstreamHost) ∧
      node.toUpperCase (JStr.ofChars g.proof.httpMethod) = JStr.ofChars (go.toUpper g.proof.httpMethod) ∧
      ClaimsAgree go node g.proof.fieldClaims claims := by
  obtain ⟨digest, hashed⟩ := issued.claims
  have text (s : Str) : (JStr.ofChars s).WellFormed := ⟨s, rfl⟩
  have lower := node.lowerCase_wellFormed _ (text g.proof.upstreamHost)
  have upper := node.upperCase_wellFormed _ (text g.proof.httpMethod)
  have claimsLine := @claimsLine_iff go node _ _ hashed _ read
  rw [issued.statement, Verifier.buildV2Statement_layout, buildV2Statement_layout,
    layout_inj (rebuiltLines_clean issued small read.record evidence) (statementLines_clean hosts issued),
    rebuiltLines_eq _ small read.record, statementLines_eq _ hashed, List.map_append, List.map_append,
    ← claimsLine]
  dsimp only [Proof.statementFacts]
  rw [issued.request.lower, issued.response.lower]
  constructor
  · intro same
    obtain ⟨fixed, claimed⟩ := List.append_inj same rfl
    simp only [List.map_cons, List.cons.injEq] at fixed
    obtain ⟨-, -, hostLine, -, methodLine, -⟩ := fixed
    exact ⟨(line_iff _ (by decide) lower _).mp hostLine, (line_iff _ (by decide) upper _).mp methodLine, claimed⟩
  · rintro ⟨host, method, claimed⟩
    have line (label : String) (plain : JStr.isAscii label.toList = true) (s : Str) :
        JStr.utf8 (JStr.lit label ++ JStr.ofChars s) = Utf8.encode (label.toList ++ s) :=
      (line_iff label plain (text s) s).mpr rfl
    rw [claimed, host, method]
    simp only [List.map_cons, List.map_nil]
    rw [line "nonce=" (by decide), line "upstream-host=" (by decide), line "upstream-path=" (by decide),
      line "http-method=" (by decide), line "http-status=" (by decide), line "resp-content-type=" (by decide),
      line "request-body-sha256=" (by decide), line "response-body-sha256=" (by decide), JStr.lit, JStr.utf8_ofChars]
    rfl

end Statement

/-! The challenge. -/

section Challenge

/-- The members of a challenge in their order, each with its text. -/
def challengeFields (write : Str → Str) (f : ChallengeFacts) (claimsDigest : Option Str) : List (String × Str) :=
  (claimsDigest.map fun digest => ("field_claims_sha256", write digest)).toList ++
  [("http_method", write f.httpMethod), ("http_status", decimal f.httpStatus), ("nonce", write f.nonceB64),
    ("profile", write f.profile), ("request_body_sha256", write f.requestBodySha256Hex),
    ("resp_content_type", write f.responseContentType), ("response_body_sha256", write f.responseBodySha256Hex),
    ("statement_public_key_sha256", write f.statementPublicKeySha256), ("upstream_host", write f.upstreamHost),
    ("upstream_path", write f.upstreamPath)]

/-- The text of a challenge, whose strings are written by `write`. -/
def challengeText (write : Str → Str) (f : ChallengeFacts) (claimsDigest : Option Str) : Str :=
  '\x7b' :: Str.join [','] ((challengeFields write f claimsDigest).map fun p => write p.1.toList ++ ':' :: p.2) ++ ['\x7d']

theorem challengePairs_text (f : ChallengeFacts) (claimsDigest : Option Str) :
    '\x7b' :: challengePairs f claimsDigest ++ ['\x7d'] = challengeText quoteJsonString f claimsDigest := by
  have status : "\"http_status\":".toList = quoteJsonString "http_status".toList ++ [':'] := by decide
  rw [challengePairs, challengeText, challengeFields, status]
  cases claimsDigest with
  | none =>
    simp only [jsonPair, Str.join, Option.map_none, Option.getD_none, Option.toList_none, Option.isSome_none,
      Bool.false_eq_true, if_true, if_false, List.append_assoc, List.cons_append, List.nil_append, List.map_cons,
      List.map_nil]
  | some digest =>
    simp only [jsonPair, Str.join, Option.map_some, Option.getD_some, Option.toList_some, Option.isSome_some,
      Bool.false_eq_true, if_true, if_false, List.append_assoc, List.cons_append, List.nil_append, List.map_cons,
      List.map_nil]

variable {go : Go} {node : Node} (hosts : GoHosts go node)

/-- The digest that the verifier takes of the claims it read. -/
def claimsDigest (node : Node) (value : JsVal) : Str :=
  Str.hex (node.sha256 (JStr.utf8 (Verifier.canonicalJson node value))).1

theorem fieldClaims_digest (value : JsVal) :
    Verifier.fieldClaimsSha256Hex node value = JStr.ofChars (claimsDigest node value) :=
  (ofChars_hex _).symm

/-- Members in the order of their names are what the sorting leaves. -/
theorem insertionSort_members {fields sorted : List (String × JsVal)} (perm : sorted.Perm fields)
    (ordered : (sorted.map Prod.fst).Pairwise fun a b => JStr.le (JStr.lit a) (JStr.lit b) = true ∧ a ≠ b) :
    (fields.map fun p => (JStr.lit p.1, p.2)).insertionSort (fun p q => JStr.le p.1 q.1) =
      sorted.map fun p => (JStr.lit p.1, p.2) := by
  have names : (sorted.map fun p => (JStr.lit p.1, p.2)).Pairwise
      fun p q : JStr × JsVal => JStr.le p.1 q.1 = true ∧ p.1 ≠ q.1 := by
    rw [List.pairwise_map] at ordered ⊢
    exact ordered.imp fun both => ⟨both.1, fun same => both.2 (JStr.lit_injective same)⟩
  have same := (List.perm_insertionSort (fun p q : JStr × JsVal => JStr.le p.1 q.1 = true)
    (fields.map fun p => (JStr.lit p.1, p.2))).trans (perm.map fun p => (JStr.lit p.1, p.2)).symm
  have total : Std.Total fun p q : JStr × JsVal => JStr.le p.1 q.1 = true := ⟨fun p q => JStr.le_total _ _⟩
  have trans : IsTrans (JStr × JsVal) fun p q => JStr.le p.1 q.1 = true := ⟨fun p q r => JStr.le_trans⟩
  refine same.eq_of_pairwise ?_ (List.pairwise_insertionSort _ _) (names.imp fun both => both.1)
  rintro p q left right first second
  have nodup : ((sorted.map fun p => (JStr.lit p.1, p.2)).map Prod.fst).Nodup := by
    rw [List.nodup_iff_pairwise_ne, List.pairwise_map]
    exact names.imp fun both => both.2
  obtain ⟨k, v⟩ := p
  obtain ⟨k', w⟩ := q
  obtain rfl : k = k' := JStr.le_antisymm first second
  have found := Assoc.lookup_of_mem nodup (same.mem_iff.mp left)
  have found' := Assoc.lookup_of_mem nodup right
  rw [found, Option.some.injEq] at found'
  rw [found']

theorem quote_ofChars (s : Str) : Verifier.quote (JStr.ofChars s) = JStr.ofChars (Enclave.quote s) :=
  (Enclave.ofChars_quote s).symm

/-- The members of a challenge that the verifier writes. -/
def challengeMembers (node : Node) (p : Proof) (keyDigest : Str) (claims : Option JsVal) : List (String × JsVal) :=
  (claims.map fun value => ("field_claims_sha256", .str (Verifier.fieldClaimsSha256Hex node value))).toList ++
  [("http_method", .str (JStr.ofChars p.httpMethod)), ("http_status", .num (.finite p.httpStatus)),
    ("nonce", .str (JStr.ofChars p.nonce)), ("profile", .str (JStr.ofChars "aliyun-vtpm".toList)),
    ("request_body_sha256", .str (JStr.ofChars p.requestBodySha256)),
    ("resp_content_type", .str (JStr.ofChars p.respContentType)),
    ("response_body_sha256", .str (JStr.ofChars p.responseBodySha256)),
    ("statement_public_key_sha256", .str (JStr.ofChars keyDigest)),
    ("upstream_host", .str (JStr.ofChars p.upstreamHost)), ("upstream_path", .str (JStr.ofChars p.upstreamPath))]

theorem challengeMembers_ordered (p : Proof) (keyDigest : Str) (claims : Option JsVal) :
    ((challengeMembers node p keyDigest claims).map Prod.fst).Pairwise
      fun a b => JStr.le (JStr.lit a) (JStr.lit b) = true ∧ a ≠ b := by
  have all : ["field_claims_sha256", "http_method", "http_status", "nonce", "profile", "request_body_sha256",
      "resp_content_type", "response_body_sha256", "statement_public_key_sha256", "upstream_host", "upstream_path"].Pairwise
      fun a b => JStr.le (JStr.lit a) (JStr.lit b) = true ∧ a ≠ b := by
    decide +kernel
  cases claims with
  | none => exact all.tail
  | some value => exact all

/-- Each member that the verifier writes has the text of the helper's, but for the quoting. -/
theorem challengeMembers_fields (p : Proof) (small : p.httpStatus.natAbs < 2 ^ 53) (keyDigest : Str)
    (claims : Option JsVal) :
    (challengeMembers node p keyDigest claims).map (Prod.map id (Verifier.stringify node)) =
      (challengeFields Enclave.quote (p.challengeFacts keyDigest) (claims.map (claimsDigest node))).map
        (Prod.map id JStr.ofChars) := by
  have text (s : Str) : Verifier.stringify node (.str (JStr.ofChars s)) = JStr.ofChars (Enclave.quote s) :=
    quote_ofChars s
  have status : Verifier.stringify node (.num (.finite p.httpStatus)) = JStr.ofChars (decimal p.httpStatus) :=
    numberToString_decimal _ small
  have first : (claims.map fun value => ("field_claims_sha256", JsVal.str (Verifier.fieldClaimsSha256Hex node value))).toList.map
      (Prod.map id (Verifier.stringify node)) =
      ((claims.map (claimsDigest node)).map fun digest => ("field_claims_sha256", Enclave.quote digest)).toList.map
        (Prod.map id JStr.ofChars) := by
    cases claims with
    | none => rfl
    | some value =>
      simp only [Option.map_some, Option.toList_some, List.map_singleton, Prod.map, id]
      rw [fieldClaims_digest, text]
  rw [challengeMembers, challengeFields, List.map_append, List.map_append, first]
  simp only [List.map_nil, List.map_cons, Prod.map]
  rw [text p.httpMethod, status, text p.nonce, text "aliyun-vtpm".toList, text p.requestBodySha256, text p.respContentType,
    text p.responseBodySha256, text keyDigest, text p.upstreamHost, text p.upstreamPath]
  rfl

theorem challengeMembers_text (p : Proof) (small : p.httpStatus.natAbs < 2 ^ 53) (keyDigest : Str) (claims : Option JsVal) :
    0x7B :: Verifier.commaJoin (((challengeMembers node p keyDigest claims).map fun p => (JStr.lit p.1, p.2)).map
        fun p => Verifier.quote p.1 ++ 0x3A :: Verifier.stringify node p.2) ++ [0x7D] =
      JStr.ofChars (challengeText Enclave.quote (p.challengeFacts keyDigest) (claims.map (claimsDigest node))) := by
  have braces (s : Str) : JStr.ofChars ('\x7b' :: s ++ ['\x7d']) = 0x7B :: JStr.ofChars s ++ [0x7D] := by
    rw [ofChars_append]
    rfl
  have pair (key : String) (value : Str) : JStr.ofChars (Enclave.quote key.toList ++ ':' :: value) =
      Verifier.quote (JStr.lit key) ++ 0x3A :: JStr.ofChars value := by
    rw [ofChars_append, ← quote_ofChars]
    rfl
  have members := congrArg (List.map fun q => Verifier.quote (JStr.lit q.1) ++ 0x3A :: q.2)
    (@challengeMembers_fields node p small keyDigest claims)
  rw [List.map_map, List.map_map] at members
  rw [challengeText, braces, Enclave.ofChars_join, ← Verifier.commaJoin_eq, List.map_map, List.map_map]
  congr 3
  exact members.trans (List.map_congr_left fun q _ => (pair q.1 q.2).symm)

include hosts in
/-- The challenge that the verifier rebuilds. -/
theorem rebuiltChallenge_eq (p : Proof) (spki : Bytes) (decoded : Verifier.AliyunVtpm.decodeBase64 node
      (JStr.ofChars p.publicKey) "public_key" = .ok spki) (small : p.httpStatus.natAbs < 2 ^ 53) {claims : Option JsVal}
    (record : ∀ value ∈ claims, value.isRecord = true) (evidence : JsVal) :
    Verifier.AliyunVtpm.buildAliyunVtpmChallengePayload node (readWire (wire p claims evidence)) =
      .ok (JStr.ofChars (challengeText Enclave.quote (p.challengeFacts (sha256Hex go spki))
        (claims.map (claimsDigest node)))) := by
  have digest : Verifier.sha256Hex node spki = JStr.ofChars (sha256Hex go spki) := by
    rw [sha256Hex, ofChars_hex, Verifier.sha256Hex, hosts.sha256]
  rw [readWire_wire, Verifier.AliyunVtpm.buildAliyunVtpmChallengePayload]
  dsimp only
  rw [decoded]
  simp only [bind, Except.bind, digest]
  rw [← challengeMembers_text p small, Verifier.AliyunVtpm.jcsCanonicalize,
    insertionSort_members ?_ (challengeMembers_ordered p (sha256Hex go spki) claims)]
  cases claims with
  | none => exact .rfl
  | some value =>
    have isRecord := record value rfl
    cases value with
    | obj proto props => exact List.perm_append_comm
    | _ => cases isRecord

/-- The challenge that the helper quotes. -/
theorem quotedChallenge_eq (f : ChallengeFacts) {digest : Str} (hashed : fieldClaimsSha256Hex go f.fieldClaims = .ok digest) :
    buildAliyunVtpmChallengePayload go f =
      .ok (Utf8.encode (challengeText quoteJsonString f (if f.fieldClaims = [] then none else some digest))) := by
  rw [buildAliyunVtpmChallengePayload, ← challengePairs_text]
  by_cases missing : f.fieldClaims = []
  · rw [if_pos missing, if_pos missing]
    rfl
  · rw [if_neg missing, if_neg missing, hashed]
    rfl

/-! The two texts. -/

/-- A string that both sides write alike. -/
def Clean (s : Str) : Prop := ∀ c ∈ s, ¬isSeparator c

theorem quote_clean {s : Str} (clean : Clean s) : quoteJsonString s = Enclave.quote s :=
  quoted_plain fun c member found => by
    rcases found with separator | ⟨html, -⟩
    · exact clean c member separator
    · cases html

theorem clean_ascii {s : Str} (ascii : JStr.isAscii s = true) : Clean s := by
  intro c member found
  have small : c.toNat < 0x80 := by simpa using List.all_eq_true.mp ascii c member
  rcases found with h | h <;> omega

theorem clean_hexDigits {s : Str} (hex : s.all isHexDigit = true) : Clean s := by
  intro c member found
  have digit := List.all_eq_true.mp hex c member
  have bound : c.toNat < 0x80 := by
    simp only [isHexDigit, Bool.or_eq_true, Bool.and_eq_true, decide_eq_true_eq, Char.le_def, UInt32.le_iff_toNat_le] at digit
    have value : c.val.toNat = c.toNat := rfl
    rcases digit with (h | h) | h <;> · have top := h.2; simp at top; omega
  rcases found with h | h <;> omega

theorem clean_hex (b : Bytes) : Clean (Str.hex b) := by
  intro c member found
  obtain ⟨x, -, inside⟩ := List.mem_flatMap.mp member
  have bound := x.toNat_lt
  simp only [List.mem_cons, List.not_mem_nil, or_false] at inside
  rcases inside with rfl | rfl
  · exact hexDigit_plain _ (by omega) (.inl found)
  · exact hexDigit_plain _ (by omega) (.inl found)

theorem clean_decimal (n : Int) : Clean (decimal n) := by
  have digits (n : Nat) : Clean (Str.natDigits n) := by
    intro c member found
    have digit := Nat.isDigit_of_mem_toDigits (by decide) (by decide) member
    simp only [Char.isDigit, Bool.and_eq_true, decide_eq_true_eq, UInt32.le_iff_toNat_le] at digit
    have value : c.val.toNat = c.toNat := rfl
    have top := digit.2
    simp at top
    rcases found with h | h <;> omega
  rw [decimal]
  split
  · intro c member
    rcases List.mem_cons.mp member with rfl | inside
    · decide
    · exact digits _ c inside
  · exact digits _

theorem mem_challengeText {write : Str → Str} {f : ChallengeFacts} {digest : Option Str} {c : Char}
    (apart : c ≠ '\x7b' ∧ c ≠ '\x7d' ∧ c ≠ ',' ∧ c ≠ ':') :
    c ∈ challengeText write f digest ↔ ∃ p ∈ challengeFields write f digest, c ∈ write p.1.toList ∨ c ∈ p.2 := by
  have noComma : c ∉ ([','] : Str) := by simpa using apart.2.2.1
  rw [challengeText]
  simp only [List.cons_append, List.mem_cons, List.mem_append, List.not_mem_nil, or_false, apart.1, apart.2.1, false_or,
    mem_join noComma, List.mem_map, exists_exists_and_eq_and, apart.2.2.2]

/-- The names of a challenge's members. -/
theorem challengeFields_names (write : Str → Str) (f : ChallengeFacts) (digest : Option Str) :
    ∀ p ∈ challengeFields write f digest, Clean p.1.toList := by
  have names : ∀ name ∈ (challengeFields write f digest).map Prod.fst, JStr.isAscii name.toList = true := by
    cases digest with
    | none =>
      simp only [challengeFields, Option.map_none, Option.toList_none, List.nil_append, List.map_cons, List.map_nil]
      decide
    | some digest =>
      simp only [challengeFields, Option.map_some, Option.toList_some, List.cons_append, List.nil_append, List.map_cons,
        List.map_nil]
      decide
  exact fun p member => clean_ascii (names p.1 (List.mem_map_of_mem member))

/-- The strings of an exchange in a challenge. -/
def ChallengeFacts.strings (f : ChallengeFacts) : List Str :=
  [f.httpMethod, f.nonceB64, f.profile, f.requestBodySha256Hex, f.responseContentType, f.responseBodySha256Hex,
    f.statementPublicKeySha256, f.upstreamHost, f.upstreamPath]

theorem challengeText_clean {f : ChallengeFacts} (clean : ∀ s ∈ f.strings, Clean s) {digest : Option Str}
    (hex : ∀ d ∈ digest, Clean d) : challengeText quoteJsonString f digest = challengeText Enclave.quote f digest := by
  have fields : challengeFields quoteJsonString f digest = challengeFields Enclave.quote f digest := by
    simp only [ChallengeFacts.strings, List.forall_mem_cons, List.not_mem_nil, false_imp_iff, implies_true, and_true]
      at clean
    obtain ⟨method, nonce, profile, request, contentType, response, key, host, path⟩ := clean
    have claims : digest.map (fun digest => ("field_claims_sha256", quoteJsonString digest)) =
        digest.map fun digest => ("field_claims_sha256", Enclave.quote digest) := by
      cases digest with
      | none => rfl
      | some d => rw [Option.map_some, Option.map_some, quote_clean (hex d rfl)]
    rw [challengeFields, challengeFields, claims, quote_clean method, quote_clean nonce, quote_clean profile,
      quote_clean request, quote_clean contentType, quote_clean response, quote_clean key, quote_clean host,
      quote_clean path]
  rw [challengeText, challengeText, fields]
  congr 3
  refine List.map_congr_left fun p member => ?_
  rw [quote_clean (challengeFields_names _ f digest p member)]

/-- The helper's text holds no separator. -/
theorem quotedText_clean (f : ChallengeFacts) (digest : Option Str) : Clean (challengeText quoteJsonString f digest) := by
  intro c member found
  have apart (d : Char) (plain : ¬isSeparator d) : c ≠ d := by
    rintro rfl
    exact plain found
  have quotation (s : Str) : c ∉ quoteJsonString s := fun inside => quoted_clean false s c inside (.inl found)
  rw [mem_challengeText ⟨apart _ (by decide), apart _ (by decide), apart _ (by decide), apart _ (by decide)⟩] at member
  obtain ⟨p, inside, name | value⟩ := member
  · exact quotation _ name
  · have status : c ∉ decimal f.httpStatus := fun inside => clean_decimal _ c inside found
    rw [challengeFields] at inside
    rcases List.mem_append.mp inside with claims | fixed
    · obtain ⟨d, -, rfl⟩ := Option.mem_map.mp (Option.mem_toList.mp claims)
      exact quotation _ value
    · simp only [List.mem_cons, List.not_mem_nil, or_false] at fixed
      rcases fixed with rfl | rfl | rfl | rfl | rfl | rfl | rfl | rfl | rfl | rfl
      · exact quotation _ value
      · exact status value
      all_goals exact quotation _ value

/-- A separator in a string of the exchange stands in the verifier's text. -/
theorem mem_rebuiltText {f : ChallengeFacts} {digest : Option Str} {s : Str} (member : s ∈ f.strings) {c : Char}
    (inside : c ∈ s) (found : isSeparator c) : c ∈ challengeText Enclave.quote f digest := by
  have apart (d : Char) (plain : ¬isSeparator d) : c ≠ d := by
    rintro rfl
    exact plain found
  have escaped : special false c := .inl found
  have written : c ∈ Enclave.quote s := mem_quote inside escaped
  rw [mem_challengeText ⟨apart _ (by decide), apart _ (by decide), apart _ (by decide), apart _ (by decide)⟩]
  have field : ∃ p ∈ challengeFields Enclave.quote f digest, p.2 = Enclave.quote s := by
    simp only [ChallengeFacts.strings, List.mem_cons, List.not_mem_nil, or_false] at member
    rw [challengeFields]
    rcases member with rfl | rfl | rfl | rfl | rfl | rfl | rfl | rfl | rfl <;>
      simp only [List.mem_append, List.mem_cons, or_and_right, exists_or, exists_eq_left, true_or, or_true]
  obtain ⟨p, inField, eq⟩ := field
  exact ⟨p, inField, .inr (eq ▸ written)⟩

theorem quote_append_inj {s t x y : Str} (same : Enclave.quote s ++ x = Enclave.quote t ++ y) : s = t := by
  have texts := congrArg JStr.ofChars same
  rw [ofChars_append, ofChars_append, ← quote_ofChars, ← quote_ofChars] at texts
  exact ofChars_injective (Verifier.quote_reads _ _ _ _ texts).1

/-- The digest of the claims can be read off a challenge. -/
theorem challengeText_inj {f : ChallengeFacts} {d e : Str}
    (same : challengeText Enclave.quote f (some d) = challengeText Enclave.quote f (some e)) : d = e := by
  have shape (d : Str) : ∃ rest, challengeText Enclave.quote f (some d) =
      ('\x7b' :: Enclave.quote "field_claims_sha256".toList ++ [':']) ++ (Enclave.quote d ++ rest) := by
    refine ⟨',' :: (Str.join [','] ((challengeFields Enclave.quote f none).map
      fun p => Enclave.quote p.1.toList ++ ':' :: p.2) ++ ['\x7d']), ?_⟩
    simp only [challengeText, challengeFields, Option.map_some, Option.toList_some, Option.map_none, Option.toList_none,
      List.cons_append, List.nil_append, List.map_cons, List.map_nil, Str.join, List.append_assoc]
  obtain ⟨x, left⟩ := shape d
  obtain ⟨y, right⟩ := shape e
  rw [left, right] at same
  exact quote_append_inj (List.append_cancel_left same)

include hosts in
theorem issued_clean {opts : GenerateOptions} {g : Generated} (issued : Issued go opts g) :
    Clean g.proof.nonce ∧ Clean g.proof.requestBodySha256 ∧ Clean g.proof.responseBodySha256 := by
  obtain ⟨b, decoded⟩ := issued.nonce
  exact ⟨clean_ascii (hosts.base64Ascii _ b decoded), clean_hexDigits issued.request.hex, clean_hexDigits issued.response.hex⟩

include hosts in
/-- The verifier rebuilds the challenge that the vTPM quoted exactly when no separator stands in the
host, the path, the method or the content type and both sides hash the claims alike. -/
theorem challenge_rebuilt {opts : GenerateOptions} {g : Generated} (issued : Issued go opts g)
    (decoded : Verifier.AliyunVtpm.decodeBase64 node (JStr.ofChars g.proof.publicKey) "public_key" = .ok opts.spki)
    {claims : Option JsVal} (read : ReadClaims g.proof.fieldClaims claims) (evidence : JsVal)
    (small : g.proof.httpStatus.natAbs < 2 ^ 53) :
    ∃ payload, Verifier.AliyunVtpm.buildAliyunVtpmChallengePayload node (readWire (wire g.proof claims evidence)) =
        .ok payload ∧
      (payload.utf8 = g.challengePayload ↔
        (Clean g.proof.upstreamHost ∧ Clean g.proof.upstreamPath ∧ Clean g.proof.httpMethod ∧
          Clean g.proof.respContentType) ∧ ClaimsAgree go node g.proof.fieldClaims claims) := by
  obtain ⟨digest, hashed⟩ := issued.claims
  obtain ⟨nonce, request, response⟩ := issued_clean hosts issued
  have quoted := issued.challenge.symm.trans (quotedChallenge_eq (g.proof.challengeFacts (sha256Hex go opts.spki)) hashed)
  refine ⟨_, rebuiltChallenge_eq hosts g.proof opts.spki decoded small read.record evidence, ?_⟩
  rw [Except.ok.inj quoted, JStr.utf8_ofChars]
  generalize facts : g.proof.challengeFacts (sha256Hex go opts.spki) = f
  have raw : f.fieldClaims = g.proof.fieldClaims := by rw [← facts]; rfl
  have strings : f.strings = [g.proof.httpMethod, g.proof.nonce, "aliyun-vtpm".toList, g.proof.requestBodySha256,
      g.proof.respContentType, g.proof.responseBodySha256, sha256Hex go opts.spki, g.proof.upstreamHost,
      g.proof.upstreamPath] := by
    rw [← facts]
    rfl
  have profile : Clean "aliyun-vtpm".toList := clean_ascii (by decide)
  have key : Clean (sha256Hex go opts.spki) := clean_hex _
  rw [raw]
  constructor
  · intro same
    have texts := Utf8.encode_injective same
    have clean (s : Str) (member : s ∈ f.strings) : Clean s := fun c inside found =>
      quotedText_clean f _ c (texts ▸ mem_rebuiltText member inside found) found
    have all := clean
    rw [strings] at all
    simp only [List.forall_mem_cons, List.not_mem_nil, false_imp_iff, implies_true, and_true] at all
    refine ⟨⟨all.2.2.2.2.2.2.2.1, all.2.2.2.2.2.2.2.2, all.1, all.2.2.2.2.1⟩, ?_⟩
    intro value given
    obtain rfl : claims = some value := given
    have present : g.proof.fieldClaims ≠ [] := read.present.mp rfl
    obtain ⟨d, rfl⟩ := fieldClaimsSha256Hex_hex present hashed
    rw [if_neg present, challengeText_clean clean (by rintro _ ⟨⟩; exact clean_hex d.1)] at texts
    exact ⟨_, hashed, by rw [fieldClaims_digest, challengeText_inj texts]⟩
  · rintro ⟨⟨host, path, method, contentType⟩, agree⟩
    have clean : ∀ s ∈ f.strings, Clean s := by
      rw [strings]
      simp only [List.forall_mem_cons, List.not_mem_nil, false_imp_iff, implies_true, and_true]
      exact ⟨method, nonce, profile, request, contentType, response, key, host, path⟩
    have digests : claims.map (claimsDigest node) = if g.proof.fieldClaims = [] then none else some digest := by
      cases given : claims with
      | none =>
        rw [given] at read
        have missing : g.proof.fieldClaims = [] := by
          by_contra present
          cases read.present.mpr present
        rw [if_pos missing]
        rfl
      | some value =>
        rw [given] at read
        have present : g.proof.fieldClaims ≠ [] := read.present.mp rfl
        obtain ⟨d, found, eq⟩ := agree value given
        rw [hashed] at found
        cases found
        rw [fieldClaims_digest] at eq
        rw [if_neg present, Option.map_some, ofChars_injective eq]
    have hex : ∀ d ∈ claims.map (claimsDigest node), Clean d := by
      intro d member
      obtain ⟨value, -, rfl⟩ := Option.mem_map.mp member
      exact clean_hex _
    rw [← digests, challengeText_clean clean hex]

end Challenge

/-! The key as the verifier decodes it. -/

section Key

open Base64 (encode digit value pad)

/-- Encoded octets are digits and at most two signs of padding. -/
theorem encode_shape (b : Bytes) : ∃ text pads, encode b = text ++ pads ∧ (∀ c ∈ text, (value c).isSome = true) ∧
    (∀ c ∈ pads, c = pad) ∧ pads.length ≤ 2 ∧ (text ++ pads).length % 4 = 0 ∧ (b ≠ [] → text ≠ []) := by
  have octet (x : UInt8) : x.toNat < 256 := x.toNat_lt
  have some (n : Nat) (small : n < 64) : (value (digit n)).isSome = true := by rw [Base64.value_digit n small]; rfl
  fun_induction encode b with
  | case1 => exact ⟨[], [], rfl, by simp, by simp, by simp, rfl, fun present => absurd rfl present⟩
  | case2 a =>
    have := octet a
    refine ⟨[_, _], [pad, pad], rfl, ?_, by simp, by simp, by simp, fun _ => List.cons_ne_nil _ _⟩
    simp only [List.forall_mem_cons, List.not_mem_nil, false_imp_iff, implies_true, and_true]
    exact ⟨some _ (by omega), some _ (by omega)⟩
  | case3 a b =>
    have := octet a; have := octet b
    refine ⟨[_, _, _], [pad], rfl, ?_, by simp, by simp, by simp, fun _ => List.cons_ne_nil _ _⟩
    simp only [List.forall_mem_cons, List.not_mem_nil, false_imp_iff, implies_true, and_true]
    exact ⟨some _ (by omega), some _ (by omega), some _ (by omega)⟩
  | case4 a b c rest ih =>
    have := octet a; have := octet b; have := octet c
    obtain ⟨text, pads, eq, digits, padding, short, whole, -⟩ := ih
    refine ⟨_ :: _ :: _ :: _ :: text, pads, by rw [eq]; rfl, ?_, padding, short, ?_, fun _ => List.cons_ne_nil _ _⟩
    · simp only [List.forall_mem_cons]
      exact ⟨some _ (by omega), some _ (by omega), some _ (by omega), some _ (by omega), digits⟩
    · simp only [List.cons_append, List.length_cons]
      omega

theorem isBase64Unit_value (c : UInt8) (known : (value c).isSome = true) :
    Verifier.AliyunVtpm.isBase64Unit (UInt16.ofNat c.toNat) = true := by
  have all : ∀ n < 256, (value (UInt8.ofNat n)).isSome = true →
      Verifier.AliyunVtpm.isBase64Unit (UInt16.ofNat n) = true := by
    decide +kernel
  exact all c.toNat c.toNat_lt (by rwa [UInt8.ofNat_toNat])

theorem isBase64Text_toBase64 {b : Bytes} (present : b ≠ []) :
    Verifier.AliyunVtpm.isBase64Text (Verifier.toBase64 b) = true := by
  obtain ⟨text, pads, eq, digits, padding, short, whole, some⟩ := encode_shape b
  have units : ∀ u ∈ text.map fun c => UInt16.ofNat c.toNat, Verifier.AliyunVtpm.isBase64Unit u = true := by
    intro u member
    obtain ⟨c, inside, rfl⟩ := List.mem_map.mp member
    exact isBase64Unit_value c (digits c inside)
  have signs : ∀ u ∈ pads.map fun c => UInt16.ofNat c.toNat, u = 0x3D := by
    intro u member
    obtain ⟨c, inside, rfl⟩ := List.mem_map.mp member
    rw [padding c inside]
    rfl
  have stops : (pads.map fun c => UInt16.ofNat c.toNat).takeWhile Verifier.AliyunVtpm.isBase64Unit = [] ∧
      (pads.map fun c => UInt16.ofNat c.toNat).dropWhile Verifier.AliyunVtpm.isBase64Unit =
        pads.map fun c => UInt16.ofNat c.toNat := by
    cases pads with
    | nil => exact ⟨rfl, rfl⟩
    | cons c rest =>
      have sign : UInt16.ofNat c.toNat = 0x3D := signs _ List.mem_cons_self
      have plain : Verifier.AliyunVtpm.isBase64Unit 0x3D = false := by decide
      rw [List.map_cons, sign, List.takeWhile_cons, List.dropWhile_cons, plain]
      exact ⟨rfl, rfl⟩
  have wholeText : (text.map fun c => UInt16.ofNat c.toNat).takeWhile Verifier.AliyunVtpm.isBase64Unit =
      text.map fun c => UInt16.ofNat c.toNat := List.takeWhile_eq_self_iff.mpr units
  rw [Verifier.toBase64, eq, List.map_append, Verifier.AliyunVtpm.isBase64Text,
    List.takeWhile_append_of_pos units, List.dropWhile_append_of_pos units, stops.1, stops.2]
  simp only [Bool.and_eq_true, Bool.not_eq_true', List.isEmpty_eq_false_iff, ne_eq, List.append_nil, List.map_eq_nil_iff,
    decide_eq_true_eq, List.length_map, List.all_eq_true, beq_iff_eq, List.length_append]
  exact ⟨⟨⟨some present, short⟩, signs⟩, by rwa [List.length_append] at whole⟩

/-- The verifier decodes a key of the helper back. -/
theorem decodeBase64_key {node : Node} (base64 : ∀ b, node.fromBase64 (Verifier.toBase64 b) = b) {spki : Bytes}
    (present : spki ≠ []) (short : spki.length ≤ Verifier.AliyunVtpm.maxFieldBytes) (label : String) :
    Verifier.AliyunVtpm.decodeBase64 node (JStr.ofChars (base64Text spki)) label = .ok spki := by
  have text : JStr.ofChars (base64Text spki) = Verifier.toBase64 spki := by
    have read := received_base64Text wholeDouble spki
    rw [Enclave.base64Text, received, JsVal.str.injEq] at read
    exact read
  have some : Verifier.toBase64 spki ≠ [] := by
    intro none
    have shown := isBase64Text_toBase64 present
    rw [none] at shown
    exact absurd shown (by decide)
  have length : ¬(spki.length = 0 ∨ spki.length > Verifier.AliyunVtpm.maxFieldBytes) := by
    rw [List.length_eq_zero_iff]
    rintro (none | long)
    · exact present none
    · omega
  rw [text, Verifier.AliyunVtpm.decodeBase64, if_neg some, base64]
  dsimp only
  rw [if_neg length, isBase64Text_toBase64 present]
  rfl

end Key

/-! Every proof the generator issues. -/

section Rederived

variable {go : Go} {node : Node} (hosts : GoHosts go node) {input : GenerateHashedInput} {opts : GenerateOptions}
  {g : Generated} (run : generateFromHashes go input opts = .ok g) {claims : Option JsVal} {evidence : JsVal}
  (reads : node.parseJson (JStr.ofChars (g.proof.text go)) = .ok (wire g.proof claims evidence))
  (read : ReadClaims g.proof.fieldClaims claims) (small : g.proof.httpStatus.natAbs < 2 ^ 53)

include hosts run reads read small

end Rederived

/-! One proof of the helper, with claims that are an empty object. -/

/-- A library that leaves case and space alone and knows what the two tables list. -/
def Go.sample (digests : List (Bytes × Digest)) (texts : List (Str × Any)) : Go where
  sha256 b := (digests.lookup b).getD noDigest
  toLower := id
  toUpper := id
  trimSpace := id
  decodeBase64 s :=
    if JStr.isAscii s then ((Base64.decode (Utf8.encode s)).map Except.ok).getD (.error "illegal base64 data")
    else .error "illegal base64 data"
  formatFloat _ := []
  unmarshal s := ((texts.lookup s).map Except.ok).getD (.error "unexpected end of JSON input")
  compact := id

theorem sample_hosts (digests : List (Bytes × Digest)) (values : List (Str × Any)) (texts : List (JStr × JsVal)) :
    GoHosts (Go.sample digests values) (Node.sample digests texts [] [] 0) where
  sha256 _ := rfl
  lowerTwice _ := rfl
  lowerBreak _ inside := inside
  upperBreak _ inside := inside
  base64Ascii s b decoded := by
    simp only [Go.sample] at decoded
    split at decoded
    next ascii => exact ascii
    next => cases decoded

def emptyClaims : Str := "\x7b\x7d".toList

def generatorGo : Go := .sample [] [(emptyClaims, .map [])]

def generatorInput : GenerateHashedInput where
  nonceB64 := "AAAA"
  upstreamHost := "api.example"
  upstreamPath := "/v1/chat"
  httpMethod := "POST"
  httpStatus := 200
  responseContentType := "text/plain"
  requestBodySha256Hex := List.replicate 64 '0'
  responseBodySha256Hex := List.replicate 64 '1'
  fieldClaims := emptyClaims

def generatorOptions : GenerateOptions where
  spki := [3, 3, 3]
  sign _ := [7, 7, 7]
  getQuote _ := .ok (⟨[1], [2], [4], [5], [6], 9⟩, ⟨"sdk", "commit", "handle"⟩)

/-- What the verifier's host reads the evidence as. -/
def EvidenceEnvelope.wire (e : EvidenceEnvelope) : JsVal :=
  let text (s : Str) : JsVal := .str (JStr.ofChars s)
  let octets (b : Bytes) : JsVal := text (base64Text b)
  let attester : JsVal := .ofObject [("sdk", text e.attester.sdk), ("sdk_commit", text e.attester.sdkCommit),
    ("quote_handle", text e.attester.quoteHandle)]
  let pcrInfo : JsVal := .ofObject [("pcr_values_b64", octets e.quoteReport.pcrValues),
    ("pcr_selection_out_b64", octets e.quoteReport.pcrSelectionOut),
    ("pcr_update_counter", .num (.finite e.quoteReport.pcrUpdateCounter.toNat))]
  let quoteReport : JsVal := .ofObject [("quoted_b64", octets e.quoteReport.quoted),
    ("signature_b64", octets e.quoteReport.signature), ("pcr_info", pcrInfo), ("cert_b64", octets e.quoteReport.cert)]
  let challenge : JsVal := .ofObject [("alg", text e.challenge.alg), ("payload_b64", text e.challenge.payloadB64),
    ("qualifying_data_hex", text e.challenge.qualifyingDataHex)]
  let revocation : JsVal := .ofObject [("checked", .bool false), ("method", .null)]
  let platform : JsVal := .ofObject [("mode", .lit "missing"), ("cert_chain_pem", .arr []), ("trust_anchor_id", .null),
    ("revocation", revocation)]
  .ofObject [("profile", .lit "aliyun-vtpm"), ("version", .num 1), ("attester", attester),
    ("quote_report", quoteReport), ("challenge", challenge), ("platform_attestation", platform)]

def generatorNode (g : Generated) : Node :=
  .sample [] [(JStr.ofChars (g.proof.text generatorGo), wire g.proof (some (.ofObject [])) g.proof.evidence.wire)] [] [] 0

theorem generator_run : ∃ g, generateFromHashes generatorGo generatorInput generatorOptions = .ok g := by
  have done : (generateFromHashes generatorGo generatorInput generatorOptions).isOk = true := by decide +kernel
  cases run : generateFromHashes generatorGo generatorInput generatorOptions with
  | error e => rw [run] at done; cases done
  | ok g => exact ⟨g, rfl⟩

theorem generatorNode_reads (g : Generated) : (generatorNode g).parseJson (JStr.ofChars (g.proof.text generatorGo)) =
    .ok (wire g.proof (some (.ofObject [])) g.proof.evidence.wire) := by
  simp [generatorNode, Node.sample, List.lookup]

theorem emptyClaims_read : ReadClaims emptyClaims (some (.ofObject [])) where
  present := by decide
  record := by
    rintro value ⟨⟩
    rfl

theorem emptyClaims_agree (g : Generated) :
    ClaimsAgree generatorGo (generatorNode g) emptyClaims (some (.ofObject [])) := by
  rintro value ⟨⟩
  exact ⟨Str.hex noDigest.1, rfl, by rw [fieldClaims_digest]; rfl⟩

/-- Claims whose text holds a character of HTML. -/
def htmlClaims : Any := .map [("a".toList, .string ['<'])]

def htmlText : Str := "\x7b\"a\":\"<\"\x7d".toList

def htmlDigests : List (Bytes × Digest) :=
  [(Utf8.encode (canonicalJson (Go.sample [] []) htmlClaims), ⟨List.replicate 32 1, by simp⟩)]

def htmlGo : Go := .sample htmlDigests [(htmlText, htmlClaims)]

def htmlNode : Node := .sample htmlDigests [] [] [] 0

theorem htmlGo_sha256 (b : Bytes) : htmlGo.sha256 b =
    if b = Utf8.encode (canonicalJson htmlGo htmlClaims) then ⟨List.replicate 32 1, by simp⟩ else noDigest := by
  have text : canonicalJson (Go.sample [] []) htmlClaims = canonicalJson htmlGo htmlClaims := rfl
  show ((htmlDigests.lookup b).getD noDigest) = _
  rw [htmlDigests, List.lookup_cons, text]
  by_cases equal : b = Utf8.encode (canonicalJson htmlGo htmlClaims)
  · simp [equal]
  · rw [beq_eq_false_iff_ne.mpr equal, if_neg equal]
    rfl

end TeeProof.AliyunProof
