import TeeProof.Base64
import TeeProof.Lines
import TeeProof.Serde
import TeeProof.Wire

/-! The signed statement. The enclave and the verifier lay the same nine or ten
lines out independently; a byte string that both produce determines every field. -/
namespace TeeProof.Enclave

variable (rust : Rust)

def noCrlf (s : Str) : Bool := !s.any fun c => c == '\r' || c == '\n'

def pathNoQuery (p : Str) : Str := p.takeWhile (· ≠ '?')

/-- The arguments of `build_v2_statement`. -/
structure SignedFields where
  nonceB64 : Str
  upstreamHost : Str
  upstreamPath : Str
  httpMethod : Str
  httpStatus : UInt16
  respContentType : Str
  requestBodySha256Hex : Str
  responseBodySha256Hex : Str
  fieldClaims : Option Value

def statementLines (e : SignedFields) : List Str :=
  ["tee-exchange-v2".toList,
    "nonce=".toList ++ e.nonceB64,
    "upstream-host=".toList ++ rust.toLowercase e.upstreamHost,
    "upstream-path=".toList ++ pathNoQuery e.upstreamPath,
    "http-method=".toList ++ rust.toUppercase e.httpMethod,
    "http-status=".toList ++ Str.natDigits e.httpStatus.toNat,
    "resp-content-type=".toList ++ e.respContentType,
    "request-body-sha256=".toList ++ e.requestBodySha256Hex,
    "response-body-sha256=".toList ++ e.responseBodySha256Hex] ++
  match e.fieldClaims with
  | none => []
  | some claims => ["field-claims-sha256=".toList ++ fieldClaimsSha256Hex rust claims]

def buildV2Statement (e : SignedFields) : Bytes :=
  Utf8.encode ((statementLines rust e).flatMap fun line => line ++ ['\n'])

def isHexChar (c : Char) : Bool := ('0' ≤ c && c ≤ '9') || ('a' ≤ c && c ≤ 'f')

/-- What `handle` has checked of every tuple it signs: the nonce decoded, no CR or
LF in a routing value or the content type, and digests written by `hex`. -/
structure Signable (e : SignedFields) : Prop where
  nonce : (Base64.decode (Utf8.encode e.nonceB64)).isSome
  host : noCrlf e.upstreamHost
  path : noCrlf e.upstreamPath
  method : noCrlf e.httpMethod
  contentType : noCrlf e.respContentType
  request : e.requestBodySha256Hex.length = 64 ∧ e.requestBodySha256Hex.all isHexChar
  response : e.responseBodySha256Hex.length = 64 ∧ e.responseBodySha256Hex.all isHexChar

/-- A text that adds no line to the statement. -/
def OneLine (s : Str) : Prop := '\n' ∉ s

theorem oneLine_append (h : OneLine s) (k : OneLine t) : OneLine (s ++ t) := by
  simp_all [OneLine]

theorem oneLine_noCrlf (h : noCrlf s) : OneLine s := by
  intro member
  have := (List.any_eq_false (p := fun c => c == '\r' || c == '\n')).mp (by simpa [noCrlf] using h) _ member
  simp at this

theorem oneLine_hex (h : s.all isHexChar) : OneLine s := by
  intro member
  have := List.all_eq_true.mp h _ member
  revert this; decide

theorem hexDigit_isHexChar (n : Nat) (small : n < 16) : isHexChar (Str.hexDigit n) = true := by
  revert n; decide

theorem all_hex (b : Bytes) : (Str.hex b).all isHexChar = true := by
  simp only [Str.hex, List.all_flatMap, List.all_eq_true, List.all_cons, List.all_nil, Bool.and_true,
    Bool.and_eq_true]
  intro x _
  have := x.toNat_lt
  exact ⟨hexDigit_isHexChar _ (by omega), hexDigit_isHexChar _ (by omega)⟩

theorem oneLine_digits (n : Nat) : OneLine (Str.natDigits n) := by
  intro member
  have := Nat.isDigit_of_mem_toDigits (by decide) (by decide) member
  revert this; decide

theorem oneLine_base64 (h : (Base64.decode (Utf8.encode s)).isSome) : OneLine s := by
  intro member
  obtain ⟨out, decoded⟩ := Option.isSome_iff_exists.mp h
  have := Base64.decode_text _ _ decoded 10 ((Utf8.mem_encode_ascii s '\n' (by decide)).mpr member)
  revert this; decide

theorem oneLine_path (h : noCrlf p) : OneLine (pathNoQuery p) := fun member =>
  oneLine_noCrlf h ((List.takeWhile_prefix _).subset member)

theorem statementLines_oneLine (e : SignedFields) (signable : Signable e) :
    ∀ line ∈ statementLines rust e, OneLine line := by
  have label (s : String) (plain : '\n' ∉ s.toList) (t : Str) (h : OneLine t) : OneLine (s.toList ++ t) :=
    oneLine_append plain h
  have host : OneLine (rust.toLowercase e.upstreamHost) := fun member =>
    oneLine_noCrlf signable.host (rust.lowercase_break _ _ (Or.inl rfl) member)
  have method : OneLine (rust.toUppercase e.httpMethod) := fun member =>
    oneLine_noCrlf signable.method (rust.uppercase_break _ _ (Or.inl rfl) member)
  intro line member
  rcases List.mem_append.mp member with fixed | claims
  · simp only [List.mem_cons, List.not_mem_nil, or_false] at fixed
    rcases fixed with rfl | rfl | rfl | rfl | rfl | rfl | rfl | rfl | rfl
    · simp [OneLine]
    · exact label _ (by decide) _ (oneLine_base64 signable.nonce)
    · exact label _ (by decide) _ host
    · exact label _ (by decide) _ (oneLine_path signable.path)
    · exact label _ (by decide) _ method
    · exact label _ (by decide) _ (oneLine_digits _)
    · exact label _ (by decide) _ (oneLine_noCrlf signable.contentType)
    · exact label _ (by decide) _ (oneLine_hex signable.request.2)
    · exact label _ (by decide) _ (oneLine_hex signable.response.2)
  · cases h : e.fieldClaims with
    | none => simp [h] at claims
    | some c =>
      simp only [h, List.mem_singleton] at claims
      subst claims
      exact label _ (by decide) _ (oneLine_hex (all_hex _))

theorem buildV2Statement_layout (e : SignedFields) :
    buildV2Statement rust e = Lines.layout 10 ((statementLines rust e).map Utf8.encode) := by
  simp only [buildV2Statement, Lines.layout]
  induction statementLines rust e with
  | nil => rfl
  | cons line rest ih =>
    have newline : String.utf8EncodeChar '\n' = [10] := by decide
    simpa [newline] using ih

theorem encode_oneLine (h : OneLine s) : (10 : UInt8) ∉ Utf8.encode s := fun member =>
  h ((Utf8.mem_encode_ascii s '\n' (by decide)).mp member)

end TeeProof.Enclave

namespace TeeProof.Verifier

variable (node : Node)

theorem utf8_layout (lines : List JStr) :
    JStr.utf8 (lines.flatMap fun line => line ++ [0x0A]) = Lines.layout 10 (lines.map JStr.utf8) := by
  induction lines with
  | nil => rfl
  | cons line rest ih =>
    have cut : JStr.utf8 (line ++ 0x0A :: rest.flatMap fun l => l ++ [0x0A]) =
        JStr.utf8 line ++ JStr.utf8 (0x0A :: rest.flatMap fun l => l ++ [0x0A]) :=
      JStr.utf8_append _ _ (by simp [JStr.isLow])
    have newline (s : JStr) : JStr.utf8 (0x0A :: s) = 10 :: JStr.utf8 s := by
      rw [JStr.utf8, JStr.toChars_cons _ _ (by decide)]; rfl
    simp only [List.flatMap_cons, List.append_assoc, List.singleton_append, List.map_cons,
      Lines.layout_cons, cut, newline, ih]

theorem buildV2Statement_layout (f : V2StatementFields) :
    buildV2Statement node f = Lines.layout 10 ((statementLines node f).map JStr.utf8) :=
  utf8_layout _

/-- The ASCII text of a label comes off both sides of a line. -/
theorem value_of_line (label : String) (plain : JStr.isAscii label.toList = true)
    (x : JStr) (y : Str) (same : JStr.utf8 (JStr.lit label ++ x) = Utf8.encode (label.toList ++ y)) :
    JStr.utf8 x = Utf8.encode y := by
  rw [JStr.utf8_lit_append label plain, Utf8.encode_append] at same
  exact List.append_cancel_left same

theorem before_ofChars (text : List Char) :
    JStr.before questionMark (JStr.ofChars text) = JStr.ofChars (text.takeWhile (· ≠ '?')) := by
  induction text with
  | nil => rfl
  | cons c rest ih =>
    by_cases query : c = '?'
    · subst query; rfl
    · have skip : ∀ u ∈ JStr.ofChar c, u ≠ questionMark := by
        intro u member same
        have single : JStr.toChars (JStr.ofChar c) = [c] := by simpa using JStr.toChars_ofChar c []
        have value : u.toNat = 63 := by rw [same]; rfl
        have valid : c.toNat.isValidChar := c.valid
        simp only [Nat.isValidChar] at valid
        unfold JStr.ofChar at member
        split at member
        next small =>
          rw [List.mem_singleton.mp member, UInt16.toNat_ofNat'] at value
          exact query (Char.ext (UInt32.toNat_inj.mp (by simpa using (by omega : c.toNat = 63))))
        next large =>
          simp only [List.mem_cons, List.not_mem_nil, or_false] at member
          rcases member with rfl | rfl <;> rw [UInt16.toNat_ofNat'] at value <;> omega
      simp only [JStr.before] at ih ⊢
      simp only [JStr.ofChars, List.flatMap_cons] at ih ⊢
      rw [List.takeWhile_append_of_pos (by simpa using skip), ih]
      simp [query]

theorem hexUnits_free (s : JStr) (hex : s.all JStr.isHexUnit = true) : (10 : UInt8) ∉ JStr.utf8 s := by
  intro member
  have := List.all_eq_true.mp hex _ ((JStr.mem_utf8_newline s).mp member)
  revert this; decide

end TeeProof.Verifier

namespace TeeProof

variable (rust : Rust) (node : Node)

open Verifier (TeeProofWire)

/-- A proof and a signed tuple agree on every field, strings by their encodings. -/
structure SameFields (t : TeeProofWire) (e : Enclave.SignedFields) : Prop where
  nonce : t.nonce.utf8 = Utf8.encode e.nonceB64
  host : (node.toLowerCase t.upstreamHost).utf8 = Utf8.encode (rust.toLowercase e.upstreamHost)
  path : (Verifier.pathWithoutQuery t.upstreamPath).utf8 = Utf8.encode (Enclave.pathNoQuery e.upstreamPath)
  method : (node.toUpperCase t.httpMethod).utf8 = Utf8.encode (rust.toUppercase e.httpMethod)
  status : t.httpStatus = .finite e.httpStatus.toNat
  contentType : t.respContentType.utf8 = Utf8.encode e.respContentType
  request : t.requestBodySha256.utf8 = Utf8.encode e.requestBodySha256Hex
  response : t.responseBodySha256.utf8 = Utf8.encode e.responseBodySha256Hex
  present : Verifier.isUndefined t.fieldClaims = e.fieldClaims.isNone
  claims : ∀ c ∈ e.fieldClaims, (Verifier.fieldClaimsSha256Hex node t.fieldClaims).utf8 =
    Utf8.encode (Enclave.fieldClaimsSha256Hex rust c)

theorem length_statementLines (e : Enclave.SignedFields) :
    (Enclave.statementLines rust e).length = if e.fieldClaims.isNone then 9 else 10 := by
  simp only [Enclave.statementLines]
  cases e.fieldClaims <;> rfl

theorem length_rebuiltLines (f : Verifier.V2StatementFields) :
    (Verifier.statementLines node f).length = if Verifier.isUndefined f.fieldClaims then 9 else 10 := by
  simp only [Verifier.statementLines]
  split <;> rfl

/-- Without field claims the last line is the response digest, which holds no LF. -/
theorem getLast_rebuilt (f : Verifier.V2StatementFields)
    (hex : f.responseBodySha256Hex.all JStr.isHexUnit = true)
    (absent : Verifier.isUndefined f.fieldClaims = true) :
    (((Verifier.statementLines node f).map JStr.utf8).flatMap (·.splitOn 10)).getLast? =
      some (JStr.utf8 (JStr.lit "response-body-sha256=" ++ f.responseBodySha256Hex)) := by
  have clean : (10 : UInt8) ∉ JStr.utf8 (JStr.lit "response-body-sha256=" ++ f.responseBodySha256Hex) := by
    rw [JStr.utf8_lit_append _ (by decide), List.mem_append, not_or]
    exact ⟨Enclave.encode_oneLine (by simp [Enclave.OneLine]), Verifier.hexUnits_free _ hex⟩
  simp only [Verifier.statementLines, absent, if_true, List.append_nil, List.map_cons, List.map_nil]
  exact Lines.getLast_pieces 10 [_, _, _, _, _, _, _, _] _ clean

/-- Equal statements are equal line by line: the rebuilt one cannot hide a line break
in a value, nor trade its response line for a claims line. -/
theorem lines_of_statement_eq (e : Enclave.SignedFields) (signable : Enclave.Signable e)
    (f : Verifier.V2StatementFields) (hex : f.responseBodySha256Hex.all JStr.isHexUnit = true)
    (same : Verifier.buildV2Statement node f = Enclave.buildV2Statement rust e) :
    (Verifier.statementLines node f).map JStr.utf8 = (Enclave.statementLines rust e).map Utf8.encode := by
  rw [Verifier.buildV2Statement_layout, Enclave.buildV2Statement_layout] at same
  have clean : ∀ l ∈ (Enclave.statementLines rust e).map Utf8.encode, (10 : UInt8) ∉ l := by
    intro l member
    obtain ⟨line, inside, rfl⟩ := List.mem_map.mp member
    exact Enclave.encode_oneLine (Enclave.statementLines_oneLine rust e signable line inside)
  have pieces := Lines.layout_eq_pieces 10 _ _ clean same
  have count := Lines.length_le_pieces 10 ((Verifier.statementLines node f).map JStr.utf8)
  rw [pieces] at count
  simp only [List.length_map, length_statementLines, length_rebuiltLines] at count
  cases absent : Verifier.isUndefined f.fieldClaims <;> cases none : e.fieldClaims.isNone
  case true.false =>
    -- nine lines against ten: the last pieces differ in their first octet
    obtain ⟨c, found⟩ := Option.isSome_iff_exists.mp (by simpa using none)
    have last := getLast_rebuilt node f hex absent
    rw [pieces] at last
    simp only [Enclave.statementLines, found, List.cons_append, List.nil_append, List.map_cons,
      List.map_nil, List.getLast?_cons_cons, List.getLast?_singleton, Option.some.injEq] at last
    rw [JStr.utf8_lit_append _ (by decide), Utf8.encode_append] at last
    have first := congrArg List.head? last
    rw [List.head?_append, List.head?_append,
      show (Utf8.encode "field-claims-sha256=".toList).head? = some 102 by decide,
      show (Utf8.encode "response-body-sha256=".toList).head? = some 114 by decide] at first
    simp at first
  case false.true => simp [absent, none] at count
  all_goals
    rw [← pieces]
    refine (Lines.pieces_eq_self 10 _ ?_).symm
    rw [pieces]
    simp [length_statementLines, length_rebuiltLines, absent, none]

theorem numberToString_nat (n : Nat) (small : n < 2 ^ 53) :
    Verifier.numberToString node (.finite n) = JStr.natDigits n := by
  have whole : (n : ℚ).den = 1 ∧ (n : ℚ).num.natAbs < 2 ^ 53 := ⟨rfl, small⟩
  rw [Verifier.numberToString, if_pos whole, Verifier.intDigits, if_neg (by simp)]
  rfl

/-- Fields that agree are laid out alike. -/
theorem statement_of_sameFields {t : TeeProofWire} {e : Enclave.SignedFields} (same : SameFields rust node t e) :
    Verifier.buildV2Statement node t.statementFields = Enclave.buildV2Statement rust e := by
  have line (label : String) (plain : JStr.isAscii label.toList = true) {x : JStr} {y : Str}
      (value : x.utf8 = Utf8.encode y) : (JStr.lit label ++ x).utf8 = Utf8.encode (label.toList ++ y) := by
    rw [JStr.utf8_lit_append label plain, value, Utf8.encode_append]
  have status : (Verifier.numberToString node t.httpStatus).utf8 = Utf8.encode (Str.natDigits e.httpStatus.toNat) := by
    rw [same.status, numberToString_nat node _ (by have := e.httpStatus.toNat_lt; omega), JStr.natDigits,
      JStr.utf8_ofChars]
    rfl
  have claims : (if Verifier.isUndefined t.fieldClaims then [] else
      [JStr.lit "field-claims-sha256=" ++ Verifier.fieldClaimsSha256Hex node t.fieldClaims]).map JStr.utf8 =
      (match e.fieldClaims with
        | none => []
        | some claims => ["field-claims-sha256=".toList ++ Enclave.fieldClaimsSha256Hex rust claims]).map
          Utf8.encode := by
    rw [same.present]
    cases signed : e.fieldClaims with
    | none => rfl
    | some c => exact congrArg (fun bytes => [bytes]) (line _ (by decide) (same.claims c signed))
  rw [Verifier.buildV2Statement_layout, Enclave.buildV2Statement_layout]
  congr 1
  simp only [Verifier.statementLines, Enclave.statementLines, Verifier.TeeProofWire.statementFields, List.map_append,
    List.map_cons, List.map_nil]
  have domain : (JStr.lit "tee-exchange-v2").utf8 = Utf8.encode "tee-exchange-v2".toList := JStr.utf8_ofChars _
  rw [domain, line "nonce=" (by decide) same.nonce, line "upstream-host=" (by decide) same.host,
    line "upstream-path=" (by decide) same.path, line "http-method=" (by decide) same.method,
    line "http-status=" (by decide) status, line "resp-content-type=" (by decide) same.contentType,
    line "request-body-sha256=" (by decide) same.request, line "response-body-sha256=" (by decide) same.response]
  exact congrArg (List.append _) claims

/-- The status line determines the status, because decimal numerals do. -/
theorem status_of_line (value : JsVal) (valid : Verifier.isHttpStatus value = true) (n : Nat)
    (same : (Verifier.numberToString node (Verifier.numberOr 0 value)).utf8 = Utf8.encode (Str.natDigits n)) :
    Verifier.numberOr 0 value = .finite n := by
  obtain ⟨m, whole, digits⟩ := Verifier.status_digits node value valid
  rw [digits, JStr.natDigits, JStr.utf8_ofChars] at same
  have numerals := congrArg (Nat.ofDigitChars 10 · 0) (Utf8.encode_injective same)
  simp only [Str.natDigits, Nat.ofDigitChars_toDigits (b := 10) (by decide) (by decide)] at numerals
  rw [whole, numerals]

theorem sameFields_of_lines (e : Enclave.SignedFields) (proof : JsVal)
    (status : Verifier.isHttpStatus (proof.get "http_status") = true)
    (lines : (Verifier.statementLines node (Verifier.readWire proof).statementFields).map JStr.utf8 =
      (Enclave.statementLines rust e).map Utf8.encode) :
    SameFields rust node (Verifier.readWire proof) e := by
  simp only [Verifier.statementLines, Enclave.statementLines, List.cons_append, List.nil_append,
    List.map_cons, List.cons.injEq] at lines
  obtain ⟨_, nonce, host, path, method, code, contentType, request, response, tail⟩ := lines
  have digits := Verifier.value_of_line "http-status=" (by decide) _ _ code
  have claims : Verifier.isUndefined (Verifier.readWire proof).fieldClaims = e.fieldClaims.isNone ∧
      ∀ c ∈ e.fieldClaims, (Verifier.fieldClaimsSha256Hex node (Verifier.readWire proof).fieldClaims).utf8 =
        Utf8.encode (Enclave.fieldClaimsSha256Hex rust c) := by
    simp only [Verifier.TeeProofWire.statementFields] at tail
    cases absent : Verifier.isUndefined (Verifier.readWire proof).fieldClaims <;>
      cases signed : e.fieldClaims <;>
      simp only [absent, signed, if_true, Bool.false_eq_true, if_false, List.map_cons, List.map_nil,
        List.cons.injEq, and_true, reduceCtorEq] at tail
    case false.some c =>
      refine ⟨rfl, fun d member => ?_⟩
      rw [← Option.some.inj member]
      exact Verifier.value_of_line "field-claims-sha256=" (by decide) _ _ tail
    case true.none => exact ⟨rfl, fun d member => by simp at member⟩
  exact {
    nonce := Verifier.value_of_line "nonce=" (by decide) _ _ nonce
    host := Verifier.value_of_line "upstream-host=" (by decide) _ _ host
    path := Verifier.value_of_line "upstream-path=" (by decide) _ _ path
    method := Verifier.value_of_line "http-method=" (by decide) _ _ method
    status := status_of_line node _ status _ digits
    contentType := Verifier.value_of_line "resp-content-type=" (by decide) _ _ contentType
    request := Verifier.value_of_line "request-body-sha256=" (by decide) _ _ request
    response := Verifier.value_of_line "response-body-sha256=" (by decide) _ _ response
    present := claims.1
    claims := claims.2 }

/-- A signed statement cannot be re-split: every accepted proof that rebuilds to it
carries the fields that were signed, its field claims or their absence included. -/
theorem sameFields_of_statement (e : Enclave.SignedFields) (signable : Enclave.Signable e)
    (proof : JsVal) (check : Verifier.TeeCheck)
    (run : Verifier.verifyWireEnvelope node proof = .ok check) (accepted : check.ok = true)
    (same : Verifier.buildV2Statement node (Verifier.readWire proof).statementFields =
      Enclave.buildV2Statement rust e) :
    SameFields rust node (Verifier.readWire proof) e := by
  have wire := Verifier.verifyWireEnvelope_accepted node proof check run accepted
  obtain ⟨digest, found, _⟩ := wire.strings "response_body_sha256" (by
    simp [Verifier.requiredProofStringFields])
  have hex : (Verifier.readWire proof).responseBodySha256.all JStr.isHexUnit = true := by
    have := wire.response digest found
    simp only [JStr.isHex64, Bool.and_eq_true] at this
    simpa [Verifier.readWire, found, Verifier.stringOr] using this.2
  exact sameFields_of_lines rust node e proof wire.status
    (lines_of_statement_eq rust node e signable _ hex same)

def sampleRust : Rust := Rust.sample [("{}".toList.map fun c => UInt8.ofNat c.toNat, emptyObjectDigest)] []
def sampleNode : Node :=
  Node.sample [("{}".toList.map fun c => UInt8.ofNat c.toNat, emptyObjectDigest)] [] [] [] 0

def sampleSigned : Enclave.SignedFields where
  nonceB64 := "AAAA".toList
  upstreamHost := "api.example".toList
  upstreamPath := "/v1?a=b".toList
  httpMethod := "post".toList
  httpStatus := 200
  respContentType := "text/plain".toList
  requestBodySha256Hex := "44136fa355b3678a1146ad16f7e8649e94fb4fc21fe77e8310c060f61caaff8a".toList
  responseBodySha256Hex := "44136fa355b3678a1146ad16f7e8649e94fb4fc21fe77e8310c060f61caaff8a".toList
  fieldClaims := some (.object [])

def sampleProof : JsVal := .ofObject
  [("v", .num 2), ("alg", .lit "ed25519"), ("public_key", .lit ""), ("nonce", .lit "AAAA"),
    ("upstream_host", .lit "API.example"), ("upstream_path", .lit "/v1"), ("http_method", .lit "POST"),
    ("http_status", .num 200), ("resp_content_type", .lit "text/plain"),
    ("request_body_sha256", .lit "44136fa355b3678a1146ad16f7e8649e94fb4fc21fe77e8310c060f61caaff8a"),
    ("response_body_sha256", .lit "44136fa355b3678a1146ad16f7e8649e94fb4fc21fe77e8310c060f61caaff8a"),
    ("signature", .lit ""), ("attestation", .lit ""), ("field_claims", .empty)]

theorem sampleSigned_signable : Enclave.Signable sampleSigned :=
  ⟨by decide, by decide, by decide, by decide, by decide, by decide, by decide⟩

theorem sampleProof_accepted :
    ∃ check, Verifier.verifyWireEnvelope sampleNode sampleProof = .ok check ∧ check.ok = true := by
  refine ⟨_, rfl, ?_⟩
  decide

theorem sampleProof_statement :
    Verifier.buildV2Statement sampleNode (Verifier.readWire sampleProof).statementFields =
      Enclave.buildV2Statement sampleRust sampleSigned := by
  decide +kernel

theorem sameFields_of_statement_sample :
    ∃ check, Verifier.verifyWireEnvelope sampleNode sampleProof = .ok check ∧ check.ok = true ∧
      SameFields sampleRust sampleNode (Verifier.readWire sampleProof) sampleSigned := by
  obtain ⟨check, run, accepted⟩ := sampleProof_accepted
  exact ⟨check, run, accepted, sameFields_of_statement sampleRust sampleNode sampleSigned
    sampleSigned_signable sampleProof check run accepted sampleProof_statement⟩

end TeeProof
