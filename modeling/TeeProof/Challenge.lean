import TeeProof.JsonText
import TeeProof.PcrBinding

/-! A quote belongs to one exchange. The challenge is a canonical JSON object of the
exchange's fields; its text is read back field by field, so two proofs that show one
quote agree on every field that went into it. -/
namespace TeeProof.Verifier.AliyunVtpm

open JsVal JStr Delimited

variable (node : Node)

/-! Objects of strings and numbers. -/

inductive Scalar where
  | text (s : JStr)
  | number (n : Nat)

namespace Scalar

def print : Scalar → JStr
  | text s => quote s
  | number n => natDigits n

def toJs : Scalar → JsVal
  | text s => .str s
  | number n => .num (.finite n)

def small : Scalar → Prop
  | text _ => True
  | number n => n < 2 ^ 53

theorem stringify_toJs (v : Scalar) (small : v.small) : stringify node v.toJs = v.print := by
  cases v with
  | text s => rfl
  | number n =>
    have whole : ((n : ℚ).den = 1 ∧ (n : ℚ).num.natAbs < 2 ^ 53) := ⟨rfl, small⟩
    simp only [toJs, stringify, numberToString, whole, and_self, if_true, intDigits, print]
    rw [if_neg (by simp)]
    rfl

end Scalar

/-- What may follow a member: a comma or the closing brace. -/
def EndsMember (u : UInt16) : Prop := u = 0x2C ∨ u = 0x7D

def member (p : JStr × Scalar) : JStr := quote p.1 ++ 0x3A :: p.2.print

theorem natDigits_unmarked (n : Nat) : ∀ u ∈ natDigits n, ¬EndsMember u := by
  rintro u inside (rfl | rfl)
  · exact absurd (natDigits_digit n _ inside).1 (by decide)
  · exact absurd (natDigits_digit n _ inside).2 (by decide)

theorem natDigits_ne_quote (n : Nat) (s x y : JStr) : natDigits n ++ x ≠ quote s ++ y := by
  intro same
  have nonempty : natDigits n ≠ [] := by
    intro none
    have digits : Nat.toDigits 10 n = [] := ofChars_injective none
    exact Nat.toDigits_ne_nil digits
  obtain ⟨u, rest, eq⟩ := List.exists_cons_of_ne_nil nonempty
  rw [eq] at same
  have head : u = 0x22 := (List.cons.inj same).1
  have digit := natDigits_digit n u (by rw [eq]; simp)
  rw [head] at digit
  exact absurd digit.1 (by decide)

theorem member_reads (p : JStr × Scalar) : Delimited.Reads EndsMember member p := by
  obtain ⟨key, v⟩ := p
  rintro ⟨key', w⟩ x y ends ends' eq
  simp only [member, List.append_assoc, List.cons_append] at eq
  obtain ⟨rfl, tail⟩ := quote_reads _ _ _ _ eq
  have values := (List.cons.inj tail).2
  cases v with
  | text s =>
    cases w with
    | text t =>
      obtain ⟨rfl, rest⟩ := quote_reads s t x y values
      exact ⟨rfl, rest⟩
    | number n => exact absurd values.symm (natDigits_ne_quote n s y x)
  | number m =>
    cases w with
    | text t => exact absurd values (natDigits_ne_quote m t x y)
    | number n =>
      obtain ⟨same, rest⟩ := unmarked_append (natDigits_unmarked m) (natDigits_unmarked n) ends ends' values
      rw [natDigits_injective same]
      exact ⟨rfl, rest⟩

/-- `jcsCanonicalize` of such an object. -/
def jcsText (fields : List (JStr × Scalar)) : JStr :=
  0x7B :: commaJoin ((fields.insertionSort fun p q => JStr.le p.1 q.1).map member) ++ [0x7D]

theorem jcsCanonicalize_eq (fields : List (String × Scalar)) (small : ∀ p ∈ fields, p.2.small) :
    jcsCanonicalize node (fields.map fun p => (p.1, p.2.toJs)) =
      jcsText (fields.map fun p => (JStr.lit p.1, p.2)) := by
  have order : (((fields.map fun p => (p.1, p.2.toJs)).map fun p => (JStr.lit p.1, p.2)).insertionSort
      fun p q => JStr.le p.1 q.1) =
      ((fields.map fun p => (JStr.lit p.1, p.2)).insertionSort fun p q => JStr.le p.1 q.1).map
        fun p => (p.1, p.2.toJs) := by
    rw [List.map_insertionSort (s := fun p q => JStr.le p.1 q.1) _ _ _ (by intros; rfl), List.map_map, List.map_map]
    rfl
  dsimp only [jcsCanonicalize, jcsText]
  rw [order, List.map_map]
  congr 3
  refine List.map_congr_left ?_
  intro p inside
  rw [(List.perm_insertionSort _ _).mem_iff] at inside
  obtain ⟨q, origin, rfl⟩ := List.mem_map.mp inside
  simp only [Function.comp, member, Scalar.stringify_toJs node q.2 (small q origin)]

/-- The text of an object determines the value under each key. -/
theorem jcsText_reads (fields others : List (JStr × Scalar)) (nodup : (fields.map Prod.fst).Nodup)
    (nodup' : (others.map Prod.fst).Nodup) (same : jcsText fields = jcsText others) (key : JStr) :
    fields.lookup key = others.lookup key := by
  have text := (List.cons.inj same).2
  rw [commaJoin_eq, commaJoin_eq] at text
  have fresh (p : JStr × Scalar) (z w : JStr) : member p ++ z ≠ 0x7D :: w := by
    intro eq
    have head : (0x22 : UInt16) = 0x7D := (List.cons.inj eq).1
    exact absurd head (by decide)
  obtain ⟨sorted, _⟩ := separated_reads (.inl rfl) (.inr rfl) (by decide) fresh _ (fun p _ => member_reads p) _
    [] [] text
  have left := List.perm_insertionSort (fun p q : JStr × Scalar => JStr.le p.1 q.1) fields
  have right := List.perm_insertionSort (fun p q : JStr × Scalar => JStr.le p.1 q.1) others
  rw [← Assoc.lookup_perm left ((left.map _).nodup_iff.mpr nodup), sorted,
    Assoc.lookup_perm right ((right.map _).nodup_iff.mpr nodup')]

theorem jcsText_wellFormed (fields : List (JStr × Scalar)) : WellFormed (jcsText fields) := by
  have one (p : JStr × Scalar) : WellFormed (member p) := by
    refine (quote_wellFormed p.1).append (wellFormed_cons (by decide) (by decide) ?_)
    cases p.2 with
    | text s => exact quote_wellFormed s
    | number n => exact ⟨_, rfl⟩
  have all (ps : List (JStr × Scalar)) : WellFormed (commaJoin (ps.map member)) := by
    rw [commaJoin_eq]
    cases ps with
    | nil => exact .nil
    | cons p rest =>
      refine (one p).append ?_
      induction rest with
      | nil => exact .nil
      | cons q rest ih =>
        rw [List.map_cons, List.flatMap_cons]
        exact (wellFormed_cons (by decide) (by decide) (one q)).append ih
  exact wellFormed_cons (by decide) (by decide) ((all _).append (wellFormed_unit (by decide) (by decide)))

/-! The challenge. -/

def challengeFields (t : TeeProofWire) (status : Nat) (key : Bytes) : List (String × Scalar) :=
  [("http_method", .text t.httpMethod), ("http_status", .number status), ("nonce", .text t.nonce),
    ("profile", .text "aliyun-vtpm"), ("request_body_sha256", .text t.requestBodySha256),
    ("resp_content_type", .text t.respContentType), ("response_body_sha256", .text t.responseBodySha256),
    ("statement_public_key_sha256", .text (sha256Hex node key)), ("upstream_host", .text t.upstreamHost),
    ("upstream_path", .text t.upstreamPath)] ++
  if isTruthy t.fieldClaims then [("field_claims_sha256", .text (fieldClaimsSha256Hex node t.fieldClaims))] else []

def challengeText (t : TeeProofWire) (status : Nat) (key : Bytes) : JStr :=
  jcsText ((challengeFields node t status key).map fun p => (JStr.lit p.1, p.2))

theorem buildAliyunVtpmChallengePayload_ok {t : TeeProofWire} {payload : JStr}
    (run : buildAliyunVtpmChallengePayload node t = .ok payload) (status : Nat) (whole : t.httpStatus = .finite status)
    (small : status < 2 ^ 53) :
    ∃ key, decodeBase64 node t.publicKey "public_key" = .ok key ∧ payload = challengeText node t status key := by
  obtain ⟨key, decoded, run⟩ := Throws.bind_ok run
  refine ⟨key, decoded, ?_⟩
  cases run
  rw [challengeText, ← jcsCanonicalize_eq node _ ?_]
  · rw [whole, challengeFields, List.map_append]
    cases isTruthy t.fieldClaims <;> rfl
  · intro p inside
    rcases List.mem_append.mp inside with base | claims
    · simp only [List.mem_cons, List.not_mem_nil, or_false] at base
      rcases base with rfl | rfl | rfl | rfl | rfl | rfl | rfl | rfl | rfl | rfl
      case inr.inl => exact small
      all_goals trivial
    · split at claims
      · rw [List.mem_singleton.mp claims]
        trivial
      · simp at claims

theorem lookup_lit {α : Type} (fields : List (String × α)) (key : String) :
    (fields.map fun p => (JStr.lit p.1, p.2)).lookup (JStr.lit key) = fields.lookup key := by
  induction fields with
  | nil => rfl
  | cons p rest ih =>
    have keys : (JStr.lit key == JStr.lit p.1) = (key == p.1) := by
      rw [Bool.eq_iff_iff, beq_iff_eq, beq_iff_eq]
      exact ⟨lit_injective, congrArg _⟩
    rw [List.map_cons, List.lookup_cons, List.lookup_cons, keys, ih]

theorem challengeFields_nodup (t : TeeProofWire) (status : Nat) (key : Bytes) :
    (((challengeFields node t status key).map fun p => (JStr.lit p.1, p.2)).map Prod.fst).Nodup := by
  have names : ((challengeFields node t status key).map Prod.fst).Nodup := by
    rw [challengeFields, List.map_append]
    cases isTruthy t.fieldClaims <;> simp
  rw [List.map_map]
  have literal : (Prod.fst ∘ fun p : String × Scalar => (JStr.lit p.1, p.2)) = JStr.lit ∘ Prod.fst := rfl
  rw [literal, ← List.map_map]
  exact names.map fun _ _ => lit_injective

/-- The fields of the exchange that a challenge names. -/
structure SameExchange (p q : TeeProofWire) : Prop where
  nonce : p.nonce = q.nonce
  upstreamHost : p.upstreamHost = q.upstreamHost
  upstreamPath : p.upstreamPath = q.upstreamPath
  httpMethod : p.httpMethod = q.httpMethod
  httpStatus : p.httpStatus = q.httpStatus
  respContentType : p.respContentType = q.respContentType
  requestBodySha256 : p.requestBodySha256 = q.requestBodySha256
  responseBodySha256 : p.responseBodySha256 = q.responseBodySha256
  publicKey : ∃ key, decodeBase64 node p.publicKey "public_key" = .ok key ∧
    decodeBase64 node q.publicKey "public_key" = .ok key
  fieldClaims : isUndefined p.fieldClaims = true ∧ isUndefined q.fieldClaims = true ∨
    isUndefined p.fieldClaims = false ∧ isUndefined q.fieldClaims = false ∧
      fieldClaimsSha256Hex node p.fieldClaims = fieldClaimsSha256Hex node q.fieldClaims

theorem isTruthy_claims {value : JsVal} (valid : isUndefined value = true ∨ value.isRecord = true) :
    isTruthy value = !isUndefined value := by
  cases value <;> simp_all [isUndefined, isRecord, isTruthy]

/-- One challenge, one exchange. -/
theorem sameExchange_of_text {p q : TeeProofWire} {m n : Nat} {key key' : Bytes}
    (left : p.httpStatus = .finite m) (right : q.httpStatus = .finite n)
    (decoded : decodeBase64 node p.publicKey "public_key" = .ok key)
    (decoded' : decodeBase64 node q.publicKey "public_key" = .ok key')
    (claims : isTruthy p.fieldClaims = !isUndefined p.fieldClaims)
    (claims' : isTruthy q.fieldClaims = !isUndefined q.fieldClaims)
    (keys : node.sha256 key = node.sha256 key' → key = key')
    (same : challengeText node p m key = challengeText node q n key') : SameExchange node p q := by
  have under (name : String) :
      (challengeFields node p m key).lookup name = (challengeFields node q n key').lookup name := by
    have read := jcsText_reads _ _ (challengeFields_nodup node p m key) (challengeFields_nodup node q n key') same
      (JStr.lit name)
    rwa [lookup_lit, lookup_lit] at read
  have method := under "http_method"
  have status := under "http_status"
  have nonce := under "nonce"
  have request := under "request_body_sha256"
  have contentType := under "resp_content_type"
  have response := under "response_body_sha256"
  have publicKey := under "statement_public_key_sha256"
  have host := under "upstream_host"
  have path := under "upstream_path"
  have fields := under "field_claims_sha256"
  simp only [challengeFields, List.cons_append, List.nil_append, List.lookup_cons, String.reduceBEq, beq_self_eq_true,
    Option.some.injEq, Scalar.text.injEq, Scalar.number.injEq]
    at method status nonce request contentType response publicKey host path fields
  obtain rfl := keys (JStr.hex_injective_digest publicKey)
  refine ⟨nonce, host, path, method, by rw [left, right, status], contentType, request, response,
    ⟨key, decoded, decoded'⟩, ?_⟩
  rw [claims, claims'] at fields
  cases absent : isUndefined p.fieldClaims <;> cases absent' : isUndefined q.fieldClaims
  · refine .inr ⟨rfl, rfl, ?_⟩
    simpa [absent, absent', List.lookup_cons] using fields
  · simp [absent, absent'] at fields
  · simp [absent, absent'] at fields
  · exact .inl ⟨rfl, rfl⟩

/-! The quoted bytes, raw or wrapped. -/

def IsAttest (b : Bytes) : Prop := 4 ≤ b.length ∧ beNat (b.take 4) = tpmGeneratedValue

theorem parseTpmsAttestQuote_isAttest {buf : Bytes} {quote : ParsedQuote}
    (h : parseTpmsAttestQuote buf = .ok quote) : IsAttest buf := by
  obtain ⟨rest, h⟩ := runReader_ok h
  obtain ⟨magic, _, read, h⟩ := Reader.bind_ok h
  obtain ⟨four, _, taken, read⟩ := Reader.bind_ok read
  cases pure_ok read
  split at h
  next => cases h
  next right =>
    unfold bytes at taken
    split at taken
    next => cases taken
    next enough =>
      cases taken
      exact ⟨Nat.le_of_not_lt enough, not_not.mp right⟩

/-- `raw` is a TPMS_ATTEST or the TPM2B_ATTEST around one. -/
def Carries (raw attest : Bytes) : Prop :=
  raw = attest ∨ attest.length < 2 ^ 16 ∧ raw = tpm2bOf attest

theorem normalize_isAttest (b : Bytes) (attest : IsAttest b) : normalizeQuotedAttest b = b :=
  if_pos attest

theorem beNat_size (n : Nat) (small : n < 2 ^ 16) : beNat [UInt8.ofNat (n / 256), UInt8.ofNat n] = n := by
  simp only [beNat, List.foldl_cons, List.foldl_nil, UInt8.toNat_ofNat']
  omega

theorem beNat_four (a b c d : UInt8) (rest : Bytes) :
    beNat ((a :: b :: c :: d :: rest).take 4) = ((a.toNat * 256 + b.toNat) * 256 + c.toNat) * 256 + d.toNat := by
  simp [beNat]

/-- Bytes whose size field reads as the magic number are no quote. -/
theorem normalize_of_size (b : Bytes) (small : b.length < 2 ^ 16) (outer : IsAttest (tpm2bOf b)) :
    ¬IsAttest (normalizeQuotedAttest b) := by
  obtain ⟨enough, magic⟩ := outer
  rcases b with _ | ⟨x, _ | ⟨y, rest⟩⟩
  · simp [tpm2bOf] at enough
  · simp [tpm2bOf] at enough
  · have left := x.toNat_lt
    have right := y.toNat_lt
    rw [tpm2bOf, beNat_four, UInt8.toNat_ofNat', UInt8.toNat_ofNat', tpmGeneratedValue] at magic
    have length : (x :: y :: rest).length = 0xFF54 := by omega
    have first : x.toNat = 0x43 := by omega
    have second : y.toNat = 0x47 := by omega
    have plain : ¬IsAttest (x :: y :: rest) := by
      rintro ⟨_, magic⟩
      rcases rest with _ | ⟨z, _ | ⟨w, rest⟩⟩
      · simp at length
      · simp at length
      · have := z.toNat_lt
        have := w.toNat_lt
        rw [beNat_four, tpmGeneratedValue] at magic
        omega
    have sized : beNat ((x :: y :: rest).take 2) = x.toNat * 256 + y.toNat := by simp [beNat]
    have kept : normalizeQuotedAttest (x :: y :: rest) = x :: y :: rest := by
      refine (if_neg plain).trans (if_neg ?_)
      rintro ⟨_, size, _⟩
      omega
    rw [kept]
    exact plain

theorem normalize_tpm2bOf (b : Bytes) (small : b.length < 2 ^ 16) (attest : IsAttest b) :
    normalizeQuotedAttest (tpm2bOf b) = b := by
  have plain : ¬IsAttest (tpm2bOf b) := by
    intro outer
    apply normalize_of_size b small outer
    rwa [normalize_isAttest b attest]
  have stripped : (tpm2bOf b).length ≥ 6 ∧ beNat ((tpm2bOf b).take 2) = (tpm2bOf b).length - 2 ∧
      beNat (slice (tpm2bOf b) 2 4) = tpmGeneratedValue :=
    ⟨Nat.add_le_add_right attest.1 2, beNat_size b.length small, attest.2⟩
  exact (if_neg plain).trans (if_pos stripped)

/-- A wrapped quote loses its size field, unless the field itself reads as the magic
number; the same bytes without it are then no quote. -/
theorem normalize_wrapped (b : Bytes) (small : b.length < 2 ^ 16)
    (wrapped : IsAttest (normalizeQuotedAttest (tpm2bOf b))) (plain : IsAttest (normalizeQuotedAttest b)) :
    normalizeQuotedAttest (tpm2bOf b) = normalizeQuotedAttest b := by
  by_cases outer : IsAttest (tpm2bOf b)
  · exact absurd plain (normalize_of_size b small outer)
  · by_cases inner : IsAttest b
    · rw [normalize_isAttest b inner]
      exact normalize_tpm2bOf b small inner
    · have kept : normalizeQuotedAttest (tpm2bOf b) = tpm2bOf b := by
        refine (if_neg outer).trans (if_neg ?_)
        rintro ⟨enough, _, magic⟩
        rw [tpm2bOf, List.length_cons, List.length_cons] at enough
        exact inner ⟨by omega, magic⟩
      rw [kept] at wrapped
      exact absurd wrapped outer

theorem normalize_carried {raw raw' attest : Bytes} (left : Carries raw attest) (right : Carries raw' attest)
    (plain : IsAttest (normalizeQuotedAttest raw)) (plain' : IsAttest (normalizeQuotedAttest raw')) :
    normalizeQuotedAttest raw = normalizeQuotedAttest raw' := by
  rcases left with rfl | ⟨small, rfl⟩
  · rcases right with rfl | ⟨small, rfl⟩
    · rfl
    · exact (normalize_wrapped _ small plain' plain).symm
  · rcases right with rfl | ⟨_, rfl⟩
    · exact normalize_wrapped _ small plain plain'
    · rfl

/-- The bytes of `quoted_b64`. -/
def rawQuoted (proof : TeeProofWire) : Throws Bytes := do
  let evidence ← parseEvidence node proof
  requiredBase64 node (field (field evidence "quote_report") "quoted_b64") "quote_report.quoted_b64"

theorem readQuoteReport_quote (evidence : JsVal) (trust : EvidenceTrust) (report : QuoteReport node)
    (read : (readQuoteReport node evidence trust).1 = some report) :
    ∃ raw, requiredBase64 node (field (field evidence "quote_report") "quoted_b64") "quote_report.quoted_b64" =
      .ok raw ∧ report.quote = normalizeQuotedAttest raw := by
  unfold readQuoteReport at read
  dsimp only at read
  split at read
  next => cases read
  next raw found =>
    refine ⟨raw, found, ?_⟩
    split at read
    next =>
      cases read
      rfl
    next =>
      split at read
      next =>
        cases read
        rfl
      next =>
        cases read
        rfl

theorem QuoteRun.Accepted.quoted_eq {run : QuoteRun node} {proof : TeeProofWire} {trust : EvidenceTrust}
    {now : Option ℚ} {verdict : EvidenceVerdict} (accepted : run.Accepted node proof trust now verdict) {raw : Bytes}
    (carried : rawQuoted node proof = .ok raw) : run.quoted = normalizeQuotedAttest raw := by
  obtain ⟨raw', found, eq⟩ := readQuoteReport_quote node _ _ _ accepted.read
  rw [rawQuoted, accepted.parsed] at carried
  rw [Except.ok.inj (carried.symm.trans found)]
  exact eq

/-- What the host hashes for the challenge of a proof. -/
def challengeMessages (t : TeeProofWire) : Set Bytes :=
  {message | (∃ payload, buildAliyunVtpmChallengePayload node t = .ok payload ∧ message = payload.utf8) ∨
    decodeBase64 node t.publicKey "public_key" = .ok message}

def WireValid (proof : JsVal) : Prop := ∃ c, verifyWireEnvelope node proof = .ok c ∧ c.ok = true

theorem WireValid.accepted {proof : JsVal} (valid : WireValid node proof) : Accepted proof := by
  obtain ⟨c, run, ok⟩ := valid
  exact verifyWireEnvelope_accepted node proof c run ok

theorem WireValid.status {proof : JsVal} (valid : WireValid node proof) :
    ∃ n : Nat, (readWire proof).httpStatus = .finite n ∧ n < 2 ^ 53 := by
  have status := (valid.accepted node).status
  obtain ⟨n, whole, _⟩ := status_digits node _ status
  refine ⟨n, whole, ?_⟩
  cases value : proof.get "http_status" with
  | num number =>
    rw [value] at status whole
    obtain rfl : number = .finite n := whole
    simp only [isHttpStatus, Bool.and_eq_true, decide_eq_true_eq] at status
    have bound : ((n : ℚ).num) ≤ 599 := status.2
    rw [Rat.num_natCast] at bound
    omega
  | _ => simp [value, isHttpStatus] at status

/-- A quote vouches for one exchange: two valid proofs accepted with the same quoted
bytes agree on every field of the challenge. -/
theorem quote_not_transferable (p q : JsVal) (trust trust' : EvidenceTrust) (now now' : Option ℚ)
    (verdict verdict' : EvidenceVerdict) (valid : WireValid node p) (valid' : WireValid node q)
    (run : verifyEvidence node (readWire p) trust now = .ok verdict) (ok : verdict.ok = true)
    (run' : verifyEvidence node (readWire q) trust' now' = .ok verdict') (ok' : verdict'.ok = true)
    (raw raw' attest : Bytes) (read : rawQuoted node (readWire p) = .ok raw)
    (read' : rawQuoted node (readWire q) = .ok raw') (carried : Carries raw attest) (carried' : Carries raw' attest)
    (injective : Set.InjOn node.sha256 (challengeMessages node (readWire p) ∪ challengeMessages node (readWire q))) :
    SameExchange node (readWire p) (readWire q) := by
  obtain ⟨r, accepted⟩ := verifyEvidence_accepted node _ _ _ _ run ok
  obtain ⟨r', accepted'⟩ := verifyEvidence_accepted node _ _ _ _ run' ok'
  have quoted := accepted.quoted_eq node read
  have quoted' := accepted'.quoted_eq node read'
  have plain := parseTpmsAttestQuote_isAttest accepted.structured
  have plain' := parseTpmsAttestQuote_isAttest accepted'.structured
  -- one quote is read, so one digest is compared with both challenges
  have same : r.quoted = r'.quoted := by
    rw [quoted] at plain ⊢
    rw [quoted'] at plain' ⊢
    exact normalize_carried carried carried' plain plain'
  have quote : r.quote = r'.quote := by
    have parsed := accepted.structured
    rw [same, accepted'.structured] at parsed
    exact (Except.ok.inj parsed).symm
  have digest : node.sha256 r.payload.utf8 = node.sha256 r'.payload.utf8 := by
    refine Subtype.ext ?_
    rw [← accepted.challenged, ← accepted'.challenged, quote]
  have messages := injective (.inl (.inl ⟨_, accepted.rebuilt, rfl⟩)) (.inr (.inl ⟨_, accepted'.rebuilt, rfl⟩)) digest
  obtain ⟨m, status, small⟩ := valid.status node
  obtain ⟨n, status', small'⟩ := valid'.status node
  obtain ⟨key, decoded, payload⟩ := buildAliyunVtpmChallengePayload_ok node accepted.rebuilt m status small
  obtain ⟨key', decoded', payload'⟩ := buildAliyunVtpmChallengePayload_ok node accepted'.rebuilt n status' small'
  rw [payload, payload'] at messages
  refine sameExchange_of_text node status status' decoded decoded' (isTruthy_claims (valid.accepted node).claims)
    (isTruthy_claims (valid'.accepted node).claims) ?_
    (utf8_injective (jcsText_wellFormed _) (jcsText_wellFormed _) messages)
  exact fun hashes => injective (.inl (.inr decoded)) (.inr (.inr decoded')) hashes

/-- The sample proof as an object. -/
def vtpmProof (evidence : JsVal) : JsVal := .ofObject
  [("v", .num 2), ("alg", .lit "ed25519"), ("public_key", .lit "AwMD"), ("nonce", .lit "AAAA"),
    ("upstream_host", .lit "api.example"), ("upstream_path", .lit "/v1"), ("http_method", .lit "POST"),
    ("http_status", .num 200), ("resp_content_type", .lit "text/plain"),
    ("request_body_sha256", .str (sha256Hex (Node.sample [] [] [] [] 0) [])),
    ("response_body_sha256", .str (sha256Hex (Node.sample [] [] [] [] 0) [])),
    ("signature", .lit "BwcH"), ("attestation", .lit ""), ("evidence", evidence)]

theorem sampleMessages (t : TeeProofWire)
    (built : JStr.utf8 <$> buildAliyunVtpmChallengePayload vtpmNode t = .ok samplePayload)
    (decoded : decodeBase64 vtpmNode t.publicKey "public_key" = .ok [3, 3, 3]) :
    challengeMessages vtpmNode t ⊆ {samplePayload, [3, 3, 3]} := by
  rintro message (⟨payload, run, rfl⟩ | run)
  · rw [run] at built
    exact .inl (Except.ok.inj built)
  · exact .inr (Except.ok.inj (run.symm.trans decoded))

theorem sampleMessages_injective : Set.InjOn vtpmNode.sha256 {samplePayload, [3, 3, 3]} := by
  have apart : vtpmNode.sha256 samplePayload ≠ vtpmNode.sha256 [3, 3, 3] := by decide +kernel
  rintro a (rfl | rfl) b (rfl | rfl) same
  · rfl
  · exact absurd same apart
  · exact absurd same.symm apart
  · rfl

/-- One quote, raw in one proof and wrapped in the other. -/
theorem quote_not_transferable_sample :
    SameExchange vtpmNode (readWire (vtpmProof (vtpmEvidence sampleQuote (samplePcrs.map samplePcr))))
      (readWire (vtpmProof (vtpmEvidence (tpm2bOf sampleQuote) (samplePcrs.map samplePcr)))) := by
  have valid (evidence : JsVal) (check : TeeCheck.ok <$> verifyWireEnvelope vtpmNode (vtpmProof evidence) = .ok true) :
      WireValid vtpmNode (vtpmProof evidence) := Throws.map_ok check
  have accepted (evidence : JsVal) (check : EvidenceVerdict.ok <$>
      verifyEvidence vtpmNode (readWire (vtpmProof evidence)) (vtpmTrust (samplePcr 11)) none = .ok true) :
      ∃ verdict, verifyEvidence vtpmNode (readWire (vtpmProof evidence)) (vtpmTrust (samplePcr 11)) none = .ok verdict ∧
        verdict.ok = true := Throws.map_ok check
  obtain ⟨verdict, run, ok⟩ := accepted (vtpmEvidence sampleQuote (samplePcrs.map samplePcr)) (by decide +kernel)
  obtain ⟨verdict', run', ok'⟩ :=
    accepted (vtpmEvidence (tpm2bOf sampleQuote) (samplePcrs.map samplePcr)) (by decide +kernel)
  refine quote_not_transferable vtpmNode _ _ _ _ none none verdict verdict' (valid _ (by decide))
    (valid _ (by decide +kernel)) run ok run' ok' sampleQuote (tpm2bOf sampleQuote) sampleQuote (by decide +kernel)
    (by decide +kernel) (.inl rfl) (.inr ⟨by decide +kernel, rfl⟩) ?_
  exact sampleMessages_injective.mono (Set.union_subset
    (sampleMessages _ (by decide +kernel) (by decide +kernel)) (sampleMessages _ (by decide +kernel) (by decide +kernel)))

end TeeProof.Verifier.AliyunVtpm
