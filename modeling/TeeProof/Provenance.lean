import TeeProof.Soundness
import TeeProof.Statement

/-! The provenance a verdict reports against the statement that was signed. The report
repeats the proof's own strings; the statement holds normalised ones. -/
namespace TeeProof.Verifier

variable (node : Node)

/-- Line `i` of the statement is the label followed by exactly this text. -/
def OnLine (statement : Bytes) (i : Nat) (label : String) (value : JStr) : Prop :=
  ∃ text, value = JStr.ofChars text ∧
    (statement.splitOn 10)[i]? = some (Utf8.encode (label.toList ++ text))

/-- Every reported component stands on its line. -/
structure ReportsSigned (statement : Bytes) (p : Provenance) : Prop where
  host : OnLine statement 2 "upstream-host=" p.upstreamHost
  path : OnLine statement 3 "upstream-path=" p.upstreamPath
  method : OnLine statement 4 "http-method=" p.httpMethod
  status : OnLine statement 5 "http-status=" (numberToString node p.httpStatus)
  contentType : OnLine statement 6 "resp-content-type=" p.respContentType

/-- A text that `normalise` leaves alone and that fits on one line. -/
structure Unchanged (normalise : JStr → JStr) (value : JStr) : Prop where
  fixed : normalise value = value
  wellFormed : value.WellFormed
  oneLine : 0x0A ∉ value

/-- The proof's strings are already in the form the statement gives them. -/
structure Normalised (t : TeeProofWire) : Prop where
  host : Unchanged node.toLowerCase t.upstreamHost
  path : Unchanged pathWithoutQuery t.upstreamPath
  method : Unchanged node.toUpperCase t.httpMethod
  contentType : Unchanged id t.respContentType

/-- A normalisation that adds no line break and keeps text text. -/
structure Normaliser (f : JStr → JStr) : Prop where
  newline : ∀ s, 0x0A ∈ f s → 0x0A ∈ s
  wellFormed : ∀ s, s.WellFormed → (f s).WellFormed

theorem pathWithoutQuery_normaliser : Normaliser pathWithoutQuery where
  newline _ member := (List.takeWhile_prefix _).subset member
  wellFormed := by
    rintro _ ⟨text, rfl⟩
    exact ⟨_, before_ofChars text⟩

theorem id_normaliser : Normaliser id := ⟨fun _ h => h, fun _ h => h⟩
theorem lowerCase_normaliser : Normaliser node.toLowerCase := ⟨node.lowerCase_newline, node.lowerCase_wellFormed⟩
theorem upperCase_normaliser : Normaliser node.toUpperCase := ⟨node.upperCase_newline, node.upperCase_wellFormed⟩

theorem line_clean (label : String) (plain : JStr.isAscii label.toList = true) (single : '\n' ∉ label.toList)
    (text : JStr) (oneLine : 0x0A ∉ text) : (10 : UInt8) ∉ JStr.utf8 (JStr.lit label ++ text) := by
  rw [JStr.utf8_lit_append label plain, List.mem_append, not_or]
  exact ⟨Enclave.encode_oneLine single, fun member => oneLine ((JStr.mem_utf8_newline text).mp member)⟩

/-- One line of the statement against the raw value it was made from. -/
theorem onLine_iff (f : JStr → JStr) (normal : Normaliser f) (label : String) (value : JStr)
    (plain : JStr.isAscii label.toList = true) (single : '\n' ∉ label.toList)
    (before : List Bytes) (clean : ∀ l ∈ before, (10 : UInt8) ∉ l) (after : List Bytes) :
    OnLine (Lines.layout 10 (before ++ JStr.utf8 (JStr.lit label ++ f value) :: after)) before.length label value ↔
      Unchanged f value := by
  have free := line_clean label plain single
  rw [OnLine, Lines.piece_at 10 before _ after clean]
  constructor
  · rintro ⟨text, rfl, piece⟩
    -- a piece holds no LF, so neither does the value nor what the normalisation made of it
    have inside := Lines.not_mem_piece 10 _ _ (List.mem_of_mem_head? (Option.mem_def.mpr piece))
    have oneLine : 0x0A ∉ JStr.ofChars text := by
      intro member
      apply inside
      rw [Utf8.encode_append, ← JStr.utf8_ofChars text]
      exact List.mem_append_right _ ((JStr.mem_utf8_newline _).mpr member)
    have fixedLine : 0x0A ∉ f (JStr.ofChars text) := fun member => oneLine (normal.newline _ member)
    rw [List.splitOn_eq_singleton (free _ fixedLine), List.head?_cons, Option.some.injEq] at piece
    obtain ⟨changed, same⟩ := normal.wellFormed _ ⟨text, rfl⟩
    rw [same] at piece
    have encoded := value_of_line label plain _ _ piece
    rw [JStr.utf8_ofChars] at encoded
    exact ⟨by rw [same, Utf8.encode_injective encoded], ⟨text, rfl⟩, oneLine⟩
  · rintro ⟨fixed, ⟨text, rfl⟩, oneLine⟩
    refine ⟨text, rfl, ?_⟩
    rw [fixed, List.splitOn_eq_singleton (free _ oneLine), List.head?_cons, JStr.utf8_lit_append label plain,
      JStr.utf8_ofChars, Utf8.encode_append]

theorem toBase64_oneLine (b : Bytes) : 0x0A ∉ toBase64 b := by
  intro member
  obtain ⟨c, inside, eq⟩ := List.mem_map.mp member
  have text := Base64.encode_text b c inside
  have value := congrArg UInt16.toNat eq
  rw [UInt16.toNat_ofNat'] at value
  have newline : c = 10 := UInt8.toNat_inj.mp (by have := c.toNat_lt; simp at value; simpa using (by omega : c.toNat = 10))
  rw [newline] at text
  revert text; decide

theorem status_unchanged (value : JsVal) (valid : isHttpStatus value = true) :
    Unchanged id (numberToString node (numberOr 0 value)) := by
  obtain ⟨n, _, digits⟩ := status_digits node value valid
  rw [digits]
  refine ⟨rfl, ⟨_, rfl⟩, fun member => ?_⟩
  have found := (JStr.mem_toChars_newline _).mpr member
  rw [JStr.natDigits, JStr.toChars_ofChars] at found
  exact Enclave.oneLine_digits _ found

/-- The labelled lines 2 to 6 of a statement, with what stands around them. -/
theorem statement_lines (f : V2StatementFields) : ∃ after,
    buildV2Statement node f = Lines.layout 10
      (JStr.utf8 (JStr.lit "tee-exchange-v2") :: JStr.utf8 (JStr.lit "nonce=" ++ f.nonceB64) ::
        JStr.utf8 (JStr.lit "upstream-host=" ++ node.toLowerCase f.upstreamHost) ::
        JStr.utf8 (JStr.lit "upstream-path=" ++ pathWithoutQuery f.upstreamPath) ::
        JStr.utf8 (JStr.lit "http-method=" ++ node.toUpperCase f.httpMethod) ::
        JStr.utf8 (JStr.lit "http-status=" ++ numberToString node f.httpStatus) ::
        JStr.utf8 (JStr.lit "resp-content-type=" ++ f.respContentType) :: after) :=
  ⟨_, buildV2Statement_layout node f⟩

theorem Unchanged.clean (h : Unchanged f value) (label : String) (plain : JStr.isAscii label.toList = true)
    (single : '\n' ∉ label.toList) : (10 : UInt8) ∉ JStr.utf8 (JStr.lit label ++ f value) :=
  line_clean label plain single _ (h.fixed.symm ▸ h.oneLine)

theorem clean_snoc {lines : List Bytes} {line : Bytes} (clean : ∀ l ∈ lines, (10 : UInt8) ∉ l)
    (last : (10 : UInt8) ∉ line) : ∀ l ∈ lines ++ [line], (10 : UInt8) ∉ l := by
  simpa [or_imp, forall_and] using ⟨clean, last⟩

/-- The report repeats the signed lines exactly when the proof's strings were already
normalised. Each line is read off once the ones before it are known to be single. -/
theorem reportsSigned_iff (proof : JsVal) (nonce : 0x0A ∉ (readWire proof).nonce)
    (status : isHttpStatus (proof.get "http_status") = true) :
    ReportsSigned node (buildV2Statement node (readWire proof).statementFields) (readWire proof).provenance ↔
      Normalised node (readWire proof) := by
  obtain ⟨after, layout⟩ := statement_lines node (readWire proof).statementFields
  have digits := status_unchanged node _ status
  rw [layout]
  have clean0 : ∀ l ∈ [JStr.utf8 (JStr.lit "tee-exchange-v2"),
      JStr.utf8 (JStr.lit "nonce=" ++ (readWire proof).nonce)], (10 : UInt8) ∉ l := by
    simp only [List.forall_mem_cons]
    exact ⟨by decide, line_clean "nonce=" (by decide) (by decide) _ nonce, by simp⟩
  have host := onLine_iff node.toLowerCase (lowerCase_normaliser node) "upstream-host="
    (readWire proof).upstreamHost (by decide) (by decide) _ clean0
  have clean1 (h : Unchanged node.toLowerCase (readWire proof).upstreamHost) :=
    clean_snoc clean0 (h.clean "upstream-host=" (by decide) (by decide))
  have path (h) := onLine_iff pathWithoutQuery pathWithoutQuery_normaliser "upstream-path="
    (readWire proof).upstreamPath (by decide) (by decide) _ (clean1 h)
  have clean2 (h) (p : Unchanged pathWithoutQuery (readWire proof).upstreamPath) :=
    clean_snoc (clean1 h) (p.clean "upstream-path=" (by decide) (by decide))
  have method (h p) := onLine_iff node.toUpperCase (upperCase_normaliser node) "http-method="
    (readWire proof).httpMethod (by decide) (by decide) _ (clean2 h p)
  have clean3 (h p) (m : Unchanged node.toUpperCase (readWire proof).httpMethod) :=
    clean_snoc (clean2 h p) (m.clean "http-method=" (by decide) (by decide))
  have code (h p m) := onLine_iff id id_normaliser "http-status="
    (numberToString node (readWire proof).httpStatus) (by decide) (by decide) _ (clean3 h p m)
  have clean4 (h p m) := clean_snoc (clean3 h p m) (digits.clean "http-status=" (by decide) (by decide))
  have contentType (h p m) := onLine_iff id id_normaliser "resp-content-type="
    (readWire proof).respContentType (by decide) (by decide) _ (clean4 h p m)
  constructor
  · intro reports
    have h := (host _).mp reports.host
    have p := (path h _).mp reports.path
    have m := (method h p _).mp reports.method
    exact ⟨h, p, m, (contentType h p m _).mp reports.contentType⟩
  · rintro ⟨h, p, m, c⟩
    exact ⟨(host _).mpr h, (path h _).mpr p, (method h p _).mpr m, (code h p m _).mpr digits,
      (contentType h p m _).mpr c⟩

/-- The nonce of an accepted proof was written by the base64 encoder. -/
theorem nonce_oneLine (input : TeeVerifyInput) (sound : NitroSound node input) :
    0x0A ∉ (readWire input.proof).nonce := by
  obtain ⟨_, _, _, doc, _, _, _, _, _, _, _, _, _, _, _, _, _, _, _, nonce, _⟩ := sound.document
  obtain ⟨b, _, same⟩ := Option.map_eq_some_iff.mp nonce
  exact same ▸ toBase64_oneLine b

theorem status_valid (input : TeeVerifyInput) (sound : NitroSound node input) :
    isHttpStatus (input.proof.get "http_status") = true := by
  obtain ⟨c, run, ok⟩ := sound.wire
  exact (verifyWireEnvelope_accepted node input.proof c run ok).status

theorem onLine_unique {statement : Bytes} (h : OnLine statement i label v) (k : OnLine statement i label w) :
    v = w := by
  obtain ⟨text, rfl, line⟩ := h
  obtain ⟨other, rfl, same⟩ := k
  have encoded := Option.some.inj (line.symm.trans same)
  rw [Utf8.encode_append, Utf8.encode_append] at encoded
  rw [Utf8.encode_injective (List.append_cancel_left encoded)]

theorem numberToString_status (a b : JsVal) (validA : isHttpStatus a = true) (validB : isHttpStatus b = true)
    (same : numberToString node (numberOr 0 a) = numberToString node (numberOr 0 b)) :
    numberOr 0 a = numberOr 0 b := by
  obtain ⟨n, value, digits⟩ := status_digits node b validB
  rw [value]
  refine status_of_line node a validA n ?_
  rw [same, digits, JStr.natDigits, JStr.utf8_ofChars]
  rfl

/-- Two reports read off the same statement are equal. -/
theorem reportsSigned_unique (statement : Bytes) (a b : JsVal) (validA : isHttpStatus (a.get "http_status") = true)
    (validB : isHttpStatus (b.get "http_status") = true)
    (reportsA : ReportsSigned node statement (readWire a).provenance)
    (reportsB : ReportsSigned node statement (readWire b).provenance) :
    (readWire a).provenance = (readWire b).provenance := by
  have host := onLine_unique reportsA.host reportsB.host
  have path := onLine_unique reportsA.path reportsB.path
  have method := onLine_unique reportsA.method reportsB.method
  have contentType := onLine_unique reportsA.contentType reportsB.contentType
  have status := numberToString_status node _ _ validA validB (onLine_unique reportsA.status reportsB.status)
  simp only [TeeProofWire.provenance] at host path method contentType ⊢
  rw [host, path, method, contentType]
  exact congrArg (fun s => Provenance.mk _ _ _ s _) status

/-- The verdict was accepted on the Nitro path. -/
structure NitroAccepted (input : TeeVerifyInput) (result : TeeVerifyResult) : Prop where
  run : verifyTeeExchange node input = .ok result
  ok : result.ok = true
  profile : result.attestation.profile = some nitro

theorem NitroAccepted.reports_iff (h : NitroAccepted node input result) :
    ReportsSigned node (buildV2Statement node (readWire input.proof).statementFields) result.provenance ↔
      Normalised node (readWire input.proof) := by
  have sound := nitroSound_of_run node input result h.run h.ok h.profile
  obtain ⟨verdict, accepted⟩ := verifyTeeExchange_accepted node input result h.run h.ok
  rw [accepted.provenance]
  exact reportsSigned_iff node input.proof (nonce_oneLine node input sound) (status_valid node input sound)

/-- What is reported is what was signed exactly for normalised proofs; and then, where
a signature verifies one message only, it fixes the report. -/
theorem provenance_signed_iff :
    (∀ input result, NitroAccepted node input result →
      (ReportsSigned node (buildV2Statement node (readWire input.proof).statementFields) result.provenance ↔
        Normalised node (readWire input.proof))) ∧
    ∀ a ra b rb, NitroAccepted node a ra → NitroAccepted node b rb →
      (readWire a.proof).publicKey = (readWire b.proof).publicKey →
      (readWire a.proof).signature = (readWire b.proof).signature →
      (∀ key m n s, node.edVerify key m s = .ok true → node.edVerify key n s = .ok true → m = n) →
      Normalised node (readWire a.proof) → Normalised node (readWire b.proof) → ra.provenance = rb.provenance := by
  refine ⟨fun input result accepted => accepted.reports_iff, ?_⟩
  intro a ra b rb acceptedA acceptedB sameKey sameSignature binds normalA normalB
  have soundA := nitroSound_of_run node a ra acceptedA.run acceptedA.ok acceptedA.profile
  have soundB := nitroSound_of_run node b rb acceptedB.run acceptedB.ok acceptedB.profile
  obtain ⟨keyA, createdA, verifiedA⟩ := soundA.signature
  obtain ⟨keyB, createdB, verifiedB⟩ := soundB.signature
  rw [sameKey, createdB, Except.ok.injEq] at createdA
  rw [sameSignature, ← createdA] at verifiedA
  have statement := binds keyB _ _ _ verifiedA verifiedB
  obtain ⟨_, runA⟩ := verifyTeeExchange_accepted node a ra acceptedA.run acceptedA.ok
  obtain ⟨_, runB⟩ := verifyTeeExchange_accepted node b rb acceptedB.run acceptedB.ok
  rw [runA.provenance, runB.provenance]
  have reportsA := acceptedA.reports_iff.mpr normalA
  have reportsB := acceptedB.reports_iff.mpr normalB
  rw [runA.provenance, statement] at reportsA
  rw [runB.provenance] at reportsB
  exact reportsSigned_unique node _ _ _ (status_valid node a soundA) (status_valid node b soundB) reportsA reportsB

theorem samplePlainProof_normalised :
    Normalised nitroNode (readWire (samplePlainProof "api.example" "/v1" "POST")) where
  host := ⟨by decide, ⟨_, rfl⟩, by decide⟩
  path := ⟨by decide, ⟨_, rfl⟩, by decide⟩
  method := ⟨by decide, ⟨_, rfl⟩, by decide⟩
  contentType := ⟨rfl, ⟨_, rfl⟩, by decide⟩

theorem nitroNode_binds (key m n s : Bytes) (first : nitroNode.edVerify key m s = .ok true)
    (second : nitroNode.edVerify key n s = .ok true) : m = n := by
  simp only [nitroNode, Node.sample, Except.ok.injEq, List.contains_eq_mem, List.mem_cons, List.not_mem_nil,
    or_false, Prod.mk.injEq, decide_eq_true_eq] at first second
  rcases first with ⟨_, rfl, rfl⟩ | ⟨_, rfl, rfl⟩ <;> rcases second with ⟨_, rfl, h⟩ | ⟨_, rfl, h⟩ <;>
    first | rfl | simp at h

theorem provenance_signed_iff_sample :
    ∃ result, NitroAccepted nitroNode (sampleExchange "api.example" "/v1" "POST") result ∧
      ReportsSigned nitroNode (buildV2Statement nitroNode
        (readWire (samplePlainProof "api.example" "/v1" "POST")).statementFields) result.provenance ∧
      result.provenance = (readWire (samplePlainProof "api.example" "/v1" "POST")).provenance := by
  obtain ⟨result, run, ok, profile⟩ := plainExchange_run
  have accepted : NitroAccepted nitroNode _ result := ⟨run, ok, profile⟩
  obtain ⟨_, acceptedRun⟩ := verifyTeeExchange_accepted nitroNode _ result run ok
  have same := (provenance_signed_iff nitroNode).2 _ result _ result accepted accepted rfl rfl nitroNode_binds
    samplePlainProof_normalised samplePlainProof_normalised
  exact ⟨result, accepted, ((provenance_signed_iff nitroNode).1 _ result accepted).mpr samplePlainProof_normalised,
    same.trans acceptedRun.provenance⟩

/-- One signature, two accepted proofs, two reports: letter case and the query string
are shown as the proof spells them. -/
theorem provenance_not_signed :
    ∃ a b, NitroAccepted nitroNode (sampleExchange "api.example" "/v1" "POST") a ∧
      NitroAccepted nitroNode (sampleExchange "API.example" "/v1?beta" "post") b ∧
      buildV2Statement nitroNode (readWire (samplePlainProof "api.example" "/v1" "POST")).statementFields =
        buildV2Statement nitroNode (readWire (samplePlainProof "API.example" "/v1?beta" "post")).statementFields ∧
      a.provenance ≠ b.provenance ∧
      ¬ReportsSigned nitroNode (buildV2Statement nitroNode
        (readWire (samplePlainProof "API.example" "/v1?beta" "post")).statementFields) b.provenance := by
  obtain ⟨a, runA, okA, profileA⟩ := plainExchange_run
  obtain ⟨b, runB, okB, profileB⟩ := sampleExchange_run "API.example" "/v1?beta" "post" (by decide +kernel)
  have acceptedB : NitroAccepted nitroNode _ b := ⟨runB, okB, profileB⟩
  obtain ⟨_, acceptedRunA⟩ := verifyTeeExchange_accepted nitroNode _ a runA okA
  obtain ⟨_, acceptedRunB⟩ := verifyTeeExchange_accepted nitroNode _ b runB okB
  refine ⟨a, b, ⟨runA, okA, profileA⟩, acceptedB, by decide +kernel, ?_, fun reports => ?_⟩
  · rw [acceptedRunA.provenance, acceptedRunB.provenance]
    decide
  · exact absurd (acceptedB.reports_iff.mp reports).host.fixed (by decide)

end TeeProof.Verifier
