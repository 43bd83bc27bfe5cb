import TeeProof.AliyunVtpm

/-! What an accepting verdict on vTPM evidence stands for: the quote that was read, the
operation behind each check and the structures the TPM readers return. -/
namespace TeeProof.Verifier.AliyunVtpm

open JsVal

variable (node : Node)

/-! The readers of the TPM structures. -/

theorem Reader.bind_ok {r : Reader α} {f : α → Reader β} {buf rest : Bytes} {b : β}
    (h : (r >>= f) buf = .ok (b, rest)) : ∃ a mid, r buf = .ok (a, mid) ∧ f a mid = .ok (b, rest) := by
  obtain ⟨⟨a, mid⟩, first, second⟩ := Throws.bind_ok h
  exact ⟨a, mid, first, second⟩

theorem runReader_ok {r : Reader α} {buf : Bytes} {a : α} (h : runReader r buf = .ok a) :
    ∃ rest, r buf = .ok (a, rest) := by
  obtain ⟨⟨b, rest⟩, run, eq⟩ := Throws.bind_ok h
  cases eq
  exact ⟨rest, run⟩

theorem pure_ok {a b : α} {buf rest : Bytes} (h : (pure a : Reader α) buf = .ok (b, rest)) : a = b := by
  cases h
  rfl

theorem repeatReader_ok {r : Reader α} {P : α → Prop} (each : ∀ buf a rest, r buf = .ok (a, rest) → P a)
    (n : Nat) (buf rest : Bytes) (out : List α) (h : repeatReader r n buf = .ok (out, rest)) :
    ∀ a ∈ out, P a := by
  induction n generalizing buf rest out with
  | zero =>
    cases pure_ok h
    simp
  | succ n ih =>
    obtain ⟨a, mid, first, h⟩ := Reader.bind_ok h
    obtain ⟨tail, mid', later, h⟩ := Reader.bind_ok h
    cases pure_ok h
    intro x member
    rcases List.mem_cons.mp member with rfl | member
    · exact each _ _ _ first
    · exact ih _ _ _ later x member

/-- The numbers of the set bits come out in order. -/
theorem pcrsFrom_sorted (select : Bytes) (n : Nat) :
    ((select.zipIdx n).flatMap fun p => (List.range 8).filterMap fun bit =>
      if p.1.toNat.testBit bit then some (p.2 * 8 + bit) else none).Pairwise (· < ·) ∧
    ∀ pcr ∈ (select.zipIdx n).flatMap fun p => (List.range 8).filterMap fun bit =>
      if p.1.toNat.testBit bit then some (p.2 * 8 + bit) else none, n * 8 ≤ pcr := by
  induction select generalizing n with
  | nil => simp
  | cons b rest ih =>
    obtain ⟨sorted, above⟩ := ih (n + 1)
    have inside : ∀ pcr ∈ (List.range 8).filterMap fun bit =>
        if b.toNat.testBit bit then some (n * 8 + bit) else none, n * 8 ≤ pcr ∧ pcr < (n + 1) * 8 := by
      intro pcr member
      obtain ⟨bit, small, eq⟩ := List.mem_filterMap.mp member
      rw [List.mem_range] at small
      split at eq
      · cases eq
        omega
      · cases eq
    rw [List.zipIdx_cons, List.flatMap_cons]
    refine ⟨List.pairwise_append.mpr ⟨?_, sorted, ?_⟩, ?_⟩
    · refine List.Pairwise.filterMap _ ?_ (List.pairwise_lt_range (n := 8))
      intro i j less pcr first pcr' second
      split at first
      · split at second
        · cases first
          cases second
          omega
        · cases second
      · cases first
    · intro pcr first pcr' later
      exact Nat.lt_of_lt_of_le (inside pcr first).2 (above pcr' later)
    · intro pcr member
      rcases List.mem_append.mp member with first | later
      · exact (inside pcr first).1
      · exact Nat.le_trans (by omega) (above pcr later)

theorem pcrsFromSelect_sorted (select : Bytes) : (pcrsFromSelect select).Pairwise (· < ·) :=
  (pcrsFrom_sorted select 0).1

def Ordered (selections : List PcrSelection) : Prop := ∀ s ∈ selections, s.pcrs.Pairwise (· < ·)

theorem readPcrSelection_ordered (buf : Bytes) (s : PcrSelection) (rest : Bytes)
    (h : readPcrSelection buf = .ok (s, rest)) : s.pcrs.Pairwise (· < ·) := by
  obtain ⟨hashAlg, mid, _, h⟩ := Reader.bind_ok h
  obtain ⟨size, mid', _, h⟩ := Reader.bind_ok h
  split at h
  next => cases h
  next =>
    obtain ⟨select, _, _, h⟩ := Reader.bind_ok h
    cases pure_ok h
    exact pcrsFromSelect_sorted select

theorem readPcrSelections_ordered {buf : Bytes} {selections : List PcrSelection} {rest : Bytes}
    (h : readPcrSelections buf = .ok (selections, rest)) : Ordered selections := by
  obtain ⟨count, mid, _, h⟩ := Reader.bind_ok h
  split at h
  next => cases h
  next => exact repeatReader_ok readPcrSelection_ordered _ _ _ _ h

theorem parseTpmlPcrSelection_ordered {buf : Bytes} {selections : List PcrSelection}
    (h : parseTpmlPcrSelection buf = .ok selections) : Ordered selections := by
  obtain ⟨rest, h⟩ := runReader_ok h
  obtain ⟨read, mid, first, h⟩ := Reader.bind_ok h
  obtain ⟨_, _, _, h⟩ := Reader.bind_ok h
  cases pure_ok h
  exact readPcrSelections_ordered first

theorem parseTpmsAttestQuote_ordered {buf : Bytes} {quote : ParsedQuote}
    (h : parseTpmsAttestQuote buf = .ok quote) : Ordered quote.selections := by
  obtain ⟨rest, h⟩ := runReader_ok h
  obtain ⟨magic, _, _, h⟩ := Reader.bind_ok h
  split at h
  next => cases h
  next =>
    obtain ⟨type, _, _, h⟩ := Reader.bind_ok h
    split at h
    next => cases h
    next =>
      obtain ⟨_, _, _, h⟩ := Reader.bind_ok h
      obtain ⟨_, _, _, h⟩ := Reader.bind_ok h
      obtain ⟨_, _, _, h⟩ := Reader.bind_ok h
      obtain ⟨_, _, _, h⟩ := Reader.bind_ok h
      obtain ⟨selections, _, read, h⟩ := Reader.bind_ok h
      obtain ⟨_, _, _, h⟩ := Reader.bind_ok h
      obtain ⟨_, _, _, h⟩ := Reader.bind_ok h
      cases pure_ok h
      exact readPcrSelections_ordered read

/-! The verdict. -/

/-- What one verification reads from a proof. -/
structure QuoteRun where
  evidence : JsVal
  payload : JStr
  quoted : Bytes
  signature : Bytes
  cert : CertInfo node
  quote : ParsedQuote
  pcrs : PcrInfo
  platform : PlatformResult

/-- Everything behind an accepting verdict. -/
structure QuoteRun.Accepted (run : QuoteRun node) (proof : TeeProofWire) (trust : EvidenceTrust) (now : Option ℚ)
    (verdict : EvidenceVerdict) : Prop where
  parsed : parseEvidence node proof = .ok run.evidence
  rebuilt : buildAliyunVtpmChallengePayload node proof = .ok run.payload
  read : (readQuoteReport node run.evidence trust).1 = some ⟨run.quoted, some run.signature, some run.cert⟩
  signed : verifyTpmRsaSignature node run.cert.publicKey run.quoted run.signature = .ok true
  structured : parseTpmsAttestQuote run.quoted = .ok run.quote
  challenged : run.quote.extraData = (node.sha256 run.payload.utf8).1
  measured : parsePcrValues node run.evidence = .ok run.pcrs
  selected : sameSelections run.quote.selections run.pcrs.selections = true
  hashed : (verifyQuotedPcrDigest node run.quote run.pcrs.values).1 = true
  listed : ∀ c ∈ allowlistChecks node run.pcrs.values trust, c.ok = true
  trusted : evaluatePlatformTrust node run.evidence trust (some run.cert) now = .ok run.platform
  chained : run.platform.check.ok = true
  measurements : verdict.measurements = some run.pcrs.values
  platformTrust : verdict.platformTrust = some run.platform.platformTrust

/-- A report whose check passed has its quote, its signature and its certificate. -/
theorem readQuoteReport_passed (evidence : JsVal) (trust : EvidenceTrust)
    (ok : (readQuoteReport node evidence trust).2.ok = true) :
    ∃ quoted signature cert,
      (readQuoteReport node evidence trust).1 = some ⟨quoted, some signature, some cert⟩ := by
  unfold readQuoteReport at ok ⊢
  dsimp only at ok ⊢
  split at ok
  next => cases ok
  next quoteRaw _ =>
    split at ok
    next => cases ok
    next signature _ =>
      split at ok
      next => cases ok
      next info _ => exact ⟨normalizeQuotedAttest quoteRaw, signature, info, rfl⟩

theorem parsePcrInfo_ok (evidence : JsVal) (ok : (parsePcrInfo node evidence).ok = true) :
    ∃ info, parsePcrValues node evidence = .ok info ∧ parsePcrInfo node evidence = info := by
  unfold parsePcrInfo at ok ⊢
  split at ok
  next info read => exact ⟨info, read, rfl⟩
  next => cases ok

/-- The checks on the quote all passed only if each was made. -/
theorem quoteChecks_passed (evidence : JsVal) (quoted signature : Bytes) (cert : CertInfo node)
    (qualifyingData : Bytes)
    (passed : ∀ c ∈ quoteChecks node evidence (some ⟨quoted, some signature, some cert⟩) qualifyingData, c.ok = true) :
    ∃ quote pcrs, verifyTpmRsaSignature node cert.publicKey quoted signature = .ok true ∧
      parseTpmsAttestQuote quoted = .ok quote ∧ quote.extraData = qualifyingData ∧
      parsePcrValues node evidence = .ok pcrs ∧ parsePcrInfo node evidence = pcrs ∧
      sameSelections quote.selections pcrs.selections = true ∧
      (verifyQuotedPcrDigest node quote pcrs.values).1 = true := by
  simp only [quoteChecks, Option.map_some, Option.toList_some, Option.bind_some, Option.getD_some,
    List.forall_mem_append, List.forall_mem_singleton] at passed
  obtain ⟨⟨⟨⟨⟨structured, signed⟩, challenged⟩, measured⟩, selected⟩, hashed⟩ := passed
  obtain ⟨pcrs, values, info⟩ := parsePcrInfo_ok node evidence measured
  cases parsed : parseTpmsAttestQuote quoted with
  | error message => simp [structureCheck, parsed] at structured
  | ok quote =>
    simp only [structureCheck, parsed, info, List.forall_mem_singleton, check, beq_iff_eq]
      at challenged selected hashed
    have verified : verifyTpmRsaSignature node cert.publicKey quoted signature = .ok true := by
      simp only [quoteSignatureCheck] at signed
      split at signed
      next good run =>
        rw [List.forall_mem_singleton] at signed
        rw [run]
        exact congrArg Except.ok signed
      next => simp at signed
    refine ⟨quote, pcrs, verified, rfl, challenged, values, info, ?_, hashed⟩
    have ok : pcrs.ok = true := info ▸ measured
    simpa [ok] using selected

theorem verifyEvidence_accepted (proof : TeeProofWire) (trust : EvidenceTrust) (now : Option ℚ)
    (verdict : EvidenceVerdict) (run : verifyEvidence node proof trust now = .ok verdict) (ok : verdict.ok = true) :
    ∃ r : QuoteRun node, r.Accepted node proof trust now verdict := by
  unfold verifyEvidence at run
  split at run
  next =>
    cases run
    cases ok
  next evidence parsed =>
    obtain ⟨payload, rebuilt, run⟩ := Throws.bind_ok run
    obtain ⟨platform, evaluated, run⟩ := Throws.bind_ok run
    cases run
    simp only [List.all_eq_true, List.forall_mem_append, List.forall_mem_singleton] at ok
    obtain ⟨⟨⟨⟨_, report⟩, quoteOk⟩, listed⟩, chained⟩ := ok
    obtain ⟨quoted, signature, cert, read⟩ := readQuoteReport_passed node evidence trust report
    rw [read] at quoteOk evaluated
    obtain ⟨quote, pcrs, signed, structured, challenged, measured, info, selected, hashed⟩ :=
      quoteChecks_passed node evidence quoted signature cert _ quoteOk
    rw [info] at listed
    exact ⟨⟨evidence, payload, quoted, signature, cert, quote, pcrs, platform⟩,
      { parsed, rebuilt, read, signed, structured, challenged, measured, selected, hashed, listed,
        trusted := evaluated, chained, measurements := by rw [info], platformTrust := rfl }⟩

end TeeProof.Verifier.AliyunVtpm
