import TeeProof.Soundness

/-! Which evidence verifier decides. A configured profile runs its own verifier; with
only a PCR0 configured the verifiers of the other profiles fail closed. -/
namespace TeeProof.Verifier

variable (node : Node)

/-- Without an allowlist no vTPM evidence passes: the required PCRs are missing. -/
theorem aliyun_fails_without_allowlist (t : TeeProofWire) (trust : EvidenceTrust) (now : Option ℚ)
    (verdict : EvidenceVerdict) (absent : trust.expectedPcrs = none)
    (run : AliyunVtpm.verifyEvidence node t trust now = .ok verdict) : ∃ c ∈ verdict.checks, c.ok = false := by
  unfold AliyunVtpm.verifyEvidence at run
  split at run
  next =>
    simp only [Except.ok.injEq] at run
    subst run
    simp
  next evidence parsed =>
    obtain ⟨payload, _, run⟩ := Throws.bind_ok run
    obtain ⟨platform, _, run⟩ := Throws.bind_ok run
    simp only [Except.ok.injEq] at run
    subst run
    refine ⟨AliyunVtpm.allowlistCheck JsVal.empty, ?_, by decide⟩
    have listed : AliyunVtpm.allowlistCheck JsVal.empty ∈ AliyunVtpm.allowlistChecks node
        (AliyunVtpm.parsePcrInfo node evidence).values trust := by
      rw [AliyunVtpm.allowlistChecks, absent]
      exact List.mem_cons_self
    simp only [List.mem_append]
    exact Or.inl (Or.inr listed)

theorem chain_fails_without_platform_trust (leaf : node.Cert) (bundle : List node.Cert) (trust : EvidenceTrust)
    (nowMs : ℚ) (chain : QingTian.ChainVerdict) (absent : trust.platformTrust = none)
    (run : QingTian.verifyCertificateChain node leaf bundle trust nowMs = .ok chain) : chain.ok = false := by
  simp only [QingTian.verifyCertificateChain, absent, Except.ok.injEq] at run
  rw [← run]

/-- What a run through the QingTian checks leaves recorded when none of them threw. -/
theorem qingtian_records (evidence : QingTian.ParsedQingTianEvidence) (t : TeeProofWire)
    (trust : EvidenceTrust) (now : Option ℚ) (cs out : List TeeCheck) (result : JStr × JStr × QingTian.ChainVerdict)
    (run : (QingTian.evidenceChecks node evidence t trust now).run cs = (.ok result, out)) :
    ∃ leaf bundle time, QingTian.verifyCertificateChain node leaf bundle trust time = .ok result.2.2 ∧
      { name := "QingTian 证书链", ok := result.2.2.ok, detail := result.2.2.detail } ∈ out ∧
      (∃ good bad, check "公钥绑定" (toBase64 evidence.publicKey == t.publicKey) good bad ∈ out) ∧
      ∃ good bad, check "nonce 绑定" (toBase64 evidence.nonce == t.nonce) good bad ∈ out := by
  unfold QingTian.evidenceChecks at run
  obtain ⟨_, _, alg, run⟩ := Checking.bind_ok run
  obtain ⟨leaf, _, leafRead, run⟩ := Checking.bind_ok run
  obtain ⟨_, _, encoded, run⟩ := Checking.bind_ok run
  obtain ⟨sigOk, _, signed, run⟩ := Checking.bind_ok run
  obtain ⟨_, _, sigCheck, run⟩ := Checking.bind_ok run
  obtain ⟨_, _, digest, run⟩ := Checking.bind_ok run
  obtain ⟨_, _, dated, run⟩ := Checking.bind_ok run
  obtain ⟨_, _, time, run⟩ := Checking.bind_ok run
  obtain ⟨bundle, _, bundleRead, run⟩ := Checking.bind_ok run
  obtain ⟨chain, before, chained, run⟩ := Checking.bind_ok run
  obtain ⟨_, after, recorded, run⟩ := Checking.bind_ok run
  obtain ⟨_, _, pcr0, run⟩ := Checking.bind_ok run
  obtain ⟨_, _, pcr8, run⟩ := Checking.bind_ok run
  obtain ⟨_, _, pcr0Check, run⟩ := Checking.bind_ok run
  obtain ⟨_, _, pcr8Check, run⟩ := Checking.bind_ok run
  obtain ⟨_, _, key, run⟩ := Checking.bind_ok run
  obtain ⟨_, _, nonce, run⟩ := Checking.bind_ok run
  obtain ⟨values, last⟩ := Prod.mk.inj run
  obtain rfl := Except.ok.inj values
  refine ⟨leaf, bundle, _, (Checking.ofThrows_ok chained).1, ?_⟩
  rw [← last, Checking.record_ok nonce, Checking.record_ok key, Checking.record_ok pcr8Check,
    Checking.record_ok pcr0Check, (Checking.ofThrows_ok pcr8).2, (Checking.ofThrows_ok pcr0).2,
    Checking.record_ok recorded]
  refine ⟨by simp, ?_, ?_⟩
  · exact ⟨_, _, List.mem_append_left _ (List.mem_append_right _ (List.mem_singleton.mpr rfl))⟩
  · exact ⟨_, _, List.mem_append_right _ (List.mem_singleton.mpr rfl)⟩

theorem qingtian_fails_without_platform_trust (t : TeeProofWire) (trust : EvidenceTrust) (now : Option ℚ)
    (absent : trust.platformTrust = none) :
    ∃ c ∈ (QingTian.verifyEvidence node t trust now).checks, c.ok = false := by
  unfold QingTian.verifyEvidence
  split
  next => simp
  next evidence parsed =>
    cases run : (QingTian.evidenceChecks node evidence t trust now).run
        [{ name := "QingTian evidence 格式", ok := true, detail := "COSE_Sign1/QTSM payload 可解析" }] with
    | mk result out =>
      cases result with
      | error message => simp [Checking.guarded, run]
      | ok values =>
        obtain ⟨leaf, bundle, time, chained, recorded, _⟩ := qingtian_records node evidence t trust now _ out values run
        have failed := chain_fails_without_platform_trust node leaf bundle trust time _ absent chained
        simp only [Checking.guarded, run]
        exact ⟨_, recorded, failed⟩

/-- The verifier of profile `profile` ran under the caller's trust, gave this verdict
and every one of its checks passed. -/
structure RanAndPassed (input : TeeVerifyInput) (profile : JStr) (verdict : EvidenceVerdict) : Prop where
  ran :
    profile = nitro ∧
      verdict = nitroVerifyEvidence node (readWire input.proof) (effectiveTrust input profile) input.now ∨
    profile = aliyunVtpm ∧
      AliyunVtpm.verifyEvidence node (readWire input.proof) (effectiveTrust input profile) input.now = .ok verdict ∨
    profile = qingtian ∧
      verdict = QingTian.verifyEvidence node (readWire input.proof) (effectiveTrust input profile) input.now
  passed : ∀ c ∈ verdict.checks, c.ok = true

theorem ranAndPassed_of_accepted (input : TeeVerifyInput) (result : TeeVerifyResult) (verdict : EvidenceVerdict)
    (accepted : AcceptedRun node input result verdict) :
    RanAndPassed node input (configuredProfile input.trust (readWire input.proof)) verdict := by
  have evidence := accepted.evidence
  unfold verifyEvidence at evidence
  refine ⟨?_, accepted.passed⟩
  split at evidence
  next isNitro => exact Or.inl ⟨isNitro, by simpa using evidence.symm⟩
  next =>
    split at evidence
    next isAliyun =>
      obtain ⟨found, run, same⟩ := Throws.map_ok evidence
      exact Or.inr (Or.inl ⟨isAliyun, Option.some.inj same ▸ run⟩)
    next =>
      split at evidence
      next isQingtian => exact Or.inr (Or.inr ⟨isQingtian, by simpa using evidence.symm⟩)
      next => simp at evidence

/-- With no trust object only the Nitro verifier can accept. -/
theorem nitro_of_no_trust (input : TeeVerifyInput) (profile : JStr) (verdict : EvidenceVerdict)
    (absent : input.trust = none) (ran : RanAndPassed node input profile verdict) : profile = nitro := by
  have fails (h : ∃ c ∈ verdict.checks, c.ok = false) : False := by
    obtain ⟨c, member, failed⟩ := h
    simp [ran.passed c member] at failed
  rcases ran.ran with ⟨isNitro, _⟩ | ⟨_, run⟩ | ⟨_, same⟩
  · exact isNitro
  · exact (fails (aliyun_fails_without_allowlist node _ _ _ verdict (by simp [effectiveTrust, absent]) run)).elim
  · have failed := qingtian_fails_without_platform_trust node (readWire input.proof)
      (effectiveTrust input profile) input.now (by simp [effectiveTrust, absent])
    exact (fails (same ▸ failed)).elim

theorem named_profile (profile : JStr) (t : TeeProofWire) (ok : (verifyConfiguredProfile profile t).ok = true) :
    given t.profile = none ∨ given t.profile = some profile := by
  unfold verifyConfiguredProfile at ok
  split at ok
  next named found => exact Or.inr (by simpa [check, found] using ok)
  next found => exact Or.inl found

/-- The profile the caller configured: a non-empty `trust.profile`. -/
def configured (trust : Option EvidenceTrust) : Option JStr := given (trust.bind EvidenceTrust.profile)

/-- The proof cannot choose its own trust path. -/
theorem verifyTeeExchange_profile (input : TeeVerifyInput) (result : TeeVerifyResult)
    (run : verifyTeeExchange node input = .ok result) (ok : result.ok = true) :
    (input.trust = none →
      (given (readWire input.proof).profile = none ∨ given (readWire input.proof).profile = some nitro) ∧
      ∃ verdict pcr0, RanAndPassed node input nitro verdict ∧ input.expectedPcr0 = some pcr0 ∧ pcr0 ≠ [] ∧
        verdict.pcr0 = some pcr0) ∧
    ∀ profile, configured input.trust = some profile → ∃ verdict, RanAndPassed node input profile verdict := by
  obtain ⟨verdict, accepted⟩ := verifyTeeExchange_accepted node input result run ok
  have ran := ranAndPassed_of_accepted node input result verdict accepted
  constructor
  · intro absent
    have resolved := nitro_of_no_trust node input _ verdict absent ran
    rw [resolved] at ran
    have named := accepted.named
    rw [resolved] at named
    have same : verdict = nitroVerifyEvidence node (readWire input.proof) (effectiveTrust input nitro) input.now := by
      rcases ran.ran with ⟨_, same⟩ | ⟨other, _⟩ | ⟨other, _⟩
      · exact same
      · exact absurd other (by decide)
      · exact absurd other (by decide)
    have passed := ran.passed
    rw [same] at passed
    obtain ⟨pcr0, expected, nonempty, reported, _⟩ := nitroVerifyEvidence_passed node _ _ _ passed
    exact ⟨named_profile _ _ named, verdict, pcr0, ran, by simpa [effectiveTrust, absent] using expected, nonempty,
      by rw [same]; exact reported⟩
  · intro profile set
    have resolved : configuredProfile input.trust (readWire input.proof) = profile := by
      unfold configured at set
      simp [configuredProfile, set]
    exact ⟨verdict, resolved ▸ ran⟩

theorem verifyTeeExchange_profile_sample :
    ∃ result verdict, verifyTeeExchange nitroNode (sampleExchange "api.example" "/v1" "POST") = .ok result ∧
      result.ok = true ∧ RanAndPassed nitroNode (sampleExchange "api.example" "/v1" "POST") nitro verdict := by
  obtain ⟨result, run, ok, _⟩ := plainExchange_run
  obtain ⟨_, verdict, _, ran, _⟩ := (verifyTeeExchange_profile nitroNode _ result run ok).1 rfl
  exact ⟨result, verdict, run, ok, ran⟩

end TeeProof.Verifier
