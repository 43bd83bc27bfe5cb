import TeeProof.QingTian

/-! What an accepted QingTian certificate chain stands for: a path from the leaf through
certificates of the bundle to a pinned root, however the bundle is ordered and whatever
loops its issuer names form. The pins of the intermediate certificates are the one part
an accepting verdict may have skipped. -/
namespace TeeProof.Verifier.QingTian

variable (node : Node)

def fingerprint (cert : node.Cert) : JStr := sha256HexUpper node (node.raw cert)

/-- The signature of `cert` verifies under the key of `issuer`. -/
def SignedBy (cert issuer : node.Cert) : Prop :=
  ∃ key, node.publicKey issuer = .ok key ∧ node.certVerify cert key = true

/-- The certificates of `issuers` stand at distinct positions of the bundle. -/
def TakenFrom (cabundle issuers : List α) : Prop :=
  ∃ positions : List Nat, positions.Nodup ∧ positions.map (cabundle[·]?) = issuers.map some

/-- A path by issuer names from the leaf through certificates of the bundle. -/
structure Path (leaf : node.Cert) (cabundle issuers : List node.Cert) : Prop where
  taken : TakenFrom cabundle issuers
  named : (leaf :: issuers).IsChain fun cert issuer => node.issuer cert = node.subject issuer

/-- Everything but the pins of the intermediate certificates. -/
structure Anchored (leaf : node.Cert) (cabundle : List node.Cert) (platform : PlatformTrust) (nowMs : ℚ)
    (issuers : List node.Cert) : Prop where
  path : Path node leaf cabundle issuers
  signed : (leaf :: issuers).IsChain (SignedBy node)
  selfIssued : node.subject (issuers.getLastD leaf) = node.issuer (issuers.getLastD leaf)
  selfSigned : SignedBy node (issuers.getLastD leaf) (issuers.getLastD leaf)
  pinned : ∃ pin ∈ platform.rootFingerprintsSha256.getD [], normaliseHex node pin = fingerprint node (issuers.getLastD leaf)
  inTime : ∀ cert ∈ leaf :: issuers, timeValid node nowMs cert = true
  mode : platform.mode = some .certChain
  revocation : (platform.revocation.getD {}).required = true → (platform.revocation.getD {}).checkedExternally = true

/-- The pins of the intermediate certificates that occur on the path. -/
def IntermediatesPinned (platform : PlatformTrust) (issuers : List node.Cert) : Prop :=
  ∀ pin ∈ platform.intermediateFingerprintsSha256.getD [],
    normaliseHex node pin ∈ issuers.dropLast.map (fingerprint node)

/-- What acceptance is meant to say. -/
def ChainSound (leaf : node.Cert) (cabundle : List node.Cert) (trust : EvidenceTrust) (nowMs : ℚ) : Prop :=
  ∃ platform issuers, trust.platformTrust = some platform ∧ Anchored node leaf cabundle platform nowMs issuers ∧
    IntermediatesPinned node platform issuers

/-! The walk by issuer names -/

theorem TakenFrom.nil (cabundle : List α) : TakenFrom cabundle [] := ⟨[], List.nodup_nil, rfl⟩

/-- What is taken after position `i` was removed stood elsewhere before. -/
theorem TakenFrom.cons {remaining issuers : List α} {issuer : α} {i : Nat} (present : remaining[i]? = some issuer)
    (taken : TakenFrom (remaining.eraseIdx i) issuers) : TakenFrom remaining (issuer :: issuers) := by
  obtain ⟨positions, distinct, eq⟩ := taken
  refine ⟨i :: positions.map fun j => if j < i then j else j + 1, ?_, ?_⟩
  · refine List.nodup_cons.mpr ⟨?_, distinct.map ?_⟩
    · intro member
      obtain ⟨j, _, same⟩ := List.mem_map.mp member
      split at same <;> omega
    · intro j k same
      simp only at same
      split at same <;> split at same <;> omega
  · rw [List.map_cons, List.map_cons, present, ← eq, List.map_map]
    congr 1
    apply List.map_congr_left
    intro j _
    simp only [Function.comp_apply, List.getElem?_eraseIdx]
    split <;> rfl

theorem walk_path (n : Nat) (current : node.Cert) (remaining chain out : List node.Cert)
    (run : walk node n current remaining chain = .ok out) :
    ∃ issuers, out = chain ++ issuers ∧ Path node current remaining issuers := by
  have stop : ∃ issuers, chain = chain ++ issuers ∧ Path node current remaining issuers :=
    ⟨[], (List.append_nil chain).symm, TakenFrom.nil _, List.isChain_singleton _⟩
  induction n generalizing current remaining chain with
  | zero =>
    cases run
    exact stop
  | succ n ih =>
    unfold walk at run
    split at run
    · cases run
      exact stop
    · split at run
      · cases run
      next i found =>
        split at run
        · cases run
        next issuer present =>
          obtain ⟨issuers, rfl, taken, named⟩ := ih issuer (remaining.eraseIdx i) (chain ++ [issuer]) run
            ⟨[], (List.append_nil _).symm, TakenFrom.nil _, List.isChain_singleton _⟩
          have name : node.issuer current = node.subject issuer := by
            obtain ⟨inside, holds, _⟩ := List.findIdx?_eq_some_iff_getElem.mp found
            rw [(List.getElem?_eq_some_iff.mp present).2] at holds
            exact of_decide_eq_true holds
          refine ⟨issuer :: issuers, by rw [List.append_assoc, List.singleton_append], ?_, ?_⟩
          · exact taken.cons present
          · exact List.isChain_cons_cons.mpr ⟨name, named⟩

theorem firstUnverified_none (chain : List node.Cert) (run : firstUnverified node chain = .ok none) :
    chain.IsChain (SignedBy node) := by
  induction chain with
  | nil => exact List.isChain_nil
  | cons cert rest ih =>
    cases rest with
    | nil => exact List.isChain_singleton _
    | cons issuer rest =>
      obtain ⟨key, read, run⟩ := Throws.bind_ok run
      split at run
      next verified => exact List.isChain_cons_cons.mpr ⟨⟨key, read, verified⟩, ih run⟩
      · cases run

/-- What the checks behind the walk have established when they accept. -/
structure Checked (chain : List node.Cert) (root : node.Cert) (roots : List JStr) (intermediates : Option (List JStr))
    (nowMs : ℚ) : Prop where
  pinned : ∃ pin ∈ roots, normaliseHex node pin = fingerprint node root
  selfIssued : node.subject root = node.issuer root
  selfSigned : SignedBy node root root
  signed : chain.IsChain (SignedBy node)
  inTime : ∀ cert ∈ chain, timeValid node nowMs cert = true
  intermediates : ∀ pin ∈ intermediates.getD [],
    normaliseHex node pin ∈ (chain.drop 1).dropLast.map (fingerprint node) ∨
      ∃ skipped ∈ intermediates.getD [], normaliseHex node skipped = []

/-- The search for a missing pin found none, or one whose text is empty. -/
theorem missing_cases (pins : List JStr) (present : List JStr)
    (accepted : ∀ u fp, (pins.map (normaliseHex node)).find? (fun fp => !present.contains fp) ≠ some (u :: fp))
    (pin : JStr) (member : pin ∈ pins) :
    normaliseHex node pin ∈ present ∨ ∃ skipped ∈ pins, normaliseHex node skipped = [] := by
  cases found : (pins.map (normaliseHex node)).find? (fun fp => !present.contains fp) with
  | none =>
    have each := List.find?_eq_none.mp found _ (List.mem_map_of_mem member)
    exact .inl (by simpa using each)
  | some fp =>
    cases fp with
    | nil =>
      obtain ⟨skipped, among, empty⟩ := List.mem_map.mp (List.mem_of_find?_eq_some found)
      exact .inr ⟨skipped, among, empty⟩
    | cons u fp => exact absurd found (accepted u fp)

theorem verifyChain_ok (chain : List node.Cert) (root : node.Cert) (roots : List JStr)
    (intermediates : Option (List JStr)) (nowMs : ℚ) (verdict : ChainVerdict)
    (run : verifyChain node chain root roots intermediates nowMs = .ok verdict) (ok : verdict.ok = true) :
    Checked node chain root roots intermediates nowMs := by
  unfold verifyChain at run
  dsimp only at run
  by_cases listed : ((roots.map (normaliseHex node)).contains (sha256HexUpper node (node.raw root))) = true
  swap
  · rw [Bool.eq_false_of_not_eq_true listed, Bool.not_false, if_pos rfl] at run
    cases run
    cases ok
  rw [listed, Bool.not_true, if_neg Bool.false_ne_true] at run
  by_cases self : node.subject root = node.issuer root
  swap
  · rw [if_pos self] at run
    cases run
    cases ok
  rw [if_neg (not_not.mpr self)] at run
  obtain ⟨key, read, run⟩ := Throws.bind_ok run
  obtain ⟨verified, eq, run⟩ := Throws.bind_ok run
  cases eq
  cases verified : node.certVerify root key with
  | false =>
    rw [verified] at run
    cases run
    cases ok
  | true =>
    rw [verified, Bool.not_true, if_neg Bool.false_ne_true] at run
    obtain ⟨unverified, signed, run⟩ := Throws.bind_ok run
    cases unverified with
    | some cert =>
      cases run
      cases ok
    | none =>
      dsimp only at run
      cases timed : chain.find? fun cert => !timeValid node nowMs cert with
      | some cert =>
        rw [timed] at run
        cases run
        cases ok
      | none =>
        rw [timed] at run
        dsimp only at run
        obtain ⟨pin, member, eq⟩ := List.mem_map.mp (List.contains_iff_mem.mp listed)
        refine ⟨⟨pin, member, eq⟩, self, ⟨key, read, verified⟩, firstUnverified_none node chain signed, ?_, ?_⟩
        · intro cert present
          simpa using List.find?_eq_none.mp timed cert present
        · intro pin member
          apply missing_cases node _ _ _ pin member
          intro u fp missing
          rw [show (fun cert => sha256HexUpper node (node.raw cert)) = fingerprint node from rfl, missing] at run
          cases run
          cases ok

theorem verifyCertificateChain_anchored (leaf : node.Cert) (cabundle : List node.Cert) (trust : EvidenceTrust)
    (nowMs : ℚ) (verdict : ChainVerdict)
    (run : verifyCertificateChain node leaf cabundle trust nowMs = .ok verdict) (ok : verdict.ok = true) :
    ∃ platform issuers, trust.platformTrust = some platform ∧ Anchored node leaf cabundle platform nowMs issuers ∧
      ∀ pin ∈ platform.intermediateFingerprintsSha256.getD [],
        normaliseHex node pin ∈ issuers.dropLast.map (fingerprint node) ∨
          ∃ skipped ∈ platform.intermediateFingerprintsSha256.getD [], normaliseHex node skipped = [] := by
  unfold verifyCertificateChain at run
  dsimp only at run
  split at run
  · cases run
    cases ok
  next platform configured =>
    split at run
    next root roots mode pinnedRoots =>
      split at run
      · cases run
        cases ok
      next revocation =>
        split at run
        · cases run
          cases ok
        next chain walked =>
          obtain ⟨issuers, rfl, path⟩ := walk_path node _ _ _ _ _ walked
          have last : ([leaf] ++ issuers).getLastD leaf = issuers.getLastD leaf := by
            cases issuers with
            | nil => rfl
            | cons issuer rest => rfl
          rw [last] at run
          have checked := verifyChain_ok node _ _ _ _ nowMs verdict run ok
          refine ⟨platform, issuers, configured, ?_, checked.intermediates⟩
          refine ⟨path, checked.signed, checked.selfIssued, checked.selfSigned, ?_, checked.inTime, mode, ?_⟩
          · rw [pinnedRoots]
            exact checked.pinned
          · intro required
            simpa [required] using revocation
    · cases run
      cases ok

theorem sha256Hex_ne_nil (data : Bytes) : sha256Hex node data ≠ [] := by
  intro none
  have size := (node.sha256 data).2
  unfold sha256Hex at none
  cases digest : (node.sha256 data).1 with
  | nil =>
    rw [digest] at size
    cases size
  | cons b rest =>
    rw [digest] at none
    cases none

/-- An accepted chain is what it should be exactly when no pin of an intermediate
certificate is an empty text. -/
theorem chainSound_iff (upper : ∀ s, s ≠ [] → node.toUpperCase s ≠ []) (leaf : node.Cert) (cabundle : List node.Cert)
    (trust : EvidenceTrust) (nowMs : ℚ) (verdict : ChainVerdict)
    (run : verifyCertificateChain node leaf cabundle trust nowMs = .ok verdict) (ok : verdict.ok = true) :
    ChainSound node leaf cabundle trust nowMs ↔
      ∀ platform, trust.platformTrust = some platform →
        ∀ pin ∈ platform.intermediateFingerprintsSha256.getD [], normaliseHex node pin ≠ [] := by
  constructor
  · rintro ⟨platform, issuers, configured, _, pinned⟩ platform' configured' pin member empty
    obtain rfl := Option.some.inj (configured.symm.trans configured')
    have found := pinned pin member
    rw [empty] at found
    obtain ⟨cert, _, eq⟩ := List.mem_map.mp found
    exact upper _ (sha256Hex_ne_nil node (node.raw cert)) eq
  · intro full
    obtain ⟨platform, issuers, configured, anchored, pins⟩ :=
      verifyCertificateChain_anchored node leaf cabundle trust nowMs verdict run ok
    refine ⟨platform, issuers, configured, anchored, fun pin member => ?_⟩
    rcases pins pin member with found | ⟨skipped, among, empty⟩
    · exact found
    · exact absurd empty (full platform configured skipped among)

/-- Trust in the root whose digest the sample host returns for every certificate. -/
def chainTrust (intermediates : List JStr) : EvidenceTrust where
  platformTrust := some
    { mode := some .certChain
      rootFingerprintsSha256 := some [JStr.hex (List.replicate 32 0)]
      intermediateFingerprintsSha256 := some intermediates }

def chainNode : Node := Node.sample [] [] [] [] 0

theorem chainNode_upper (s : JStr) (full : s ≠ []) : chainNode.toUpperCase s ≠ [] := by
  intro none
  exact full (List.map_eq_nil_iff.mp none)

theorem selfIssued_run (intermediates : List JStr)
    (accepted : ChainVerdict.ok <$> verifyCertificateChain chainNode [1] [] (chainTrust intermediates) 5 = .ok true) :
    ∃ verdict, verifyCertificateChain chainNode [1] [] (chainTrust intermediates) 5 = .ok verdict ∧ verdict.ok = true :=
  Throws.map_ok accepted

theorem chainSound_iff_sample :
    (∀ s, s ≠ [] → chainNode.toUpperCase s ≠ []) ∧ ChainSound chainNode [1] [] (chainTrust []) 5 := by
  obtain ⟨verdict, run, ok⟩ := selfIssued_run [] (by decide)
  refine ⟨chainNode_upper, (chainSound_iff chainNode chainNode_upper _ _ _ _ verdict run ok).mpr ?_⟩
  rintro _ ⟨⟩ pin member
  cases member

/-- An empty pin hides a pin that is missing from the chain. -/
theorem emptyPin_accepted :
    ∃ verdict, verifyCertificateChain chainNode [1] [] (chainTrust [[], JStr.lit "AB"]) 5 = .ok verdict ∧
      verdict.ok = true ∧ ¬ChainSound chainNode [1] [] (chainTrust [[], JStr.lit "AB"]) 5 := by
  obtain ⟨verdict, run, ok⟩ := selfIssued_run [[], JStr.lit "AB"] (by decide)
  refine ⟨verdict, run, ok, ?_⟩
  rintro ⟨_, issuers, ⟨⟩, _, pinned⟩
  obtain ⟨cert, _, eq⟩ := List.mem_map.mp (pinned (JStr.lit "AB") (List.mem_cons_of_mem _ List.mem_cons_self))
  have digest : fingerprint chainNode cert = fingerprint chainNode [1] := rfl
  rw [digest] at eq
  exact absurd eq (by decide)

end TeeProof.Verifier.QingTian
