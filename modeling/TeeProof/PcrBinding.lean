import TeeProof.Agreement
import TeeProof.Quote

/-! How far a quote binds the PCR values that come with it. The quote fixes one hash of
their concatenation, so the values are the TPM's exactly if each has the width of a
SHA-256 digest. -/
namespace TeeProof.Verifier.AliyunVtpm

open JsVal

variable (node : Node)

/-! Selections. -/

/-- The SHA-256 PCRs of a list of selections, in its order. -/
def sha256Pcrs (selections : List PcrSelection) : List Nat :=
  selections.flatMap fun s => if s.hashAlg = tpmAlgSha256 then s.pcrs else []

def isSha256 (s : PcrSelection) : Bool := s.hashAlg = tpmAlgSha256

theorem sha256Pcrs_eq (selections : List PcrSelection) :
    sha256Pcrs selections = (selections.filter isSha256).flatMap PcrSelection.pcrs := by
  induction selections with
  | nil => rfl
  | cons s rest ih =>
    rw [sha256Pcrs] at ih ⊢
    rw [List.flatMap_cons, ih]
    by_cases sha : s.hashAlg = tpmAlgSha256 <;> simp [isSha256, sha]

theorem selectionSummary_ordered (selections : List PcrSelection) (ordered : Ordered selections) :
    selectionSummary selections = selections.insertionSort fun x y => x.hashAlg ≤ y.hashAlg := by
  have same : (selections.map fun s => { s with pcrs := s.pcrs.insertionSort (· ≤ ·) }) = selections := by
    refine (List.map_congr_left ?_).trans (List.map_id _)
    intro s member
    have sorted : s.pcrs.insertionSort (· ≤ ·) = s.pcrs :=
      ((ordered s member).imp Nat.le_of_lt).insertionSort_eq
    simp [sorted]
  rw [selectionSummary, same]

/-- The sort is stable, so it keeps the SHA-256 selections in their order. -/
theorem filter_selectionSummary (selections : List PcrSelection) (ordered : Ordered selections) :
    (selectionSummary selections).filter isSha256 = selections.filter isSha256 := by
  rw [selectionSummary_ordered selections ordered]
  have alike : (selections.filter isSha256).Pairwise fun x y => x.hashAlg ≤ y.hashAlg := by
    refine List.pairwise_of_forall_mem_list ?_
    intro x first y second
    have left := (List.mem_filter.mp first).2
    have right := (List.mem_filter.mp second).2
    simp only [isSha256, decide_eq_true_eq] at left right
    rw [left, right]
  have kept := List.sublist_insertionSort alike (List.filter_sublist (l := selections))
  have lengths := ((List.perm_insertionSort (fun x y : PcrSelection => x.hashAlg ≤ y.hashAlg) selections).filter
    isSha256).length_eq
  have filtered := kept.filter isSha256
  rw [List.filter_filter] at filtered
  simp only [Bool.and_self] at filtered
  exact (filtered.eq_of_length lengths.symm).symm

theorem sha256_of_sameSelections {a b : List PcrSelection} (left : Ordered a) (right : Ordered b)
    (same : sameSelections a b = true) : a.filter isSha256 = b.filter isSha256 := by
  rw [← filter_selectionSummary a left, ← filter_selectionSummary b right]
  simp only [sameSelections, decide_eq_true_eq] at same
  rw [same]

/-! Values by PCR. -/

theorem hexUnit (n : Nat) (small : n < 16) : ofHex.unit (JStr.hexDigit n) = n := by
  revert n
  decide

theorem ofHex_hex (b : Bytes) : ofHex (JStr.hex b) = b := by
  induction b with
  | nil => rfl
  | cons x rest ih =>
    have bound := x.toNat_lt
    rw [JStr.hex, List.flatMap_cons, ← JStr.hex, List.cons_append, List.cons_append, List.nil_append, ofHex,
      hexUnit _ (by omega), hexUnit _ (by omega), ih, Nat.div_add_mod', UInt8.ofNat_toNat]

theorem pcrKey_eq (pcr : Nat) : pcrKey pcr = JStr.ofChars ("sha256:".toList ++ Nat.toDigits 10 pcr) :=
  (ofChars_append _ _).symm

theorem pcrKey_injective : Function.Injective pcrKey := fun i j same => by
  have digits := congrArg (Nat.ofDigitChars 10 · 0) (ofChars_injective (List.append_cancel_left same))
  simpa only [Nat.ofDigitChars_toDigits (b := 10) (by decide) (by decide)] using digits

theorem pcrName_ne_proto (pcr : Nat) : "sha256:".toList ++ Nat.toDigits 10 pcr ≠ protoName := by
  intro same
  have head : some 's' = some '_' := congrArg List.head? same
  simp at head

theorem pcrKey_ne_proto (pcr : Nat) : pcrKey pcr ≠ protoKey := by
  rw [pcrKey_eq]
  exact ofChars_ne_proto (pcrName_ne_proto pcr)

/-- The assignments of `parsePcrInfo`. -/
def pcrValues (pairs : List (Nat × Bytes)) : JsVal :=
  pairs.foldl (fun out p => out.set (pcrKey p.1) (.str (JStr.hex p.2))) empty

def pcrProps (pairs : List (Nat × Bytes)) : Props :=
  pairs.foldl (fun out p => written out (pcrKey p.1) (.str (JStr.hex p.2))) []

theorem pcrProps_concat (pairs : List (Nat × Bytes)) (p : Nat × Bytes) :
    pcrProps (pairs ++ [p]) = written (pcrProps pairs) (pcrKey p.1) (.str (JStr.hex p.2)) := by
  rw [pcrProps, List.foldl_append]
  rfl

theorem pcrValues_eq (pairs : List (Nat × Bytes)) : pcrValues pairs = .obj .undefined (pcrProps pairs) := by
  induction pairs using List.reverseRecOn with
  | nil => rfl
  | append_singleton pairs p ih =>
    rw [pcrProps_concat, pcrValues, List.foldl_append, ← pcrValues, ih]
    exact set_plain _ (pcrKey_ne_proto p.1) _

theorem pcrProps_plain (pairs : List (Nat × Bytes)) : Plain (pcrProps pairs) := by
  induction pairs using List.reverseRecOn with
  | nil => exact .nil
  | append_singleton pairs p ih =>
    rw [pcrProps_concat, pcrKey_eq]
    exact ih.written (pcrName_ne_proto p.1) (by simp)

theorem pcrProps_origin (pairs : List (Nat × Bytes)) :
    ∀ q ∈ pcrProps pairs, ∃ p ∈ pairs, q = (pcrKey p.1, .str (JStr.hex p.2)) := by
  induction pairs using List.reverseRecOn with
  | nil => simp [pcrProps]
  | append_singleton pairs p ih =>
    intro q member
    rw [pcrProps_concat] at member
    rcases mem_written member with rfl | old
    · exact ⟨p, by simp, rfl⟩
    · obtain ⟨p', inside, eq⟩ := ih q old
      exact ⟨p', by simp [inside], eq⟩

theorem own_pcrProps (pairs : List (Nat × Bytes)) (nodup : (pairs.map Prod.fst).Nodup) :
    ∀ p ∈ pairs, own (pcrProps pairs) (pcrKey p.1) = some (.str (JStr.hex p.2)) := by
  induction pairs using List.reverseRecOn with
  | nil => simp
  | append_singleton pairs p ih =>
    rw [List.map_append, List.map_singleton, List.nodup_append] at nodup
    obtain ⟨before, _, apart⟩ := nodup
    intro q member
    rw [pcrProps_concat, own_written]
    rcases List.mem_append.mp member with old | new
    · have different : q.1 ≠ p.1 := apart q.1 (List.mem_map.mpr ⟨q, old, rfl⟩) p.1 (by simp)
      rw [if_neg (fun same => different (pcrKey_injective same))]
      exact ih before q old
    · rw [List.mem_singleton.mp new, if_pos rfl]

theorem own_pcrProps_isSome (pairs : List (Nat × Bytes)) :
    ∀ p ∈ pairs, (own (pcrProps pairs) (pcrKey p.1)).isSome := by
  induction pairs using List.reverseRecOn with
  | nil => simp
  | append_singleton pairs p ih =>
    intro q member
    rw [pcrProps_concat, own_written]
    split
    · rfl
    next other =>
      rcases List.mem_append.mp member with old | new
      · exact ih q old
      · exact absurd (by rw [List.mem_singleton.mp new]) other

theorem mem_entries (pairs : List (Nat × Bytes)) (q : JStr × JsVal) :
    q ∈ (pcrValues pairs).entries ↔ own (pcrProps pairs) q.1 = some q.2 := by
  rw [pcrValues_eq, entries, (enumerate_perm _).mem_iff]
  exact ⟨Assoc.lookup_of_mem (pcrProps_plain pairs).nodup, Assoc.mem_of_lookup⟩

/-- The digests of `pcr_values_b64`. -/
def presentedDigests (evidence : JsVal) : Throws (List Bytes) := do
  let info := field (field evidence "quote_report") "pcr_info"
  let raw ← requiredBase64 node (field info "pcr_values_b64") "quote_report.pcr_info.pcr_values_b64"
  parseTpmlDigest raw

theorem parsePcrValues_ok {evidence : JsVal} {info : PcrInfo} (run : parsePcrValues node evidence = .ok info) :
    ∃ digests, presentedDigests node evidence = .ok digests ∧ Ordered info.selections ∧
      digests.length = (sha256Pcrs info.selections).length ∧
      info.values = pcrValues ((sha256Pcrs info.selections).zip digests) := by
  obtain ⟨valuesRaw, values, run⟩ := Throws.bind_ok run
  obtain ⟨selectionRaw, _, run⟩ := Throws.bind_ok run
  obtain ⟨selections, selected, run⟩ := Throws.bind_ok run
  obtain ⟨digests, read, run⟩ := Throws.bind_ok run
  dsimp only at run
  split at run
  next => cases run
  next counted =>
    cases run
    have presented : presentedDigests node evidence = .ok digests := by
      rw [presentedDigests, values]
      exact read
    exact ⟨digests, presented, parseTpmlPcrSelection_ordered selected, not_not.mp counted, rfl⟩

/-- The value a PCR has among the presented ones. -/
def presented (values : JsVal) (pcr : Nat) : Bytes := ofHex (stringOr [] (values.get (pcrKey pcr)))

theorem collectPcrs_ok (values : JsVal) (pcrs : List Nat) (bytes : Bytes)
    (run : collectPcrs values pcrs = .ok bytes) : bytes = pcrs.flatMap (presented values) := by
  induction pcrs generalizing bytes with
  | nil =>
    cases run
    rfl
  | cons pcr rest ih =>
    unfold collectPcrs at run
    split at run
    next u text found =>
      cases tail : collectPcrs values rest with
      | error missing =>
        rw [tail] at run
        cases run
      | ok later =>
        rw [tail] at run
        cases run
        rw [List.flatMap_cons, ← ih later tail, presented, found]
        rfl
    next => cases run

theorem presented_spec (pairs : List (Nat × Bytes)) (pcr : Nat) (member : pcr ∈ pairs.map Prod.fst) :
    own (pcrProps pairs) (pcrKey pcr) = some (.str (JStr.hex (presented (pcrValues pairs) pcr))) ∧
      (pcr, presented (pcrValues pairs) pcr) ∈ pairs := by
  obtain ⟨p, inside, rfl⟩ := List.mem_map.mp member
  obtain ⟨value, found⟩ := Option.isSome_iff_exists.mp (own_pcrProps_isSome pairs p inside)
  obtain ⟨⟨pcr, d⟩, origin, eq⟩ := pcrProps_origin pairs _ (Assoc.mem_of_lookup found)
  obtain ⟨name, rfl⟩ := Prod.mk.inj eq
  have same : p.1 = pcr := pcrKey_injective name
  have read : presented (pcrValues pairs) p.1 = d := by
    rw [presented, pcrValues_eq, get_plain _ (pcrKey_ne_proto _), found]
    exact ofHex_hex d
  rw [read, same]
  exact ⟨same ▸ found, origin⟩

/-- The presented values of PCRs that stand once are the digests beside them. -/
theorem presented_of_nodup (pairs : List (Nat × Bytes)) (nodup : (pairs.map Prod.fst).Nodup) (p : Nat × Bytes)
    (member : p ∈ pairs) : presented (pcrValues pairs) p.1 = p.2 := by
  rw [presented, pcrValues_eq, get_plain _ (pcrKey_ne_proto _), own_pcrProps pairs nodup p member]
  exact ofHex_hex p.2

/-- A passing digest check hashed the values of the first SHA-256 selection. -/
theorem verifyQuotedPcrDigest_ok (quote : ParsedQuote) (values : JsVal)
    (ok : (verifyQuotedPcrDigest node quote values).1 = true) :
    ∃ selection, (quote.selections.filter isSha256).head? = some selection ∧
      collectPcrs values selection.pcrs = .ok (selection.pcrs.flatMap (presented values)) ∧
      (node.sha256 (selection.pcrs.flatMap (presented values))).1 = quote.pcrDigest := by
  unfold verifyQuotedPcrDigest at ok
  split at ok
  next => cases ok
  next selection found =>
    split at ok
    next => cases ok
    next bytes collected =>
      have first : (quote.selections.filter isSha256).head? = some selection :=
        List.head?_filter.trans found
      have eq := collectPcrs_ok values _ _ collected
      rw [eq] at collected
      refine ⟨selection, first, collected, ?_⟩
      rw [← eq]
      by_contra different
      simp [different] at ok

/-! Concatenations. -/

theorem length_flatMap_width (values : Nat → Bytes) (width : Nat) (pcrs : List Nat)
    (full : ∀ pcr ∈ pcrs, (values pcr).length = width) : (pcrs.flatMap values).length = width * pcrs.length := by
  induction pcrs with
  | nil => rfl
  | cons pcr rest ih =>
    rw [List.forall_mem_cons] at full
    rw [List.flatMap_cons, List.length_append, full.1, ih full.2, List.length_cons]
    ring

/-- Blocks of one width are determined by their concatenation. -/
theorem eq_of_flatMap_eq (left right : Nat → Bytes) (pcrs : List Nat)
    (widths : ∀ pcr ∈ pcrs, (left pcr).length = (right pcr).length)
    (same : pcrs.flatMap left = pcrs.flatMap right) : ∀ pcr ∈ pcrs, left pcr = right pcr := by
  induction pcrs with
  | nil => simp
  | cons pcr rest ih =>
    rw [List.forall_mem_cons] at widths ⊢
    obtain ⟨head, tail⟩ := List.append_inj same widths.1
    exact ⟨head, ih widths.2 tail⟩

/-! The TPM. -/

/-- A TPM by its quotes: the values of its SHA-256 PCRs when it signed a message, and the
digest it puts into a quote. -/
structure Tpm (key : node.Key) where
  pcr : Bytes → Nat → Bytes
  width : ∀ message p, (pcr message p).length = 32
  quotes : ∀ message signature quote, verifyTpmRsaSignature node key message signature = .ok true →
    parseTpmsAttestQuote message = .ok quote →
    quote.pcrDigest = (node.sha256 ((sha256Pcrs quote.selections).flatMap (pcr message))).1

/-- The messages one digest check compares by their hashes. -/
def pcrMessages (values : JsVal) (quote : ParsedQuote) (pcr : Nat → Bytes) : Set Bytes :=
  {message | message = (sha256Pcrs quote.selections).flatMap pcr ∨
    ∃ s ∈ quote.selections, collectPcrs values s.pcrs = .ok message}

/-- The quote of an evidence object and the key its certificate names. -/
def signedQuote (evidence : JsVal) (trust : EvidenceTrust) : Option (Bytes × node.Key) := do
  let report ← (readQuoteReport node evidence trust).1
  let cert ← report.certInfo
  some (report.quote, cert.publicKey)

/-- Each measurement is the value of its PCR. -/
def AreOf (measurements : JsVal) (pcr : Nat → Bytes) : Prop :=
  ∀ q ∈ measurements.entries, ∃ p, q = (pcrKey p, .str (JStr.hex (pcr p)))

theorem areOf_iff (pairs : List (Nat × Bytes)) (pcr : Nat → Bytes) :
    AreOf (pcrValues pairs) pcr ↔ ∀ p ∈ pairs.map Prod.fst, presented (pcrValues pairs) p = pcr p := by
  constructor
  · intro right p member
    obtain ⟨own, _⟩ := presented_spec pairs p member
    obtain ⟨p', eq⟩ := right (pcrKey p, .str _) ((mem_entries pairs _).mpr own)
    obtain ⟨name, value⟩ := Prod.mk.inj eq
    rw [pcrKey_injective name]
    rw [pcrKey_injective name] at value
    exact JStr.hex_injective (JsVal.str.inj value)
  · intro right q member
    have found := (mem_entries pairs q).mp member
    obtain ⟨p, inside, rfl⟩ := pcrProps_origin pairs q (Assoc.mem_of_lookup found)
    have known : p.1 ∈ pairs.map Prod.fst := List.mem_map.mpr ⟨p, inside, rfl⟩
    refine ⟨p.1, ?_⟩
    rw [← right p.1 known]
    exact congrArg _ (Option.some.inj (found.symm.trans (presented_spec pairs p.1 known).1))

/-- One hash over the first of several selections leaves no room for the others, and
fixes every value, once all values have the TPM's width. -/
theorem bound_of_widths (claimed actual : Nat → Bytes) (first rest : List Nat)
    (widths : ∀ p ∈ first ++ rest, (claimed p).length = 32) (tpm : ∀ p, (actual p).length = 32)
    (same : first.flatMap claimed = (first ++ rest).flatMap actual) :
    rest = [] ∧ ∀ p ∈ first ++ rest, claimed p = actual p := by
  have lengths := congrArg List.length same
  rw [length_flatMap_width claimed 32 first (fun p member => widths p (by simp [member])),
    length_flatMap_width actual 32 _ (fun p _ => tpm p), List.length_append] at lengths
  have none : rest = [] := List.eq_nil_of_length_eq_zero (by omega)
  subst none
  rw [List.append_nil] at widths same ⊢
  exact ⟨rfl, eq_of_flatMap_eq _ _ _ (fun p member => (widths p member).trans (tpm p).symm) same⟩

/-- What the three traversals leave of the PCR values: the digests presented for the
selected PCRs, of which the first selection's were hashed. -/
theorem QuoteRun.Accepted.pcrs {run : QuoteRun node} {proof : TeeProofWire} {trust : EvidenceTrust} {now : Option ℚ}
    {verdict : EvidenceVerdict} (accepted : run.Accepted node proof trust now verdict) :
    ∃ digests first rest, presentedDigests node run.evidence = .ok digests ∧
      sha256Pcrs run.quote.selections = first ++ rest ∧ first.Nodup ∧
      digests.length = (first ++ rest).length ∧
      run.pcrs.values = pcrValues ((first ++ rest).zip digests) ∧
      (∃ s ∈ run.quote.selections,
        collectPcrs run.pcrs.values s.pcrs = .ok (first.flatMap (presented run.pcrs.values))) ∧
      (node.sha256 (first.flatMap (presented run.pcrs.values))).1 = run.quote.pcrDigest := by
  obtain ⟨digests, presentedDigests, ordered, counted, values⟩ := parsePcrValues_ok node accepted.measured
  have quoteOrdered := parseTpmsAttestQuote_ordered accepted.structured
  have alike := sha256_of_sameSelections quoteOrdered ordered accepted.selected
  have pcrs : sha256Pcrs run.pcrs.selections = sha256Pcrs run.quote.selections := by
    rw [sha256Pcrs_eq, sha256Pcrs_eq, alike]
  obtain ⟨s, head, collected, digest⟩ := verifyQuotedPcrDigest_ok node _ _ accepted.hashed
  obtain ⟨others, split⟩ := List.head?_eq_some_iff.mp head
  have member : s ∈ run.quote.selections := by
    have inside : s ∈ run.quote.selections.filter isSha256 := by simp [split]
    exact (List.mem_filter.mp inside).1
  have parts : sha256Pcrs run.quote.selections = s.pcrs ++ others.flatMap PcrSelection.pcrs := by
    rw [sha256Pcrs_eq, split, List.flatMap_cons]
  rw [pcrs, parts] at counted values
  refine ⟨digests, s.pcrs, others.flatMap PcrSelection.pcrs, presentedDigests, parts, ?_, counted, values,
    ⟨s, member, collected⟩, digest⟩
  exact (quoteOrdered s member).imp Nat.ne_of_lt

theorem map_fst_zip {first rest : List Nat} {digests : List Bytes} (counted : digests.length = (first ++ rest).length) :
    ((first ++ rest).zip digests).map Prod.fst = first ++ rest :=
  List.map_fst_zip (Nat.le_of_eq counted.symm)

/-- The measurements of accepted evidence are the TPM's exactly if every presented
digest has 32 bytes: the verifier does not ask for it. -/
theorem measurements_areOf_tpm_iff (proof : TeeProofWire) (trust : EvidenceTrust) (now : Option ℚ)
    (verdict : EvidenceVerdict) (run : verifyEvidence node proof trust now = .ok verdict) (ok : verdict.ok = true)
    (evidence : JsVal) (parsed : parseEvidence node proof = .ok evidence) (quoted : Bytes) (key : node.Key)
    (carried : signedQuote node evidence trust = some (quoted, key)) (tpm : Tpm node key)
    (injective : ∀ values quote, verdict.measurements = some values → parseTpmsAttestQuote quoted = .ok quote →
      Set.InjOn node.sha256 (pcrMessages values quote (tpm.pcr quoted))) :
    (∃ values, verdict.measurements = some values ∧ AreOf values (tpm.pcr quoted)) ↔
      ∀ digests, presentedDigests node evidence = .ok digests → ∀ d ∈ digests, d.length = 32 := by
  obtain ⟨r, accepted⟩ := verifyEvidence_accepted node proof trust now verdict run ok
  obtain rfl : r.evidence = evidence := Except.ok.inj (accepted.parsed.symm.trans parsed)
  have same : some (r.quoted, r.cert.publicKey) = some (quoted, key) := by
    rw [← carried, signedQuote, accepted.read]
    rfl
  obtain ⟨rfl, rfl⟩ := Prod.mk.inj (Option.some.inj same)
  obtain ⟨digests, first, rest, presented', split, nodup, counted, values, collected, hashed⟩ := accepted.pcrs
  -- the hash ties the presented values of the first selection to those of all selections
  have tied : first.flatMap (presented r.pcrs.values) = (first ++ rest).flatMap (tpm.pcr r.quoted) := by
    refine injective _ _ accepted.measurements accepted.structured (.inr collected) (.inl (by rw [split])) ?_
    have quoted := tpm.quotes r.quoted r.signature r.quote accepted.signed accepted.structured
    rw [split] at quoted
    exact Subtype.ext (hashed.trans quoted)
  have fromWidths := bound_of_widths (presented r.pcrs.values) (tpm.pcr r.quoted) first rest
  have names := map_fst_zip counted
  rw [accepted.measurements]
  simp only [Option.some.injEq, exists_eq_left', presented', Except.ok.injEq, forall_eq']
  rw [values] at tied fromWidths ⊢
  rw [areOf_iff, names]
  constructor
  · intro right d member
    obtain ⟨none, _⟩ := fromWidths (fun p inside => by rw [right p inside]; exact tpm.width _ p) (tpm.width _) tied
    have inside : d ∈ ((first ++ rest).zip digests).map Prod.snd := by
      rwa [List.map_snd_zip (Nat.le_of_eq counted)]
    obtain ⟨⟨p, _⟩, pair, rfl⟩ := List.mem_map.mp inside
    have once : (((first ++ rest).zip digests).map Prod.fst).Nodup := by
      rw [names, none, List.append_nil]
      exact nodup
    have known : p ∈ first ++ rest := names ▸ List.mem_map.mpr ⟨_, pair, rfl⟩
    rw [← presented_of_nodup _ once _ pair, right p known]
    exact tpm.width _ p
  · intro full
    refine (fromWidths ?_ (tpm.width _) tied).2
    intro p member
    obtain ⟨_, pair⟩ := presented_spec ((first ++ rest).zip digests) p (by rwa [names])
    exact full _ (List.of_mem_zip pair).2

/-! A TPM with PCRs 8 to 13, and two ways to present their values. -/

def samplePcr (pcr : Nat) : Bytes := List.replicate 32 (UInt8.ofNat pcr)

def samplePcrs : List Nat := [8, 9, 10, 11, 12, 13]

def sampleHash (b : UInt8) : Digest := ⟨List.replicate 32 b, by simp⟩

def tpm2bOf (b : Bytes) : Bytes := UInt8.ofNat (b.length / 256) :: UInt8.ofNat b.length :: b

def tpmlOf (digests : List Bytes) : Bytes := [0, 0, 0, UInt8.ofNat digests.length] ++ digests.flatMap tpm2bOf

def sampleSelection : Bytes := [0, 0, 0, 1, 0, 0x0B, 3, 0, 0x3F, 0]

def sampleQuote : Bytes :=
  [0xFF, 0x54, 0x43, 0x47, 0x80, 0x18] ++ tpm2bOf [] ++ tpm2bOf (sampleHash 1).1 ++ List.replicate 25 0 ++
    sampleSelection ++ tpm2bOf (sampleHash 2).1

def vtpmWire (evidence : JsVal) : TeeProofWire where
  publicKey := "AwMD"
  nonce := "AAAA"
  upstreamHost := "api.example"
  upstreamPath := "/v1"
  httpMethod := "POST"
  httpStatus := 200
  respContentType := "text/plain"
  requestBodySha256 := sha256Hex (Node.sample [] [] [] [] 0) []
  responseBodySha256 := sha256Hex (Node.sample [] [] [] [] 0) []
  signature := "BwcH"
  attestation := ""
  profile := none
  evidence := evidence
  fieldClaims := .undefined

def samplePayload : Bytes :=
  match buildAliyunVtpmChallengePayload (Node.sample [] [] [] [] 0) (vtpmWire .undefined) with
  | .ok payload => payload.utf8
  | .error _ => []

/-- The host knows two hashes, one signed quote and an enclave certificate under a root
and an intermediate. -/
def vtpmNode : Node :=
  { Node.sample [(samplePayload, sampleHash 1), (samplePcrs.flatMap samplePcr, sampleHash 2)] []
      [([1], sampleQuote, [9])] [] 1000 with
    subject := fun _ => "CN=i-a-enclave-1"
    regExpTest := fun _ _ => .ok true }

def vtpmTrust (pcr11 : Bytes) : EvidenceTrust where
  expectedPcrs := some [("sha256:8", JStr.hex (samplePcr 8)), ("sha256:9", JStr.hex (samplePcr 9)),
    ("sha256:11", JStr.hex pcr11)]
  requirePlatformTrust := true
  platformTrust := some
    { mode := some .certChain, rootCertificatesPem := some ["root"], intermediateCertificatesPem := some ["ca"] }

def vtpmEvidence (quoted : Bytes) (digests : List Bytes) : JsVal := .ofObject
  [("quote_report", .ofObject
      [("quoted_b64", .str (toBase64 quoted)),
        ("signature_b64", .str (toBase64 ([0, 0x14, 0, 0x0B] ++ tpm2bOf [9]))),
        ("cert_b64", .str (toBase64 [1])),
        ("pcr_info", .ofObject
          [("pcr_values_b64", .str (toBase64 (tpmlOf digests))),
            ("pcr_selection_out_b64", .str (toBase64 sampleSelection))])]),
    ("challenge", .ofObject
      [("alg", .lit "sha256"), ("payload_b64", .str (toBase64 samplePayload)),
        ("qualifying_data_hex", .str (JStr.hex (sampleHash 1).1))])]

/-- The same bytes cut at other places: PCR 11 shows the value of PCR 12. -/
def shiftedDigests : List Bytes :=
  [samplePcr 8, samplePcr 9, samplePcr 10 ++ samplePcr 11, samplePcr 12, (samplePcr 13).take 16,
    (samplePcr 13).drop 16]

instance : DecidableEq vtpmNode.Key := inferInstanceAs (DecidableEq Bytes)

def sampleKey : vtpmNode.Key := ([1] : Bytes)

/-- The sample host verifies one quote. -/
theorem vtpmNode_signed (key message signature : Bytes)
    (signed : verifyTpmRsaSignature vtpmNode key message signature = .ok true) : message = sampleQuote := by
  obtain ⟨⟨alg, sig⟩, _, signed⟩ := Throws.bind_ok signed
  have listed : [(([1] : Bytes), sampleQuote, ([9] : Bytes))].contains (key, message, sig) = true := by
    dsimp only at signed
    split at signed
    · exact Except.ok.inj signed
    · split at signed
      · exact Except.ok.inj signed
      · cases signed
  simp only [List.contains_cons, List.contains_nil, Bool.or_false, beq_iff_eq, Prod.mk.injEq] at listed
  exact listed.2.1

def sampleParsed : ParsedQuote where
  extraData := (sampleHash 1).1
  selections := [{ hashAlg := tpmAlgSha256, pcrs := samplePcrs }]
  pcrDigest := (sampleHash 2).1

theorem parse_sampleQuote : parseTpmsAttestQuote sampleQuote = .ok sampleParsed := by
  have fields : (fun q => (q.extraData, q.selections, q.pcrDigest)) <$> parseTpmsAttestQuote sampleQuote =
      .ok (sampleParsed.extraData, sampleParsed.selections, sampleParsed.pcrDigest) := by decide
  obtain ⟨⟨extraData, selections, pcrDigest⟩, run, eq⟩ := Throws.map_ok fields
  obtain ⟨rfl, rest⟩ := Prod.mk.inj eq
  obtain ⟨rfl, rfl⟩ := Prod.mk.inj rest
  exact run

theorem sampleParsed_digest :
    sampleParsed.pcrDigest = (vtpmNode.sha256 ((sha256Pcrs sampleParsed.selections).flatMap samplePcr)).1 := by
  decide

def sampleTpm : Tpm vtpmNode sampleKey where
  pcr _ := samplePcr
  width _ p := by simp [samplePcr]
  quotes message signature quote signed parsed := by
    obtain rfl := vtpmNode_signed _ _ _ signed
    rw [parse_sampleQuote] at parsed
    cases parsed
    exact sampleParsed_digest

/-- Both ways of presenting the values give the one message that the TPM hashed. -/
theorem samplePcr_injective (values : JsVal) (quote : ParsedQuote)
    (parsed : parseTpmsAttestQuote sampleQuote = .ok quote)
    (collected : collectPcrs values samplePcrs = .ok (samplePcrs.flatMap samplePcr)) :
    Set.InjOn vtpmNode.sha256 (pcrMessages values quote samplePcr) := by
  rw [parse_sampleQuote] at parsed
  cases parsed
  have one : ∀ message ∈ pcrMessages values sampleParsed samplePcr, message = samplePcrs.flatMap samplePcr := by
    rintro message (rfl | ⟨s, member, hashed⟩)
    · rfl
    · rw [List.mem_singleton.mp member, collected] at hashed
      exact (Except.ok.inj hashed).symm
  intro a first b second _
  rw [one a first, one b second]

theorem vtpmEvidence_absent (quoted : Bytes) (digests : List Bytes) (key : JStr)
    (absent : key ∉ [JStr.lit "quote_report", JStr.lit "challenge"]) (safe : key ≠ protoKey) :
    (vtpmEvidence quoted digests).get key = .undefined := by
  rw [vtpmEvidence, JsVal.ofObject, get_plain _ safe, own, Assoc.lookup_eq_none.mpr]
  · rfl
  · simpa only [List.map_cons, List.map_nil] using absent

theorem vtpmEvidence_parsed (quoted : Bytes) (digests : List Bytes) :
    parseEvidence vtpmNode (vtpmWire (vtpmEvidence quoted digests)) = .ok (vtpmEvidence quoted digests) := by
  have profile := vtpmEvidence_absent quoted digests "profile" (by decide) (by decide)
  have version := vtpmEvidence_absent quoted digests "version" (by decide) (by decide)
  have valid : validateEvidenceProfile vtpmNode (vtpmEvidence quoted digests) = .ok () := by
    rw [validateEvidenceProfile, profile, version]
    rfl
  have object : (vtpmWire (vtpmEvidence quoted digests)).evidence.isObject = true := rfl
  rw [parseEvidence, if_pos object]
  exact congrArg (· >>= fun _ => .ok (vtpmEvidence quoted digests)) valid

theorem vtpm_sample_run (quoted : Bytes) (digests : List Bytes) (pcr11 : Bytes)
    (run : EvidenceVerdict.ok <$>
      verifyEvidence vtpmNode (vtpmWire (vtpmEvidence quoted digests)) (vtpmTrust pcr11) none = .ok true) :
    ∃ verdict,
      verifyEvidence vtpmNode (vtpmWire (vtpmEvidence quoted digests)) (vtpmTrust pcr11) none = .ok verdict ∧
      verdict.ok = true ∧
      verdict.measurements = some (parsePcrInfo vtpmNode (vtpmEvidence quoted digests)).values := by
  obtain ⟨verdict, run, ok⟩ := Throws.map_ok run
  obtain ⟨r, accepted⟩ := verifyEvidence_accepted vtpmNode _ _ none verdict run ok
  have same : r.evidence = vtpmEvidence quoted digests :=
    Except.ok.inj (accepted.parsed.symm.trans (vtpmEvidence_parsed quoted digests))
  refine ⟨verdict, run, ok, ?_⟩
  rw [accepted.measurements, ← same, parsePcrInfo, accepted.measured]

/-- Accepted evidence of a genuine TPM whose PCR 11 is reported as the value of PCR 12,
the one on the allowlist. -/
theorem measurements_shifted :
    ∃ verdict values,
      verifyEvidence vtpmNode (vtpmWire (vtpmEvidence sampleQuote shiftedDigests)) (vtpmTrust (samplePcr 12)) none =
        .ok verdict ∧
      verdict.ok = true ∧
      signedQuote vtpmNode (vtpmEvidence sampleQuote shiftedDigests) (vtpmTrust (samplePcr 12)) =
        some (sampleQuote, sampleKey) ∧
      (∀ quote, parseTpmsAttestQuote sampleQuote = .ok quote →
        Set.InjOn vtpmNode.sha256 (pcrMessages values quote (sampleTpm.pcr sampleQuote))) ∧
      verdict.measurements = some values ∧ ¬AreOf values (sampleTpm.pcr sampleQuote) := by
  obtain ⟨verdict, run, ok, measured⟩ := vtpm_sample_run sampleQuote shiftedDigests (samplePcr 12)
    (by decide +kernel)
  refine ⟨verdict, _, run, ok, by decide +kernel, ?_, measured, ?_⟩
  · intro quote parsed
    exact samplePcr_injective _ quote parsed (by decide +kernel)
  · intro right
    have shown : (pcrKey 11, JStr.hex (samplePcr 12)) ∈
        (parsePcrInfo vtpmNode (vtpmEvidence sampleQuote shiftedDigests)).values.entries.map
          fun q => (q.1, stringOr [] q.2) := by decide +kernel
    obtain ⟨q, member, eq⟩ := List.mem_map.mp shown
    obtain ⟨p, rfl⟩ := right q member
    obtain ⟨name, value⟩ := Prod.mk.inj eq
    obtain rfl := pcrKey_injective name
    exact absurd (JStr.hex_injective value) (by decide)

theorem measurements_areOf_tpm_iff_sample :
    ∃ verdict,
      verifyEvidence vtpmNode (vtpmWire (vtpmEvidence sampleQuote (samplePcrs.map samplePcr)))
        (vtpmTrust (samplePcr 11)) none = .ok verdict ∧ verdict.ok = true ∧
      ((∃ values, verdict.measurements = some values ∧ AreOf values (sampleTpm.pcr sampleQuote)) ↔
        ∀ digests, presentedDigests vtpmNode (vtpmEvidence sampleQuote (samplePcrs.map samplePcr)) = .ok digests →
          ∀ d ∈ digests, d.length = 32) := by
  obtain ⟨verdict, run, ok, measured⟩ := vtpm_sample_run sampleQuote (samplePcrs.map samplePcr) (samplePcr 11)
    (by decide +kernel)
  refine ⟨verdict, run, ok, measurements_areOf_tpm_iff vtpmNode _ _ none verdict run ok _
    (vtpmEvidence_parsed _ _) sampleQuote sampleKey (by decide +kernel) sampleTpm ?_⟩
  intro values quote same parsed
  obtain rfl := Option.some.inj (measured.symm.trans same)
  exact samplePcr_injective _ quote parsed (by decide +kernel)

end TeeProof.Verifier.AliyunVtpm
