import TeeProof.Challenge
import TeeProof.Cursor

/-! The TPMS_ATTEST structure of a quote as a byte format. The parser of the verifier is
walked a second time with an offset into the buffer, as its class `Reader` keeps one:
both walks agree, the second never leaves the buffer, and together they undo the
encoding. -/
namespace TeeProof.Verifier.AliyunVtpm

structure Selection where
  hashAlg : Nat
  select : Bytes

structure Attest where
  qualifiedSigner : Bytes
  extraData : Bytes
  clockInfo : Bytes
  firmwareVersion : Bytes
  selections : List Selection
  pcrDigest : Bytes

structure Selection.Fits (s : Selection) : Prop where
  hashAlg : s.hashAlg < 2 ^ 16
  select : 1 ≤ s.select.length ∧ s.select.length ≤ 8

structure Attest.Fits (a : Attest) : Prop where
  qualifiedSigner : a.qualifiedSigner.length < 2 ^ 16
  extraData : a.extraData.length < 2 ^ 16
  clockInfo : a.clockInfo.length = 17
  firmwareVersion : a.firmwareVersion.length = 8
  count : 1 ≤ a.selections.length ∧ a.selections.length ≤ 8
  selections : ∀ s ∈ a.selections, s.Fits
  pcrDigest : a.pcrDigest.length < 2 ^ 16

def putTpm2b (b : Bytes) : Bytes := beBytes 2 b.length ++ b
def putSelection (s : Selection) : Bytes := beBytes 2 s.hashAlg ++ (beBytes 1 s.select.length ++ s.select)
def putSelections (v : List Selection) : Bytes := beBytes 4 v.length ++ v.flatMap putSelection

def Attest.encode (a : Attest) : Bytes :=
  beBytes 4 tpmGeneratedValue ++ (beBytes 2 tpmStAttestQuote ++ (putTpm2b a.qualifiedSigner ++
    (putTpm2b a.extraData ++ (a.clockInfo ++ (a.firmwareVersion ++ (putSelections a.selections ++
      putTpm2b a.pcrDigest))))))

/-- Bit `pcr % 8` of byte `pcr / 8` is set. -/
def Selects (select : Bytes) (pcr : Nat) : Prop :=
  ∃ b, select[pcr / 8]? = some b ∧ b.toNat.testBit (pcr % 8) = true

/-- A selection is reported with each of its PCR numbers once and in order. -/
structure Reports (reported : PcrSelection) (s : Selection) : Prop where
  hashAlg : reported.hashAlg = s.hashAlg
  increasing : reported.pcrs.Pairwise (· < ·)
  pcrs : ∀ pcr, pcr ∈ reported.pcrs ↔ Selects s.select pcr

def Selection.reported (s : Selection) : PcrSelection := { hashAlg := s.hashAlg, pcrs := pcrsFromSelect s.select }

def Attest.quote (a : Attest) : ParsedQuote :=
  { extraData := a.extraData, selections := a.selections.map Selection.reported, pcrDigest := a.pcrDigest }

/-! The class `Reader` with its offset. What the parser reads past is kept in the result. -/

abbrev OffsetReader := Scan UInt8 JStr

namespace OffsetReader

def eof : JStr := "unexpected EOF while parsing TPM structure"

def u8 : OffsetReader Nat := Scan.uint eof 1
def u16 : OffsetReader Nat := Scan.uint eof 2
def u32 : OffsetReader Nat := Scan.uint eof 4
def bytes (n : Nat) : OffsetReader Bytes := Scan.take eof n

def tpm2b : OffsetReader Bytes := do
  let len ← u16
  bytes len

def selection : OffsetReader Selection := do
  let hashAlg ← u16
  let sizeOfSelect ← u8
  if sizeOfSelect < 1 ∨ sizeOfSelect > 8 then Scan.fail "invalid PCR select size"
  else do
    let select ← bytes sizeOfSelect
    pure { hashAlg, select }

def selections : OffsetReader (List Selection) := do
  let selectionCount ← u32
  if selectionCount < 1 ∨ selectionCount > 8 then Scan.fail "invalid PCR selection count"
  else Scan.times selection selectionCount

def body : OffsetReader Attest := do
  let qualifiedSigner ← tpm2b
  let extraData ← tpm2b
  let clockInfo ← bytes 17
  let firmwareVersion ← bytes 8
  let selections ← selections
  let pcrDigest ← tpm2b
  pure { qualifiedSigner, extraData, clockInfo, firmwareVersion, selections, pcrDigest }

def attest : OffsetReader Attest := do
  let magic ← u32
  if magic ≠ tpmGeneratedValue then Scan.fail (JStr.lit "unexpected TPM magic: 0x" ++ hexNumber magic)
  else do
    let type ← u16
    if type ≠ tpmStAttestQuote then Scan.fail (JStr.lit "unexpected attestation type: 0x" ++ hexNumber type)
    else body

def quote : OffsetReader Attest := Scan.whole attest fun left => JStr.lit "trailing bytes: " ++ JStr.natDigits left

theorem u16_reads : Scan.Reads u16 (beBytes 2) fun n => n < 2 ^ 16 := Scan.Reads.uint eof 2

theorem tpm2b_reads : Scan.Reads tpm2b putTpm2b fun b => b.length < 2 ^ 16 := by
  refine u16_reads.field List.length (fun _ small => small) fun n small => ?_
  refine (Scan.Reads.take eof n).congr (fun b => ⟨And.right, fun size => ⟨?_, size⟩⟩) fun _ _ => rfl
  rwa [size]

/-- A count from 1 to 8 in front of what is counted. -/
theorem ranged_reads {γ : Type} {k : Nat → OffsetReader γ} {more : γ → Bytes} {Q : γ → Prop} (width : Nat)
    (positive : 0 < width) (e : JStr) (count : γ → Nat) (range : ∀ b, Q b → 1 ≤ count b ∧ count b ≤ 8)
    (next : ∀ n, 1 ≤ n ∧ n ≤ 8 → Scan.Reads (k n) more fun b => Q b ∧ count b = n) :
    Scan.Reads (do let n ← Scan.uint eof width; if n < 1 ∨ n > 8 then Scan.fail e else k n)
      (fun b => beBytes width (count b) ++ more b) Q := by
  refine (Scan.Reads.uint eof width).field count (fun b holds => ?_) fun n _ => ?_
  · have : 256 ^ 1 ≤ 256 ^ width := Nat.pow_le_pow_right (by omega) positive
    have := range b holds
    omega
  · by_cases out : n < 1 ∨ n > 8
    · rw [if_pos out]
      refine Scan.Reads.fail e fun b holds => ?_
      have := range b holds.1
      have := holds.2
      omega
    · rw [if_neg out]
      exact next n (by omega)

theorem selection_reads : Scan.Reads selection putSelection Selection.Fits := by
  refine u16_reads.field Selection.hashAlg (fun _ fits => fits.hashAlg) fun hashAlg small => ?_
  refine ranged_reads 1 (by omega) _ (fun s : Selection => s.select.length) (fun _ holds => holds.1.select) fun n range => ?_
  refine (Scan.Reads.take eof n).map _ Selection.select (fun s holds => ?_) fun select size => ?_
  · obtain ⟨⟨_, rfl⟩, rfl⟩ := holds
    exact ⟨rfl, rfl⟩
  · exact ⟨⟨⟨⟨small, by rw [size]; exact range⟩, rfl⟩, size⟩, rfl⟩

theorem selections_reads : Scan.Reads selections putSelections
    fun v => (1 ≤ v.length ∧ v.length ≤ 8) ∧ ∀ s ∈ v, s.Fits := by
  refine ranged_reads 4 (by omega) _ List.length (fun _ holds => holds.1) fun n range => ?_
  refine (selection_reads.times n).congr (fun v => ?_) fun _ _ => rfl
  constructor
  · rintro ⟨⟨_, fits⟩, size⟩
    exact ⟨size, fits⟩
  · rintro ⟨size, fits⟩
    exact ⟨⟨by rwa [size], fits⟩, size⟩

theorem body_reads : Scan.Reads body (fun a => putTpm2b a.qualifiedSigner ++ (putTpm2b a.extraData ++ (a.clockInfo ++
    (a.firmwareVersion ++ (putSelections a.selections ++ putTpm2b a.pcrDigest))))) Attest.Fits := by
  refine tpm2b_reads.field Attest.qualifiedSigner (fun _ fits => fits.qualifiedSigner) fun signer signerFits => ?_
  refine tpm2b_reads.field Attest.extraData (fun _ holds => holds.1.extraData) fun extraData extraFits => ?_
  refine (Scan.Reads.take eof 17).field Attest.clockInfo (fun _ holds => holds.1.1.clockInfo) fun clock clockFits => ?_
  refine (Scan.Reads.take eof 8).field Attest.firmwareVersion (fun _ holds => holds.1.1.1.firmwareVersion)
    fun firmware firmwareFits => ?_
  refine selections_reads.field Attest.selections (fun _ holds => ⟨holds.1.1.1.1.count, holds.1.1.1.1.selections⟩)
    fun selections selectionsFit => ?_
  refine tpm2b_reads.map _ Attest.pcrDigest (fun a holds => ?_) fun digest digestFits => ?_
  · obtain ⟨⟨⟨⟨⟨fits, rfl⟩, rfl⟩, rfl⟩, rfl⟩, rfl⟩ := holds
    exact ⟨fits.pcrDigest, rfl⟩
  · refine ⟨⟨⟨⟨⟨⟨?_, rfl⟩, rfl⟩, rfl⟩, rfl⟩, rfl⟩, rfl⟩
    exact ⟨signerFits, extraFits, clockFits, firmwareFits, selectionsFit.1, selectionsFit.2, digestFits⟩

theorem attest_reads : Scan.Reads attest Attest.encode Attest.Fits :=
  (Scan.Reads.uint eof 4).expect tpmGeneratedValue _ (by decide) (u16_reads.expect tpmStAttestQuote _ (by decide) body_reads)

theorem bytes_contained (n : Nat) : Scan.Contained 0 0 (bytes n) :=
  (Scan.Contained.take eof n).weaken (Nat.zero_le n) le_rfl

theorem tpm2b_contained : Scan.Contained 2 0 tpm2b := (Scan.Contained.uint eof 2).seq bytes_contained

theorem selection_contained : Scan.Contained 2 0 selection := by
  refine (Scan.Contained.uint eof 2).seq fun _ => @Scan.Contained.seq _ _ _ _ _ _ 1 0 (Scan.Contained.uint eof 1) fun n => ?_
  split
  · exact Scan.Contained.fail _
  · exact (bytes_contained n).seq fun _ => .pure _

/-- The count in front pays for the round that may be cut short. -/
theorem selections_contained : Scan.Contained 4 0 selections := by
  have counted (n : Nat) : Scan.Contained 0 1 (if n < 1 ∨ n > 8 then Scan.fail "invalid PCR selection count"
      else Scan.times selection n : OffsetReader (List Selection)) := by
    split
    · exact (Scan.Contained.fail _).weaken le_rfl (Nat.zero_le _)
    · exact (selection_contained.weaken (by omega) le_rfl).times n
  exact (Scan.Contained.uint eof 4).bind fun n => (counted n).weaken le_rfl (by omega)

theorem body_contained : Scan.Contained 2 0 body :=
  tpm2b_contained.seq fun _ => tpm2b_contained.seq fun _ => (bytes_contained 17).seq fun _ =>
    (bytes_contained 8).seq fun _ => selections_contained.seq fun _ => tpm2b_contained.seq fun _ => .pure _

theorem attest_contained : Scan.Contained 4 0 attest := by
  have typed (type : Nat) : Scan.Contained 2 0 (if type ≠ tpmStAttestQuote then
      Scan.fail (JStr.lit "unexpected attestation type: 0x" ++ hexNumber type) else body : OffsetReader Attest) := by
    split
    · exact Scan.Contained.fail _
    · exact body_contained
  have marked (magic : Nat) : Scan.Contained 2 0 (if magic ≠ tpmGeneratedValue then
      Scan.fail (JStr.lit "unexpected TPM magic: 0x" ++ hexNumber magic) else u16 >>= fun type =>
        if type ≠ tpmStAttestQuote then Scan.fail (JStr.lit "unexpected attestation type: 0x" ++ hexNumber type)
        else body : OffsetReader Attest) := by
    split
    · exact Scan.Contained.fail _
    · exact (Scan.Contained.uint eof 2).seq typed
  exact (Scan.Contained.uint eof 4).seq marked

end OffsetReader

/-! The two walks -/

/-- `r` returns what `s` returns, up to `f`, and leaves what `s` leaves. -/
def Follows (r : Reader α) (s : OffsetReader γ) (f : γ → α) : Prop :=
  ∀ c : Cursor UInt8, c.Inside →
    match s c with
    | .ok x c' => c'.Inside ∧ r c.rest = .ok (f x, c'.rest)
    | .error (.error e) _ => r c.rest = .error e
    | .error .outside _ => False

namespace Follows

theorem bind {r : Reader α} {s : OffsetReader γ} {f : γ → α} {k : α → Reader δ} {k' : γ → OffsetReader η} {g : η → δ}
    (first : Follows r s f) (next : ∀ x, Follows (k (f x)) (k' x) g) : Follows (r >>= k) (s >>= k') g := by
  intro c inside
  have step := first c inside
  rw [Scan.bind_apply]
  cases run : s c with
  | ok x mid =>
    rw [run] at step
    have later := next x mid step.1
    have whole : (r >>= k) c.rest = k (f x) mid.rest := by
      change (r c.rest >>= fun p => k p.1 p.2) = _
      rw [step.2]
      rfl
    rw [whole]
    exact later
  | error e mid =>
    rw [run] at step
    cases e with
    | error e =>
      change (r c.rest >>= fun p => k p.1 p.2) = _
      rw [show r c.rest = .error e from step]
      rfl
    | outside => exact step

theorem pure {a : α} {x : γ} {f : γ → α} (eq : f x = a) : Follows (Pure.pure a) (Pure.pure x) f := by
  intro c inside
  subst eq
  exact ⟨inside, rfl⟩

theorem fail (e : JStr) (f : γ → α) : Follows (throwing e) (Scan.fail e) f := fun _ _ => rfl

theorem bytes (n : Nat) : Follows (AliyunVtpm.bytes n) (OffsetReader.bytes n) id := by
  intro c inside
  have size := c.rest_length
  unfold Cursor.Inside at inside
  rw [OffsetReader.bytes, Scan.take_apply, AliyunVtpm.bytes]
  by_cases few : c.buf.length < c.offset + n
  · rw [if_pos few, if_pos (by omega)]
    rfl
  · rw [if_neg few, if_neg (by omega), ← Scan.rest_advanced]
    exact ⟨Nat.not_lt.mp few, rfl⟩

theorem uint (width : Nat) : Follows (AliyunVtpm.uint width) (Scan.uint OffsetReader.eof width) id := by
  rw [funext (Scan.uint_apply OffsetReader.eof width)]
  exact (bytes width).bind fun _ => Follows.pure rfl

theorem tpm2b : Follows AliyunVtpm.tpm2b OffsetReader.tpm2b id :=
  (uint 2).bind fun n => bytes n

theorem ite {r r' : Reader α} {s s' : OffsetReader γ} {f : γ → α} (p : Prop) [Decidable p] (yes : Follows r s f)
    (no : Follows r' s' f) : Follows (if p then r else r') (if p then s else s') f := by
  by_cases h : p
  · rw [if_pos h, if_pos h]
    exact yes
  · rw [if_neg h, if_neg h]
    exact no

theorem times {r : Reader α} {s : OffsetReader γ} {f : γ → α} (item : Follows r s f) (n : Nat) :
    Follows (repeatReader r n) (Scan.times s n) (List.map f) := by
  induction n with
  | zero => exact Follows.pure rfl
  | succ n ih =>
    have round : Follows (repeatReader r (n + 1)) (s >>= fun a => Scan.times s n >>= fun more => Pure.pure (a :: more))
        (List.map f) :=
      item.bind fun _ => ih.bind fun _ => Follows.pure rfl
    intro c inside
    exact round { c with rounds := c.rounds + 1 } inside

theorem selection : Follows readPcrSelection OffsetReader.selection Selection.reported :=
  (uint 2).bind fun _ => (uint 1).bind fun n =>
    ite _ (fail _ _) ((bytes n).bind fun _ => Follows.pure rfl)

theorem selections : Follows readPcrSelections OffsetReader.selections (List.map Selection.reported) :=
  (uint 4).bind fun n => ite _ (fail _ _) (selection.times n)

theorem done : Follows AliyunVtpm.done
    (Scan.atEnd fun left => JStr.lit "trailing bytes: " ++ JStr.natDigits left) id := by
  intro c inside
  have size := c.rest_length
  unfold Cursor.Inside at inside
  rw [Scan.atEnd_apply, AliyunVtpm.done, size]
  by_cases left : c.offset = c.buf.length
  · rw [if_neg (not_not.mpr left), if_neg (by omega)]
    exact ⟨inside, rfl⟩
  · rw [if_pos left, if_pos (by omega)]

end Follows

theorem fail_bind (e : JStr) (f : α → OffsetReader γ) : (Scan.fail e >>= f : OffsetReader γ) = Scan.fail e := rfl

theorem ite_bind (p : Prop) [Decidable p] (s s' : OffsetReader α) (f : α → OffsetReader γ) :
    (if p then s else s') >>= f = if p then s >>= f else s' >>= f := by
  split <;> rfl

theorem parseTpmsAttestQuote_value (buf : Bytes) :
    parseTpmsAttestQuote buf =
      match OffsetReader.quote.value (.start buf) with
      | .ok a => .ok a.quote
      | .error (.error e) => .error e
      | .error .outside => .error [] := by
  have walks : Follows (do
      let magic ← u32
      if magic ≠ tpmGeneratedValue then throwing (JStr.lit "unexpected TPM magic: 0x" ++ hexNumber magic)
      else do
        let type ← u16
        if type ≠ tpmStAttestQuote then throwing (JStr.lit "unexpected attestation type: 0x" ++ hexNumber type)
        else do
          let _qualifiedSigner ← tpm2b
          let extraData ← tpm2b
          let _clockInfo ← bytes 17
          let _firmwareVersion ← bytes 8
          let selections ← readPcrSelections
          let pcrDigest ← tpm2b
          done
          pure { extraData, selections, pcrDigest }) OffsetReader.quote Attest.quote := by
    simp only [OffsetReader.quote, Scan.whole, OffsetReader.attest, OffsetReader.body, bind_assoc, pure_bind, ite_bind,
      fail_bind]
    refine (Follows.uint 4).bind fun _ => Follows.ite _ (Follows.fail _ _) ?_
    refine (Follows.uint 2).bind fun _ => Follows.ite _ (Follows.fail _ _) ?_
    exact Follows.tpm2b.bind fun _ => Follows.tpm2b.bind fun _ => (Follows.bytes 17).bind fun _ =>
      (Follows.bytes 8).bind fun _ => Follows.selections.bind fun _ => Follows.tpm2b.bind fun _ =>
        Follows.done.bind fun _ => Follows.pure rfl
  have walked := walks (.start buf) (Nat.zero_le _)
  unfold Scan.value
  rw [Cursor.rest_start] at walked
  cases run : OffsetReader.quote (.start buf) with
  | ok a c =>
    rw [run] at walked
    rw [parseTpmsAttestQuote, runReader, walked.2]
    rfl
  | error e c =>
    rw [run] at walked
    cases e with
    | error e =>
      rw [parseTpmsAttestQuote, runReader, show _ = Except.error e from walked]
      rfl
    | outside => exact walked.elim

/-! What the numbers of a selection are -/

theorem mem_pcrsFrom (select : Bytes) (n pcr : Nat) :
    pcr ∈ ((select.zipIdx n).flatMap fun p => (List.range 8).filterMap fun bit =>
      if p.1.toNat.testBit bit then some (p.2 * 8 + bit) else none) ↔
    n ≤ pcr / 8 ∧ ∃ b, select[pcr / 8 - n]? = some b ∧ b.toNat.testBit (pcr % 8) = true := by
  simp only [List.mem_flatMap, List.mem_filterMap, List.mem_range, Option.ite_none_right_eq_some, Option.some.injEq,
    Prod.exists, List.mem_zipIdx_iff_le_and_getElem?_sub]
  constructor
  · rintro ⟨b, i, ⟨low, found⟩, bit, small, set, rfl⟩
    have byte : (i * 8 + bit) / 8 = i := by omega
    have offset : (i * 8 + bit) % 8 = bit := by omega
    rw [byte, offset]
    exact ⟨low, b, found, set⟩
  · rintro ⟨low, b, found, set⟩
    exact ⟨b, pcr / 8, ⟨low, found⟩, pcr % 8, by omega, set, by omega⟩

theorem mem_pcrsFromSelect (select : Bytes) (pcr : Nat) : pcr ∈ pcrsFromSelect select ↔ Selects select pcr := by
  have all := mem_pcrsFrom select 0 pcr
  simp only [Nat.zero_le, true_and, Nat.sub_zero] at all
  exact all

theorem reports_reported (s : Selection) : Reports s.reported s :=
  ⟨rfl, pcrsFromSelect_sorted s.select, mem_pcrsFromSelect s.select⟩

/-! Raw and wrapped -/

/-- The bytes `offset .. offset + width` of the buffer as a number. -/
def readUInt (buf : Bytes) (offset width : Nat) : Except (Fault JStr) Nat :=
  if offset + width ≤ buf.length then .ok (beNat (slice buf offset width)) else .error .outside

/-- The first condition of `normalizeQuotedAttest`, `&&` read from the left. -/
def rawReads (buf : Bytes) : Except (Fault JStr) Bool :=
  if buf.length ≥ 4 then (decide <| · = tpmGeneratedValue) <$> readUInt buf 0 4 else pure false

/-- `normalizeQuotedAttest` with its accesses to the buffer. -/
def normalizeReads (buf : Bytes) : Except (Fault JStr) Bytes := do
  let raw ← rawReads buf
  if raw then pure buf
  else if buf.length ≥ 6 then do
    let size ← readUInt buf 0 2
    if size = buf.length - 2 then do
      let magic ← readUInt buf 2 4
      if magic = tpmGeneratedValue then pure (buf.drop 2) else pure buf
    else pure buf
  else pure buf

theorem readUInt_inside (buf : Bytes) (offset width : Nat) (inside : offset + width ≤ buf.length) :
    readUInt buf offset width = .ok (beNat (slice buf offset width)) := if_pos inside

theorem normalizeReads_ok (buf : Bytes) : normalizeReads buf = .ok (normalizeQuotedAttest buf) := by
  have raw : rawReads buf = .ok (decide (buf.length ≥ 4 ∧ beNat (buf.take 4) = tpmGeneratedValue)) := by
    unfold rawReads
    by_cases four : buf.length ≥ 4
    · rw [if_pos four, readUInt_inside buf 0 4 (by omega)]
      simp only [four, true_and]
      rfl
    · rw [if_neg four]
      simp only [four, false_and, decide_false]
      rfl
  rw [normalizeReads, raw]
  change (if decide _ = true then _ else _) = _
  simp only [decide_eq_true_eq]
  unfold normalizeQuotedAttest
  split
  · rfl
  · by_cases six : buf.length ≥ 6
    · rw [if_pos six, readUInt_inside buf 0 2 (by omega), readUInt_inside buf 2 4 (by omega)]
      change (if beNat (buf.take 2) = buf.length - 2 then _ else _) = _
      by_cases size : beNat (buf.take 2) = buf.length - 2
      · rw [if_pos size]
        change (if beNat (slice buf 2 4) = tpmGeneratedValue then _ else _) = _
        by_cases magic : beNat (slice buf 2 4) = tpmGeneratedValue
        · rw [if_pos magic, if_pos ⟨six, size, magic⟩]
          rfl
        · rw [if_neg magic, if_neg fun h => magic h.2.2]
          rfl
      · rw [if_neg size, if_neg fun h => size h.2.1]
        rfl
    · rw [if_neg six, if_neg fun h => six h.1]
      rfl

theorem encode_isAttest (a : Attest) (more : Bytes) : IsAttest (a.encode ++ more) := by
  have front : (a.encode ++ more).take 4 = beBytes 4 tpmGeneratedValue := by
    rw [Attest.encode, List.append_assoc]
    exact List.take_left' (beBytes_length 4 _)
  constructor
  · rw [Attest.encode, List.append_assoc, List.length_append, beBytes_length]
    exact Nat.le_add_right 4 _
  · rw [front, beNat_beBytes 4 _ (by decide)]

/-- A truncated encoding is left alone: it starts with the magic number or is too short
to be taken for a wrapped one. -/
theorem normalize_truncated (a : Attest) (t : Bytes) (before : t <+: a.encode) : normalizeQuotedAttest t = t := by
  by_cases four : 4 ≤ t.length
  · obtain ⟨more, eq⟩ := before
    have attest := encode_isAttest a []
    rw [List.append_nil, ← eq] at attest
    apply normalize_isAttest
    refine ⟨four, ?_⟩
    rw [← attest.2, List.take_append_of_le_length four]
  · exact (if_neg fun h => four h.1).trans (if_neg fun h => four (by omega))

theorem parseTpmsAttestQuote_inverse :
    (∀ a : Attest, a.Fits → ∃ quote : ParsedQuote,
      parseTpmsAttestQuote (normalizeQuotedAttest a.encode) = .ok quote ∧
      (a.encode.length < 2 ^ 16 → parseTpmsAttestQuote (normalizeQuotedAttest (tpm2bOf a.encode)) = .ok quote) ∧
      quote.extraData = a.extraData ∧ List.Forall₂ Reports quote.selections a.selections ∧
      quote.pcrDigest = a.pcrDigest) ∧
    (∀ a : Attest, a.Fits → ∀ t, t <+: a.encode → t ≠ a.encode →
      ∃ e, parseTpmsAttestQuote (normalizeQuotedAttest t) = .error e) ∧
    (∀ a : Attest, a.Fits → ∀ more, more ≠ [] →
      ∃ e, parseTpmsAttestQuote (normalizeQuotedAttest (a.encode ++ more)) = .error e) ∧
    ∀ buf, normalizeReads buf = .ok (normalizeQuotedAttest buf) ∧
      OffsetReader.quote.value (.start buf) ≠ .error .outside ∧
      parseTpmsAttestQuote buf =
        match OffsetReader.quote.value (.start buf) with
        | .ok a => .ok a.quote
        | .error (.error e) => .error e
        | .error .outside => .error [] := by
  have reads := OffsetReader.attest_reads
  have contained := OffsetReader.attest_contained
  refine ⟨fun a fits => ⟨a.quote, ?_, fun small => ?_, rfl, ?_, rfl⟩, fun a fits t before proper => ?_,
    fun a fits more some => ?_, fun buf => ⟨normalizeReads_ok buf, ((contained.whole _).start buf).1,
      parseTpmsAttestQuote_value buf⟩⟩
  · have raw := encode_isAttest a []
    rw [List.append_nil] at raw
    rw [normalize_isAttest _ raw, parseTpmsAttestQuote_value]
    rw [OffsetReader.quote, reads.whole_complete contained _ a fits]
  · have raw := encode_isAttest a []
    rw [List.append_nil] at raw
    rw [normalize_tpm2bOf _ small raw, parseTpmsAttestQuote_value]
    rw [OffsetReader.quote, reads.whole_complete contained _ a fits]
  · exact (List.forall₂_map_left_iff.mpr (List.forall₂_same.mpr fun s _ => reports_reported s))
  · obtain ⟨e, refused⟩ := reads.whole_truncated contained
      (fun left => JStr.lit "trailing bytes: " ++ JStr.natDigits left) a fits t before proper
    rw [normalize_truncated a t before, parseTpmsAttestQuote_value, OffsetReader.quote, refused]
    exact ⟨e, rfl⟩
  · have refused := reads.whole_append contained
      (fun left => JStr.lit "trailing bytes: " ++ JStr.natDigits left) a fits more
    rw [if_neg some] at refused
    rw [normalize_isAttest _ (encode_isAttest a more), parseTpmsAttestQuote_value, OffsetReader.quote, refused]
    exact ⟨_, rfl⟩

/-- A quote over PCRs 8, 9 and 11. -/
def sampleAttest : Attest where
  qualifiedSigner := [1, 2]
  extraData := [3]
  clockInfo := List.replicate 17 0
  firmwareVersion := List.replicate 8 0
  selections := [⟨tpmAlgSha256, [0, 11, 0]⟩]
  pcrDigest := List.replicate 32 7

theorem sampleAttest_fits : sampleAttest.Fits := by
  refine ⟨by decide, by decide, rfl, rfl, by decide, ?_, by decide⟩
  intro s member
  obtain rfl := List.mem_singleton.mp member
  exact ⟨by decide, by decide⟩

theorem parseTpmsAttestQuote_inverse_sample :
    sampleAttest.Fits ∧ ∃ quote, parseTpmsAttestQuote (normalizeQuotedAttest sampleAttest.encode) = .ok quote ∧
      quote.extraData = [3] := by
  obtain ⟨quote, run, _, extraData, _⟩ := parseTpmsAttestQuote_inverse.1 sampleAttest sampleAttest_fits
  exact ⟨sampleAttest_fits, quote, run, extraData⟩

end TeeProof.Verifier.AliyunVtpm
