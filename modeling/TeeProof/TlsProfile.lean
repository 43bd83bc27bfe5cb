import TeeProof.Cursor
import TeeProof.Serde

/-! The TLS profile that the operator hands to the enclave, and its byte format. The
encoder and the decoder are inverse to each other, and the decoder stays inside any
input, whatever lengths that input announces. -/
namespace TeeProof.Enclave

open Scan

inductive Stack where
  | rustls
  | boring
  | openSsl
  | rustlsAwsLc
  deriving DecidableEq

inductive TlsVersion where
  | tls12
  | tls13
  deriving DecidableEq

inductive GreasePolicy where
  | disabled
  | enabled
  deriving DecidableEq

inductive ExtOrder where
  | fixed
  | permutePerSession
  deriving DecidableEq

inductive CertPolicy where
  | webpkiRoots
  deriving DecidableEq

structure H2Settings where
  settings : List (UInt16 × UInt32)
  windowUpdate : UInt32
  pseudoHeaderOrder : List Str
  deriving DecidableEq

structure TlsProfile where
  specId : UInt32
  issuedAt : UInt64
  label : Str
  stack : Stack
  cipherList : Str
  sigalgs : List Str
  groups : List Str
  alpn : List Str
  grease : GreasePolicy
  extOrder : ExtOrder
  minNegotiated : TlsVersion
  certPolicy : CertPolicy
  h2 : Option H2Settings
  deriving DecidableEq

inductive DecodeError where
  | eof
  | utf8
  | badTag (what : String)
  | trailing
  deriving DecidableEq

/-! The encoder. A length is cut to 32 bits, as the cast `n as u32` does. -/

def putLen (n : Nat) : Bytes := beBytes 4 (n % 2 ^ 32)
def putBytes (b : Bytes) : Bytes := putLen b.length ++ b
def putStr (s : Str) : Bytes := putBytes (Utf8.encode s)
def putStrs (v : List Str) : Bytes := putLen v.length ++ v.flatMap putStr

def Stack.tag : Stack → UInt8
  | rustls => 0
  | boring => 1
  | openSsl => 2
  | rustlsAwsLc => 3

def GreasePolicy.tag : GreasePolicy → UInt8
  | disabled => 0
  | enabled => 1

def ExtOrder.tag : ExtOrder → UInt8
  | fixed => 0
  | permutePerSession => 1

def TlsVersion.tag : TlsVersion → UInt8
  | tls12 => 0
  | tls13 => 1

def CertPolicy.tag : CertPolicy → UInt8
  | webpkiRoots => 0

def putSetting (s : UInt16 × UInt32) : Bytes := beBytes 2 s.1.toNat ++ beBytes 4 s.2.toNat

def putH2 : Option H2Settings → Bytes
  | none => [0]
  | some h2 =>
    [1] ++ (putLen h2.settings.length ++ (h2.settings.flatMap putSetting ++
      (beBytes 4 h2.windowUpdate.toNat ++ putStrs h2.pseudoHeaderOrder)))

def canonicalEncode (s : TlsProfile) : Bytes :=
  beBytes 4 s.specId.toNat ++ (beBytes 8 s.issuedAt.toNat ++ (putStr s.label ++ ([s.stack.tag] ++
    (putStr s.cipherList ++ (putStrs s.sigalgs ++ (putStrs s.groups ++ (putStrs s.alpn ++ ([s.grease.tag] ++
      ([s.extOrder.tag] ++ ([s.minNegotiated.tag] ++ ([s.certPolicy.tag] ++ putH2 s.h2)))))))))))

/-! The decoder. -/

abbrev Dec := Scan UInt8 DecodeError

namespace Dec

/-- `checked_add` overflows only past every slice, where the comparison with the length
reports the same error. -/
def take (n : Nat) : Dec Bytes := Scan.take .eof n

def u8 : Dec UInt8 := do
  let n ← uint .eof 1
  pure (UInt8.ofNat n)

def u16 : Dec UInt16 := do
  let n ← uint .eof 2
  pure (UInt16.ofNat n)

def u32 : Dec UInt32 := do
  let n ← uint .eof 4
  pure (UInt32.ofNat n)

def u64 : Dec UInt64 := do
  let n ← uint .eof 8
  pure (UInt64.ofNat n)

def len : Dec Nat := do
  let n ← u32
  pure n.toNat

def bytes : Dec Bytes := do
  let n ← len
  take n

/-- `String::from_utf8`: the text whose encoding the bytes are. -/
def fromUtf8 (b : Bytes) : Option Str :=
  if Utf8.encode (Utf8.decode b) = b then some (Utf8.decode b) else none

def s : Dec Str := do
  let b ← bytes
  match fromUtf8 b with
  | some text => pure text
  | none => fail .utf8

def strs : Dec (List Str) := do
  let n ← len
  times s n

/-- One byte that stands for a value of an enumeration. -/
def tagged (what : String) (ofTag : UInt8 → Option α) : Dec α := do
  let tag ← u8
  match ofTag tag with
  | some a => pure a
  | none => fail (.badTag what)

def stack : Dec Stack := tagged "stack" fun
  | 0 => some .rustls
  | 1 => some .boring
  | 2 => some .openSsl
  | 3 => some .rustlsAwsLc
  | _ => none

def grease : Dec GreasePolicy := tagged "grease" fun
  | 0 => some .disabled
  | 1 => some .enabled
  | _ => none

def extOrder : Dec ExtOrder := tagged "ext_order" fun
  | 0 => some .fixed
  | 1 => some .permutePerSession
  | _ => none

def minNegotiated : Dec TlsVersion := tagged "tls_version" fun
  | 0 => some .tls12
  | 1 => some .tls13
  | _ => none

def certPolicy : Dec CertPolicy := tagged "cert_policy" fun
  | 0 => some .webpkiRoots
  | _ => none

def setting : Dec (UInt16 × UInt32) := do
  let id ← u16
  let val ← u32
  pure (id, val)

def h2Settings : Dec H2Settings := do
  let sn ← len
  let settings ← times setting sn
  let windowUpdate ← u32
  let pseudoHeaderOrder ← strs
  pure { settings, windowUpdate, pseudoHeaderOrder }

def h2 : Dec (Option H2Settings) := do
  match ← u8 with
  | 0 => pure none
  | 1 => do
    let h2 ← h2Settings
    pure (some h2)
  | _ => fail (.badTag "h2")

def profile : Dec TlsProfile := do
  let specId ← u32
  let issuedAt ← u64
  let label ← s
  let stack ← stack
  let cipherList ← s
  let sigalgs ← strs
  let groups ← strs
  let alpn ← strs
  let grease ← grease
  let extOrder ← extOrder
  let minNegotiated ← minNegotiated
  let certPolicy ← certPolicy
  let h2 ← h2
  pure { specId, issuedAt, label, stack, cipherList, sigalgs, groups, alpn, grease, extOrder, minNegotiated,
         certPolicy, h2 }

/-- The body of `decode`: nothing may follow the profile. -/
def all : Dec TlsProfile := whole profile fun _ => .trailing

end Dec

def decode (b : Bytes) : Except (Fault DecodeError) TlsProfile := Dec.all.value (.start b)

/-- The loop rounds that `decode` begins on an input. -/
def decodeRounds (b : Bytes) : Nat := (Dec.all.after (.start b)).rounds

/-! What the codec can carry: every length fits its four bytes. -/

def StrFits (s : Str) : Prop := (Utf8.encode s).length < 2 ^ 32
def StrsFit (v : List Str) : Prop := v.length < 2 ^ 32 ∧ ∀ s ∈ v, StrFits s

instance (s : Str) : Decidable (StrFits s) := inferInstanceAs (Decidable ((Utf8.encode s).length < 2 ^ 32))
instance (v : List Str) : Decidable (StrsFit v) := inferInstanceAs (Decidable (v.length < 2 ^ 32 ∧ ∀ s ∈ v, StrFits s))

structure H2Settings.Fits (h2 : H2Settings) : Prop where
  settings : h2.settings.length < 2 ^ 32
  pseudoHeaderOrder : StrsFit h2.pseudoHeaderOrder

structure TlsProfile.Fits (s : TlsProfile) : Prop where
  label : StrFits s.label
  cipherList : StrFits s.cipherList
  sigalgs : StrsFit s.sigalgs
  groups : StrsFit s.groups
  alpn : StrsFit s.alpn
  h2 : ∀ h2, s.h2 = some h2 → h2.Fits

namespace Dec

theorem word_reads {γ : Type} (width : Nat) (ofNat : Nat → γ) (toNat : γ → Nat)
    (small : ∀ x, toNat x < 256 ^ width) (there : ∀ n, n < 256 ^ width → toNat (ofNat n) = n)
    (back : ∀ x, ofNat (toNat x) = x) :
    Reads (do let n ← uint .eof width; pure (ofNat n) : Dec γ) (fun x => beBytes width (toNat x)) fun _ => True :=
  (Reads.uint DecodeError.eof width).map ofNat toNat (fun x _ => ⟨small x, back x⟩)
    fun n size => ⟨trivial, there n size⟩

theorem u8_reads : Reads u8 (fun b => [b]) fun _ => True := by
  refine (word_reads 1 UInt8.ofNat UInt8.toNat UInt8.toNat_lt (fun n small => ?_) fun x => UInt8.ofNat_toNat).congr
    (fun _ => Iff.rfl) fun b _ => ?_
  · exact UInt8.toNat_ofNat_of_lt' small
  · simp [beBytes]

theorem u16_reads : Reads u16 (fun n => beBytes 2 n.toNat) fun _ => True :=
  word_reads 2 UInt16.ofNat UInt16.toNat UInt16.toNat_lt (fun _ small => UInt16.toNat_ofNat_of_lt' small)
    fun _ => UInt16.ofNat_toNat

theorem u32_reads : Reads u32 (fun n => beBytes 4 n.toNat) fun _ => True :=
  word_reads 4 UInt32.ofNat UInt32.toNat UInt32.toNat_lt (fun _ small => UInt32.toNat_ofNat_of_lt' small)
    fun _ => UInt32.ofNat_toNat

theorem u64_reads : Reads u64 (fun n => beBytes 8 n.toNat) fun _ => True :=
  word_reads 8 UInt64.ofNat UInt64.toNat UInt64.toNat_lt (fun _ small => UInt64.toNat_ofNat_of_lt' small)
    fun _ => UInt64.ofNat_toNat

theorem len_reads : Reads len putLen fun n => n < 2 ^ 32 := by
  refine (u32_reads.map UInt32.toNat UInt32.ofNat (fun n small => ?_) fun x _ => ?_).congr (fun _ => Iff.rfl)
    fun n small => ?_
  · exact ⟨trivial, UInt32.toNat_ofNat_of_lt' small⟩
  · exact ⟨x.toNat_lt, UInt32.ofNat_toNat⟩
  · rw [UInt32.toNat_ofNat_of_lt' small, putLen, Nat.mod_eq_of_lt small]

theorem bytes_reads : Reads bytes putBytes fun b => b.length < 2 ^ 32 := by
  refine len_reads.field List.length (fun _ small => small) fun n small => ?_
  refine (Reads.take DecodeError.eof n).congr (fun b => ⟨And.right, fun size => ⟨?_, size⟩⟩) fun _ _ => rfl
  rwa [size]

theorem fromUtf8_eq_some (b : Bytes) (text : Str) : fromUtf8 b = some text ↔ Utf8.encode text = b := by
  unfold fromUtf8
  constructor
  · intro h
    split at h
    next valid =>
      cases h
      exact valid
    · cases h
  · rintro rfl
    rw [Utf8.decode_encode, if_pos rfl]

theorem s_reads : Reads s putStr StrFits := by
  refine (bytes_reads.field Utf8.encode (fun _ fits => fits) fun b small => ?_).congr (fun _ => Iff.rfl)
    fun _ _ => List.append_nil _
  cases decoded : fromUtf8 b with
  | some text =>
    refine Reads.pure text fun t => ?_
    rw [fromUtf8_eq_some] at decoded
    constructor
    · rintro ⟨_, same⟩
      exact Utf8.encode_injective (same.trans decoded.symm)
    · rintro rfl
      exact ⟨decoded ▸ small, decoded⟩
  | none =>
    refine Reads.fail DecodeError.utf8 fun t holds => ?_
    rw [(fromUtf8_eq_some b t).mpr holds.2] at decoded
    cases decoded

/-- A list with its length in front. -/
theorem counted_reads {r : Dec α} {put : α → Bytes} {P : α → Prop} (reads : Reads r put P) :
    Reads (do let n ← len; times r n : Dec (List α)) (fun v => putLen v.length ++ v.flatMap put)
      fun v => v.length < 2 ^ 32 ∧ ∀ a ∈ v, P a :=
  len_reads.field List.length (fun _ fits => fits.1) fun n small =>
    (reads.times n).congr (fun _ => ⟨fun h => ⟨h.2, h.1.2⟩, fun h => ⟨⟨h.1 ▸ small, h.2⟩, h.1⟩⟩) fun _ _ => rfl

theorem strs_reads : Reads strs putStrs StrsFit := counted_reads s_reads

theorem tagged_reads {what : String} {ofTag : UInt8 → Option α} (tag : α → UInt8)
    (inverse : ∀ b a, ofTag b = some a ↔ tag a = b) : Reads (tagged what ofTag) (fun a => [tag a]) fun _ => True := by
  refine (u8_reads.field tag (fun _ _ => trivial) fun b _ => ?_).congr (fun _ => Iff.rfl) fun _ _ => List.append_nil _
  cases found : ofTag b with
  | some a =>
    refine Reads.pure a fun x => ?_
    rw [← inverse, found, Option.some.injEq, true_and, eq_comm]
  | none =>
    refine Reads.fail (DecodeError.badTag what) fun x holds => ?_
    rw [(inverse b x).mpr holds.2] at found
    cases found

theorem stack_reads : Reads stack (fun a => [a.tag]) fun _ => True :=
  tagged_reads Stack.tag fun b a => by
    constructor
    · intro h
      split at h <;> cases h <;> rfl
    · rintro rfl
      cases a <;> rfl

theorem grease_reads : Reads grease (fun a => [a.tag]) fun _ => True :=
  tagged_reads GreasePolicy.tag fun b a => by
    constructor
    · intro h
      split at h <;> cases h <;> rfl
    · rintro rfl
      cases a <;> rfl

theorem extOrder_reads : Reads extOrder (fun a => [a.tag]) fun _ => True :=
  tagged_reads ExtOrder.tag fun b a => by
    constructor
    · intro h
      split at h <;> cases h <;> rfl
    · rintro rfl
      cases a <;> rfl

theorem minNegotiated_reads : Reads minNegotiated (fun a => [a.tag]) fun _ => True :=
  tagged_reads TlsVersion.tag fun b a => by
    constructor
    · intro h
      split at h <;> cases h <;> rfl
    · rintro rfl
      cases a <;> rfl

theorem certPolicy_reads : Reads certPolicy (fun a => [a.tag]) fun _ => True :=
  tagged_reads CertPolicy.tag fun b a => by
    constructor
    · intro h
      split at h
      · cases h
        rfl
      · cases h
    · rintro rfl
      cases a
      rfl

theorem setting_reads : Reads setting putSetting fun _ => True := by
  refine u16_reads.field Prod.fst (fun _ _ => trivial) fun id _ => ?_
  refine (u32_reads.map (fun val => (id, val)) Prod.snd (fun s holds => ?_) fun val _ => ?_)
  · exact ⟨trivial, Prod.ext holds.2.symm rfl⟩
  · exact ⟨⟨trivial, rfl⟩, rfl⟩

theorem h2Settings_reads :
    Reads h2Settings (fun h2 => putLen h2.settings.length ++ (h2.settings.flatMap putSetting ++
      (beBytes 4 h2.windowUpdate.toNat ++ putStrs h2.pseudoHeaderOrder))) H2Settings.Fits := by
  refine len_reads.field (fun h2 : H2Settings => h2.settings.length) (fun _ fits => fits.settings) fun n small => ?_
  refine (setting_reads.times n).field H2Settings.settings (fun _ holds => ⟨holds.2, fun _ _ => trivial⟩)
    fun settings counted => ?_
  refine u32_reads.field H2Settings.windowUpdate (fun _ _ => trivial) fun windowUpdate _ => ?_
  refine strs_reads.map (fun pseudoHeaderOrder => { settings, windowUpdate, pseudoHeaderOrder })
    H2Settings.pseudoHeaderOrder (fun h2 holds => ?_) fun order fits => ?_
  · obtain ⟨⟨⟨fits, _⟩, rfl⟩, rfl⟩ := holds
    exact ⟨fits.pseudoHeaderOrder, rfl⟩
  · exact ⟨⟨⟨⟨⟨counted.1 ▸ small, fits⟩, counted.1⟩, rfl⟩, rfl⟩, rfl⟩

/-- The byte in front of the settings says whether there are any. -/
theorem h2_reads : Reads h2 putH2 fun h2 => ∀ settings, h2 = some settings → settings.Fits := by
  have next (b : UInt8) (_ : True) : Reads
      (match b with
        | 0 => pure none
        | 1 => do
          let h2 ← h2Settings
          pure (some h2)
        | _ => fail (.badTag "h2"))
      (fun h2 => (putH2 h2).tail)
      fun h2 => (∀ settings, h2 = some settings → settings.Fits) ∧ (if h2.isSome then 1 else 0) = b := by
    split
    · refine (Reads.pure none fun _ => Iff.rfl).congr (fun h2 => ?_) fun h2 absent => ?_
      · cases h2 <;> simp
      · rw [absent]
        rfl
    · have present := h2Settings_reads.map (Q := fun h2 => ∃ settings, h2 = some settings ∧ settings.Fits) some
        (fun h2 => h2.getD ⟨[], 0, []⟩) (by rintro _ ⟨settings, rfl, fits⟩; exact ⟨fits, rfl⟩)
        fun settings fits => ⟨⟨settings, rfl, fits⟩, rfl⟩
      refine present.congr (fun h2 => ?_) ?_
      · cases h2 <;> simp
      · rintro _ ⟨settings, rfl, _⟩
        rfl
    next zero one =>
      refine Reads.fail (DecodeError.badTag "h2") fun h2 holds => ?_
      cases h2 with
      | none => exact zero holds.2.symm
      | some settings => exact one holds.2.symm
  exact (u8_reads.field _ (fun _ _ => trivial) next).congr (fun _ => Iff.rfl) fun h2 _ => by cases h2 <;> rfl

theorem profile_reads : Reads profile canonicalEncode TlsProfile.Fits := by
  refine u32_reads.field TlsProfile.specId (fun _ _ => trivial) fun specId _ => ?_
  refine u64_reads.field TlsProfile.issuedAt (fun _ _ => trivial) fun issuedAt _ => ?_
  refine s_reads.field TlsProfile.label (fun _ holds => holds.1.1.label) fun label labelFits => ?_
  refine stack_reads.field TlsProfile.stack (fun _ _ => trivial) fun stack _ => ?_
  refine s_reads.field TlsProfile.cipherList (fun _ holds => holds.1.1.1.1.cipherList) fun cipherList cipherFits => ?_
  refine strs_reads.field TlsProfile.sigalgs (fun _ holds => holds.1.1.1.1.1.sigalgs) fun sigalgs sigalgsFit => ?_
  refine strs_reads.field TlsProfile.groups (fun _ holds => holds.1.1.1.1.1.1.groups) fun groups groupsFit => ?_
  refine strs_reads.field TlsProfile.alpn (fun _ holds => holds.1.1.1.1.1.1.1.alpn) fun alpn alpnFit => ?_
  refine grease_reads.field TlsProfile.grease (fun _ _ => trivial) fun grease _ => ?_
  refine extOrder_reads.field TlsProfile.extOrder (fun _ _ => trivial) fun extOrder _ => ?_
  refine minNegotiated_reads.field TlsProfile.minNegotiated (fun _ _ => trivial) fun minNegotiated _ => ?_
  refine certPolicy_reads.field TlsProfile.certPolicy (fun _ _ => trivial) fun certPolicy _ => ?_
  refine h2_reads.map _ TlsProfile.h2 (fun s holds => ?_) fun h2 h2Fits => ?_
  · obtain ⟨⟨⟨⟨⟨⟨⟨⟨⟨⟨⟨⟨fits, rfl⟩, rfl⟩, rfl⟩, rfl⟩, rfl⟩, rfl⟩, rfl⟩, rfl⟩, rfl⟩, rfl⟩, rfl⟩, rfl⟩ := holds
    exact ⟨fits.h2, rfl⟩
  · refine ⟨⟨⟨⟨⟨⟨⟨⟨⟨⟨⟨⟨⟨?_, rfl⟩, rfl⟩, rfl⟩, rfl⟩, rfl⟩, rfl⟩, rfl⟩, rfl⟩, rfl⟩, rfl⟩, rfl⟩, rfl⟩, rfl⟩
    exact ⟨labelFits, cipherFits, sigalgsFit, groupsFit, alpnFit, h2Fits⟩

theorem u8_contained : Contained 1 0 u8 := (Contained.uint _ 1).seq fun _ => .pure _
theorem u16_contained : Contained 2 0 u16 := (Contained.uint _ 2).seq fun _ => .pure _
theorem u32_contained : Contained 4 0 u32 := (Contained.uint _ 4).seq fun _ => .pure _
theorem u64_contained : Contained 8 0 u64 := (Contained.uint _ 8).seq fun _ => .pure _
theorem len_contained : Contained 4 0 len := u32_contained.seq fun _ => .pure _

theorem bytes_contained : Contained 4 0 bytes :=
  len_contained.seq fun n => (Contained.take _ n).weaken (Nat.zero_le _) le_rfl

theorem s_contained : Contained 4 0 s :=
  bytes_contained.seq fun b => by
    cases fromUtf8 b with
    | some text => exact Contained.pure text
    | none => exact Contained.fail _

/-- The length in front of a list pays for the round that may be cut short. -/
theorem counted_contained {r : Dec α} (item : Contained 1 0 r) :
    Contained 4 0 (do let n ← len; times r n : Dec (List α)) :=
  len_contained.bind fun n => (item.times n).weaken le_rfl (by omega)

theorem strs_contained : Contained 4 0 strs := counted_contained (s_contained.weaken (by omega) le_rfl)

theorem tagged_contained {what : String} {ofTag : UInt8 → Option α} : Contained 1 0 (tagged what ofTag) :=
  u8_contained.seq fun b => by
    cases ofTag b with
    | some a => exact Contained.pure a
    | none => exact Contained.fail _

theorem setting_contained : Contained 2 0 setting :=
  u16_contained.seq fun _ => u32_contained.seq fun _ => .pure _

theorem h2Settings_contained : Contained 4 0 h2Settings := by
  have settings := counted_contained (setting_contained.weaken (by omega) le_rfl)
  have later (settings : List (UInt16 × UInt32)) : Contained 4 0 (do
      let windowUpdate ← u32
      let pseudoHeaderOrder ← strs
      pure { settings, windowUpdate, pseudoHeaderOrder } : Dec H2Settings) :=
    u32_contained.seq fun _ => strs_contained.seq fun _ => .pure _
  have both := settings.seq later
  rw [bind_assoc] at both
  exact both

theorem h2_contained : Contained 1 0 h2 :=
  u8_contained.seq fun b => by
    split
    · exact (Contained.pure none).weaken le_rfl le_rfl
    · exact (h2Settings_contained.seq fun _ => Contained.pure _).weaken (by omega) le_rfl
    · exact Contained.fail _

theorem profile_contained : Contained 4 0 profile :=
  u32_contained.seq fun _ => u64_contained.seq fun _ => s_contained.seq fun _ => tagged_contained.seq fun _ =>
    s_contained.seq fun _ => strs_contained.seq fun _ => strs_contained.seq fun _ => strs_contained.seq fun _ =>
      tagged_contained.seq fun _ => tagged_contained.seq fun _ => tagged_contained.seq fun _ =>
        tagged_contained.seq fun _ => h2_contained.seq fun _ => .pure _

end Dec

theorem tlsProfile_codec :
    (∀ s : TlsProfile, s.Fits → decode (canonicalEncode s) = .ok s) ∧
    (∀ b s, decode b = .ok s → canonicalEncode s = b) ∧
    (∀ b b' s, decode b = .ok s → decode b' = .ok s → b = b') ∧
    (∀ s : TlsProfile, s.Fits → ∀ t, t <+: canonicalEncode s → t ≠ canonicalEncode s →
      ∃ e, decode t = .error (.error e)) ∧
    (∀ s : TlsProfile, s.Fits → ∀ more, more ≠ [] → ∃ e, decode (canonicalEncode s ++ more) = .error (.error e)) ∧
    ∀ b, decode b ≠ .error .outside ∧ decodeRounds b ≤ b.length := by
  have reads := Dec.profile_reads
  have contained := Dec.profile_contained
  have sound (b : Bytes) (s : TlsProfile) (run : decode b = .ok s) : canonicalEncode s = b :=
    (reads.whole_sound contained _ run).2
  refine ⟨fun s fits => ?_, sound, fun b b' s run run' => ?_, fun s fits t before proper => ?_,
    fun s fits more some => ⟨.trailing, ?_⟩, fun b => (contained.whole _).start b⟩
  · exact reads.whole_complete contained _ s fits
  · exact (sound b s run).symm.trans (sound b' s run')
  · exact reads.whole_truncated contained _ s fits t before proper
  · have left := reads.whole_append contained (fun _ => DecodeError.trailing) s fits more
    rwa [if_neg some] at left

/-- The profile of the source's round-trip test, with HTTP/2 settings. -/
def sampleProfile : TlsProfile where
  specId := 1
  issuedAt := 0
  label := "example-client"
  stack := .rustls
  cipherList := []
  sigalgs := []
  groups := ["X25519".toList, "P-256".toList]
  alpn := ["http/1.1".toList]
  grease := .disabled
  extOrder := .fixed
  minNegotiated := .tls12
  certPolicy := .webpkiRoots
  h2 := some { settings := [(1, 65536), (4, 6291456)], windowUpdate := 15663105, pseudoHeaderOrder := [":method".toList] }

theorem sampleProfile_fits : sampleProfile.Fits := by
  refine ⟨by decide, by decide, by decide, by decide, by decide, ?_⟩
  rintro _ ⟨⟩
  exact ⟨by decide, by decide⟩

theorem tlsProfile_codec_sample :
    decode (canonicalEncode sampleProfile) = .ok sampleProfile ∧
      ∃ e, decode (canonicalEncode sampleProfile ++ [0xff]) = .error (.error e) :=
  ⟨tlsProfile_codec.1 sampleProfile sampleProfile_fits,
    tlsProfile_codec.2.2.2.2.1 sampleProfile sampleProfile_fits [0xff] (by decide)⟩

end TeeProof.Enclave
