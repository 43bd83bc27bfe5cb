import TeeProof.Nitro
import TeeProof.QingTianBounds

/-! The bytes a COSE signature covers: what the QingTian encoder writes, its decoder reads
back, and the Nitro verifier writes the same. -/
namespace TeeProof.Verifier.QingTian

/-- What the decoder returns for a value the encoder takes. -/
def CborInput.decoded : CborInput → CborValue
  | .num n => .num (some n)
  | .text s => .text s
  | .bytes b => .bytes b
  | .array items => .array (items.map decoded)

/-- The encoding exists, and the decoder reads the value back from all of it. -/
def RoundTrips (v : CborInput) : Prop :=
  ∃ b, encodeCbor v = .ok b ∧ decode b = .ok (v.decoded, some b.length)

/-- Numbers that have a head, strings that are text, and no length from 2^32 on. -/
inductive Encodable : CborInput → Prop
  | num {n : Int} : -2 ^ 32 ≤ n → n < 2 ^ 32 → Encodable (.num n)
  | text {s : JStr} : s.WellFormed → s.utf8.length < 2 ^ 32 → Encodable (.text s)
  | bytes {b : Bytes} : b.length < 2 ^ 32 → Encodable (.bytes b)
  | array {items : List CborInput} : items.length < 2 ^ 32 → (∀ v ∈ items, Encodable v) → Encodable (.array items)

/-! Heads -/

theorem byteAt_here (before : Bytes) (x : UInt8) (rest : Bytes) : byteAt (before ++ x :: rest) before.length = x.toNat := by
  rw [byteAt, List.getD_eq_getElem?_getD, List.getElem?_append_right (Nat.le_refl _), Nat.sub_self]
  rfl

theorem slice_here (before part rest : Bytes) : slice (before ++ (part ++ rest)) before.length part.length = part := by
  rw [slice, List.drop_left, List.take_left]

theorem here_lt (before : Bytes) (x : UInt8) (rest : Bytes) : before.length < (before ++ x :: rest).length := by
  rw [List.length_append, List.length_cons]
  omega

theorem head_short (known : major < 8) (small : n < 24) (before rest : Bytes) :
    Head (before ++ UInt8.ofNat (major * 32 + n) :: rest) before.length major n (before.length + 1) := by
  have octet : byteAt (before ++ UInt8.ofNat (major * 32 + n) :: rest) before.length = major * 32 + n := by
    rw [byteAt_here, UInt8.toNat_ofNat']
    omega
  refine .mk (here_lt _ _ _) (by omega) ?_
  rw [octet, show (major * 32 + n) % 32 = n by omega]
  exact .short small

theorem head_wide (known : major < 8) {k : Nat} (width : k < 4) {argument : Bytes} (size : argument.length = 2 ^ k)
    (safe : beNat argument ≤ maxSafeInteger) (before rest : Bytes) :
    Head (before ++ UInt8.ofNat (major * 32 + (24 + k)) :: (argument ++ rest)) before.length major (beNat argument)
      (before.length + 1 + 2 ^ k) := by
  generalize eq : before ++ UInt8.ofNat (major * 32 + (24 + k)) :: (argument ++ rest) = b
  have octet : byteAt b before.length = major * 32 + (24 + k) := by
    rw [← eq, byteAt_here, UInt8.toNat_ofNat']
    omega
  have split : b = (before ++ [UInt8.ofNat (major * 32 + (24 + k))]) ++ (argument ++ rest) := by
    rw [← eq, List.append_assoc]
    rfl
  have inside : before.length < b.length := by
    rw [← eq]
    exact here_lt _ _ _
  have part : slice b (before.length + 1) (2 ^ k) = argument := by
    have := slice_here (before ++ [UInt8.ofNat (major * 32 + (24 + k))]) argument rest
    rwa [← split, List.length_append, List.length_singleton, size] at this
  have fits : before.length + 1 + 2 ^ k ≤ b.length := by
    rw [split, List.length_append, List.length_append, List.length_append, List.length_singleton, size]
    omega
  have read : Argument b (before.length + 1) (24 + k) _ _ := .wide width fits (by rwa [part])
  rw [part] at read
  refine .mk inside (by omega) ?_
  rwa [octet, show (major * 32 + (24 + k)) % 32 = 24 + k by omega]

theorem beBytes_safe {width n : Nat} (fits : n < 256 ^ width) (small : n < 2 ^ 32) :
    beNat (beBytes width n) ≤ maxSafeInteger := by
  rw [beNat_beBytes width n fits, maxSafeInteger]
  omega

theorem beBytes_one {n : Nat} : beBytes 1 n = [UInt8.ofNat n] := by
  rw [beBytes, List.range_one, List.map_singleton, Nat.sub_self, Nat.pow_zero, Nat.div_one]

/-- A head that was written is read back. -/
theorem encodeCborHead_read (known : major < 8) (run : encodeCborHead major n = .ok head) (before rest : Bytes) :
    Head (before ++ (head ++ rest)) before.length major n (before.length + head.length) := by
  rw [encodeCborHead] at run
  split at run
  next small =>
    cases run
    exact head_short known small before rest
  split at run
  next one =>
    cases run
    have wide := head_wide known (k := 0) (by decide) (beBytes_length 1 n) (beBytes_safe (by omega) (by omega))
      before rest
    rwa [beNat_beBytes 1 n (by omega), beBytes_one] at wide
  split at run
  next two =>
    cases run
    have wide := head_wide known (k := 1) (by decide) (beBytes_length 2 n) (beBytes_safe (by omega) (by omega))
      before rest
    rwa [beNat_beBytes 2 n (by omega)] at wide
  split at run
  next four =>
    cases run
    have wide := head_wide known (k := 2) (by decide) (beBytes_length 4 n) (beBytes_safe (by omega) (by omega))
      before rest
    rwa [beNat_beBytes 4 n (by omega)] at wide
  next => cases run

theorem encodeCborHead_ok {n : Nat} (small : n < 2 ^ 32) (major : Nat) : ∃ head, encodeCborHead major n = .ok head := by
  rw [encodeCborHead]
  split_ifs
  all_goals exact ⟨_, rfl⟩

/-! Values -/

theorem whole_deeper (deeper : depth ≤ depth') (p : Nat) (v : CborValue) (q : Nat) (whole : Whole b depth p v q) :
    Whole b depth' p v q := by
  induction deeper with
  | refl => exact whole
  | step _ ih => exact whole_succ b _ p v q ih

/-- The encoding of `v` stands in `b` at `p`. -/
def ReadAt (v : CborInput) (encoded : Bytes) : Prop :=
  ∀ before rest, ∃ depth, Whole (before ++ (encoded ++ rest)) depth before.length v.decoded
    (before.length + encoded.length)

/-- A head and what is encoded behind it, in front of anything. -/
theorem behind_head (before head content rest : Bytes) :
    before ++ ((head ++ content) ++ rest) = (before ++ head) ++ (content ++ rest) ∧
      before ++ ((head ++ content) ++ rest) = before ++ (head ++ (content ++ rest)) ∧
      before.length + (head ++ content).length = (before ++ head).length + content.length := by
  refine ⟨by simp only [List.append_assoc], by simp only [List.append_assoc], ?_⟩
  rw [List.length_append, List.length_append]
  omega

theorem num_read {n : Int} (low : -2 ^ 32 ≤ n) (high : n < 2 ^ 32) :
    ∃ b, encodeCbor (.num n) = .ok b ∧ ReadAt (.num n) b := by
  rw [encodeCbor]
  split
  next positive =>
    obtain ⟨head, run⟩ := encodeCborHead_ok (n := n.toNat) (by omega) 0
    refine ⟨head, run, fun before rest => ⟨1, ?_⟩⟩
    have whole : Whole _ 1 _ _ _ := Level.unsigned (encodeCborHead_read (by decide) run before rest)
    rw [Int.toNat_of_nonneg positive] at whole
    rwa [CborInput.decoded]
  next negative =>
    obtain ⟨head, run⟩ := encodeCborHead_ok (n := (-1 - n).toNat) (by omega) 1
    refine ⟨head, run, fun before rest => ⟨1, ?_⟩⟩
    have whole : Whole _ 1 _ _ _ := Level.negative (encodeCborHead_read (by decide) run before rest)
    rw [Int.toNat_of_nonneg (by omega), sub_sub_cancel] at whole
    rwa [CborInput.decoded]

theorem text_read {s : JStr} (text : s.WellFormed) (small : s.utf8.length < 2 ^ 32) :
    ∃ b, encodeCbor (.text s) = .ok b ∧ ReadAt (.text s) b := by
  obtain ⟨head, run⟩ := encodeCborHead_ok small 3
  refine ⟨head ++ s.utf8, by rw [encodeCbor, run]; rfl, fun before rest => ⟨1, ?_⟩⟩
  obtain ⟨split, parts, stop⟩ := behind_head before head s.utf8 rest
  have read := encodeCborHead_read (by decide) run before (s.utf8 ++ rest)
  have part := slice_here (before ++ head) s.utf8 rest
  rw [← parts] at read
  rw [← split, List.length_append] at part
  have fits : before.length + head.length + s.utf8.length ≤ (before ++ ((head ++ s.utf8) ++ rest)).length := by
    simp only [List.length_append]
    omega
  have whole : Whole _ 1 _ _ _ := Level.text read fits
  rw [part, bufferText_utf8 s text] at whole
  rwa [stop, List.length_append, CborInput.decoded]

theorem bytes_read {s : Bytes} (small : s.length < 2 ^ 32) : ∃ b, encodeCbor (.bytes s) = .ok b ∧ ReadAt (.bytes s) b := by
  obtain ⟨head, run⟩ := encodeCborHead_ok small 2
  refine ⟨head ++ s, by rw [encodeCbor, run]; rfl, fun before rest => ⟨1, ?_⟩⟩
  obtain ⟨split, parts, stop⟩ := behind_head before head s rest
  have read := encodeCborHead_read (by decide) run before (s ++ rest)
  have part := slice_here (before ++ head) s rest
  rw [← parts] at read
  rw [← split, List.length_append] at part
  have fits : before.length + head.length + s.length ≤ (before ++ ((head ++ s) ++ rest)).length := by
    simp only [List.length_append]
    omega
  have whole : Whole _ 1 _ _ _ := Level.bytes read fits
  rw [part] at whole
  rwa [stop, List.length_append, CborInput.decoded]

mutual

theorem encodeCbor_read : (v : CborInput) → Encodable v → ∃ b, encodeCbor v = .ok b ∧ ReadAt v b
  | .num n, fine => by
    cases fine with
    | num low high => exact num_read low high
  | .text s, fine => by
    cases fine with
    | text text small => exact text_read text small
  | .bytes s, fine => by
    cases fine with
    | bytes small => exact bytes_read small
  | .array items, fine => by
    cases fine with
    | array small all =>
      obtain ⟨head, run⟩ := encodeCborHead_ok small 4
      obtain ⟨body, encoded, within⟩ := encodeItems_read items all
      refine ⟨head ++ body, by rw [encodeCbor, run, encoded]; rfl, fun before rest => ?_⟩
      obtain ⟨split, parts, stop⟩ := behind_head before head body rest
      have read := encodeCborHead_read (by decide) run before (body ++ rest)
      obtain ⟨depth, inner⟩ := within (before ++ head) rest
      rw [← parts] at read
      rw [← split, ← stop, List.length_append] at inner
      refine ⟨depth + 1, ?_⟩
      have count : (items.map CborInput.decoded).length = due 4 items.length := List.length_map _
      have level : Whole _ (depth + 1) _ (build 4 (some items.length) _) _ :=
        Level.items (by decide) (by decide) read inner count
      rwa [CborInput.decoded]

theorem encodeItems_read : (items : List CborInput) → (∀ v ∈ items, Encodable v) → ∃ b, encodeItems items = .ok b ∧
    ∀ before rest, ∃ depth, Items (Whole (before ++ (b ++ rest)) depth) before.length (items.map CborInput.decoded)
      (before.length + b.length)
  | [], _ => ⟨[], rfl, fun before rest => ⟨0, .nil _⟩⟩
  | v :: items, fine => by
    obtain ⟨first, run, one⟩ := encodeCbor_read v (fine v List.mem_cons_self)
    obtain ⟨body, runs, others⟩ := encodeItems_read items fun v member => fine v (List.mem_cons_of_mem _ member)
    refine ⟨first ++ body, by rw [encodeItems, run, runs]; rfl, fun before rest => ?_⟩
    obtain ⟨split, parts, stop⟩ := behind_head before first body rest
    obtain ⟨depth, whole⟩ := one before (body ++ rest)
    obtain ⟨depth', inner⟩ := others (before ++ first) rest
    rw [← parts] at whole
    rw [← split, ← stop, List.length_append] at inner
    refine ⟨max depth depth', .cons (whole_deeper (Nat.le_max_left _ _) _ _ _ whole) ?_⟩
    exact inner.mono (whole_deeper (Nat.le_max_right _ _))

end

/-- The decoder reads a value back from its whole encoding. -/
theorem encodeCbor_roundTrips (v : CborInput) (fine : Encodable v) : RoundTrips v := by
  obtain ⟨b, run, read⟩ := encodeCbor_read v fine
  refine ⟨b, run, ?_⟩
  obtain ⟨depth, whole⟩ := read [] []
  rw [List.nil_append, List.append_nil, List.length_nil, Nat.zero_add] at whole
  have deep := whole_deeper (Nat.le_max_left depth (b.length + 1)) _ _ _ whole
  have decoded := (decodeCbor_exact b _).whole 0 _ _ deep
  rw [decode, ← decodeCbor_enough (max depth (b.length + 1)) (b.length + 1) (by omega) (by omega)]
  exact decoded

/-! The Sig_structure -/

/-- `['Signature1', protected, Buffer.alloc(0), payload]`. -/
def sigStructureInput (protectedRaw payloadRaw : Bytes) : CborInput :=
  .array [.text "Signature1", .bytes protectedRaw, .bytes [], .bytes payloadRaw]

theorem encodeBytes_eq {b : Bytes} (small : b.length < 2 ^ 32) : encodeCbor (.bytes b) = .ok (encBstr b) := by
  rw [encodeCbor, encodeCborHead, encBstr]
  split_ifs <;> first | omega | rfl

theorem encodeCbor_sigStructure {protectedRaw payloadRaw : Bytes} (small : protectedRaw.length < 2 ^ 32)
    (small' : payloadRaw.length < 2 ^ 32) :
    encodeCbor (sigStructureInput protectedRaw payloadRaw) = .ok (sigStructure protectedRaw payloadRaw) := by
  have empty : encodeCbor (.bytes []) = .ok (encBstr []) := encodeBytes_eq (by decide)
  have text : encodeCbor (.text "Signature1") = .ok (encText "Signature1") := rfl
  rw [sigStructureInput, encodeCbor, encodeItems, encodeItems, encodeItems, encodeItems, encodeItems, text,
    encodeBytes_eq small, empty, encodeBytes_eq small']
  show Except.ok _ = _
  simp only [sigStructure, List.append_assoc, List.append_nil]
  rfl

theorem sigStructureInput_encodable {protectedRaw payloadRaw : Bytes} (small : protectedRaw.length < 2 ^ 32)
    (small' : payloadRaw.length < 2 ^ 32) : Encodable (sigStructureInput protectedRaw payloadRaw) := by
  have four : 4 < 2 ^ 32 := by decide
  refine .array four fun v member => ?_
  simp only [List.mem_cons, List.not_mem_nil, or_false] at member
  rcases member with rfl | rfl | rfl | rfl
  · exact .text ⟨_, rfl⟩ (by decide)
  · exact .bytes small
  · exact .bytes (by decide)
  · exact .bytes small'

/-- The bytes determine both parts. -/
theorem sigStructure_injective {p q p' q' : Bytes} (small : p.length < 2 ^ 32 ∧ q.length < 2 ^ 32)
    (small' : p'.length < 2 ^ 32 ∧ q'.length < 2 ^ 32) (eq : sigStructure p q = sigStructure p' q') :
    p = p' ∧ q = q' := by
  obtain ⟨b, run, one⟩ := encodeCbor_roundTrips _ (sigStructureInput_encodable small.1 small.2)
  obtain ⟨b', run', two⟩ := encodeCbor_roundTrips _ (sigStructureInput_encodable small'.1 small'.2)
  rw [encodeCbor_sigStructure small.1 small.2, eq, ← encodeCbor_sigStructure small'.1 small'.2, run'] at run
  cases run
  rw [one] at two
  have values := congrArg Prod.fst (Except.ok.inj two)
  simpa [sigStructureInput, CborInput.decoded] using values

theorem sigStructure_unambiguous :
    (∀ p q : Bytes, p.length < 2 ^ 32 → q.length < 2 ^ 32 →
      encodeCbor (sigStructureInput p q) = .ok (sigStructure p q)) ∧
    (∀ p q p' q' : Bytes, p.length < 2 ^ 32 ∧ q.length < 2 ^ 32 → p'.length < 2 ^ 32 ∧ q'.length < 2 ^ 32 →
      sigStructure p q = sigStructure p' q' → p = p' ∧ q = q') ∧
    ∀ v, Encodable v → RoundTrips v :=
  ⟨fun _ _ => encodeCbor_sigStructure, fun _ _ _ _ => sigStructure_injective, encodeCbor_roundTrips⟩

/-- Parts of one octet, and an array with a negative number. -/
theorem sigStructure_unambiguous_sample :
    encodeCbor (sigStructureInput [0xA0] [0x01]) = .ok (sigStructure [0xA0] [0x01]) ∧
      RoundTrips (.array [.num (-300), .bytes [0x01]]) := by
  have number : Encodable (.num (-300)) := .num (by decide) (by decide)
  have two : 2 < 2 ^ 32 := by decide
  refine ⟨sigStructure_unambiguous.1 [0xA0] [0x01] (by decide) (by decide),
    sigStructure_unambiguous.2.2 _ (.array two fun v member => ?_)⟩
  simp only [List.mem_cons, List.not_mem_nil, or_false] at member
  rcases member with rfl | rfl
  · exact number
  · exact .bytes (by decide)

/-- A byte string of 2^32 octets has no head. -/
theorem not_roundTrips_large : ¬RoundTrips (.bytes (List.replicate (2 ^ 32) 0)) := by
  rintro ⟨b, run, _⟩
  rw [encodeCbor, List.length_replicate] at run
  obtain ⟨head, none, _⟩ := Throws.bind_ok run
  rw [encodeCborHead, if_neg (by decide), if_neg (by decide), if_neg (by decide), if_neg (by decide)] at none
  cases none

end TeeProof.Verifier.QingTian
