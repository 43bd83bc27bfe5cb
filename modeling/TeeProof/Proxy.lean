import TeeProof.Capture

/-! The verifying proxy without enforcement: octets of a stream go to the client as they
come, but for the last ones, and what is left is cut from the body at the end. -/
namespace TeeProof.Proxy

open Verifier

variable (node : Node)

structure Streaming where
  acc : Bytes
  forwarded : Nat
  written : Bytes

def Streaming.init : Streaming := ⟨[], 0, []⟩

def onData (holdback : Nat) (s : Streaming) (c : Bytes) : Streaming :=
  let acc := s.acc ++ c
  let safeEnd := acc.length - holdback
  if safeEnd > s.forwarded then
    { acc, forwarded := safeEnd, written := s.written ++ (acc.drop s.forwarded).take (safeEnd - s.forwarded) }
  else { s with acc }

/-- What the client has received when the stream has ended. -/
def onEnd (s : Streaming) : Bytes :=
  let body := (parseTeeProofEvent node (bufferText s.acc).utf8).body
  if body.length > s.forwarded then s.written ++ body.drop s.forwarded else s.written

def streamed (holdback : Nat) (chunks : List Bytes) : Bytes :=
  onEnd node (chunks.foldl (onData holdback) .init)

/-! What has been written while data comes. -/

structure Forwards (holdback : Nat) (stream : Bytes) (s : Streaming) : Prop where
  acc : s.acc = stream
  forwarded : s.forwarded = stream.length - holdback
  written : s.written = stream.take s.forwarded

theorem Forwards.onData {holdback : Nat} {stream : Bytes} {s : Streaming} (state : Forwards holdback stream s)
    (c : Bytes) : Forwards holdback (stream ++ c) (onData holdback s c) := by
  have grown : s.forwarded ≤ (stream ++ c).length - holdback := by
    rw [state.forwarded, List.length_append]
    omega
  have short : s.forwarded ≤ stream.length := by
    rw [state.forwarded]
    omega
  have kept : (stream ++ c).take s.forwarded = stream.take s.forwarded := List.take_append_of_le_length short
  unfold Proxy.onData
  rw [state.acc]
  dsimp only
  split
  next more =>
    have sum : s.forwarded + ((stream ++ c).length - holdback - s.forwarded) = (stream ++ c).length - holdback :=
      Nat.add_sub_cancel' grown
    refine ⟨rfl, rfl, ?_⟩
    rw [state.written, ← kept, ← List.take_add, sum]
  next same => exact ⟨rfl, Nat.le_antisymm grown (Nat.le_of_not_gt same), by rw [state.written, ← kept]⟩

theorem forwards_run (holdback : Nat) (chunks : List Bytes) :
    Forwards holdback chunks.flatten (chunks.foldl (onData holdback) .init) := by
  have run (s : Streaming) (stream : Bytes) (state : Forwards holdback stream s) :
      Forwards holdback (stream ++ chunks.flatten) (chunks.foldl (Proxy.onData holdback) s) := by
    induction chunks generalizing s stream with
    | nil => simpa using state
    | cons c rest ih => simpa using ih _ _ (state.onData c)
  exact run .init [] ⟨rfl, by simp [Streaming.init], by simp [Streaming.init]⟩

/-- The cut into data events does not show. -/
theorem streamed_eq (holdback : Nat) (chunks : List Bytes) :
    streamed node holdback chunks =
      chunks.flatten.take (chunks.flatten.length - holdback) ++
        ((parseTeeProofEvent node (bufferText chunks.flatten).utf8).body).drop (chunks.flatten.length - holdback) := by
  have state := forwards_run holdback chunks
  unfold streamed onEnd
  rw [state.acc, state.written, state.forwarded]
  dsimp only
  split
  next => rfl
  next short => rw [List.drop_eq_nil_of_le (by omega), List.append_nil]

/-! The stream of an answer with its proof. -/

/-- So many comments. -/
def keepalives (count : Nat) : Bytes := (List.replicate count keepalive).flatten

theorem keepalives_succ (count : Nat) : keepalives (count + 1) = keepalive ++ keepalives count := rfl

/-- Decoding and encoding again. -/
def reencode (bytes : Bytes) : Bytes := Utf8.encode (Utf8.decode bytes)

theorem keepalive_text : ∃ text, keepalive = Utf8.encode text := ⟨": wokey-transport-keepalive-v1\n\n".toList, by decide⟩

theorem reencode_encode_append (text : List Char) (rest : Bytes) :
    reencode (Utf8.encode text ++ rest) = Utf8.encode text ++ reencode rest := by
  rw [reencode, Utf8.decode_encode_append, Utf8.encode_append, reencode]

theorem reencode_keepalives (count : Nat) (rest : Bytes) :
    reencode (keepalives count ++ rest) = keepalives count ++ reencode rest := by
  obtain ⟨text, eq⟩ := keepalive_text
  induction count with
  | zero => rfl
  | succ n ih => rw [keepalives_succ, eq, List.append_assoc, reencode_encode_append, ih, List.append_assoc]

/-- An event that begins with ASCII text is decoded apart from what stands before it. -/
theorem reencode_event {value : JsVal} {json : JStr} (line : JsonLine node value json) (bytes : Bytes) :
    reencode (bytes ++ (proofEvent json).utf8) = reencode bytes ++ (proofEvent json).utf8 := by
  obtain ⟨text, eq⟩ := proofEvent_wellFormed line
  have event : (proofEvent json).utf8 = Utf8.encode text := by rw [eq, JStr.utf8_ofChars]
  have first : ∃ rest, Utf8.encode text = 0x65 :: rest := by
    rw [← event, utf8_proofEvent json line.wellFormed]
    exact ⟨eventMarker.tail ++ 10 :: (JStr.utf8 "data: " ++ json.utf8 ++ 10 :: [10]), rfl⟩
  obtain ⟨rest, head⟩ := first
  have apart : Utf8.decode (bytes ++ Utf8.encode text) = Utf8.decode bytes ++ text := by
    have decoded := Utf8.decode_encode text
    rw [head, Utf8.decode_cons_ascii _ _ (by decide)] at decoded
    rw [head, Utf8.decode_ascii _ _ _ (by decide), decoded]
  rw [event, reencode, apart, Utf8.encode_append, reencode]

theorem bufferText_reencode (bytes : Bytes) : (bufferText bytes).utf8 = reencode bytes := by
  rw [bufferText, JStr.utf8_ofChars, reencode]

/-! The comments that the verifier ignores before a body. -/

def Signed (proof : JsVal) (body : Bytes) : Prop :=
  (expectedHash node proof).isHex64 = true ∧ sha256Hex node body = expectedHash node proof

instance (proof : JsVal) (body : Bytes) : Decidable (Signed node proof body) := inferInstanceAs (Decidable (_ ∧ _))

def without (count : Nat) (body : Bytes) : Bytes := body.drop (count * keepalive.length)

/-- The first rest after leading comments that the proof signs is left, or the body
itself when it signs none. -/
def Ignored (proof : JsVal) (body : Bytes) (count : Nat) : Prop :=
  (Signed node proof (without count body) ∧ keepalives count <+: body ∧
      ∀ i < count, ¬Signed node proof (without i body)) ∨
    (count = 0 ∧ ∀ i, keepalives i <+: body → ¬Signed node proof (without i body))

theorem without_succ (count : Nat) (body : Bytes) : without (count + 1) body = without count (body.drop keepalive.length) := by
  rw [without, without, List.drop_drop, Nat.succ_mul, Nat.add_comm]

theorem keepalives_prefix_succ (count : Nat) (body : Bytes) :
    keepalives (count + 1) <+: body ↔ keepalive.isPrefixOf body = true ∧ keepalives count <+: body.drop keepalive.length := by
  rw [List.isPrefixOf_iff_prefix, keepalives_succ]
  constructor
  · rintro ⟨rest, rfl⟩
    rw [List.append_assoc, List.drop_left]
    exact ⟨List.prefix_append _ _, List.prefix_append _ _⟩
  · rintro ⟨⟨rest, rfl⟩, more⟩
    rw [List.drop_left] at more
    exact (List.prefix_append_right_inj _).mpr more

section Loop

variable (proof : JsVal) (hex : (expectedHash node proof).isHex64 = true)

include hex

theorem keepaliveLoop_unsigned (fuel : Nat) (rest : Bytes) (count : Nat)
    (unsigned : ∀ i, keepalives (i + 1) <+: rest → ¬Signed node proof (without (i + 1) rest)) :
    keepaliveLoop node (expectedHash node proof) fuel rest count = none := by
  induction fuel generalizing rest count with
  | zero => rfl
  | succ fuel ih =>
    rw [keepaliveLoop]
    split
    next starts =>
      have first := unsigned 0 ((keepalives_prefix_succ 0 rest).mpr ⟨starts, List.nil_prefix⟩)
      have apart : sha256Hex node (rest.drop keepalive.length) ≠ expectedHash node proof := by
        intro same
        rw [without_succ] at first
        exact first ⟨hex, by simpa [without] using same⟩
      dsimp only
      rw [if_neg apart]
      refine ih _ _ fun i starts' => ?_
      have next := unsigned (i + 1) ((keepalives_prefix_succ (i + 1) rest).mpr ⟨starts, starts'⟩)
      rwa [without_succ] at next
    next => rfl

theorem keepaliveLoop_signed (fuel : Nat) (rest : Bytes) (count more : Nat) (enough : more < fuel)
    (starts : keepalives (more + 1) <+: rest) (signed : Signed node proof (without (more + 1) rest))
    (unsigned : ∀ i < more, ¬Signed node proof (without (i + 1) rest)) :
    keepaliveLoop node (expectedHash node proof) fuel rest count = some (without (more + 1) rest, count + (more + 1)) := by
  induction more generalizing fuel rest count with
  | zero =>
    obtain ⟨fuel, rfl⟩ := Nat.exists_eq_succ_of_ne_zero (Nat.ne_of_gt enough)
    have here := ((keepalives_prefix_succ 0 rest).mp starts).1
    rw [without_succ] at signed ⊢
    have same : sha256Hex node (rest.drop keepalive.length) = expectedHash node proof := by
      simpa [without] using signed.2
    rw [keepaliveLoop, if_pos here]
    dsimp only
    rw [if_pos same]
    simp [without]
  | succ more ih =>
    obtain ⟨fuel, rfl⟩ := Nat.exists_eq_succ_of_ne_zero (Nat.ne_of_gt (Nat.lt_of_le_of_lt (Nat.zero_le _) enough))
    obtain ⟨here, after⟩ := (keepalives_prefix_succ (more + 1) rest).mp starts
    have first := unsigned 0 (by omega)
    have apart : sha256Hex node (rest.drop keepalive.length) ≠ expectedHash node proof := by
      intro same
      rw [without_succ] at first
      exact first ⟨hex, by simpa [without] using same⟩
    rw [without_succ] at signed ⊢
    rw [keepaliveLoop, if_pos here]
    dsimp only
    rw [if_neg apart, ih fuel _ (count + 1) (by omega) after signed fun i below => ?_]
    · congr 2
      omega
    · have next := unsigned (i + 1) (by omega)
      rwa [without_succ] at next

end Loop

theorem keepalives_length (count : Nat) : (keepalives count).length = count * keepalive.length := by
  rw [keepalives, List.length_flatten, List.map_replicate, List.sum_replicate, smul_eq_mul]

/-- What the verifier takes for the body. -/
theorem body_ignored (proof : JsVal) (body : Bytes) (count : Nat) (ignored : Ignored node proof body count) :
    (removeLeadingTransportKeepalivesIfSignedHashMatches node body proof).body = without count body := by
  unfold removeLeadingTransportKeepalivesIfSignedHashMatches
  dsimp only
  by_cases hex : (expectedHash node proof).isHex64 = true
  · rw [hex, Bool.not_true, if_neg Bool.false_ne_true]
    rcases ignored with ⟨signed, starts, unsigned⟩ | ⟨rfl, unsigned⟩
    · cases count with
      | zero =>
        have same : sha256Hex node body = expectedHash node proof := by simpa [without] using signed.2
        rw [if_pos same]
        simp [without]
      | succ more =>
        have apart : sha256Hex node body ≠ expectedHash node proof := fun same =>
          unsigned 0 (by omega) ⟨hex, by simpa [without] using same⟩
        have bound : more + 1 ≤ body.length := by
          have length := starts.length_le
          rw [keepalives_length] at length
          have positive : 1 ≤ keepalive.length := by decide
          calc more + 1 = (more + 1) * 1 := (Nat.mul_one _).symm
            _ ≤ (more + 1) * keepalive.length := Nat.mul_le_mul_left _ positive
            _ ≤ body.length := length
        rw [if_neg apart, keepaliveLoop_signed node proof hex _ body 0 more (by omega) starts signed
          fun i below => unsigned (i + 1) (by omega)]
    · have apart : sha256Hex node body ≠ expectedHash node proof := fun same =>
        unsigned 0 List.nil_prefix ⟨hex, by simpa [without] using same⟩
      rw [if_neg apart, keepaliveLoop_unsigned node proof hex _ body 0 fun i => unsigned (i + 1)]
      simp [without]
  · rw [Bool.eq_false_iff.mpr hex]
    rcases ignored with ⟨signed, -⟩ | ⟨rfl, -⟩
    · exact absurd signed.1 hex
    · simp [without]

theorem ignored_exists (proof : JsVal) (body : Bytes) : ∃ count, Ignored node proof body count := by
  classical
  by_cases some : ∃ count, keepalives count <+: body ∧ Signed node proof (without count body)
  · obtain ⟨starts, signed⟩ := Nat.find_spec some
    refine ⟨Nat.find some, .inl ⟨signed, starts, fun i below signed' => ?_⟩⟩
    refine Nat.find_min some below ⟨?_, signed'⟩
    have split : keepalives (Nat.find some) = keepalives i ++ keepalives (Nat.find some - i) := by
      rw [keepalives, keepalives, keepalives, ← List.flatten_append, List.replicate_append_replicate,
        Nat.add_sub_cancel' below.le]
    exact (split ▸ List.prefix_append _ _ : keepalives i <+: keepalives (Nat.find some)).trans starts
  · refine ⟨0, .inr ⟨rfl, fun i starts signed => some ⟨i, starts, signed⟩⟩⟩

/-- The part of the answer that is still to be written is the one the verifier's body
holds at that offset, for the whole stream or for the body alone. -/
def Aligned (sent : Nat) (before body left : Bytes) : Prop :=
  left.drop sent = (before ++ body).drop sent ∨
    (sent ≤ body.length ∧ (before ++ body).take sent = body.take sent ∧ left.drop sent = body.drop sent)

theorem aligned_iff (sent : Nat) (before body left : Bytes) (short : sent ≤ (before ++ body).length) :
    ((before ++ body).take sent ++ left.drop sent = body ∨
        (before ++ body).take sent ++ left.drop sent = before ++ body) ↔ Aligned sent before body left := by
  have length : ((before ++ body).take sent).length = sent := List.length_take_of_le short
  have whole : (before ++ body).take sent ++ left.drop sent = before ++ body ↔
      left.drop sent = (before ++ body).drop sent := by
    conv_lhs => rhs; rw [← List.take_append_drop sent (before ++ body)]
    exact List.append_right_inj _
  have alone : (before ++ body).take sent ++ left.drop sent = body ↔
      sent ≤ body.length ∧ (before ++ body).take sent = body.take sent ∧ left.drop sent = body.drop sent := by
    constructor
    · intro same
      have fits : sent ≤ body.length := by
        have total := congrArg List.length same
        rw [List.length_append, length] at total
        omega
      have split := same.trans (List.take_append_drop sent body).symm
      obtain ⟨front, back⟩ := List.append_inj split (by rw [length, List.length_take_of_le fits])
      exact ⟨fits, front, back⟩
    · rintro ⟨-, front, back⟩
      rw [front, back, List.take_append_drop]
  rw [whole, alone, Aligned, or_comm]

section Whole

variable (holdback count : Nat) (body : Bytes) (proof : JsVal) (json : JStr) (line : JsonLine node proof json)
  (held : (proofEvent json).utf8.length ≤ holdback) (chunks : List Bytes)
  (stream : chunks.flatten = keepalives count ++ body ++ (proofEvent json).utf8)

include held stream

theorem sent_le : chunks.flatten.length - holdback ≤ (keepalives count ++ body).length := by
  rw [stream, List.length_append]
  omega

include line

/-- All that the client receives. -/
theorem streamed_output (ignored : Nat) (found : Ignored node proof (keepalives count ++ reencode body) ignored) :
    streamed node holdback chunks =
      (keepalives count ++ body).take (chunks.flatten.length - holdback) ++
        (without ignored (keepalives count ++ reencode body)).drop (chunks.flatten.length - holdback) := by
  have short := sent_le holdback count body json held chunks stream
  have text : (bufferText chunks.flatten).utf8 = keepalives count ++ reencode body ++ (proofEvent json).utf8 := by
    rw [bufferText_reencode, stream, reencode_event node line, reencode_keepalives]
  rw [streamed_eq, text, parseTeeProofEvent_capture line, body_ignored node proof _ ignored found]
  congr 1
  rw [stream] at short ⊢
  exact List.take_append_of_le_length short

end Whole

/-- Text of which no comment is ignored goes through as it is. -/
theorem aligned_text (sent : Nat) (before body : Bytes) : Aligned sent before body (without 0 (before ++ body)) := by
  refine .inl ?_
  rw [without, Nat.zero_mul, List.drop_zero]

def plainEvent : Bytes := (proofEvent (captureJson plainHash)).utf8

theorem plainBody_signed : Signed (captureNode plainDigests plainHash) (captureProof plainHash) plainBody :=
  ⟨by decide, by decide⟩

end TeeProof.Proxy
