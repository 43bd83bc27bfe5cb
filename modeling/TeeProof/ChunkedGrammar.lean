import TeeProof.ChunkedBody

/-! Which streams `stream_chunked` accepts: the chunked coding of RFC 7230 section 4.1 against
the lines and separators the decoder lets pass. -/
namespace TeeProof.Enclave

/-! The grammar. -/

def IsToken (name : Bytes) : Prop := name ≠ [] ∧ ∀ b ∈ name, isTokenByte b = true

/-- `qdtext`. -/
def isQuotedText (b : UInt8) : Bool :=
  b == 9 || b == 32 || b == 33 || (35 ≤ b.toNat && b.toNat ≤ 91) || (93 ≤ b.toNat && b.toNat ≤ 126) || 128 ≤ b.toNat

/-- What may follow the backslash of a `quoted-pair`. -/
def isQuotable (b : UInt8) : Bool := b == 9 || (32 ≤ b.toNat && b.toNat ≤ 126) || 128 ≤ b.toNat

inductive QuotedText : Bytes → Prop
  | nil : QuotedText []
  | text {b : UInt8} {rest : Bytes} (plain : isQuotedText b = true) (more : QuotedText rest) : QuotedText (b :: rest)
  | pair {b : UInt8} {rest : Bytes} (quotable : isQuotable b = true) (more : QuotedText rest) :
      QuotedText (92 :: b :: rest)

/-- `chunk-ext-val`: a token or a quoted string. -/
inductive ExtensionValue : Bytes → Prop
  | token {value : Bytes} (token : IsToken value) : ExtensionValue value
  | quoted {inner : Bytes} (text : QuotedText inner) : ExtensionValue (34 :: (inner ++ [34]))

/-- `chunk-ext`. -/
inductive ChunkExt : Bytes → Prop
  | nil : ChunkExt []
  | name {name rest : Bytes} (token : IsToken name) (more : ChunkExt rest) : ChunkExt (59 :: (name ++ rest))
  | valued {name value rest : Bytes} (token : IsToken name) (valid : ExtensionValue value) (more : ChunkExt rest) :
      ChunkExt (59 :: (name ++ 61 :: (value ++ rest)))

/-- A size line of the grammar. -/
def GrammarLine (line : Bytes) : Prop := ∃ l : SizeLine, ChunkExt l.extension ∧ line = l.bytes

/-- A chunked body up to the end of its last line, with the data of its chunks. -/
def WellFormed (consumed : Bytes) (data : List Bytes) : Prop :=
  ∃ (chunks : List Chunk) (last : SizeLine), (∀ c ∈ chunks, ChunkExt c.line.extension) ∧ ChunkExt last.extension ∧
    last.size = 0 ∧ consumed = encodeChunks chunks last ∧ data = chunks.map Chunk.data

namespace ChunkDecoder

variable {ending : Ending} {sink : Sink}

/-- The next line and chunk as the grammar has them: the line, a size that leaves room for the
separator, and the separator where the data ends. -/
def Framed (d : ChunkDecoder) : Prop :=
  ∀ p, find d.stream crlf = some p → GrammarLine (d.stream.take p) ∧
    ∀ size, chunkSize (d.stream.take p) = some size → size ≠ 0 →
      size + 2 < usizeSize ∧ crlf <+: (d.stream.drop (p + 2)).drop size

/-- What a run consumed, and that it is a chunked body whose data the sink received. -/
def ReadsGrammar (ending : Ending) (sink : Sink) (d : ChunkDecoder) : Prop :=
  ∃ consumed data, d.stream = consumed ++ (d.run ending sink).2.stream ∧ WellFormed consumed data ∧
    (d.run ending sink).2.slices = d.slices ++ data

theorem takeChunk_not_done (size : Nat) (d d' : ChunkDecoder) : d.takeChunk sink size ≠ .done d' := by
  unfold takeChunk
  dsimp only
  split <;> simp

theorem chunk_not_done (size : Nat) (d d' : ChunkDecoder) : d.chunk ending sink size ≠ .done d' := by
  unfold chunk
  dsimp only
  split
  next => simp
  next =>
    split
    next => exact takeChunk_not_done size _ d'
    next =>
      split
      next => exact takeChunk_not_done size _ d'
      next => simp

/-- The first turn of a run that ends well. -/
theorem run_ok {d : ChunkDecoder} (ok : (d.run ending sink).1 = .ok ()) :
    (∃ p, find d.stream crlf = some p ∧ chunkSize (d.stream.take p) = some 0 ∧
        d.step ending sink = .done (d.afterLine p) ∧ (d.run ending sink).2 = d.afterLine p) ∨
      ∃ d', d.step ending sink = .next d' ∧ d.run ending sink = d'.run ending sink := by
  cases turn : d.step ending sink with
  | next d' => exact .inr ⟨d', rfl, run_next turn⟩
  | failed d' message =>
    rw [run_failed turn] at ok
    cases ok
  | done d' =>
    have result := run_done turn
    cases found : find d.stream crlf with
    | none =>
      obtain ⟨_, failed⟩ := step_noLine ending sink found
      rw [failed] at turn
      cases turn
    | some p =>
      rw [step_line ending sink found] at turn
      split at turn
      next => cases turn
      next size parsed =>
        split at turn
        next zero =>
          cases turn
          exact .inl ⟨p, rfl, zero ▸ parsed, rfl, by rw [result]⟩
        next => exact absurd turn (chunk_not_done size _ d')

variable (ending sink) in
/-- What a run adds to the slices. -/
theorem run_slices (d : ChunkDecoder) : ∃ more, (d.run ending sink).2.slices = d.slices ++ more := by
  induction h : d.stream.length using Nat.strong_induction_on generalizing d with
  | _ n ih =>
    have hands := step_hands ending sink d
    have one : ∃ more, (d.step ending sink).decoder.slices = d.slices ++ more := by
      cases hands with
      | nothing slices => exact ⟨[], by rw [slices, List.append_nil]⟩
      | slice _ _ _ slices => exact ⟨_, slices⟩
    cases turn : d.step ending sink with
    | done d' =>
      rw [run_done turn]
      rwa [turn] at one
    | failed d' message =>
      rw [run_failed turn]
      rwa [turn] at one
    | next d' =>
      obtain ⟨more, later⟩ := ih d'.stream.length (h ▸ step_shorter turn) d' rfl
      rw [turn] at one
      obtain ⟨first, slices⟩ := one
      rw [run_next turn, later]
      refine ⟨first ++ more, ?_⟩
      rw [← List.append_assoc]
      exact congrArg (· ++ more) slices

/-- A framed turn reads a chunk of the grammar. -/
theorem framed_next {d d' : ChunkDecoder} (framed : Framed d) (turn : d.step ending sink = .next d') :
    ∃ c : Chunk, ChunkExt c.line.extension ∧ d.stream = c.bytes ++ d'.stream ∧ d'.slices = d.slices ++ [c.data] := by
  obtain ⟨p, size, slice, separator, found, parsed, positive, taken⟩ := step_next turn
  obtain ⟨⟨line, grammar, eq⟩, follows⟩ := framed p found
  obtain ⟨fits, ⟨rest, after⟩⟩ := follows size parsed positive
  have sum : (size + 2) % usizeSize = size + 2 := Nat.mod_eq_of_lt fits
  have consumed := taken.consumed
  rw [stream_afterLine found] at consumed
  have separated : separator = crlf := by
    refine taken.separated.resolve_right fun none => taken.kept sum none ?_
    rw [stream_afterLine found]
    exact ⟨rest, after⟩
  have whole : slice.length = size := by
    by_contra ne
    have short : slice.length < size := lt_of_le_of_ne taken.short ne
    rw [separated, taken.whole sum short] at consumed
    have size := congrArg List.length after
    rw [consumed] at size
    simp only [crlf, List.length_append, List.length_cons, List.length_nil, List.length_drop] at size
    omega
  have sized : line.size = slice.length := by
    rw [eq, line.chunkSize_bytes, Option.filter_some] at parsed
    split at parsed
    · rw [whole]
      exact Option.some.inj parsed
    · cases parsed
  refine ⟨⟨line, slice, sized, ?_⟩, grammar, ?_, ?_⟩
  · rintro rfl
    exact positive whole.symm
  · conv_lhs => rw [(find_split found).1, consumed, separated, eq]
    simp only [Chunk.bytes, List.append_assoc]
  · exact taken.slices

theorem readsGrammar_of_framed (d : ChunkDecoder) (ok : (d.run ending sink).1 = .ok ())
    (framed : ∀ e, Reaches ending sink d e → Framed e) : ReadsGrammar ending sink d := by
  induction h : d.stream.length using Nat.strong_induction_on generalizing d with
  | _ n ih =>
    rcases run_ok ok with ⟨p, found, zero, _, final⟩ | ⟨d', turn, same⟩
    · obtain ⟨⟨line, grammar, eq⟩, _⟩ := framed d .refl p found
      have size : line.size = 0 := by
        rw [eq, line.chunkSize_bytes, Option.filter_some] at zero
        split at zero
        · exact Option.some.inj zero
        · cases zero
      refine ⟨line.bytes ++ crlf, [], ?_, ⟨[], line, by simp, grammar, size, rfl, rfl⟩, ?_⟩
      · rw [final, stream_afterLine found, List.append_assoc, ← eq]
        exact (find_split found).1
      · rw [final, List.append_nil]
        rfl
    · obtain ⟨c, grammar, bytes, slices⟩ := framed_next (framed d .refl) turn
      rw [same] at ok
      obtain ⟨consumed, data, split, ⟨chunks, last, exts, lastExt, zero, rfl, rfl⟩, handed⟩ :=
        ih d'.stream.length (h ▸ step_shorter turn) d' ok (fun e reached => framed e (.head turn reached)) rfl
      refine ⟨c.bytes ++ encodeChunks chunks last, _, ?_,
        ⟨c :: chunks, last, List.forall_mem_cons.mpr ⟨grammar, exts⟩, lastExt, zero, ?_, rfl⟩, ?_⟩
      · rw [same, bytes, split, List.append_assoc]
      · rw [encodeChunks, encodeChunks, List.flatMap_cons, List.append_assoc]
      · rw [same, handed, slices, List.append_assoc]
        rfl

theorem grammar_last {d : ChunkDecoder} {last : SizeLine} {rest : Bytes} {p : Nat} (found : find d.stream crlf = some p)
    (split : d.stream = last.bytes ++ (crlf ++ rest)) : d.stream.take p = last.bytes := by
  have line := find_line last.unbroken_bytes rest
  rw [← split, found] at line
  obtain rfl := Option.some.inj line
  rw [split]
  exact List.take_left

theorem grammar_chunk {d : ChunkDecoder} {c : Chunk} {rest : Bytes} {p : Nat} (found : find d.stream crlf = some p)
    (split : d.stream = c.bytes ++ rest) :
    d.stream.take p = c.line.bytes ∧ d.stream.drop (p + 2) = c.data ++ (crlf ++ rest) := by
  have whole : d.stream = c.line.bytes ++ (crlf ++ (c.data ++ (crlf ++ rest))) := by
    rw [split, Chunk.bytes]
    simp only [List.append_assoc]
  have line := grammar_last found whole
  refine ⟨line, ?_⟩
  have pieces := (find_split found).1
  rw [line] at pieces
  have same := List.append_cancel_left (List.append_cancel_left (pieces.symm.trans whole))
  exact same

/-- A run that reads the grammar is framed in every turn. A slice has at most `isize::MAX` bytes. -/
theorem framed_of_readsGrammar (d : ChunkDecoder) (ok : (d.run ending sink).1 = .ok ())
    (slices : ∀ slice ∈ (d.run ending sink).2.slices, slice.length < 2 ^ 63) (reads : ReadsGrammar ending sink d) :
    ∀ e, Reaches ending sink d e → Framed e := by
  induction h : d.stream.length using Nat.strong_induction_on generalizing d with
  | _ n ih =>
    obtain ⟨consumed, data, split, ⟨chunks, last, exts, lastExt, zero, rfl, rfl⟩, handed⟩ := reads
    rcases run_ok ok with ⟨p, found, parsed, turn, final⟩ | ⟨d', turn, same⟩
    · have none : chunks = [] := by
        rw [final] at handed
        have size := congrArg List.length handed
        simpa [afterLine, readLine] using size
      intro e reached
      rcases Relation.ReflTransGen.cases_head reached with rfl | ⟨c, next, _⟩
      · intro q found'
        obtain rfl : p = q := Option.some.inj (found.symm.trans found')
        rw [none, encodeChunks, List.flatMap_nil, List.nil_append, List.append_assoc] at split
        have line := grammar_last found split
        rw [line]
        refine ⟨⟨last, lastExt, rfl⟩, fun size announced positive => ?_⟩
        rw [line] at parsed
        exact absurd (Option.some.inj (announced.symm.trans parsed)) positive
      · rw [turn] at next
        cases next
    · obtain ⟨p, size, slice, separator, found, parsed, positive, taken⟩ := step_next turn
      obtain ⟨more, later⟩ := run_slices ending sink d'
      rw [same, later, taken.slices] at handed
      have all : slice :: more = chunks.map Chunk.data := by
        have cancelled := List.append_cancel_left (handed.symm.trans (List.append_assoc _ _ _))
        exact cancelled.symm
      cases chunks with
      | nil => cases all
      | cons c rest =>
        obtain ⟨rfl, rfl⟩ := List.cons.inj all
        have bytes : d.stream = c.bytes ++ (encodeChunks rest last ++ (d'.run ending sink).2.stream) := by
          rw [split, same, encodeChunks, encodeChunks, List.flatMap_cons]
          simp only [List.append_assoc]
        obtain ⟨line, after⟩ := grammar_chunk found bytes
        have sized : size = c.data.length := by
          rw [line, c.line.chunkSize_bytes, c.sized, Option.filter_some] at parsed
          split at parsed
          · exact (Option.some.inj parsed).symm
          · cases parsed
        have small : c.data.length < 2 ^ 63 := by
          refine slices c.data ?_
          rw [same, later, taken.slices]
          simp
        have room : 2 ^ 63 + 2 < usizeSize := by decide
        have fits : size + 2 < usizeSize := by omega
        have follows : crlf <+: (d.stream.drop (p + 2)).drop size := by
          rw [after, List.drop_left' sized.symm]
          exact List.prefix_append _ _
        have framed : Framed d := by
          intro q found'
          obtain rfl : p = q := Option.some.inj (found.symm.trans found')
          refine ⟨⟨c.line, exts c List.mem_cons_self, line⟩, fun other announced _ => ?_⟩
          obtain rfl : size = other := Option.some.inj (parsed.symm.trans announced)
          exact ⟨fits, follows⟩
        have separated : separator = crlf := by
          refine taken.separated.resolve_right fun none => taken.kept (Nat.mod_eq_of_lt fits) none ?_
          rwa [stream_afterLine found]
        have tail : d'.stream = encodeChunks rest last ++ (d'.run ending sink).2.stream := by
          have consumed := taken.consumed
          rw [stream_afterLine found, after, separated] at consumed
          exact (List.append_cancel_left (List.append_cancel_left consumed)).symm
        rw [same] at ok slices
        have later := ih d'.stream.length (h ▸ step_shorter turn) d' ok slices
          ⟨_, _, tail, ⟨rest, last, fun c member => exts c (List.mem_cons_of_mem _ member), lastExt, zero, rfl, rfl⟩, later⟩
          rfl
        intro e reached
        rcases Relation.ReflTransGen.cases_head reached with rfl | ⟨next, stepped, reached⟩
        · exact framed
        · rw [turn] at stepped
          cases stepped
          exact later e reached

end ChunkDecoder

/-- An accepted stream is a chunked body, whose data the sink received, exactly when every size
line is one of the grammar and every chunk is there and followed by its separator. -/
theorem streamChunked_grammar_iff (buf : Bytes) (pieces : List Piece) (ending : Ending) (sink : Sink)
    (ok : (streamChunked buf pieces ending sink).1 = .ok ())
    (slices : ∀ slice ∈ (streamChunked buf pieces ending sink).2, slice.length < 2 ^ 63) :
    ChunkDecoder.ReadsGrammar ending sink { buf, pieces } ↔
      ∀ d, ChunkDecoder.Reaches ending sink { buf, pieces } d → d.Framed :=
  ⟨ChunkDecoder.framed_of_readsGrammar _ ok slices, ChunkDecoder.readsGrammar_of_framed _ ok⟩

theorem streamChunked_grammar_sample :
    ChunkDecoder.ReadsGrammar .eof (fun _ _ => none) { buf := [49, 13, 10, 65, 13, 10, 48, 13, 10], pieces := [] } ↔
      ∀ d, ChunkDecoder.Reaches .eof (fun _ _ => none) { buf := [49, 13, 10, 65, 13, 10, 48, 13, 10], pieces := [] } d →
        d.Framed :=
  streamChunked_grammar_iff [49, 13, 10, 65, 13, 10, 48, 13, 10] [] .eof (fun _ _ => none) (by decide +kernel)
    (by decide +kernel)

theorem encodeChunks_head (chunks : List Chunk) (last : SizeLine) :
    ∃ b rest, encodeChunks chunks last = b :: rest ∧ isHexByte b = true := by
  have start (line : SizeLine) (after : Bytes) : ∃ b rest, line.bytes ++ after = b :: rest ∧ isHexByte b = true := by
    obtain ⟨b, rest, eq⟩ := List.exists_cons_of_ne_nil line.nonempty
    refine ⟨b, rest ++ (line.extension ++ after), ?_, line.isHex b (by rw [eq]; exact List.mem_cons_self)⟩
    rw [SizeLine.bytes, eq]
    simp
  cases chunks with
  | nil => exact start last crlf
  | cons c rest =>
    have := start c.line ((crlf ++ (c.data ++ crlf)) ++ (rest.flatMap Chunk.bytes ++ (last.bytes ++ crlf)))
    simpa [encodeChunks, Chunk.bytes] using this

/-- A size with a sign is accepted. -/
theorem signed_size_accepted :
    (streamChunked [43, 49, 13, 10, 65, 13, 10, 48, 13, 10] [] .eof fun _ _ => none).1 = .ok () ∧
      ¬ChunkDecoder.ReadsGrammar .eof (fun _ _ => none)
        { buf := [43, 49, 13, 10, 65, 13, 10, 48, 13, 10], pieces := [] } := by
  refine ⟨by decide +kernel, ?_⟩
  rintro ⟨consumed, data, split, ⟨chunks, last, _, _, _, rfl, _⟩, _⟩
  obtain ⟨b, rest, eq, isHex⟩ := encodeChunks_head chunks last
  rw [eq] at split
  have first : (43 : UInt8) = b := (List.cons.inj split).1
  rw [← first] at isHex
  exact absurd isHex (by decide)

end TeeProof.Enclave
