import TeeProof.Http1
import TeeProof.Trim

/-! The chunked coding of a body: `stream_chunked` reads it back however the bytes arrive. -/
namespace TeeProof.Enclave

/-! The lines that announce a size. -/

def isHexByte (b : UInt8) : Bool :=
  (48 ≤ b.toNat && b.toNat ≤ 57) || (65 ≤ b.toNat && b.toNat ≤ 70) || (97 ≤ b.toNat && b.toNat ≤ 102)

/-- The value of a hexadecimal digit. -/
def byteDigit (b : UInt8) : Nat :=
  if b.toNat ≤ 57 then b.toNat - 48 else if b.toNat ≤ 70 then b.toNat - 55 else b.toNat - 87

def digitsValue (digits : Bytes) : Nat := digits.foldl (fun n b => n * 16 + byteDigit b) 0

/-- A hexadecimal size with an optional extension, which a semicolon begins. -/
structure SizeLine where
  digits : Bytes
  extension : Bytes
  isHex : ∀ b ∈ digits, isHexByte b = true
  nonempty : digits ≠ []
  extended : extension = [] ∨ ∃ blanks rest, extension = blanks ++ 59 :: rest ∧ ∀ b ∈ blanks, b = 32 ∨ b = 9
  unbroken : ∀ b ∈ extension, b ≠ 13 ∧ b ≠ 10

namespace SizeLine

def bytes (line : SizeLine) : Bytes := line.digits ++ line.extension
def size (line : SizeLine) : Nat := digitsValue line.digits

end SizeLine

/-- A chunk of a body, with the line that announces it. -/
structure Chunk where
  line : SizeLine
  data : Bytes
  sized : line.size = data.length
  nonempty : data ≠ []

def Chunk.bytes (c : Chunk) : Bytes := c.line.bytes ++ (crlf ++ (c.data ++ crlf))

/-- A body in chunked coding, up to the end of its last line. -/
def encodeChunks (chunks : List Chunk) (last : SizeLine) : Bytes := chunks.flatMap Chunk.bytes ++ (last.bytes ++ crlf)

theorem hexByte_cases (b : UInt8) (isHex : isHexByte b = true) :
    b.toNat < 0x80 ∧ 0 < b.toNat ∧ isWhitespace (Char.ofNat b.toNat) = false ∧ Char.ofNat b.toNat ≠ ';' ∧
      Char.ofNat b.toNat ≠ '+' ∧ b ≠ 13 ∧ hexDigit (Char.ofNat b.toNat) = some (byteDigit b) := by
  revert isHex
  revert b
  decide +kernel

/-- The text of ASCII bytes. -/
def asciiText (bytes : Bytes) : Str := bytes.map fun b => Char.ofNat b.toNat

theorem decode_asciiText {front : Bytes} (ascii : ∀ b ∈ front, b.toNat < 0x80) (rest : Bytes) :
    Utf8.decode (front ++ rest) = asciiText front ++ Utf8.decode rest := by
  induction front with
  | nil => rfl
  | cons b front ih =>
    rw [List.cons_append, Utf8.decode_cons_ascii b _ (ascii b List.mem_cons_self),
      ih fun c member => ascii c (List.mem_cons_of_mem _ member)]
    rfl

theorem hexValue_asciiText {digits : Bytes} (isHex : ∀ b ∈ digits, isHexByte b = true) :
    hexValue (asciiText digits) = some (digitsValue digits) := by
  have run (n : Nat) : (asciiText digits).foldlM (fun n c => (hexDigit c).map (n * 16 + ·)) n =
      some (digits.foldl (fun n b => n * 16 + byteDigit b) n) := by
    induction digits generalizing n with
    | nil => rfl
    | cons b rest ih =>
      obtain ⟨_, _, _, _, _, _, digit⟩ := hexByte_cases b (isHex b List.mem_cons_self)
      simp only [asciiText, List.map_cons, List.foldlM_cons, digit, Option.map_some, List.foldl_cons]
      exact ih (fun c member => isHex c (List.mem_cons_of_mem _ member)) _
  exact run 0

theorem fromStrRadix16_digits {digits : Bytes} (isHex : ∀ b ∈ digits, isHexByte b = true) (nonempty : digits ≠ []) :
    fromStrRadix16 (asciiText digits) = (some (digitsValue digits)).filter (· < usizeSize) := by
  have value := hexValue_asciiText isHex
  cases digits with
  | nil => exact absurd rfl nonempty
  | cons b rest =>
    obtain ⟨_, _, _, _, plus, _⟩ := hexByte_cases b (isHex b List.mem_cons_self)
    have unsigned : fromStrRadix16 (asciiText (b :: rest)) =
        if (asciiText (b :: rest)).isEmpty then none else (hexValue (asciiText (b :: rest))).filter (· < usizeSize) := by
      unfold fromStrRadix16
      simp only [asciiText, List.map_cons]
      split
      next signed => exact absurd (List.cons.inj signed).1 plus
      next => rfl
    rw [unsigned, value, asciiText]
    rfl

theorem chunkSize_text {line : Bytes} {front : Str} (blanks : Str) (digits : front ≠ []) (semicolon : ';' ∉ front)
    (solid : ∀ c ∈ front, isWhitespace c = false) (blank : ∀ c ∈ blanks, isWhitespace c = true)
    (text : Utf8.decode line = front ++ blanks ∨ ∃ rest, Utf8.decode line = front ++ (blanks ++ ';' :: rest)) :
    chunkSize line = fromStrRadix16 front := by
  obtain ⟨c, tail, rfl⟩ := List.exists_cons_of_ne_nil digits
  have trimmed : Str.trim (c :: tail ++ blanks) = c :: tail := by
    rw [Str.trim, List.cons_append, Str.trimStart_solid (solid c List.mem_cons_self), ← List.cons_append,
      Str.trimEnd_blank blank]
    have whole := Str.trim_solid solid
    rwa [Str.trim, Str.trimStart_solid (solid c List.mem_cons_self)] at whole
  have free : ';' ∉ c :: tail ++ blanks := by
    intro member
    rcases List.mem_append.mp member with inside | inside
    · exact semicolon inside
    · exact absurd (blank ';' inside) (by decide)
  unfold chunkSize
  rcases text with plain | ⟨rest, extended⟩
  · rw [plain, trimmed, Str.split, List.splitOn_eq_singleton semicolon, List.headD_cons, Str.trim_solid solid]
  · obtain ⟨kept, cut⟩ := Str.trimEnd_solid (c := ';') (by decide) (c :: tail ++ blanks) rest
    have start : Str.trim (Utf8.decode line) = c :: tail ++ blanks ++ ';' :: kept := by
      rw [extended, ← List.append_assoc, ← cut, Str.trim, List.cons_append, List.cons_append,
        Str.trimStart_solid (solid c List.mem_cons_self)]
    rw [start, Str.split, List.splitOn_append_cons_self_of_not_mem free, List.headD_cons, trimmed]

namespace SizeLine

theorem chunkSize_bytes (line : SizeLine) : chunkSize line.bytes = (some line.size).filter (· < usizeSize) := by
  have digit (b : UInt8) (member : b ∈ line.digits) := hexByte_cases b (line.isHex b member)
  have ascii : ∀ b ∈ line.digits, b.toNat < 0x80 := fun b member => (digit b member).1
  have front : asciiText line.digits ≠ [] := by simpa [asciiText] using line.nonempty
  have semicolon : ';' ∉ asciiText line.digits := by
    intro member
    obtain ⟨b, inside, eq⟩ := List.mem_map.mp member
    exact (digit b inside).2.2.2.1 eq
  have solid : ∀ c ∈ asciiText line.digits, isWhitespace c = false := by
    intro c member
    obtain ⟨b, inside, rfl⟩ := List.mem_map.mp member
    exact (digit b inside).2.2.1
  rw [size, ← fromStrRadix16_digits line.isHex line.nonempty]
  rcases line.extended with none | ⟨blanks, rest, some, blank⟩
  · refine chunkSize_text [] front semicolon solid (by simp) (.inl ?_)
    rw [bytes, none, decode_asciiText ascii]
    rfl
  · have blankAscii : ∀ b ∈ blanks, b.toNat < 0x80 := by
      intro b member
      rcases blank b member with rfl | rfl <;> decide
    refine chunkSize_text (asciiText blanks) front semicolon solid ?_ (.inr ⟨Utf8.decode rest, ?_⟩)
    · intro c member
      obtain ⟨b, inside, rfl⟩ := List.mem_map.mp member
      rcases blank b inside with rfl | rfl <;> decide
    · rw [bytes, some, decode_asciiText ascii, decode_asciiText blankAscii, Utf8.decode_cons_ascii 59 rest (by decide)]
      rfl

theorem unbroken_bytes (line : SizeLine) : (13 : UInt8) ∉ line.bytes := by
  intro member
  rcases List.mem_append.mp member with inside | inside
  · obtain ⟨_, _, _, _, _, other, _⟩ := hexByte_cases 13 (line.isHex 13 inside)
    exact other rfl
  · exact (line.unbroken 13 inside).1 rfl

end SizeLine

/-! Reading it back. -/

namespace ChunkDecoder

variable (ending : Ending) {sink : Sink} {d : ChunkDecoder}

/-- Data that is all there is handed over as it is. -/
theorem chunk_whole (d : ChunkDecoder) (accepts : ∀ slices slice, sink slices slice = none) {size : Nat} (fits : size + 2 < usizeSize)
    (small : d.total + size ≤ maxResp) {data rest : Bytes} (whole : d.stream = data ++ (crlf ++ rest))
    (sized : data.length = size) :
    ∃ d', d.chunk ending sink size = .next d' ∧ d'.stream = rest ∧ d'.total = d.total + size ∧
      d'.slices = d.slices ++ [data] := by
  have sum : (d.total + size) % usizeSize = d.total + size := by
    refine Nat.mod_eq_of_lt (lt_of_le_of_lt small ?_)
    decide
  generalize filled : { d with total := (d.total + size) % usizeSize }.readChunk size = f
  have same : f.stream = data ++ (crlf ++ rest) := by
    rw [← filled, ← whole]
    exact stream_readChunk size _
  have enough : hasChunk size f.buf = true := by
    rw [← filled]
    refine Segmented.readUntil_enough Subtype.val d.buf d.pieces ?_
    change hasChunk size d.stream = true
    rw [hasChunk, whole, Nat.mod_eq_of_lt fits]
    simp only [crlf, List.length_append, List.length_cons, List.length_nil, decide_eq_true_eq]
    omega
  have long : size + 2 ≤ f.buf.length := by simpa [hasChunk, Nat.mod_eq_of_lt fits] using enough
  have slice : f.buf.take size = data := by
    rw [stream, Segmented.stream] at same
    have front := congrArg (List.take size) same
    rwa [List.take_append_of_le_length (by omega), List.take_left' sized] at front
  have tail : f.buf.drop size ++ f.pieces.flatMap Subtype.val = crlf ++ rest := by
    rw [stream, Segmented.stream] at same
    have back := congrArg (List.drop size) same
    rwa [List.drop_append_of_le_length (by omega), List.drop_left' sized] at back
  have separated : f.buf.drop size = crlf ++ dropCrlf (f.buf.drop size) := by
    refine (dropCrlf_cases _).resolve_right fun plain => plain.2 ?_
    have start := congrArg (List.take 2) tail
    rwa [List.take_append_of_le_length (by simp; omega)] at start
  have run : d.chunk ending sink size = f.takeChunk sink size := by
    unfold chunk
    dsimp only
    rw [if_neg (by rw [sum]; omega), filled]
    cases ending with
    | eof => rfl
    | error kind message => exact if_pos enough
  have cut : min size f.buf.length = size := Nat.min_eq_left (by omega)
  have taken : f.takeChunk sink size =
      .next { f with buf := dropCrlf (f.buf.drop size), slices := f.slices ++ [data] } := by
    simp only [takeChunk, cut, accepts, slice]
  refine ⟨_, run.trans taken, ?_, ?_, ?_⟩
  · rw [separated, List.append_assoc, List.append_cancel_left_eq] at tail
    exact tail
  · rw [← sum, ← filled]
    rfl
  · rw [← filled]
    rfl

/-- One chunk within the limit. -/
theorem step_chunk (accepts : ∀ slices slice, sink slices slice = none) (c : Chunk) (rest : Bytes)
    (whole : d.stream = c.bytes ++ rest) (small : d.total + c.data.length ≤ maxResp) :
    ∃ d', d.step ending sink = .next d' ∧ d'.stream = rest ∧ d'.total = d.total + c.data.length ∧
      d'.slices = d.slices ++ [c.data] := by
  have split : d.stream = c.line.bytes ++ (crlf ++ (c.data ++ (crlf ++ rest))) := by
    rw [whole, Chunk.bytes]
    simp only [List.append_assoc]
  have found : find d.stream crlf = some c.line.bytes.length := by
    rw [split]
    exact find_line c.line.unbroken_bytes _
  have line : d.stream.take c.line.bytes.length = c.line.bytes := by
    rw [split]
    exact List.take_left
  have limit : maxResp + 2 < usizeSize := by decide
  have after : (d.afterLine c.line.bytes.length).stream = c.data ++ (crlf ++ rest) := by
    rw [stream_afterLine found, split, ← List.append_assoc]
    exact List.drop_left' (by simp [crlf])
  have positive : c.line.size ≠ 0 := by
    rw [c.sized]
    simpa using c.nonempty
  have parsed : chunkSize c.line.bytes = some c.data.length := by
    rw [c.line.chunkSize_bytes, c.sized, Option.filter_some, if_pos]
    simp only [decide_eq_true_eq]
    omega
  obtain ⟨d', run, rest, total, slices⟩ := chunk_whole ending (d.afterLine c.line.bytes.length) accepts (by omega) small
    after rfl
  refine ⟨d', ?_, rest, total, slices⟩
  rw [step_line ending sink found, line, parsed]
  simp only [← c.sized, positive, if_false]
  rw [c.sized]
  exact run

variable (sink) in
theorem step_last (last : SizeLine) (zero : last.size = 0) (trailer : Bytes)
    (whole : d.stream = last.bytes ++ (crlf ++ trailer)) :
    d.step ending sink = .done (d.afterLine last.bytes.length) := by
  have found : find d.stream crlf = some last.bytes.length := by
    rw [whole]
    exact find_line last.unbroken_bytes trailer
  have line : d.stream.take last.bytes.length = last.bytes := by
    rw [whole]
    exact List.take_left
  rw [step_line ending sink found, line, last.chunkSize_bytes, zero]
  rfl

/-- The run over a body: the induction is on its chunks, the total counts what came before. -/
theorem run_chunks (accepts : ∀ slices slice, sink slices slice = none) (chunks : List Chunk) (last : SizeLine)
    (zero : last.size = 0) (trailer : Bytes) (whole : d.stream = encodeChunks chunks last ++ trailer)
    (small : d.total + (chunks.flatMap Chunk.data).length ≤ maxResp) :
    (d.run ending sink).1 = .ok () ∧ (d.run ending sink).2.slices = d.slices ++ chunks.map Chunk.data := by
  induction chunks generalizing d with
  | nil =>
    have turn := step_last ending sink last zero trailer
      (by simpa [encodeChunks, List.append_assoc] using whole)
    rw [run_done turn]
    exact ⟨rfl, (List.append_nil _).symm⟩
  | cons c rest ih =>
    simp only [List.flatMap_cons, List.length_append] at small
    obtain ⟨d', turn, after, total, slices⟩ := step_chunk ending accepts c (encodeChunks rest last ++ trailer)
      (by simpa [encodeChunks, List.append_assoc] using whole) (by omega)
    rw [run_next turn]
    obtain ⟨ok, handed⟩ := ih after (by omega)
    refine ⟨ok, ?_⟩
    rw [handed, slices, List.map_cons, List.append_assoc]
    rfl

/-- A body that arrives in a first buffer and in reads. -/
theorem streamChunked_chunks (accepts : ∀ slices slice, sink slices slice = none) (chunks : List Chunk)
    (last : SizeLine) (zero : last.size = 0) (trailer : Bytes) (small : (chunks.flatMap Chunk.data).length ≤ maxResp)
    (buf : Bytes) (pieces : List Piece)
    (arrives : buf ++ pieces.flatMap Subtype.val = encodeChunks chunks last ++ trailer) :
    (streamChunked buf pieces ending sink).1 = .ok () ∧
      (streamChunked buf pieces ending sink).2.flatten = chunks.flatMap Chunk.data := by
  have whole : ({ buf, pieces } : ChunkDecoder).stream = encodeChunks chunks last ++ trailer := arrives
  obtain ⟨ok, handed⟩ := run_chunks ending accepts chunks last zero trailer whole (by simpa using small)
  refine ⟨ok, ?_⟩
  rw [streamChunked, handed, List.nil_append, List.flatMap_def]

end ChunkDecoder

/-- Every chunked body within the limit is decoded exactly, however its bytes are split between
the first buffer and the reads. -/
theorem streamChunked_decodes (chunks : List Chunk) (last : SizeLine) (zero : last.size = 0) (trailer : Bytes)
    (small : (chunks.flatMap Chunk.data).length ≤ maxResp) (buf : Bytes) (pieces : List Piece)
    (arrives : buf ++ pieces.flatMap Subtype.val = encodeChunks chunks last ++ trailer) (ending : Ending) (sink : Sink)
    (accepts : ∀ slices slice, sink slices slice = none) :
    (streamChunked buf pieces ending sink).1 = .ok () ∧
      (streamChunked buf pieces ending sink).2.flatten = chunks.flatMap Chunk.data := by
  exact ChunkDecoder.streamChunked_chunks ending accepts chunks last zero trailer small buf pieces arrives

def sampleChunk : Chunk where
  line := ⟨[49], [32, 59, 120], by simp [isHexByte], by simp, .inr ⟨[32], [120], rfl, by simp⟩, by simp⟩
  data := [65]
  sized := by decide
  nonempty := by decide

theorem unbroken_nil : ∀ b ∈ ([] : Bytes), b ≠ 13 ∧ b ≠ 10 := List.forall_mem_nil _

def sampleLast : SizeLine := ⟨[48, 48], [], by simp [isHexByte], by simp, .inl rfl, unbroken_nil⟩

/-- A chunk with an extension, the reads cut inside the size, the data's separator and the trailer. -/
theorem streamChunked_decodes_sample :
    (streamChunked [] [⟨[49, 32], by decide⟩, ⟨[59, 120, 13], by decide⟩, ⟨[10, 65, 13], by decide⟩,
        ⟨[10, 48, 48, 13, 10], by decide⟩, ⟨[13, 10], by decide⟩] .eof fun _ _ => none).1 = .ok () ∧
      (streamChunked [] [⟨[49, 32], by decide⟩, ⟨[59, 120, 13], by decide⟩, ⟨[10, 65, 13], by decide⟩,
        ⟨[10, 48, 48, 13, 10], by decide⟩, ⟨[13, 10], by decide⟩] .eof fun _ _ => none).2.flatten = [65] :=
  streamChunked_decodes [sampleChunk] sampleLast (by decide) [13, 10] (by decide) [] _ (by decide) .eof _ fun _ _ => rfl

/-! The limit on what is handed over. -/

namespace ChunkStep

def decoder : ChunkStep → ChunkDecoder
  | next d => d
  | done d => d
  | failed d _ => d

end ChunkStep

namespace ChunkDecoder

variable (ending : Ending) (sink : Sink)

/-- The bytes handed to the sink so far. -/
def handed (d : ChunkDecoder) : Nat := d.slices.flatten.length

/-- What a turn hands over: nothing, or a slice no longer than the size announced for it. -/
inductive Hands (d : ChunkDecoder) : ChunkDecoder → Prop
  | nothing {d' : ChunkDecoder} (slices : d'.slices = d.slices) : Hands d d'
  | slice {d' : ChunkDecoder} {size : Nat} {slice : Bytes} (announced : d.announced = some size) (positive : size ≠ 0)
      (short : slice.length ≤ size) (slices : d'.slices = d.slices ++ [slice])
      (total : d'.total = (d.total + size) % usizeSize) (bounded : d'.total ≤ maxResp) : Hands d d'

theorem takeChunk_decoder (size : Nat) (d : ChunkDecoder) :
    (d.takeChunk sink size).decoder.slices = d.slices ++ [d.buf.take size] ∧
      (d.takeChunk sink size).decoder.total = d.total := by
  unfold takeChunk
  dsimp only
  rw [← List.take_eq_take_min]
  split
  next => exact ⟨rfl, rfl⟩
  next => exact ⟨rfl, rfl⟩

theorem step_hands (d : ChunkDecoder) : Hands d (d.step ending sink).decoder := by
  cases found : find d.stream crlf with
  | none =>
    obtain ⟨_, failed⟩ := step_noLine ending sink found
    rw [failed]
    exact .nothing rfl
  | some p =>
    rw [step_line ending sink found]
    split
    next => exact .nothing rfl
    next size parsed =>
      split
      next => exact .nothing rfl
      next positive =>
        have announced : d.announced = some size := by simp [ChunkDecoder.announced, found, parsed]
        unfold chunk
        dsimp only
        split
        next => exact .nothing rfl
        next small =>
          have hands : Hands d (({ d.afterLine p with total := ((d.afterLine p).total + size) % usizeSize }.readChunk
              size).takeChunk sink size).decoder := by
            obtain ⟨slices, total⟩ := takeChunk_decoder sink size ({ d.afterLine p with
              total := ((d.afterLine p).total + size) % usizeSize }.readChunk size)
            refine .slice announced positive ?_ slices total ?_
            · simp
            · rw [total]
              exact Nat.not_lt.mp small
          split
          next => exact hands
          next =>
            split
            next => exact hands
            next => exact .nothing rfl

theorem step_next_total {d d' : ChunkDecoder} (turn : d.step ending sink = .next d') : d'.total ≤ maxResp := by
  obtain ⟨_, _, _, _, _, _, _, taken⟩ := step_next turn
  rw [taken.total]
  exact taken.bounded

/-- The states between two chunks. -/
def Reaches : ChunkDecoder → ChunkDecoder → Prop := Relation.ReflTransGen fun d d' => d.step ending sink = .next d'

/-- The announced size can be added to the total. -/
def Fits (d : ChunkDecoder) : Prop := ∀ size, d.announced = some size → size ≤ usizeSize - 1 - d.total

/-- What one turn may do. -/
structure Limited (d : ChunkDecoder) : Prop where
  sums : ∀ size, d.announced = some size → size ≠ 0 →
    d.total + size < usizeSize ∧ ((d.total + size) % usizeSize ≤ maxResp → size + 2 < usizeSize)
  slices : ∀ slice, (d.step ending sink).decoder.slices = d.slices ++ [slice] →
    ∃ size, d.announced = some size ∧ slice.length ≤ size
  handed : (d.step ending sink).decoder.handed ≤ maxResp

/-- What is handed over is counted, and the count is within the limit. -/
structure Counted (d : ChunkDecoder) : Prop where
  handed : d.handed ≤ d.total
  total : d.total ≤ maxResp

theorem step_counted {d : ChunkDecoder} (counted : Counted d) (fits : Fits d) :
    (d.step ending sink).decoder.handed ≤ maxResp ∧ ∀ d', d.step ending sink = .next d' → Counted d' := by
  have limit : maxResp < usizeSize := by decide
  have before := counted.handed
  have bound := counted.total
  cases step_hands ending sink d with
  | nothing slices =>
    refine ⟨?_, fun d' turn => ?_⟩
    · rw [ChunkDecoder.handed, slices]
      exact before.trans bound
    · obtain ⟨_, _, _, _, _, _, _, taken⟩ := step_next turn
      rw [turn] at slices
      have grown := slices.symm.trans taken.slices
      have size := congrArg List.length grown
      simp [afterLine, readLine] at size
  | slice announced positive short slices total bounded =>
    have fit := fits _ announced
    rw [Nat.mod_eq_of_lt (by omega)] at total
    have sum : (d.step ending sink).decoder.handed ≤ (d.step ending sink).decoder.total := by
      rw [total, ChunkDecoder.handed, slices]
      simp only [List.flatten_append, List.length_append, List.flatten_cons, List.flatten_nil, List.append_nil]
      exact Nat.add_le_add before short
    refine ⟨sum.trans bounded, fun d' turn => ?_⟩
    rw [turn] at sum bounded
    exact ⟨sum, bounded⟩

theorem reaches_counted {d d' : ChunkDecoder} (reached : Reaches ending sink d d') (counted : Counted d)
    (fits : ∀ e, Reaches ending sink d e → Fits e) : Counted d' := by
  induction reached with
  | refl => exact counted
  | tail reached turn ih => exact (step_counted ending sink ih (fits _ reached)).2 _ turn

end ChunkDecoder

/-- The limit holds in every turn of a run exactly when no announced size overflows the total
it is added to. -/
theorem streamChunked_limited_iff (buf : Bytes) (pieces : List Piece) (ending : Ending) (sink : Sink) :
    (∀ d, ChunkDecoder.Reaches ending sink { buf, pieces } d → d.Limited ending sink) ↔
      ∀ d, ChunkDecoder.Reaches ending sink { buf, pieces } d → d.Fits := by
  constructor
  · intro limited d reached size announced
    by_cases zero : size = 0
    · rw [zero]
      exact Nat.zero_le _
    · have sum := ((limited d reached).sums size announced zero).1
      omega
  · intro fits d reached
    have counted : d.Counted :=
      ChunkDecoder.reaches_counted ending sink reached ⟨Nat.le_refl 0, Nat.zero_le _⟩ fits
    have limit : maxResp + 2 < usizeSize := by decide
    have total := counted.total
    refine ⟨fun size announced _ => ?_, fun slice slices => ?_, ?_⟩
    · have fit := fits d reached size announced
      refine ⟨by omega, fun small => ?_⟩
      rw [Nat.mod_eq_of_lt (by omega)] at small
      omega
    · cases ChunkDecoder.step_hands ending sink d with
      | nothing same =>
        have size := congrArg List.length (same.symm.trans slices)
        simp at size
      | slice announced _ short grown =>
        have same := List.append_cancel_left (grown.symm.trans slices)
        cases same
        exact ⟨_, announced, short⟩
    · exact (ChunkDecoder.step_counted ending sink counted (fits d reached)).1

namespace ChunkDecoder

/-- A turn on what is already buffered, the stream having ended. -/
theorem step_buffered {line rest : Bytes} {total : Nat} (size : Nat) {slices : List Bytes} (plain : (13 : UInt8) ∉ line)
    (parsed : chunkSize line = some size) (positive : size ≠ 0) (bounded : (total + size) % usizeSize ≤ maxResp) :
    step .eof (fun _ _ => none) { buf := line ++ (crlf ++ rest), pieces := [], total, slices } =
      .next { buf := dropCrlf (rest.drop size), pieces := [], total := (total + size) % usizeSize
              slices := slices ++ [rest.take size] } := by
  have found : find (stream { buf := line ++ (crlf ++ rest), pieces := [], total, slices }) crlf = some line.length := by
    rw [stream, Segmented.stream, List.flatMap_nil, List.append_nil]
    exact find_line plain rest
  have front : (stream { buf := line ++ (crlf ++ rest), pieces := [], total, slices }).take line.length = line := by
    rw [stream, Segmented.stream, List.flatMap_nil, List.append_nil]
    exact List.take_left
  have after : (line ++ (crlf ++ rest)).drop (line.length + 2) = rest := by
    rw [← List.append_assoc]
    exact List.drop_left' (by simp [crlf])
  have cut : rest.drop (min size rest.length) = rest.drop size := by
    rcases Nat.le_total size rest.length with le | le
    · rw [Nat.min_eq_left le]
    · rw [Nat.min_eq_right le, List.drop_length, List.drop_eq_nil_of_le le]
  rw [step_line _ _ found, front, parsed]
  simp only [positive, if_false, chunk, afterLine, readLine, Segmented.readUntil, after, readChunk, takeChunk,
    if_neg (Nat.not_lt.mpr bounded), cut, ← List.take_eq_take_min]

end ChunkDecoder

/-- A line that announces `usize::MAX`. -/
def hugeLine : Bytes := List.replicate 16 102

/-- A chunk of one byte, then one that wraps the total to zero. -/
def wrapping (data : Bytes) : ChunkDecoder where
  buf := [49] ++ (crlf ++ 65 :: (crlf ++ (hugeLine ++ (crlf ++ data))))
  pieces := []

theorem wrapping_first (data : Bytes) : (wrapping data).step .eof (fun _ _ => none) =
    .next { buf := hugeLine ++ (crlf ++ data), pieces := [], total := 1, slices := [[65]] } :=
  (ChunkDecoder.step_buffered 1 (by simp) (by decide) (by simp) (by decide)).trans rfl

theorem wrapping_second (data : Bytes) : ChunkDecoder.step .eof (fun _ _ => none)
    { buf := hugeLine ++ (crlf ++ data), pieces := [], total := 1, slices := [[65]] } =
      .next { buf := ChunkDecoder.dropCrlf (data.drop (2 ^ 64 - 1)), pieces := [], total := 0
              slices := [[65], data.take (2 ^ 64 - 1)] } :=
  ChunkDecoder.step_buffered (2 ^ 64 - 1) (by simp [hugeLine]) (by decide) (by simp) (by decide)

/-- All of a long body is handed over, the second size having wrapped the total to zero. -/
theorem wrapping_passes (data : Bytes) (long : maxResp ≤ data.length) (short : data.length ≤ 2 ^ 64 - 1) :
    ∃ d, (wrapping data).Reaches .eof (fun _ _ => none) d ∧ maxResp < d.handed ∧
      ¬∀ d, (wrapping data).Reaches .eof (fun _ _ => none) d → d.Limited .eof (fun _ _ => none) := by
  have second : (wrapping data).Reaches .eof (fun _ _ => none)
      { buf := hugeLine ++ (crlf ++ data), pieces := [], total := 1, slices := [[65]] } :=
    .single (wrapping_first data)
  have third := wrapping_second data
  rw [List.take_of_length_le short] at third
  have count (buf : Bytes) : maxResp < ChunkDecoder.handed { buf, pieces := [], total := 0, slices := [[65], data] } := by
    simp only [ChunkDecoder.handed, List.flatten_cons, List.flatten_nil, List.append_nil, List.length_append,
      List.length_cons, List.length_nil]
    omega
  refine ⟨_, second.tail third, count _, fun limited => ?_⟩
  have bound := (limited _ second).handed
  rw [third] at bound
  exact absurd (count _) (Nat.not_lt.mpr bound)

theorem limit_bypassed : ∃ d, (wrapping (List.replicate maxResp 0)).Reaches .eof (fun _ _ => none) d ∧ maxResp < d.handed ∧
    ¬∀ d, (wrapping (List.replicate maxResp 0)).Reaches .eof (fun _ _ => none) d → d.Limited .eof (fun _ _ => none) :=
  wrapping_passes (List.replicate maxResp 0) (by rw [List.length_replicate]) (by rw [List.length_replicate]; decide)

end TeeProof.Enclave
