import TeeProof.Segmented
import TeeProof.Serde

/-! The HTTP/1.1 responses of an upstream: the bytes arrive in pieces, a sink takes the slices of
the body. Sizes are `usize` of a release build, sums wrap. -/
namespace TeeProof.Enclave

def maxHead : Nat := 64 * 1024
def maxResp : Nat := 64 * 1024 * 1024

def usizeSize : Nat := 2 ^ 64

def crlf : Bytes := [13, 10]

def find (hay needle : Bytes) : Option Nat :=
  if needle.isEmpty || hay.length < needle.length then none
  else (List.range (hay.length - needle.length + 1)).find? fun i => (hay.drop i).take needle.length == needle

/-- `tchar`. -/
def isTokenByte (b : UInt8) : Bool :=
  (48 ≤ b.toNat && b.toNat ≤ 57) || (65 ≤ b.toNat && b.toNat ≤ 90) || (97 ≤ b.toNat && b.toNat ≤ 122) ||
    [33, 35, 36, 37, 38, 39, 42, 43, 45, 46, 94, 95, 96, 124, 126].contains b

/-- A read that returns bytes; one that returns none is the end of the stream. -/
abbrev Piece := { bytes : Bytes // bytes ≠ [] }

inductive ErrorKind where
  | unexpectedEof
  | connectionAborted
  | other

/-- What every read returns after the pieces. -/
inductive Ending where
  | eof
  | error (kind : ErrorKind) (message : Str)

/-- The sink's error, if any, on a slice after those it took before. -/
abbrev Sink := List Bytes → Bytes → Option Str

/-! The chunked coding. -/

def hexDigit (c : Char) : Option Nat :=
  if '0' ≤ c ∧ c ≤ '9' then some (c.toNat - 48)
  else if 'a' ≤ c ∧ c ≤ 'f' then some (c.toNat - 87)
  else if 'A' ≤ c ∧ c ≤ 'F' then some (c.toNat - 55)
  else none

def hexValue (digits : Str) : Option Nat := digits.foldlM (fun n c => (hexDigit c).map (n * 16 + ·)) 0

/-- `usize::from_str_radix(text, 16)`: a plus sign may stand before the digits. -/
def fromStrRadix16 (text : Str) : Option Nat :=
  let digits := match text with
    | '+' :: rest => rest
    | _ => text
  if digits.isEmpty then none else (hexValue digits).filter (· < usizeSize)

def chunkSize (line : Bytes) : Option Nat :=
  fromStrRadix16 (Str.trim ((Str.split ';' (Str.trim (Utf8.decode line))).headD ['0']))

/-- The state of `stream_chunked` between two chunks. -/
structure ChunkDecoder where
  buf : Bytes
  pieces : List Piece
  total : Nat := 0
  slices : List Bytes := []

inductive ChunkStep where
  | next (d : ChunkDecoder)
  | done (d : ChunkDecoder)
  | failed (d : ChunkDecoder) (message : Str)

namespace ChunkDecoder

/-- The bytes not yet consumed. -/
def stream (d : ChunkDecoder) : Bytes := Segmented.stream Subtype.val d.buf d.pieces

def hasLine (buf : Bytes) : Bool := (find buf crlf).isSome

/-- The inner loop before the size: read until a line has ended. -/
def readLine (d : ChunkDecoder) : ChunkDecoder :=
  let r := Segmented.readUntil Subtype.val hasLine d.buf d.pieces
  { d with buf := r.1, pieces := r.2 }

/-- `buf.len() < size + 2` ends the inner loop before the data. -/
def hasChunk (size : Nat) (buf : Bytes) : Bool := (size + 2) % usizeSize ≤ buf.length

def readChunk (size : Nat) (d : ChunkDecoder) : ChunkDecoder :=
  let r := Segmented.readUntil Subtype.val (hasChunk size) d.buf d.pieces
  { d with buf := r.1, pieces := r.2 }

def dropCrlf (buf : Bytes) : Bytes := if 2 ≤ buf.length ∧ buf.take 2 = crlf then buf.drop 2 else buf

/-- The data of a chunk, or what there is of it. -/
def takeChunk (sink : Sink) (size : Nat) (d : ChunkDecoder) : ChunkStep :=
  let slice := d.buf.take (min size d.buf.length)
  match sink d.slices slice with
  | some message => .failed { d with slices := d.slices ++ [slice] } message
  | none =>
    .next { d with
      buf := dropCrlf (d.buf.drop (min size d.buf.length))
      slices := d.slices ++ [slice] }

/-- A chunk of the announced size. -/
def chunk (ending : Ending) (sink : Sink) (size : Nat) (d : ChunkDecoder) : ChunkStep :=
  let d := { d with total := (d.total + size) % usizeSize }
  if maxResp < d.total then .failed d "响应体超过上限".toList
  else
    let d := d.readChunk size
    match ending with
    | .eof => d.takeChunk sink size
    | .error _ message =>
      if hasChunk size d.buf then d.takeChunk sink size
      else .failed d ("读 chunk 体失败: ".toList ++ message)

/-- One turn of the loop of `stream_chunked`. -/
def step (ending : Ending) (sink : Sink) (d : ChunkDecoder) : ChunkStep :=
  let d := d.readLine
  match find d.buf crlf with
  | none =>
    match ending with
    | .eof => .failed d "chunked 提前 EOF".toList
    | .error _ message => .failed d ("读 chunk 头失败: ".toList ++ message)
  | some p =>
    match chunkSize (d.buf.take p) with
    | none => .failed d "chunk size 解析失败".toList
    | some size =>
      let d := { d with buf := d.buf.drop (p + 2) }
      if size = 0 then .done d else d.chunk ending sink size

end ChunkDecoder

/-! Where a line ends. -/

theorem find_eq_some {hay needle : Bytes} {p : Nat} (nonempty : needle ≠ []) :
    find hay needle = some p ↔
      (hay.drop p).take needle.length = needle ∧ ∀ j < p, (hay.drop j).take needle.length ≠ needle := by
  have positive : 0 < needle.length := List.length_pos_iff.mpr nonempty
  have fits (j : Nat) (occurs : (hay.drop j).take needle.length = needle) : j + needle.length ≤ hay.length := by
    have size := congrArg List.length occurs
    simp only [List.length_take, List.length_drop] at size
    omega
  unfold find
  split
  next refused =>
    simp only [Bool.or_eq_true, List.isEmpty_iff, decide_eq_true_eq, nonempty, false_or] at refused
    constructor
    · intro found
      cases found
    · rintro ⟨occurs, _⟩
      have := fits p occurs
      omega
  next =>
    simp only [List.find?_range_eq_some, beq_iff_eq, List.mem_range, Bool.not_eq_true', beq_eq_false_iff_ne]
    constructor
    · rintro ⟨occurs, _, first⟩
      exact ⟨occurs, first⟩
    · rintro ⟨occurs, first⟩
      have := fits p occurs
      exact ⟨occurs, by omega, first⟩

theorem find_append {hay needle : Bytes} {p : Nat} (nonempty : needle ≠ []) (found : find hay needle = some p)
    (more : Bytes) : find (hay ++ more) needle = some p := by
  obtain ⟨occurs, first⟩ := (find_eq_some nonempty).mp found
  have size := congrArg List.length occurs
  simp only [List.length_take, List.length_drop] at size
  have positive : 0 < needle.length := List.length_pos_iff.mpr nonempty
  have same (j : Nat) (le : j ≤ p) : ((hay ++ more).drop j).take needle.length = (hay.drop j).take needle.length := by
    rw [List.drop_append_of_le_length (by omega), List.take_append_of_le_length (by simp; omega)]
  refine (find_eq_some nonempty).mpr ⟨?_, fun j lt => ?_⟩
  · rw [same p le_rfl]
    exact occurs
  · rw [same j lt.le]
    exact first j lt

/-- A line without a carriage return ends at its separator. -/
theorem find_line {front : Bytes} (plain : (13 : UInt8) ∉ front) (rest : Bytes) :
    find (front ++ (crlf ++ rest)) crlf = some front.length := by
  refine (find_eq_some (by simp [crlf])).mpr ⟨?_, fun j lt occurs => ?_⟩
  · simp [crlf]
  · have here : (front ++ (crlf ++ rest)).drop j = front[j] :: ((front ++ (crlf ++ rest)).drop (j + 1)) := by
      rw [List.drop_eq_getElem_cons (by simp; omega), List.getElem_append_left lt]
    rw [here] at occurs
    simp only [crlf, List.length_cons, List.length_nil, List.take_succ_cons, List.cons.injEq] at occurs
    exact plain (occurs.1 ▸ List.getElem_mem lt)

/-- What is found splits what it is found in. -/
theorem find_split {hay : Bytes} {p : Nat} (found : find hay crlf = some p) :
    hay = hay.take p ++ (crlf ++ hay.drop (p + 2)) ∧ (hay.take p).length = p := by
  obtain ⟨occurs, _⟩ := (find_eq_some (by simp [crlf])).mp found
  have size := congrArg List.length occurs
  simp only [crlf, List.length_take, List.length_drop, List.length_cons, List.length_nil] at size
  constructor
  · have tail : hay.drop p = crlf ++ hay.drop (p + 2) := by
      conv_lhs => rw [← List.take_append_drop 2 (hay.drop p)]
      rw [List.drop_drop]
      exact congrArg (· ++ _) occurs
    rw [← tail, List.take_append_drop]
  · rw [List.length_take]
    omega

namespace ChunkDecoder

theorem stream_readLine (d : ChunkDecoder) : d.readLine.stream = d.stream :=
  Segmented.stream_readUntil _ _ _ _

theorem stream_readChunk (size : Nat) (d : ChunkDecoder) : (d.readChunk size).stream = d.stream :=
  Segmented.stream_readUntil _ _ _ _

/-- A line is found in the buffer where it ends in the stream. -/
theorem find_readLine (d : ChunkDecoder) : find d.readLine.buf crlf = find d.stream crlf := by
  rw [← stream_readLine]
  cases found : find d.readLine.buf crlf with
  | some p => exact (find_append (by simp [crlf]) found _).symm
  | none =>
    rcases Segmented.readUntil_stops Subtype.val hasLine d.buf d.pieces with stopped | ended
    · have line : hasLine d.readLine.buf = true := stopped
      rw [hasLine, found] at line
      cases line
    · have whole : d.readLine.stream = d.readLine.buf := by
        simp [stream, Segmented.stream, readLine, ended]
      rw [whole, found]

theorem readLine_front {d : ChunkDecoder} {p : Nat} (found : find d.stream crlf = some p) :
    d.readLine.buf.take p = d.stream.take p ∧
      Segmented.stream Subtype.val (d.readLine.buf.drop (p + 2)) d.readLine.pieces = d.stream.drop (p + 2) := by
  rw [← find_readLine] at found
  have size := congrArg List.length (find_split found).1
  simp only [List.length_append, crlf, List.length_cons, (find_split found).2] at size
  rw [← stream_readLine]
  constructor
  · rw [stream, Segmented.stream, List.take_append_of_le_length (by omega)]
  · rw [stream, Segmented.stream, Segmented.stream, List.drop_append_of_le_length (by omega)]

/-- The decoder after a size line that ends at `p`. -/
def afterLine (d : ChunkDecoder) (p : Nat) : ChunkDecoder := { d.readLine with buf := d.readLine.buf.drop (p + 2) }

/-- The size that the next line announces. -/
def announced (d : ChunkDecoder) : Option Nat := (find d.stream crlf).bind fun p => chunkSize (d.stream.take p)

theorem step_line (ending : Ending) (sink : Sink) {d : ChunkDecoder} {p : Nat} (found : find d.stream crlf = some p) :
    d.step ending sink =
      match chunkSize (d.stream.take p) with
      | none => .failed d.readLine "chunk size 解析失败".toList
      | some size => if size = 0 then .done (d.afterLine p) else (d.afterLine p).chunk ending sink size := by
  simp only [step, find_readLine, found, (readLine_front found).1]
  rfl

theorem step_noLine (ending : Ending) (sink : Sink) {d : ChunkDecoder} (none : find d.stream crlf = none) :
    ∃ message, d.step ending sink = .failed d.readLine message := by
  simp only [step, find_readLine, none]
  cases ending with
  | eof => exact ⟨_, rfl⟩
  | error kind message => exact ⟨_, rfl⟩

theorem stream_afterLine {d : ChunkDecoder} {p : Nat} (found : find d.stream crlf = some p) :
    (d.afterLine p).stream = d.stream.drop (p + 2) :=
  (readLine_front found).2

/-- The bytes between the data of a chunk and what follows. -/
theorem dropCrlf_cases (buf : Bytes) : buf = crlf ++ dropCrlf buf ∨ buf = dropCrlf buf ∧ buf.take 2 ≠ crlf := by
  unfold dropCrlf
  split
  next separated =>
    refine .inl ?_
    rw [← separated.2, List.take_append_drop]
  next plain =>
    refine .inr ⟨rfl, fun separated => plain ⟨?_, separated⟩⟩
    have size := congrArg List.length separated
    simp only [List.length_take, crlf, List.length_cons, List.length_nil] at size
    omega

/-- What a chunk of the announced size was read as. -/
structure Taken (size : Nat) (d d' : ChunkDecoder) (slice separator : Bytes) : Prop where
  bounded : (d.total + size) % usizeSize ≤ maxResp
  total : d'.total = (d.total + size) % usizeSize
  slices : d'.slices = d.slices ++ [slice]
  consumed : d.stream = slice ++ (separator ++ d'.stream)
  short : slice.length ≤ size
  /-- A slice is short only where the stream has ended or the sum `size + 2` has wrapped. -/
  whole : (size + 2) % usizeSize = size + 2 → slice.length < size → d'.stream = []
  separated : separator = crlf ∨ separator = []
  kept : (size + 2) % usizeSize = size + 2 → separator = [] → ¬crlf <+: d.stream.drop size

theorem takeChunk_next {sink : Sink} {size : Nat} {d d' : ChunkDecoder} (run : d.takeChunk sink size = .next d') :
    sink d.slices (d.buf.take size) = none ∧
      d' = { d with buf := dropCrlf (d.buf.drop size), slices := d.slices ++ [d.buf.take size] } := by
  have drop : d.buf.drop (min size d.buf.length) = d.buf.drop size := by
    rcases Nat.le_total size d.buf.length with le | le
    · rw [Nat.min_eq_left le]
    · rw [Nat.min_eq_right le, List.drop_length, List.drop_eq_nil_of_le le]
  unfold takeChunk at run
  dsimp only at run
  rw [← List.take_eq_take_min, drop] at run
  split at run
  next => cases run
  next accepted =>
    cases run
    exact ⟨accepted, rfl⟩

theorem chunk_takes {ending : Ending} {sink : Sink} {size : Nat} {d d' : ChunkDecoder}
    (run : d.chunk ending sink size = .next d') :
    (d.total + size) % usizeSize ≤ maxResp ∧
      ({ d with total := (d.total + size) % usizeSize }.readChunk size).takeChunk sink size = .next d' := by
  unfold chunk at run
  dsimp only at run
  split at run
  next => cases run
  next small =>
    refine ⟨Nat.not_lt.mp small, ?_⟩
    split at run
    next => exact run
    next =>
      split at run
      next => exact run
      next => cases run

theorem readChunk_enough (size : Nat) (d : ChunkDecoder) (fits : (size + 2) % usizeSize = size + 2) :
    size + 2 ≤ (d.readChunk size).buf.length ∨ (d.readChunk size).pieces = [] := by
  rcases Segmented.readUntil_stops Subtype.val (hasChunk size) d.buf d.pieces with enough | ended
  · refine .inl ?_
    rw [hasChunk, fits, decide_eq_true_eq] at enough
    exact enough
  · exact .inr ended

theorem chunk_next {ending : Ending} {sink : Sink} {size : Nat} {d d' : ChunkDecoder}
    (run : d.chunk ending sink size = .next d') : ∃ slice separator, Taken size d d' slice separator := by
  obtain ⟨bounded, taken⟩ := chunk_takes run
  obtain ⟨_, rfl⟩ := takeChunk_next taken
  generalize filled : ({ d with total := (d.total + size) % usizeSize }.readChunk size) = f
  have same : f.stream = d.stream := by
    rw [← filled]
    exact stream_readChunk size _
  have slices : f.slices = d.slices := by rw [← filled]; rfl
  have total : f.total = (d.total + size) % usizeSize := by rw [← filled]; rfl
  have enough (fits : (size + 2) % usizeSize = size + 2) : size + 2 ≤ f.buf.length ∨ f.pieces = [] := by
    rw [← filled]
    exact readChunk_enough size _ fits
  have split := dropCrlf_cases (f.buf.drop size)
  have cut (separator : Bytes) (eq : f.buf.drop size = separator ++ dropCrlf (f.buf.drop size)) :
      d.stream = f.buf.take size ++ (separator ++ (dropCrlf (f.buf.drop size) ++ f.pieces.flatMap Subtype.val)) := by
    rw [← same, stream, Segmented.stream, ← List.append_assoc separator, ← eq, ← List.append_assoc,
      List.take_append_drop]
  have short : (f.buf.take size).length ≤ size := by simp
  have whole (fits : (size + 2) % usizeSize = size + 2) (lt : (f.buf.take size).length < size) :
      dropCrlf (f.buf.drop size) ++ f.pieces.flatMap Subtype.val = [] := by
    have less : f.buf.length < size := by
      simp only [List.length_take] at lt
      omega
    have gone : f.buf.drop size = [] := List.drop_eq_nil_of_le less.le
    rcases enough fits with le | ended
    · omega
    · simp [gone, ended, dropCrlf]
  have slicesEq := congrArg (· ++ [f.buf.take size]) slices
  rcases split with separated | ⟨plain, unmarked⟩
  · exact ⟨_, crlf, bounded, total, slicesEq, cut crlf separated, short, whole, .inl rfl, fun _ empty => by cases empty⟩
  · refine ⟨_, [], bounded, total, slicesEq, cut [] plain, short, whole, .inr rfl, ?_⟩
    rintro fits - ⟨rest, after⟩
    have start : (d.stream.drop size).take 2 = crlf := by
      rw [← after]
      rfl
    refine unmarked ?_
    rw [← same, stream, Segmented.stream] at start
    rcases enough fits with le | ended
    · rwa [List.drop_append_of_le_length (by omega), List.take_append_of_le_length (by simp; omega)] at start
    · simpa [ended] using start

/-- A turn that goes on has read a size line and a chunk. -/
theorem step_next {ending : Ending} {sink : Sink} {d d' : ChunkDecoder} (run : d.step ending sink = .next d') :
    ∃ p size slice separator, find d.stream crlf = some p ∧ chunkSize (d.stream.take p) = some size ∧ size ≠ 0 ∧
      Taken size (d.afterLine p) d' slice separator := by
  cases found : find d.stream crlf with
  | none =>
    obtain ⟨_, failed⟩ := step_noLine ending sink found
    rw [failed] at run
    cases run
  | some p =>
    rw [step_line ending sink found] at run
    split at run
    next => cases run
    next size parsed =>
      split at run
      next => cases run
      next some =>
        obtain ⟨slice, separator, taken⟩ := chunk_next run
        exact ⟨p, size, slice, separator, rfl, parsed, some, taken⟩

theorem step_shorter {ending : Ending} {sink : Sink} {d d' : ChunkDecoder} (run : d.step ending sink = .next d') :
    d'.stream.length < d.stream.length := by
  obtain ⟨p, size, slice, separator, found, _, _, taken⟩ := step_next run
  have line := congrArg List.length (find_split found).1
  have chunk := congrArg List.length taken.consumed
  rw [stream_afterLine found] at chunk
  simp only [List.length_append, crlf, List.length_cons, List.length_nil] at line chunk
  omega

/-- The loop of `stream_chunked`: its result and the decoder it ends with. -/
def run (ending : Ending) (sink : Sink) (d : ChunkDecoder) : Except Str Unit × ChunkDecoder :=
  match _h : d.step ending sink with
  | .next d' => run ending sink d'
  | .done d' => (.ok (), d')
  | .failed d' message => (.error message, d')
  termination_by d.stream.length
  decreasing_by exact step_shorter _h

theorem run_next {ending : Ending} {sink : Sink} {d d' : ChunkDecoder} (turn : d.step ending sink = .next d') :
    d.run ending sink = d'.run ending sink := by
  rw [run]
  split
  next same =>
    cases turn.symm.trans same
    rfl
  next same => cases turn.symm.trans same
  next same => cases turn.symm.trans same

theorem run_done {ending : Ending} {sink : Sink} {d d' : ChunkDecoder} (turn : d.step ending sink = .done d') :
    d.run ending sink = (.ok (), d') := by
  rw [run]
  split
  next same => cases turn.symm.trans same
  next same =>
    cases turn.symm.trans same
    rfl
  next same => cases turn.symm.trans same

theorem run_failed {ending : Ending} {sink : Sink} {d d' : ChunkDecoder} {message : Str}
    (turn : d.step ending sink = .failed d' message) : d.run ending sink = (.error message, d') := by
  rw [run]
  split
  next same => cases turn.symm.trans same
  next same => cases turn.symm.trans same
  next same =>
    cases turn.symm.trans same
    rfl

end ChunkDecoder

/-- The result of `stream_chunked` and the slices handed to the sink. -/
def streamChunked (buf : Bytes) (pieces : List Piece) (ending : Ending) (sink : Sink) : Except Str Unit × List Bytes :=
  let r := ChunkDecoder.run ending sink { buf, pieces }
  (r.1, r.2.slices)

end TeeProof.Enclave
