import TeeProof.ChunkedGrammar
import TeeProof.JobFrames

/-! A response that is cut short is never attested: no reading of its body comes to an end, so no
trailer is written for it. -/
namespace TeeProof.Enclave

/-! Chunked coding -/

namespace ChunkDecoder

variable {ending : Ending} {sink : Sink}

/-- Without a line the decoder does not end well. -/
theorem run_noLine {d : ChunkDecoder} (none : find d.stream crlf = none) : (d.run ending sink).1 ≠ .ok () := by
  intro ok
  rcases run_ok ok with ⟨p, found, -⟩ | ⟨d', turn, -⟩
  · cases none.symm.trans found
  · obtain ⟨p, _, _, _, found, -⟩ := step_next turn
    cases none.symm.trans found

theorem find_short {b : Bytes} (short : b.length < 2) : find b crlf = none := by
  rw [find, decide_eq_true (by rw [crlf]; exact short), Bool.or_true]
  rfl

/-- The line that a cut coding begins with is the first line of the whole. -/
theorem find_cut {stream line rest : Bytes} (free : (13 : UInt8) ∉ line) (cut : stream <+: line ++ (crlf ++ rest)) {p : Nat}
    (found : find stream crlf = some p) : p = line.length ∧ line.length + 2 ≤ stream.length ∧ stream.take p = line := by
  obtain ⟨missing, whole⟩ := cut
  have nonempty : crlf ≠ [] := by simp [crlf]
  have same := find_append nonempty found missing
  rw [whole, find_line free] at same
  obtain rfl := Option.some.inj same
  have size := congrArg List.length (find_split found).1
  simp only [List.length_append, crlf, List.length_cons, (find_split found).2] at size
  have enough : line.length + 2 ≤ stream.length := by omega
  refine ⟨rfl, enough, ?_⟩
  have front := congrArg (List.take line.length) whole
  rwa [List.take_append_of_le_length (by omega), List.take_left] at front

/-- A coding that stops before the end of its last line is not read to an end. -/
theorem run_cut (chunks : List Chunk) (sizes : ∀ c ∈ chunks, c.data.length < 2 ^ 63) (last : SizeLine) (d : ChunkDecoder)
    (front : d.stream <+: encodeChunks chunks last) (short : d.stream.length < (encodeChunks chunks last).length) :
    (d.run ending sink).1 ≠ .ok () := by
  induction chunks generalizing d with
  | nil =>
    rw [encodeChunks, List.flatMap_nil, List.nil_append] at front short
    refine run_noLine ?_
    cases found : find d.stream crlf with
    | none => rfl
    | some p =>
      have cut : d.stream <+: last.bytes ++ (crlf ++ []) := by rwa [List.append_nil]
      have enough := (find_cut last.unbroken_bytes cut found).2.1
      rw [List.length_append, crlf] at short
      exact absurd short (by simp only [List.length_cons, List.length_nil]; omega)
  | cons c chunks ih =>
    have size : c.data.length < 2 ^ 63 := sizes c List.mem_cons_self
    have shape : encodeChunks (c :: chunks) last =
        c.line.bytes ++ (crlf ++ (c.data ++ (crlf ++ encodeChunks chunks last))) := by
      simp only [encodeChunks, List.flatMap_cons, Chunk.bytes, List.append_assoc]
    rw [shape] at front short
    intro ok
    have announced {p : Nat} (found : find d.stream crlf = some p) :
        p = c.line.bytes.length ∧ chunkSize (d.stream.take p) = some c.data.length := by
      obtain ⟨place, -, line⟩ := find_cut c.line.unbroken_bytes front found
      have fits : c.data.length < usizeSize := by
        rw [usizeSize]
        omega
      refine ⟨place, ?_⟩
      rw [line, SizeLine.chunkSize_bytes, c.sized, Option.filter_some, decide_eq_true fits, if_pos rfl]
    rcases run_ok ok with ⟨p, found, zero, -⟩ | ⟨d', turn, same⟩
    · have length := (announced found).2
      rw [zero] at length
      exact c.nonempty (List.length_eq_zero_iff.mp (Option.some.inj length).symm)
    · obtain ⟨p, n, slice, separator, found, parsed, -, taken⟩ := step_next turn
      obtain ⟨place, length⟩ := announced found
      rw [parsed] at length
      obtain rfl := Option.some.inj length
      have fits : (c.data.length + 2) % usizeSize = c.data.length + 2 := Nat.mod_eq_of_lt (by rw [usizeSize]; omega)
      have after : (d.afterLine p).stream <+: c.data ++ (crlf ++ encodeChunks chunks last) := by
        rw [stream_afterLine found, place]
        obtain ⟨missing, whole⟩ := front
        have enough := (find_cut c.line.unbroken_bytes ⟨missing, whole⟩ found).2.1
        refine ⟨missing, ?_⟩
        have back := congrArg (List.drop (c.line.bytes.length + 2)) whole
        rw [List.drop_append_of_le_length (by omega), ← List.append_assoc, List.drop_left' (by simp [crlf])] at back
        exact back
      have behind : (d.afterLine p).stream.length < (c.data ++ (crlf ++ encodeChunks chunks last)).length := by
        rw [stream_afterLine found, place, List.length_drop]
        have pre := short
        simp only [List.length_append, crlf, List.length_cons, List.length_nil] at pre ⊢
        omega
      rw [same] at ok
      rcases Nat.lt_or_ge slice.length c.data.length with part | enough
      · refine run_noLine (d := d') (find_short ?_) ok
        rw [taken.whole fits part]
        decide
      · have full : slice.length = c.data.length := Nat.le_antisymm taken.short enough
        rcases taken.separated with crlfs | none
        · rw [crlfs] at taken
          have rest := after
          rw [taken.consumed] at rest behind
          obtain rfl : slice = c.data := by
            have one := List.prefix_of_prefix_length_le ((List.prefix_append _ _).trans rest) (List.prefix_append _ _) full.le
            exact one.eq_of_length full
          rw [List.prefix_append_right_inj, List.prefix_append_right_inj] at rest
          simp only [List.length_append] at behind
          exact ih (fun x member => sizes x (List.mem_cons_of_mem c member)) d' rest (by omega) ok
        · have kept := taken.kept fits none
          have consumed := taken.consumed
          rw [none, List.nil_append] at consumed
          have left : (d.afterLine p).stream.drop c.data.length = d'.stream := by
            rw [consumed, ← full, List.drop_left]
          have cut : d'.stream <+: crlf ++ encodeChunks chunks last := by
            rw [← left]
            have pre := after.drop c.data.length
            rwa [List.drop_left] at pre
          rw [left] at kept
          refine run_noLine (d := d') (find_short ?_) ok
          by_contra long
          have two : crlf.length ≤ d'.stream.length := not_lt.mp long
          exact kept (List.prefix_of_prefix_length_le (List.prefix_append _ _) cut two)

end ChunkDecoder

/-! The other two framings -/

section

variable (ending : Ending) (sink : Sink)

theorem streamLength_enough (cl total : Nat) (slices : List Bytes) (pieces : List Piece)
    (ok : (streamLength ending sink cl total slices pieces).1 = .ok ()) : cl - total ≤ (unread pieces).length := by
  induction h : cl - total using Nat.strong_induction_on generalizing total slices pieces with
  | _ n ih =>
    rw [streamLength.eq_def] at ok
    split at ok
    next more =>
      cases pieces with
      | nil =>
        cases ending with
        | eof => cases ok
        | error kind message => cases kind <;> cases ok
      | cons piece rest =>
        have some : 0 < piece.val.length := List.length_pos_iff.mpr piece.property
        dsimp only at ok
        generalize limit : min (cl - total) readBuffer = k at ok
        have positive : 0 < k := by
          rw [← limit, readBuffer]
          omega
        split at ok
        · cases ok
        · have left : cl - (total + (piece.val.take k).length) < n := by
            rw [List.length_take]
            omega
          have enough := ih _ left _ _ _ ok rfl
          have split : unread (piece :: rest) = piece.val.take k ++ unread (remainder k piece rest) := by
            rw [unread_remainder, ← List.append_assoc, List.take_append_drop]
            rfl
          rw [split, List.length_append]
          omega
    next => omega

theorem streamClose_ended (total : Nat) (slices : List Bytes) (pieces : List Piece)
    (ok : (streamClose ending sink total slices pieces).1 = .ok ()) (message : Str) : ending ≠ .error .other message := by
  induction pieces generalizing total slices with
  | nil =>
    rintro rfl
    cases ok
  | cons piece rest ih =>
    rw [streamClose] at ok
    split at ok
    · cases ok
    · split at ok
      · cases ok
      · exact ih _ _ ok

theorem handFirst_ok {first : Bytes} {go : List Bytes → Except Str Unit × List Bytes} (ok : (handFirst sink first go).1 = .ok ()) :
    ∃ slices, (go slices).1 = .ok () := by
  rw [handFirst] at ok
  split at ok
  · exact ⟨[], ok⟩
  · split at ok
    · cases ok
    · exact ⟨[first], ok⟩

/-- A content length is read to its end only where that many bytes are there. -/
theorem streamPlain_enough {initial : Bytes} {pieces : List Piece} {cl : Nat}
    (ok : (streamPlain initial pieces ending (some cl) sink).1 = .ok ()) : cl ≤ (initial ++ unread pieces).length := by
  rw [streamPlain] at ok
  split at ok
  · cases ok
  · obtain ⟨slices, rest⟩ := handFirst_ok sink ok
    have enough := streamLength_enough ending sink _ _ _ _ rest
    rw [List.length_take] at enough
    rw [List.length_append]
    omega

/-- A connection that breaks does not end a body. -/
theorem streamPlain_ended {initial : Bytes} {pieces : List Piece} (ok : (streamPlain initial pieces ending none sink).1 = .ok ())
    (message : Str) : ending ≠ .error .other message := by
  rw [streamPlain] at ok
  split at ok
  · cases ok
  · obtain ⟨slices, rest⟩ := handFirst_ok sink ok
    exact streamClose_ended ending sink _ _ _ rest message

end

/-! A response that is cut short -/

/-- What arrives of a body after its head, where the rest is missing. -/
inductive Truncated (b : ResponseBlock) (ending : Ending) : Bytes → Prop
  | chunked (coding : ∃ p ∈ b.pairs, p.1 = "transfer-encoding".toList ∧ (∀ c ∈ p.2, c.toNat < 0x80) ∧
      Str.endsWith "chunked".toList (Str.toAsciiLowercase p.2) = true) (chunks : List Chunk)
      (sizes : ∀ c ∈ chunks, c.data.length < 2 ^ 63) (last : SizeLine) {got : Bytes} (front : got <+: encodeChunks chunks last)
      (short : got.length < (encodeChunks chunks last).length) : Truncated b ending got
  | length (coding : ∀ p ∈ b.pairs, p.1 ≠ "transfer-encoding".toList) {n : Nat} (small : n < usizeSize)
      (some : valuesOf "content-length".toList b.pairs ≠ [])
      (every : ∀ text ∈ valuesOf "content-length".toList b.pairs, text ≠ [] ∧ text.all Char.isDigit = true ∧
        text.foldl (fun n c => n * 10 + (c.toNat - 48)) 0 = n) {got : Bytes} (short : got.length < n) : Truncated b ending got
  | close (coding : ∀ p ∈ b.pairs, p.1 ≠ "transfer-encoding".toList) (none : valuesOf "content-length".toList b.pairs = [])
      {message : Str} (broken : ending = .error .other message) {got : Bytes} : Truncated b ending got

variable (rust : Rust)

theorem streamBody_truncated (lowers : LowersAscii rust) {b : ResponseBlock} {h : Headers} (reads : b.Reads rust h)
    {leftover : Bytes} {pieces : List Piece} {ending : Ending} (truncated : Truncated b ending (leftover ++ unread pieces))
    (sink : Sink) : (streamBody h leftover pieces ending sink).1 ≠ .ok () := by
  intro ok
  rw [streamBody, reads.chunked, reads.contentLength] at ok
  cases truncated with
  | chunked coding chunks sizes last front short =>
    rw [announcesChunked_of_coding rust lowers coding, if_pos rfl] at ok
    exact ChunkDecoder.run_cut chunks sizes last { buf := leftover, pieces } front short ok
  | length coding small some every short =>
    rw [announcesChunked_of_none rust coding, if_neg (by decide), announcedLength_of_every small some every] at ok
    exact absurd (streamPlain_enough ending sink ok) (Nat.not_le.mpr short)
  | close coding none broken =>
    rw [announcesChunked_of_none rust coding, if_neg (by decide), announcedLength, none] at ok
    exact streamPlain_ended ending sink ok _ broken

/-- The first header block of an answer is what `handle` reads the body by. -/
theorem exchangeHead_block (lowers : LowersAscii rust) (world : World) {head : JobHead} {body sent : Bytes}
    (asked : sendRequest rust world head body = .ok sent) (b : ResponseBlock) (small : b.bytes.length ≤ maxHead) {got : Bytes}
    (arrives : unread (world.answer sent).1 = b.bytes ++ got) :
    ∃ h leftover later, exchangeHead rust world head body = .ok (h, leftover, later, (world.answer sent).2) ∧
      b.Reads rust h ∧ leftover ++ unread later = got := by
  have found : find ([] ++ unread (world.answer sent).1) blankLine = some b.head.length := by
    rw [List.nil_append, arrives]
    exact b.find_head got
  have length : b.head.length + 4 = b.bytes.length := by simp [ResponseBlock.bytes, blankLine, crlf]
  obtain ⟨leftover, later, read, split⟩ := readUntilHeaders_found (world.answer sent).2 [] (world.answer sent).1 found (by omega)
  have block : ([] ++ unread (world.answer sent).1).take b.head.length = b.head := by
    rw [List.nil_append, arrives, ResponseBlock.bytes, List.append_assoc]
    exact List.take_left
  have tail : ([] ++ unread (world.answer sent).1).drop (b.head.length + 4) = got := by
    rw [List.nil_append, arrives, length]
    exact List.drop_left
  obtain ⟨h, parsed, reads⟩ := ResponseBlock.parseHeaders_head rust lowers b
  refine ⟨h, leftover, later, ?_, reads, by rw [split, tail]⟩
  rw [block] at read
  rw [exchangeHead, asked]
  simp only [bind, Except.bind, read, parsed]

theorem sendRequest_accepting {world : World} (accepts : world.upstream = .accepting) (head : JobHead) (body : Bytes) :
    sendRequest rust world head body = .ok (requestBytes rust head.toReqHead body) := by
  rw [sendRequest, accepts, Outlet.writeAll_accepting]
  dsimp only
  rw [Outlet.writeAll_accepting, List.nil_append]
  rfl

def plainJob : JobHead := { splitHead with egressPort := 0, tlsSeed := none, tlsSpec := none }

/-- An upstream that announces a byte and closes. -/
def closingWorld : World where
  readHead _ := .ok plainJob
  base64Error _ := []
  connectEgress _ := .ok ()
  connectTls _ _ := .ok ()
  upstream := .accepting
  answer _ := (bytewise shortBlock.bytes, .eof)
  request _ := .error []

def emptyRequest : List Piece := bytewise (control.bytes (reqHeadTag, []) ++ (control.bytes (reqBodyTag, []) ++ []))

end TeeProof.Enclave
