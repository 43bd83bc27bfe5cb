import TeeProof.ResponseHead

/-! The relay of an HTTP/1.1 response: its head is read up to the empty line, its body by the
framing the head announces. -/
namespace TeeProof.Enclave

variable (rust : Rust)

/-- The end of a header block. -/
def blankLine : Bytes := crlf ++ crlf

/-- `read_until_headers`: the head, the bytes read beyond it and the reads to come. -/
def readUntilHeaders (ending : Ending) (buf : Bytes) (pieces : List Piece) : Except Str (Bytes × Bytes × List Piece) :=
  match find buf blankLine with
  | some pos => .ok (buf.take pos, buf.drop (pos + 4), pieces)
  | none =>
    if maxHead < buf.length then .error "响应头超过上限".toList
    else
      match pieces with
      | [] =>
        match ending with
        | .eof => .error "读响应头时连接关闭".toList
        | .error .unexpectedEof _ => .error "读响应头 EOF".toList
        | .error _ message => .error ("读响应头失败: ".toList ++ message)
      | piece :: rest => readUntilHeaders ending (buf ++ piece.val) rest

def readBuffer : Nat := 16384

/-- What a read into a buffer of `limit` bytes leaves of a piece. -/
def remainder (limit : Nat) (piece : Piece) (rest : List Piece) : List Piece :=
  if h : piece.val.drop limit = [] then rest else ⟨piece.val.drop limit, h⟩ :: rest

/-- `content-length 响应提前 EOF: got {} of {}`. -/
def shortLength (total cl : Nat) : Str :=
  "content-length 响应提前 EOF: got ".toList ++ (Nat.repr total).toList ++ " of ".toList ++ (Nat.repr cl).toList

/-- The loop of `stream_plain` under a content length. -/
def streamLength (ending : Ending) (sink : Sink) (cl total : Nat) (slices : List Bytes) (pieces : List Piece) :
    Except Str Unit × List Bytes :=
  if _more : total < cl then
    match pieces with
    | [] =>
      match ending with
      | .eof | .error .unexpectedEof _ | .error .connectionAborted _ => (.error (shortLength total cl), slices)
      | .error .other message => (.error ("读响应体失败: ".toList ++ message), slices)
    | piece :: rest =>
      let limit := min (cl - total) readBuffer
      let slice := piece.val.take limit
      match sink slices slice with
      | some message => (.error message, slices ++ [slice])
      | none => streamLength ending sink cl (total + slice.length) (slices ++ [slice]) (remainder limit piece rest)
  else (.ok (), slices)
  termination_by cl - total
  decreasing_by
    have some : 0 < piece.val.length := List.length_pos_iff.mpr piece.property
    simp only [List.length_take, readBuffer]
    omega

/-- The loop of `stream_plain` until the connection closes. -/
def streamClose (ending : Ending) (sink : Sink) (total : Nat) (slices : List Bytes) : List Piece → Except Str Unit × List Bytes
  | [] =>
    match ending with
    | .eof | .error .unexpectedEof _ | .error .connectionAborted _ => (.ok (), slices)
    | .error .other message => (.error ("读响应体失败: ".toList ++ message), slices)
  | piece :: rest =>
    if maxResp < total + piece.val.length then (.error "响应体超过上限".toList, slices)
    else
      match sink slices piece.val with
      | some message => (.error message, slices ++ [piece.val])
      | none => streamClose ending sink (total + piece.val.length) (slices ++ [piece.val]) rest

/-- The bytes read with the head, if there are any, are the first slice. -/
def handFirst (sink : Sink) (first : Bytes) (go : List Bytes → Except Str Unit × List Bytes) : Except Str Unit × List Bytes :=
  if first.isEmpty then go []
  else
    match sink [] first with
    | some message => (.error message, [first])
    | none => go [first]

def streamPlain (initial : Bytes) (pieces : List Piece) (ending : Ending) (contentLength : Option Nat) (sink : Sink) :
    Except Str Unit × List Bytes :=
  match contentLength with
  | some cl =>
    if maxResp < cl then (.error "响应体超过上限".toList, [])
    else
      let first := initial.take (min initial.length cl)
      handFirst sink first fun slices => streamLength ending sink cl first.length slices pieces
  | none =>
    if !initial.isEmpty && maxResp < initial.length then (.error "响应体超过上限".toList, [])
    else handFirst sink initial fun slices => streamClose ending sink initial.length slices pieces

/-- What `handle` reports of a response in `RESP_HEAD` and what it signs. -/
structure Relayed where
  shownStatus : Nat
  shownHeaders : List (Str × Str)
  signedStatus : Nat
  signedContentType : Str
  hashed : Bytes

/-- The part of `handle` after the request is sent, up to the trailer. -/
def relayResponse (pieces : List Piece) (ending : Ending) (sink : Sink) : Except Str Relayed := do
  let (headBytes, leftover, pieces) ← readUntilHeaders ending [] pieces
  let h ← parseHeaders rust headBytes
  let (result, slices) := if h.chunked then streamChunked leftover pieces ending sink
    else streamPlain leftover pieces ending h.contentLength sink
  result
  .ok { shownStatus := h.status, shownHeaders := h.headers, signedStatus := h.status
        signedContentType := h.contentType.getD [], hashed := slices.flatten }

/-! Reading the head. -/

def unread (pieces : List Piece) : Bytes := pieces.flatMap Subtype.val

theorem find_prefix {hay needle more : Bytes} {p : Nat} (nonempty : needle ≠ []) (found : find (hay ++ more) needle = some p)
    (inside : p + needle.length ≤ hay.length) : find hay needle = some p := by
  obtain ⟨occurs, first⟩ := (find_eq_some nonempty).mp found
  have same (j : Nat) (le : j ≤ p) : ((hay ++ more).drop j).take needle.length = (hay.drop j).take needle.length := by
    rw [List.drop_append_of_le_length (by omega), List.take_append_of_le_length (by simp; omega)]
  refine (find_eq_some nonempty).mpr ⟨?_, fun j lt => ?_⟩
  · rw [← same p le_rfl]
    exact occurs
  · rw [← same j lt.le]
    exact first j lt

/-- The head ends at the first empty line, wherever the reads are cut. -/
theorem readUntilHeaders_found (ending : Ending) (buf : Bytes) (pieces : List Piece) {pos : Nat}
    (found : find (buf ++ unread pieces) blankLine = some pos) (small : pos + 4 ≤ maxHead) :
    ∃ leftover rest, readUntilHeaders ending buf pieces = .ok ((buf ++ unread pieces).take pos, leftover, rest) ∧
      leftover ++ unread rest = (buf ++ unread pieces).drop (pos + 4) := by
  have nonempty : blankLine ≠ [] := by decide
  have length : blankLine.length = 4 := rfl
  induction pieces generalizing buf with
  | nil =>
    rw [unread, List.flatMap_nil, List.append_nil] at found ⊢
    refine ⟨buf.drop (pos + 4), [], ?_, by simp [unread]⟩
    rw [readUntilHeaders.eq_def, found]
  | cons piece rest ih =>
    cases here : find buf blankLine with
    | some p =>
      have same := find_append nonempty here (unread (piece :: rest))
      rw [found] at same
      obtain rfl := Option.some.inj same
      obtain ⟨occurs, _⟩ := (find_eq_some nonempty).mp here
      have size := congrArg List.length occurs
      simp only [List.length_take, List.length_drop, length] at size
      refine ⟨buf.drop (pos + 4), piece :: rest, ?_, ?_⟩
      · rw [readUntilHeaders, here, List.take_append_of_le_length (by omega)]
      · rw [List.drop_append_of_le_length (by omega)]
    | none =>
      have short : ¬maxHead < buf.length := by
        intro long
        have inside := find_prefix nonempty found (by omega)
        rw [here] at inside
        cases inside
      have same : buf ++ unread (piece :: rest) = (buf ++ piece.val) ++ unread rest := by simp [unread]
      rw [same] at found ⊢
      rw [readUntilHeaders, here]
      simp only [if_neg short]
      exact ih _ found

/-- No occurrence begins in the front, so the search goes on behind it. -/
theorem find_skip {front rest needle : Bytes} {p : Nat} (nonempty : needle ≠ [])
    (none : ∀ j < front.length, ((front ++ rest).drop j).take needle.length ≠ needle)
    (found : find rest needle = some p) : find (front ++ rest) needle = some (front.length + p) := by
  obtain ⟨occurs, first⟩ := (find_eq_some nonempty).mp found
  refine (find_eq_some nonempty).mpr ⟨?_, fun j lt => ?_⟩
  · rw [List.drop_length_add_append]
    exact occurs
  · rcases Nat.lt_or_ge j front.length with inside | behind
    · exact none j inside
    · obtain ⟨k, rfl⟩ := Nat.exists_eq_add_of_le behind
      rw [List.drop_length_add_append]
      exact first k (by omega)

/-- An occurrence begins with a carriage return. -/
theorem not_blankLine {hay : Bytes} {j : Nat} (other : ∀ b ∈ (hay.drop j).head?, b ≠ 13) :
    (hay.drop j).take blankLine.length ≠ blankLine := by
  cases rest : hay.drop j with
  | nil => simp [blankLine, crlf]
  | cons b tail =>
    have first : b ≠ 13 := other b (by rw [rest]; rfl)
    simp [blankLine, crlf, first]

theorem free_bytes (f : ResponseField) : (13 : UInt8) ∉ f.bytes := by
  intro member
  rcases List.mem_append.mp member with inside | inside
  · obtain ⟨_, other, _⟩ := tokenByte_text 13 (f.lower 13 inside).1 (f.lower 13 inside).2
    exact other rfl
  · simp only [List.mem_cons] at inside
    rcases inside with eq | eq | inside
    · exact absurd eq (by decide)
    · exact absurd eq (by decide)
    · exact (f.unbroken 13 inside).1 rfl

theorem free_skips {front : Bytes} (plain : (13 : UInt8) ∉ front) (more : Bytes) :
    ∀ j < front.length, ((front ++ more).drop j).take blankLine.length ≠ blankLine := by
  intro j lt
  refine not_blankLine fun b member => ?_
  rw [List.head?_drop, List.getElem?_append_left lt, List.getElem?_eq_getElem lt] at member
  rintro rfl
  exact plain (Option.some.inj member ▸ List.getElem_mem lt)

/-- A line break before a line that begins with another byte is no empty line. -/
theorem crlf_skips {b : UInt8} (other : b ≠ 13) (more : Bytes) :
    ∀ j < crlf.length, ((crlf ++ b :: more).drop j).take blankLine.length ≠ blankLine := by
  intro j lt
  have cases : j = 0 ∨ j = 1 := by
    simp only [crlf, List.length_cons, List.length_nil] at lt
    omega
  rcases cases with rfl | rfl
  · simp [crlf, blankLine, other]
  · exact not_blankLine (by simp [crlf])

/-- The block of a head ends at its first empty line. -/
theorem find_block {front : Bytes} (plain : (13 : UInt8) ∉ front) (fields : List ResponseField) (rest : Bytes) :
    find (front ++ ((fields.flatMap fun f => crlf ++ f.bytes) ++ (blankLine ++ rest))) blankLine =
      some (front ++ fields.flatMap fun f => crlf ++ f.bytes).length := by
  have nonempty : blankLine ≠ [] := by decide
  induction fields generalizing front with
  | nil =>
    have here : find (blankLine ++ rest) blankLine = some 0 := by
      refine (find_eq_some nonempty).mpr ⟨?_, fun j lt => absurd lt (Nat.not_lt_zero j)⟩
      rfl
    have found := find_skip nonempty (free_skips plain _) here
    simpa using found
  | cons f fields ih =>
    obtain ⟨b, tail, start⟩ := List.exists_cons_of_ne_nil f.nonempty
    have other : b ≠ 13 := (tokenByte_text b (f.lower b (by rw [start]; exact List.mem_cons_self)).1
      (f.lower b (by rw [start]; exact List.mem_cons_self)).2).2.1
    have bytes (more : Bytes) : f.bytes ++ more = b :: (tail ++ (58 :: 32 :: f.value) ++ more) := by
      simp [ResponseField.bytes, start]
    have line := ih (free_bytes f)
    have broken : find (crlf ++ (f.bytes ++ ((fields.flatMap fun f => crlf ++ f.bytes) ++ (blankLine ++ rest)))) blankLine =
        some (crlf.length + (f.bytes ++ fields.flatMap fun f => crlf ++ f.bytes).length) := by
      refine find_skip nonempty ?_ line
      rw [bytes]
      exact crlf_skips other _
    have found := find_skip nonempty (free_skips plain _) broken
    simp only [List.flatMap_cons, List.append_assoc, List.length_append] at found ⊢
    exact found

/-! Reading the body. -/

theorem unread_remainder (limit : Nat) (piece : Piece) (rest : List Piece) :
    unread (remainder limit piece rest) = piece.val.drop limit ++ unread rest := by
  unfold remainder
  split
  next gone => rw [gone, List.nil_append]
  next => rfl

section Body

variable (ending : Ending) {sink : Sink} (accepts : ∀ slices slice, sink slices slice = none)

include accepts

/-- Under a content length exactly that many bytes are handed over. -/
theorem streamLength_takes (cl total : Nat) (slices : List Bytes) (pieces : List Piece)
    (enough : cl - total ≤ (unread pieces).length) :
    (streamLength ending sink cl total slices pieces).1 = .ok () ∧
      (streamLength ending sink cl total slices pieces).2.flatten = slices.flatten ++ (unread pieces).take (cl - total) := by
  induction h : cl - total using Nat.strong_induction_on generalizing total slices pieces with
  | _ n ih =>
    rw [streamLength.eq_def]
    split
    next more =>
      cases pieces with
      | nil =>
        simp only [unread, List.flatMap_nil, List.length_nil] at enough
        omega
      | cons piece rest =>
        have some : 0 < piece.val.length := List.length_pos_iff.mpr piece.property
        simp only [accepts]
        generalize limit : min (cl - total) readBuffer = k
        have positive : 0 < k := by
          rw [← limit, readBuffer]
          omega
        have bound : k ≤ cl - total := by
          rw [← limit]
          exact Nat.min_le_left _ _
        have split : unread (piece :: rest) = piece.val.take k ++ unread (remainder k piece rest) := by
          rw [unread_remainder, ← List.append_assoc, List.take_append_drop]
          rfl
        have size := congrArg List.length split
        simp only [List.length_append, List.length_take] at size
        have left : cl - (total + (piece.val.take k).length) < n := by
          rw [List.length_take]
          omega
        obtain ⟨ok, handed⟩ := ih _ left (total + (piece.val.take k).length) (slices ++ [piece.val.take k])
          (remainder k piece rest) (by rw [List.length_take]; omega) rfl
        refine ⟨ok, ?_⟩
        rw [handed, split, List.flatten_append, List.append_assoc, List.take_append,
          List.take_of_length_le (by rw [List.length_take]; omega : (piece.val.take k).length ≤ n)]
        simp only [List.flatten_cons, List.flatten_nil, List.append_nil, Nat.sub_add_eq, h]
    next =>
      have zero : n = 0 := by omega
      rw [zero]
      exact ⟨rfl, by simp⟩

/-- Until the connection closes everything is handed over. -/
theorem streamClose_takes (total : Nat) (slices : List Bytes) (pieces : List Piece)
    (small : total + (unread pieces).length ≤ maxResp) :
    (streamClose .eof sink total slices pieces).1 = .ok () ∧
      (streamClose .eof sink total slices pieces).2.flatten = slices.flatten ++ unread pieces := by
  induction pieces generalizing total slices with
  | nil => exact ⟨rfl, by simp [streamClose, unread]⟩
  | cons piece rest ih =>
    have split : unread (piece :: rest) = piece.val ++ unread rest := rfl
    rw [split, List.length_append] at small
    rw [streamClose, if_neg (by omega)]
    simp only [accepts]
    obtain ⟨ok, handed⟩ := ih (total + piece.val.length) (slices ++ [piece.val]) (by omega)
    refine ⟨ok, ?_⟩
    rw [handed, split, List.flatten_append, List.append_assoc]
    simp

theorem handFirst_go (first : Bytes) (go : List Bytes → Except Str Unit × List Bytes) :
    ∃ slices : List Bytes, slices.flatten = first ∧ handFirst sink first go = go slices := by
  unfold handFirst
  split
  next empty => exact ⟨[], by simpa using empty.symm, rfl⟩
  next =>
    rw [accepts]
    exact ⟨[first], by simp, rfl⟩

theorem streamPlain_length (initial : Bytes) (pieces : List Piece) (cl : Nat) (small : cl ≤ maxResp)
    (enough : cl ≤ (initial ++ unread pieces).length) :
    (streamPlain initial pieces ending (some cl) sink).1 = .ok () ∧
      (streamPlain initial pieces ending (some cl) sink).2.flatten = (initial ++ unread pieces).take cl := by
  have first : initial.take (min initial.length cl) = initial.take cl := by
    rw [Nat.min_comm, ← List.take_eq_take_min]
  obtain ⟨slices, flat, same⟩ := handFirst_go accepts (initial.take cl) fun slices =>
    streamLength ending sink cl (initial.take cl).length slices pieces
  rw [List.length_append] at enough
  obtain ⟨ok, handed⟩ := streamLength_takes ending accepts cl (initial.take cl).length slices pieces
    (by rw [List.length_take]; omega)
  rw [streamPlain]
  simp only [if_neg (Nat.not_lt.mpr small), first, same]
  refine ⟨ok, ?_⟩
  rw [handed, flat, List.take_append, List.length_take]
  congr 2
  omega

theorem streamPlain_close (initial : Bytes) (pieces : List Piece) (small : (initial ++ unread pieces).length ≤ maxResp) :
    (streamPlain initial pieces .eof none sink).1 = .ok () ∧
      (streamPlain initial pieces .eof none sink).2.flatten = initial ++ unread pieces := by
  rw [List.length_append] at small
  have short : ¬(!initial.isEmpty && maxResp < initial.length) = true := by
    simp only [Bool.and_eq_true, decide_eq_true_eq, not_and]
    omega
  obtain ⟨slices, flat, same⟩ := handFirst_go accepts initial fun slices =>
    streamClose .eof sink initial.length slices pieces
  rw [streamPlain, if_neg short, same, ← flat]
  exact streamClose_takes accepts _ slices pieces (by rw [flat]; exact small)

end Body

end TeeProof.Enclave
