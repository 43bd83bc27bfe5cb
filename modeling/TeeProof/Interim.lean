import TeeProof.Relay

/-! Interim responses: the first header block of the stream is taken for the response, so what is
reported and signed is the final response's only if nothing comes before it. -/
namespace TeeProof.Enclave

variable (rust : Rust)

/-! What a head announces. -/

section Pairs

variable (pairs : List (Str × Str)) (status : Nat)

def announcesChunked : Bool := pairs.any fun p =>
  p.1 = "transfer-encoding".toList && Str.contains "chunked".toList (rust.toLowercase p.2)

/-- The content length that counts is that of the last such field. -/
def announcedLength : Option Nat :=
  (valuesOf "content-length".toList pairs).getLast?.bind (parseUnsigned usizeSize)

theorem field_concat (p : Str × Str) (h : Headers) :
    (pairs ++ [p]).foldl (fun h p => Headers.field rust h p.1 p.2) h =
      (pairs.foldl (fun h p => Headers.field rust h p.1 p.2) h).field rust p.1 p.2 := by
  rw [List.foldl_append]
  rfl

theorem chunked_fields :
    (pairs.foldl (fun h p => Headers.field rust h p.1 p.2) { status }).chunked = announcesChunked rust pairs := by
  induction pairs using List.reverseRecOn with
  | nil => rfl
  | append_singleton front p ih =>
    rw [field_concat, Headers.field, ih, announcesChunked, announcesChunked, List.any_append]
    simp only [List.any_cons, List.any_nil, Bool.or_false]

theorem contentLength_fields :
    (pairs.foldl (fun h p => Headers.field rust h p.1 p.2) { status }).contentLength = announcedLength pairs := by
  induction pairs using List.reverseRecOn with
  | nil => rfl
  | append_singleton front p ih =>
    rw [field_concat, Headers.field, announcedLength, valuesOf_append]
    by_cases same : p.1 = "content-length".toList
    · rw [valuesOf_self same, List.getLast?_concat]
      exact if_pos same
    · rw [valuesOf_ne same, List.append_nil]
      exact (if_neg same).trans ih

theorem status_fields :
    (pairs.foldl (fun h p => Headers.field rust h p.1 p.2) { status }).status = status := by
  induction pairs using List.reverseRecOn with
  | nil => rfl
  | append_singleton front p ih =>
    rw [field_concat]
    exact ih

end Pairs

theorem unsignedDigits_plain {text : Str} (unsigned : ∀ rest, text ≠ '+' :: rest) : unsignedDigits text = text := by
  rw [unsignedDigits]
  exact unsigned

theorem parseUnsigned_plain (size : Nat) {text : Str} (unsigned : ∀ rest, text ≠ '+' :: rest) :
    parseUnsigned size text =
      if text.isEmpty || !text.all Char.isDigit then none
      else (some (text.foldl (fun n c => n * 10 + (c.toNat - 48)) 0)).filter (· < size) := by
  rw [parseUnsigned, unsignedDigits_plain unsigned]

/-! The blocks of a stream. -/

/-- `HTTP/1.1`, three digits and an optional reason. -/
structure StatusLine where
  digits : Bytes
  reason : Bytes
  three : digits.length = 3
  decimal : ∀ b ∈ digits, 48 ≤ b.toNat ∧ b.toNat ≤ 57
  parted : reason = [] ∨ ∃ phrase, reason = 32 :: phrase
  unbroken : ∀ b ∈ reason, b ≠ 13 ∧ b ≠ 10

namespace StatusLine

def version : Bytes := [72, 84, 84, 80, 47, 49, 46, 49]

def bytes (l : StatusLine) : Bytes := version ++ 32 :: (l.digits ++ l.reason)

def status (l : StatusLine) : Nat := l.digits.foldl (fun n b => n * 10 + (b.toNat - 48)) 0

theorem digit_text (b : UInt8) (decimal : 48 ≤ b.toNat ∧ b.toNat ≤ 57) :
    b.toNat < 0x80 ∧ b ≠ 13 ∧ isWhitespace (Char.ofNat b.toNat) = false ∧ (Char.ofNat b.toNat).isDigit = true ∧
      Char.ofNat b.toNat ≠ '+' ∧ (Char.ofNat b.toNat).toNat = b.toNat := by
  revert decimal
  revert b
  decide +kernel

theorem unbroken_bytes (l : StatusLine) : (13 : UInt8) ∉ l.bytes := by
  intro member
  simp only [bytes, List.mem_append, List.mem_cons] at member
  rcases member with inside | eq | inside | inside
  · exact absurd inside (by decide)
  · exact absurd eq (by decide)
  · exact (digit_text 13 (l.decimal 13 inside)).2.1 rfl
  · exact (l.unbroken 13 inside).1 rfl

theorem parse_digits (l : StatusLine) : parseUnsigned (2 ^ 16) (asciiText l.digits) = some l.status := by
  have digit (b : UInt8) (member : b ∈ l.digits) := digit_text b (l.decimal b member)
  obtain ⟨a, b, c, eq⟩ := List.length_eq_three.mp l.three
  have status : l.status = ((a.toNat - 48) * 10 + (b.toNat - 48)) * 10 + (c.toNat - 48) := by
    rw [StatusLine.status, eq]
    simp
  rw [eq] at digit
  obtain ⟨_, _, _, digitA, unsigned, codeA⟩ := digit a (by simp)
  obtain ⟨_, _, _, digitB, _, codeB⟩ := digit b (by simp)
  obtain ⟨_, _, _, digitC, _, codeC⟩ := digit c (by simp)
  have bounds := l.decimal
  rw [eq] at bounds
  have boundA := bounds a (by simp)
  have boundB := bounds b (by simp)
  have boundC := bounds c (by simp)
  rw [eq, status, parseUnsigned_plain]
  · simp only [asciiText, List.map_cons, List.map_nil, List.isEmpty_cons, List.all_cons, List.all_nil, digitA, digitB,
      digitC, List.foldl_cons, List.foldl_nil, codeA, codeB, codeC]
    simp
    omega
  · rintro rest signed
    exact unsigned (List.cons.inj signed).1

/-- The second word of the line is its status. -/
theorem statusOf_bytes (l : StatusLine) : statusOf (Utf8.decode l.bytes) = some l.status := by
  have digit (b : UInt8) (member : b ∈ l.digits) := digit_text b (l.decimal b member)
  have ascii : ∀ b ∈ l.digits, b.toNat < 0x80 := fun b member => (digit b member).1
  have solid : ∀ c ∈ asciiText l.digits, isWhitespace c = false := by
    intro c member
    obtain ⟨b, inside, rfl⟩ := List.mem_map.mp member
    exact (digit b inside).2.2.1
  have filled : asciiText l.digits ≠ [] := by
    have three := l.three
    intro empty
    rw [asciiText, List.map_eq_nil_iff] at empty
    rw [empty] at three
    cases three
  have space : Char.ofNat (32 : UInt8).toNat = ' ' := by decide
  have text : Utf8.decode l.bytes = asciiText version ++ ' ' :: (asciiText l.digits ++ Utf8.decode l.reason) := by
    rw [bytes, decode_asciiText (by decide +kernel), Utf8.decode_cons_ascii 32 _ (by decide), decode_asciiText ascii, space]
  have word : (splitWhitespace (Utf8.decode l.bytes))[1]? = some (asciiText l.digits) := by
    have plain : ∀ b ∈ version, isWhitespace (Char.ofNat b.toNat) = false := by decide +kernel
    have name : ∀ c ∈ asciiText version, isWhitespace c = false := by
      intro c member
      obtain ⟨b, inside, rfl⟩ := List.mem_map.mp member
      exact plain b inside
    have kept : (asciiText version).isEmpty = false := by decide
    have digitsKept : (asciiText l.digits).isEmpty = false := by simpa using filled
    rw [text, splitWhitespace, List.splitOnP_append_cons_of_forall_mem name ' ' (by decide)]
    rcases l.parted with none | ⟨phrase, some⟩
    · rw [none, Utf8.decode_nil, List.append_nil, List.splitOnP_eq_singleton solid]
      simp [kept, digitsKept]
    · rw [some, Utf8.decode_cons_ascii 32 _ (by decide)]
      have split := List.splitOnP_append_cons_of_forall_mem solid ' ' (by decide) (Utf8.decode phrase)
      rw [space, split]
      simp [kept, digitsKept]
  rw [statusOf, word, Option.bind_some, l.parse_digits]

end StatusLine

/-- A header block: the status line and the fields. -/
structure ResponseBlock where
  line : StatusLine
  fields : List ResponseField

namespace ResponseBlock

def status (b : ResponseBlock) : Nat := b.line.status

def head (b : ResponseBlock) : Bytes := headBytes b.line.bytes b.fields

def bytes (b : ResponseBlock) : Bytes := b.head ++ blankLine

/-- The fields as they are read: trimmed. -/
def pairs (b : ResponseBlock) : List (Str × Str) := b.fields.map fun f => (f.nameText, Str.trim f.valueText)

def contentType (b : ResponseBlock) : Str := (valuesOf "content-type".toList b.pairs).getLast?.getD []

def IsInterim (b : ResponseBlock) : Prop := 100 ≤ b.status ∧ b.status ≤ 199 ∧ b.status ≠ 101

/-- What the head says of the body. -/
structure Reads (b : ResponseBlock) (h : Headers) : Prop where
  status : h.status = b.status
  contentType : h.contentType.getD [] = b.contentType
  chunked : h.chunked = announcesChunked rust b.pairs
  contentLength : h.contentLength = announcedLength b.pairs

theorem parseHeaders_head (lowers : LowersAscii rust) (b : ResponseBlock) :
    ∃ h, parseHeaders rust b.head = .ok h ∧ b.Reads rust h := by
  refine ⟨_, parseHeaders_block rust lowers b.line.bytes b.line.unbroken_bytes b.line.statusOf_bytes b.fields, ?_⟩
  have same : b.fields.foldl (fun h f => h.field rust f.nameText (Str.trim f.valueText)) { status := b.line.status } =
      b.pairs.foldl (fun h p => Headers.field rust h p.1 p.2) { status := b.line.status } := by
    rw [pairs, List.foldl_map]
  rw [same]
  exact ⟨status_fields rust _ _, by rw [contentType_joined]; rfl, chunked_fields rust _ _, contentLength_fields rust _ _⟩

theorem find_head (b : ResponseBlock) (rest : Bytes) : find (b.bytes ++ rest) blankLine = some b.head.length := by
  rw [bytes, head, headBytes, List.append_assoc, List.append_assoc]
  exact find_block b.line.unbroken_bytes b.fields rest

end ResponseBlock

/-- How the bytes after the final head hold its body. -/
inductive Framing (b : ResponseBlock) : Bytes → Bytes → Prop
  /-- The last transfer coding is `chunked`. -/
  | chunked (coding : ∃ p ∈ b.pairs, p.1 = "transfer-encoding".toList ∧ (∀ c ∈ p.2, c.toNat < 0x80) ∧
      Str.endsWith "chunked".toList (Str.toAsciiLowercase p.2) = true) (chunks : List Chunk) (last : SizeLine)
      (zero : last.size = 0) (trailer : Bytes) :
      Framing b (encodeChunks chunks last ++ trailer) (chunks.flatMap Chunk.data)
  /-- Every content length, and there is one, is the length of the body. -/
  | length (coding : ∀ p ∈ b.pairs, p.1 ≠ "transfer-encoding".toList) (body : Bytes)
      (some : valuesOf "content-length".toList b.pairs ≠ [])
      (every : ∀ text ∈ valuesOf "content-length".toList b.pairs, text ≠ [] ∧ text.all Char.isDigit = true ∧
        text.foldl (fun n c => n * 10 + (c.toNat - 48)) 0 = body.length) : Framing b body body
  /-- Neither: the body ends with the connection. -/
  | close (coding : ∀ p ∈ b.pairs, p.1 ≠ "transfer-encoding".toList)
      (none : valuesOf "content-length".toList b.pairs = []) (body : Bytes) : Framing b body body
  /-- An answer to HEAD, or one with status 204 or 304, whatever its fields announce. -/
  | bodyless : Framing b [] []

/-- The body that the fields announce is there. -/
def Carries (b : ResponseBlock) (wire : Bytes) : Prop :=
  (announcesChunked rust b.pairs = true → wire ≠ []) ∧
    ∀ n, announcesChunked rust b.pairs = false → announcedLength b.pairs = some n → n ≤ wire.length

/-- What is reported and signed is the final response. -/
def SignsFinal (b : ResponseBlock) (body : Bytes) (r : Except Str Relayed) : Prop :=
  ∃ relayed, r = .ok relayed ∧ relayed.shownStatus = b.status ∧ relayed.signedStatus = b.status ∧
    relayed.signedContentType = b.contentType ∧ relayed.hashed = body

theorem contains_of_endsWith {part s : Str} (ends : Str.endsWith part s = true) : Str.contains part s = true := by
  obtain ⟨front, rfl⟩ := List.isSuffixOf_iff_suffix.mp ends
  rw [Str.contains, List.any_eq_true]
  refine ⟨part, ?_, by simp⟩
  exact (List.mem_tails _ _).mpr (List.suffix_append _ _)

section Framing

variable {b : ResponseBlock}

theorem announcesChunked_of_coding (lowers : LowersAscii rust)
    (coding : ∃ p ∈ b.pairs, p.1 = "transfer-encoding".toList ∧ (∀ c ∈ p.2, c.toNat < 0x80) ∧
      Str.endsWith "chunked".toList (Str.toAsciiLowercase p.2) = true) : announcesChunked rust b.pairs = true := by
  obtain ⟨p, member, name, ascii, ends⟩ := coding
  rw [announcesChunked, List.any_eq_true]
  refine ⟨p, member, ?_⟩
  rw [Bool.and_eq_true]
  refine ⟨decide_eq_true name, ?_⟩
  rw [lowers p.2 ascii]
  exact contains_of_endsWith ends

theorem announcesChunked_of_none (coding : ∀ p ∈ b.pairs, p.1 ≠ "transfer-encoding".toList) :
    announcesChunked rust b.pairs = false := by
  rw [announcesChunked, List.any_eq_false]
  intro p member
  simp only [Bool.and_eq_true, decide_eq_true_eq]
  exact fun announced => coding p member announced.1

theorem announcedLength_of_every {n : Nat} (small : n < usizeSize) (some : valuesOf "content-length".toList b.pairs ≠ [])
    (every : ∀ text ∈ valuesOf "content-length".toList b.pairs, text ≠ [] ∧ text.all Char.isDigit = true ∧
      text.foldl (fun n c => n * 10 + (c.toNat - 48)) 0 = n) : announcedLength b.pairs = Option.some n := by
  have last := List.getLast?_eq_some_getLast some
  obtain ⟨nonempty, digits, value⟩ := every _ (List.getLast_mem some)
  rw [announcedLength, last, Option.bind_some]
  generalize (valuesOf "content-length".toList b.pairs).getLast some = text at nonempty digits value
  have unsigned : ∀ rest, text ≠ '+' :: rest := by
    rintro rest rfl
    simp [show Char.isDigit '+' = false from rfl] at digits
  rw [parseUnsigned_plain _ unsigned, value, digits]
  have filled : text.isEmpty = false := by simpa using nonempty
  rw [filled]
  simp [small]

end Framing

/-! The relay on a block and what follows it. -/

/-- The bodies of the two framings. -/
def streamBody (h : Headers) (leftover : Bytes) (pieces : List Piece) (ending : Ending) (sink : Sink) :
    Except Str Unit × List Bytes :=
  if h.chunked then streamChunked leftover pieces ending sink else streamPlain leftover pieces ending h.contentLength sink

theorem relayResponse_block (lowers : LowersAscii rust) (b : ResponseBlock) (small : b.bytes.length ≤ maxHead)
    (rest : Bytes) (pieces : List Piece) (arrives : unread pieces = b.bytes ++ rest) (ending : Ending) (sink : Sink) :
    ∃ h leftover later, b.Reads rust h ∧ leftover ++ unread later = rest ∧
      ∀ r, relayResponse rust pieces ending sink = .ok r ↔ (streamBody h leftover later ending sink).1 = .ok () ∧
        r = { shownStatus := h.status, shownHeaders := h.headers, signedStatus := h.status
              signedContentType := h.contentType.getD []
              hashed := (streamBody h leftover later ending sink).2.flatten } := by
  have found : find ([] ++ unread pieces) blankLine = some b.head.length := by
    rw [List.nil_append, arrives]
    exact b.find_head rest
  have length : b.head.length + 4 = b.bytes.length := by simp [ResponseBlock.bytes, blankLine, crlf]
  obtain ⟨leftover, later, read, split⟩ := readUntilHeaders_found ending [] pieces found (by omega)
  have head : ([] ++ unread pieces).take b.head.length = b.head := by
    rw [List.nil_append, arrives, ResponseBlock.bytes, List.append_assoc]
    exact List.take_left
  have tail : ([] ++ unread pieces).drop (b.head.length + 4) = rest := by
    rw [List.nil_append, arrives, length]
    exact List.drop_left
  rw [tail] at split
  rw [head] at read
  obtain ⟨h, parsed, reads⟩ := b.parseHeaders_head rust lowers
  refine ⟨h, leftover, later, reads, split, fun r => ?_⟩
  have run : relayResponse rust pieces ending sink = (do
      (streamBody h leftover later ending sink).1
      .ok { shownStatus := h.status, shownHeaders := h.headers, signedStatus := h.status
            signedContentType := h.contentType.getD []
            hashed := (streamBody h leftover later ending sink).2.flatten }) := by
    rw [relayResponse, read]
    simp only [bind, Except.bind, parsed]
    rfl
  rw [run]
  cases (streamBody h leftover later ending sink).1 with
  | error message => simp [bind, Except.bind]
  | ok _ => simp [bind, Except.bind, eq_comm]

theorem readUntilHeaders_ok {ending : Ending} {buf : Bytes} {pieces : List Piece} {result : Bytes × Bytes × List Piece}
    (run : readUntilHeaders ending buf pieces = .ok result) :
    ∃ pos, find (buf ++ unread pieces) blankLine = some pos ∧ result.1 = (buf ++ unread pieces).take pos := by
  have nonempty : blankLine ≠ [] := by decide
  have here {buf : Bytes} {pieces : List Piece} {pos : Nat} (found : find buf blankLine = some pos) :
      find (buf ++ unread pieces) blankLine = some pos ∧ buf.take pos = (buf ++ unread pieces).take pos := by
    obtain ⟨occurs, _⟩ := (find_eq_some nonempty).mp found
    have size := congrArg List.length occurs
    simp only [List.length_take, List.length_drop, blankLine, crlf, List.length_append, List.length_cons,
      List.length_nil] at size
    exact ⟨find_append nonempty found _, (List.take_append_of_le_length (by omega)).symm⟩
  induction pieces generalizing buf with
  | nil =>
    rw [readUntilHeaders.eq_def] at run
    split at run
    next pos found =>
      cases run
      exact ⟨pos, here found⟩
    next =>
      split at run
      next => cases run
      next =>
        dsimp only at run
        split at run <;> cases run
  | cons piece rest ih =>
    rw [readUntilHeaders.eq_def] at run
    split at run
    next pos found =>
      cases run
      exact ⟨pos, here found⟩
    next =>
      split at run
      next => cases run
      next =>
        have same : buf ++ unread (piece :: rest) = (buf ++ piece.val) ++ unread rest := by simp [unread]
        rw [same]
        exact ih run

/-- The head is what precedes the first empty line in the buffer, and one read at most went
beyond the limit. -/
theorem readUntilHeaders_head {ending : Ending} {buf : Bytes} {pieces : List Piece} {result : Bytes × Bytes × List Piece}
    {most : Nat} (reads : ∀ piece ∈ pieces, piece.val.length ≤ most) (short : buf.length ≤ maxHead + most)
    (run : readUntilHeaders ending buf pieces = .ok result) :
    (∀ i < result.1.length + 1, ((result.1.drop i).take blankLine.length ≠ blankLine)) ∧ result.1.length ≤ maxHead + most := by
  have nonempty : blankLine ≠ [] := by decide
  have here {buf : Bytes} {pos : Nat} (found : find buf blankLine = some pos) (short : buf.length ≤ maxHead + most) :
      (∀ i < (buf.take pos).length + 1, ((buf.take pos).drop i).take blankLine.length ≠ blankLine) ∧
        (buf.take pos).length ≤ maxHead + most := by
    obtain ⟨_, first⟩ := (find_eq_some nonempty).mp found
    refine ⟨fun i _ occurs => ?_, (List.length_take_le pos buf).trans ?_⟩
    · have size := congrArg List.length occurs
      have length : blankLine.length = 4 := rfl
      simp only [List.length_take, List.length_drop, length] at size
      refine first i (by omega) ?_
      rw [List.drop_take, List.take_take, length, Nat.min_eq_left (by omega)] at occurs
      exact occurs
    · have size := congrArg List.length ((find_eq_some nonempty).mp found).1
      simp only [List.length_take, List.length_drop, show blankLine.length = 4 from rfl] at size
      omega
  induction pieces generalizing buf with
  | nil =>
    rw [readUntilHeaders.eq_def] at run
    split at run
    next pos found =>
      cases run
      exact here found short
    next =>
      split at run
      next => cases run
      next =>
        dsimp only at run
        split at run <;> cases run
  | cons piece rest ih =>
    rw [readUntilHeaders.eq_def] at run
    split at run
    next pos found =>
      cases run
      exact here found short
    next =>
      split at run
      next => cases run
      next within =>
        have size := reads piece List.mem_cons_self
        refine ih (fun p member => reads p (List.mem_cons_of_mem piece member)) ?_ run
        rw [List.length_append]
        omega

/-- The size of the buffer that one read fills. -/
def headBuffer : Nat := 4096

theorem readUntilHeaders_splits (ending : Ending) (pieces : List Piece) (reads : ∀ piece ∈ pieces, piece.val.length ≤ headBuffer) :
    (∀ head tail, unread pieces = head ++ (blankLine ++ tail) →
      (∀ i < head.length, ¬blankLine <+: (unread pieces).drop i) → (head ++ blankLine).length ≤ maxHead →
        ∃ leftover rest, readUntilHeaders ending [] pieces = .ok (head, leftover, rest) ∧
          head ++ (blankLine ++ (leftover ++ unread rest)) = unread pieces) ∧
      ∀ head leftover rest, readUntilHeaders ending [] pieces = .ok (head, leftover, rest) →
        ¬blankLine <:+: head ∧ head.length ≤ maxHead + headBuffer := by
  have nonempty : blankLine ≠ [] := by decide
  constructor
  · intro head tail split first small
    have found : find ([] ++ unread pieces) blankLine = some head.length := by
      rw [List.nil_append]
      refine (find_eq_some nonempty).mpr ⟨?_, fun j lt occurs => ?_⟩
      · rw [split, List.drop_left, List.take_left]
      · exact first j lt (occurs ▸ List.take_prefix _ _)
    have limit : head.length + 4 ≤ maxHead := by
      rw [List.length_append] at small
      exact small
    obtain ⟨leftover, rest, read, kept⟩ := readUntilHeaders_found ending [] pieces found limit
    have front : (unread pieces).take head.length = head := by rw [split, List.take_left]
    have back : (unread pieces).drop (head.length + 4) = tail := by
      have skip : head.length + 4 = (head ++ blankLine).length := by rw [List.length_append]; rfl
      rw [split, ← List.append_assoc, skip, List.drop_left]
    rw [List.nil_append, front] at read
    rw [List.nil_append, back] at kept
    exact ⟨leftover, rest, read, by rw [kept, split]⟩
  · intro head leftover rest run
    obtain ⟨clean, size⟩ := readUntilHeaders_head reads (Nat.zero_le _) run
    refine ⟨?_, size⟩
    rintro ⟨before, after, eq⟩
    have within : before.length < head.length + 1 := by
      rw [← eq]
      simp only [List.length_append]
      omega
    refine clean before.length within ?_
    rw [← eq, List.append_assoc, List.drop_left, List.take_left]

/-- A terminator that straddles two reads. -/
theorem readUntilHeaders_splits_sample :
    ∃ leftover rest,
      readUntilHeaders .eof [] [⟨[65, 13, 10, 13], nofun⟩, ⟨[10, 66], nofun⟩, ⟨[67], nofun⟩] =
        .ok ([65], leftover, rest) ∧
      ([65] : Bytes) ++ (blankLine ++ (leftover ++ unread rest)) =
        unread [⟨[65, 13, 10, 13], nofun⟩, ⟨[10, 66], nofun⟩, ⟨[67], nofun⟩] := by
  refine (readUntilHeaders_splits .eof [⟨[65, 13, 10, 13], nofun⟩, ⟨[10, 66], nofun⟩, ⟨[67], nofun⟩]
    (by decide)).1 [65] [66, 67] rfl ?_ (by decide)
  intro i lt
  obtain rfl : i = 0 := by
    rw [List.length_singleton] at lt
    omega
  decide

theorem bind_ok {ε α β : Type} {m : Except ε α} {f : α → Except ε β} {b : β} (run : (m >>= f) = .ok b) :
    ∃ a, m = .ok a ∧ f a = .ok b := by
  cases m with
  | error e => cases run
  | ok a => exact ⟨a, rfl, run⟩

/-- Whatever follows, the status that is signed is that of the first block. -/
theorem relayResponse_status (lowers : LowersAscii rust) (b : ResponseBlock) (rest : Bytes) (pieces : List Piece)
    (arrives : unread pieces = b.bytes ++ rest) (ending : Ending) (sink : Sink) (r : Relayed)
    (run : relayResponse rust pieces ending sink = .ok r) : r.signedStatus = b.status := by
  rw [relayResponse] at run
  obtain ⟨⟨head, leftover, later⟩, read, run⟩ := bind_ok run
  obtain ⟨pos, found, eq⟩ := readUntilHeaders_ok read
  rw [List.nil_append, arrives, b.find_head rest] at found
  obtain rfl := Option.some.inj found
  rw [List.nil_append, arrives, ResponseBlock.bytes, List.append_assoc, List.take_left] at eq
  obtain ⟨h, parsed, run⟩ := bind_ok run
  obtain ⟨h', parsed', reads⟩ := b.parseHeaders_head rust lowers
  dsimp only at eq
  rw [eq, parsed'] at parsed
  cases parsed
  obtain ⟨_, _, run⟩ := bind_ok run
  cases run
  exact reads.status

/-- A body that is there is streamed exactly. -/
theorem streamBody_exact (lowers : LowersAscii rust) {b : ResponseBlock} {wire body : Bytes} (framing : Framing b wire body)
    (small : body.length ≤ maxResp) (carries : Carries rust b wire) {h : Headers} (reads : b.Reads rust h)
    {leftover : Bytes} {later : List Piece} (arrives : leftover ++ unread later = wire) {sink : Sink}
    (accepts : ∀ slices slice, sink slices slice = none) :
    (streamBody h leftover later .eof sink).1 = .ok () ∧ (streamBody h leftover later .eof sink).2.flatten = body := by
  have limit : maxResp < usizeSize := by decide
  rw [streamBody, reads.chunked, reads.contentLength]
  cases framing with
  | chunked coding chunks last zero trailer =>
    rw [announcesChunked_of_coding rust lowers coding, if_pos rfl]
    exact ChunkDecoder.streamChunked_chunks .eof accepts chunks last zero trailer small leftover later arrives
  | length coding body some every =>
    rw [announcesChunked_of_none rust coding, announcedLength_of_every (by omega) some every]
    obtain ⟨ok, handed⟩ := streamPlain_length .eof accepts leftover later wire.length small (by rw [arrives])
    refine ⟨ok, handed.trans ?_⟩
    rw [arrives, List.take_length]
  | close coding none body =>
    have unknown : announcedLength b.pairs = Option.none := by rw [announcedLength, none]; rfl
    rw [announcesChunked_of_none rust coding, unknown]
    obtain ⟨ok, handed⟩ := streamPlain_close accepts leftover later (by rw [arrives]; exact small)
    exact ⟨ok, handed.trans arrives⟩
  | bodyless =>
    have plain : announcesChunked rust b.pairs = false := by
      by_contra chunked
      exact carries.1 (by simpa using chunked) rfl
    rw [plain]
    cases announced : announcedLength b.pairs with
    | none =>
      obtain ⟨ok, handed⟩ := streamPlain_close accepts leftover later (by rw [arrives]; exact small)
      exact ⟨ok, handed.trans arrives⟩
    | some n =>
      have zero : n = 0 := Nat.le_zero.mp (carries.2 n plain announced)
      obtain ⟨ok, handed⟩ := streamPlain_length .eof accepts leftover later n (by omega) (by omega)
      refine ⟨ok, handed.trans ?_⟩
      rw [zero]
      rfl

theorem pieces_of_unread {pieces : List Piece} (none : unread pieces = []) : pieces = [] := by
  cases pieces with
  | nil => rfl
  | cons piece rest => exact absurd (List.append_eq_nil_iff.mp none).1 piece.property

theorem streamChunked_empty (sink : Sink) : (streamChunked [] [] .eof sink).1 ≠ .ok () := by
  obtain ⟨message, failed⟩ := ChunkDecoder.step_noLine .eof sink (d := { buf := [], pieces := [] }) rfl
  rw [streamChunked, ChunkDecoder.run_failed failed]
  simp

theorem streamPlain_empty {n : Nat} (positive : 0 < n) (sink : Sink) : (streamPlain [] [] .eof (some n) sink).1 ≠ .ok () := by
  rw [streamPlain]
  split
  next => simp
  next =>
    simp only [List.length_nil, List.take_nil, handFirst, List.isEmpty_nil, if_true]
    rw [streamLength.eq_def, dif_pos positive]
    simp

/-- A body that is announced and missing ends in an error. -/
theorem streamBody_missing (lowers : LowersAscii rust) {b : ResponseBlock} {wire body : Bytes}
    (framing : Framing b wire body) (small : body.length ≤ maxResp) (missing : ¬Carries rust b wire) {h : Headers}
    (reads : b.Reads rust h) {leftover : Bytes} {later : List Piece} (arrives : leftover ++ unread later = wire)
    (sink : Sink) : (streamBody h leftover later .eof sink).1 ≠ .ok () := by
  have limit : maxResp < usizeSize := by decide
  cases framing with
  | chunked coding chunks last zero trailer =>
    refine absurd ⟨fun _ empty => ?_, fun n plain => ?_⟩ missing
    · simp [encodeChunks, crlf] at empty
    · rw [announcesChunked_of_coding rust lowers coding] at plain
      cases plain
  | length coding body some every =>
    refine absurd ⟨fun chunked => ?_, fun n _ announced => ?_⟩ missing
    · rw [announcesChunked_of_none rust coding] at chunked
      cases chunked
    · rw [announcedLength_of_every (by omega) some every] at announced
      exact (Option.some.inj announced).ge
  | close coding none body =>
    refine absurd ⟨fun chunked => ?_, fun n _ announced => ?_⟩ missing
    · rw [announcesChunked_of_none rust coding] at chunked
      cases chunked
    · rw [announcedLength, none] at announced
      cases announced
  | bodyless =>
    obtain ⟨rfl, none⟩ := List.append_eq_nil_iff.mp arrives
    obtain rfl := pieces_of_unread none
    rw [streamBody, reads.chunked, reads.contentLength]
    cases chunked : announcesChunked rust b.pairs with
    | true => exact streamChunked_empty sink
    | false =>
      cases announced : announcedLength b.pairs with
      | none =>
        refine absurd ⟨fun yes => ?_, fun n _ eq => ?_⟩ missing
        · rw [chunked] at yes
          cases yes
        · rw [announced] at eq
          cases eq
      | some n =>
        refine streamPlain_empty (Nat.pos_of_ne_zero fun zero => missing ⟨fun yes => ?_, fun m _ eq => ?_⟩) sink
        · rw [chunked] at yes
          cases yes
        · rw [announced, zero] at eq
          exact (Option.some.inj eq).ge

/-- `HTTP/1.1 100`. -/
def continueBlock : ResponseBlock where
  line := ⟨[49, 48, 48], [], rfl, by simp, .inl rfl, unbroken_nil⟩
  fields := []

/-- `HTTP/1.1 200` with a content length of one. -/
def shortBlock : ResponseBlock where
  line := ⟨[50, 48, 48], [], rfl, by simp, .inl rfl, unbroken_nil⟩
  fields := [{ name := Utf8.encode "content-length".toList, value := [49], nonempty := by decide
               lower := by decide +kernel, unbroken := by simp }]

theorem shortBlock_pairs : shortBlock.pairs = [("content-length".toList, ['1'])] := by decide

theorem shortBlock_framing : Framing shortBlock [65] [65] := by
  refine .length ?_ [65] ?_ ?_
  · rw [shortBlock_pairs]
    decide
  · rw [shortBlock_pairs]
    decide
  · rw [shortBlock_pairs]
    decide

end TeeProof.Enclave
