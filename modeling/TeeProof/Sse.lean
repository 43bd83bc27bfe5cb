import TeeProof.Lines
import TeeProof.Serde

/-! Server-sent events. The buffered parser decodes the whole body and walks its text
lines; the incremental one takes lines off a byte buffer and decodes each of them. -/
namespace TeeProof.Enclave

variable (rust : Rust) {σ : Type}

/-- `str::lines`: the last line may lack its end, and then keeps a final `\r`. -/
def lines (text : Str) : List Str :=
  (Lines.ended '\n' text).map (Lines.stripMark '\r') ++
    if (Lines.rest '\n' text).isEmpty then [] else [Lines.rest '\n' text]

/-- The value of one event's joined data; a text that is no JSON goes in by its hash. -/
def sseValue (data : Str) : Value :=
  (rust.fromStr data).getD (.ofFields [("raw_data_sha256", .string (sha256Hex rust (Utf8.encode data))),
    ("parse_error", .lit "invalid_sse_json")])

def flushSseData (dataLines : List Str) (items : List Value) : List Str × List Value :=
  if dataLines.isEmpty then (dataLines, items)
  else
    let data := Str.join ['\n'] dataLines
    if (Str.trim data).isEmpty || Str.trim data == "[DONE]".toList then ([], items)
    else ([], items ++ [sseValue rust data])

def parseSseLine (state : List Str × List Value) (line : Str) : List Str × List Value :=
  if line.isEmpty then flushSseData rust state.1 state.2
  else
    match Str.stripPrefix "data:" line with
    | some rest => (state.1 ++ [Str.trimStart rest], state.2)
    | none => state

def parseSseData (body : Bytes) : Value :=
  let (dataLines, items) := (lines (Utf8.decode body)).foldl (parseSseLine rust) ([], [])
  .array (flushSseData rust dataLines items).2

structure SseEventParser where
  pending : Bytes := []
  dataLines : List Str := []

namespace SseEventParser

/-! The callback `on_event : FnMut(Value)` is a function on what it captures. -/

def flush (onEvent : σ → Value → σ) (self : SseEventParser) (s : σ) : SseEventParser × σ :=
  if self.dataLines.isEmpty then (self, s)
  else
    let data := Str.join ['\n'] self.dataLines
    let self := { self with dataLines := [] }
    if (Str.trim data).isEmpty || Str.trim data == "[DONE]".toList then (self, s)
    else (self, onEvent s (sseValue rust data))

def processLine (onEvent : σ → Value → σ) (self : SseEventParser) (s : σ) (line : Bytes) :
    SseEventParser × σ :=
  if line.isEmpty then self.flush rust onEvent s
  else
    match Str.stripPrefix "data:" (Utf8.decode line) with
    | some rest => ({ self with dataLines := self.dataLines ++ [Str.trimStart rest] }, s)
    | none => (self, s)

/-- Taking a line touches the buffer no further. -/
theorem pending_flush (onEvent : σ → Value → σ) (self : SseEventParser) (s : σ) :
    (self.flush rust onEvent s).1.pending = self.pending := by
  unfold flush
  split
  · rfl
  · dsimp only
    split <;> rfl

theorem pending_processLine (onEvent : σ → Value → σ) (self : SseEventParser) (s : σ) (line : Bytes) :
    (self.processLine rust onEvent s line).1.pending = self.pending := by
  unfold processLine
  split
  · exact pending_flush rust onEvent self s
  · split <;> rfl

/-- The `while let Some(pos)` loop of `push`. -/
def drain (onEvent : σ → Value → σ) (self : SseEventParser) (s : σ) : SseEventParser × σ :=
  match found : self.pending.findIdx? (· == 10) with
  | none => (self, s)
  | some pos =>
    let line := Lines.stripMark 10 (self.pending.take (pos + 1))
    let line := Lines.stripMark 13 line
    let next := processLine rust onEvent { self with pending := self.pending.drop (pos + 1) } s line
    drain onEvent next.1 next.2
  termination_by self.pending.length
  decreasing_by
    have inside := (List.findIdx?_eq_some_iff_findIdx_eq.mp found).1
    rw [pending_processLine, List.length_drop]
    omega

def push (onEvent : σ → Value → σ) (self : SseEventParser) (s : σ) (chunk : Bytes) : SseEventParser × σ :=
  drain rust onEvent { self with pending := self.pending ++ chunk } s

def finish (onEvent : σ → Value → σ) (self : SseEventParser) (s : σ) : SseEventParser × σ :=
  let (self, s) :=
    if !self.pending.isEmpty then
      processLine rust onEvent { self with pending := [] } s self.pending
    else (self, s)
  flush rust onEvent self s

end SseEventParser

/-! Both parsers are one walk over decoded lines. -/

section Walk

variable (onEvent : σ → Value → σ)

def feedLine (state : List Str × σ) (line : Str) : List Str × σ :=
  if line.isEmpty then
    if state.1.isEmpty then state
    else
      let data := Str.join ['\n'] state.1
      if (Str.trim data).isEmpty || Str.trim data == "[DONE]".toList then ([], state.2)
      else ([], onEvent state.2 (sseValue rust data))
  else
    match Str.stripPrefix "data:" line with
    | some rest => (state.1 ++ [Str.trimStart rest], state.2)
    | none => state

theorem parseSseLine_eq (state : List Str × List Value) (line : Str) :
    parseSseLine rust state line = feedLine rust (fun items v => items ++ [v]) state line := by
  unfold parseSseLine feedLine flushSseData
  rfl

theorem flushSseData_eq (state : List Str × List Value) :
    flushSseData rust state.1 state.2 = feedLine rust (fun items v => items ++ [v]) state [] := by
  unfold feedLine flushSseData
  rfl

theorem flush_eq (self : SseEventParser) (s : σ) :
    self.flush rust onEvent s =
      let state := feedLine rust onEvent (self.dataLines, s) []
      ({ self with dataLines := state.1 }, state.2) := by
  unfold SseEventParser.flush feedLine
  simp only [List.isEmpty_nil, if_true]
  split
  · rfl
  · split <;> rfl

/-- Decoding first or asking for the empty line first is the same. -/
theorem processLine_eq (self : SseEventParser) (s : σ) (line : Bytes) :
    self.processLine rust onEvent s line =
      let state := feedLine rust onEvent (self.dataLines, s) (Utf8.decode line)
      ({ self with dataLines := state.1 }, state.2) := by
  unfold SseEventParser.processLine
  cases line with
  | nil => simpa using flush_eq rust onEvent self s
  | cons b rest =>
    have filled : (Utf8.decode (b :: rest)).isEmpty = false := by
      rw [List.isEmpty_eq_false_iff]
      exact fun empty => by simpa using (Utf8.decode_eq_nil_iff _).mp empty
    simp only [List.isEmpty_cons, feedLine, filled, Bool.false_eq_true, if_false]
    cases Str.stripPrefix "data:" (Utf8.decode (b :: rest)) <;> rfl

/-- A raw line: its `\r` is cut, then it is decoded. -/
def feedBytes (state : List Str × σ) (line : Bytes) : List Str × σ :=
  feedLine rust onEvent state (Utf8.decode (Lines.stripMark 13 line))

theorem drain_eq (self : SseEventParser) (s : σ) :
    self.drain rust onEvent s =
      let state := (Lines.ended 10 self.pending).foldl (feedBytes rust onEvent) (self.dataLines, s)
      (⟨Lines.rest 10 self.pending, state.1⟩, state.2) := by
  obtain ⟨pending, dataLines⟩ := self
  induction pending using Lines.induction (10 : UInt8) generalizing dataLines s with
  | free pending clean =>
    have none : pending.findIdx? (· == 10) = none := by
      rw [List.findIdx?_eq_none_iff]
      intro b member
      simpa using fun same : b = 10 => clean (same ▸ member)
    rw [SseEventParser.drain]
    simp only [Lines.ended_free 10 pending clean, Lines.rest_free 10 pending clean, List.foldl_nil]
    split
    · rfl
    next pos found => simp [none] at found
  | line first after clean ih =>
    have position : (first ++ 10 :: after).findIdx? (· == 10) = some first.length := by
      rw [List.findIdx?_append, List.findIdx?_eq_none_iff.mpr]
      · simp [List.findIdx?_cons]
      · intro b member
        simpa using fun same : b = 10 => clean (same ▸ member)
    have line : Lines.stripMark 10 ((first ++ 10 :: after).take (first.length + 1)) = first := by
      simp [List.take_append, Lines.stripMark]
    have remaining : (first ++ 10 :: after).drop (first.length + 1) = after := by
      simp [List.drop_append]
    rw [SseEventParser.drain]
    split
    next found => simp [position] at found
    next pos found =>
      obtain rfl : first.length = pos := Option.some.inj (position.symm.trans found)
      simp only [line, remaining, processLine_eq, ih, Lines.ended_line 10 _ _ clean,
        Lines.rest_line 10 _ _ clean, List.foldl_cons]
      rfl

/-- The parser as a reader of lines. -/
def SseEventParser.ofFeed (state : Bytes × List Str × σ) : SseEventParser × σ :=
  (⟨state.1, state.2.1⟩, state.2.2)

theorem push_ofFeed (state : Bytes × List Str × σ) (chunk : Bytes) :
    (SseEventParser.ofFeed state).1.push rust onEvent (SseEventParser.ofFeed state).2 chunk =
      SseEventParser.ofFeed (Lines.feed 10 (feedBytes rust onEvent) state chunk) :=
  drain_eq rust onEvent _ _

theorem sse_push_push (self : SseEventParser) (s : σ) (a b : Bytes) :
    (self.push rust onEvent s a).1.push rust onEvent (self.push rust onEvent s a).2 b =
      self.push rust onEvent s (a ++ b) := by
  have pushed := push_ofFeed rust onEvent (self.pending, self.dataLines, s)
  rw [show self.push rust onEvent s a = _ from pushed a, show self.push rust onEvent s (a ++ b) = _ from
    pushed (a ++ b), push_ofFeed, Lines.feed_feed]

/-- Pushing chunks reads the lines of the whole, however it was cut. -/
theorem push_chunks (s : σ) (chunks : List Bytes) :
    chunks.foldl (fun state chunk => state.1.push rust onEvent state.2 chunk) (({} : SseEventParser), s) =
      let state := (Lines.ended 10 chunks.flatten).foldl (feedBytes rust onEvent) ([], s)
      (⟨Lines.rest 10 chunks.flatten, state.1⟩, state.2) := by
  have run : chunks.foldl (fun state chunk => state.1.push rust onEvent state.2 chunk)
      (SseEventParser.ofFeed ([], [], s)) =
      SseEventParser.ofFeed (chunks.foldl (Lines.feed 10 (feedBytes rust onEvent)) ([], [], s)) :=
    List.foldl_hom SseEventParser.ofFeed (push_ofFeed rust onEvent)
  rw [Lines.feed_chunks_start] at run
  exact run

/-- What a final flush makes of the lines read so far and the unfinished one. -/
def settle (pending : Bytes) (state : List Str × σ) : List Str × σ :=
  let state := if pending.isEmpty then state else feedLine rust onEvent state (Utf8.decode pending)
  feedLine rust onEvent state []

theorem finish_eq_settle (self : SseEventParser) (s : σ) :
    (self.finish rust onEvent s).2 = (settle rust onEvent self.pending (self.dataLines, s)).2 := by
  unfold SseEventParser.finish settle
  cases self.pending <;> simp [processLine_eq, flush_eq]

end Walk

/-! The lines of the decoded body are the decoded lines of the body. -/

theorem newline_decode (line : Bytes) (clean : (10 : UInt8) ∉ line) : '\n' ∉ Utf8.decode line :=
  fun member => clean (Utf8.mem_decode_ascii line 10 (by decide) (by decide) member)

theorem ended_decode (body : Bytes) :
    Lines.ended '\n' (Utf8.decode body) = (Lines.ended 10 body).map Utf8.decode := by
  induction body using Lines.induction (10 : UInt8) with
  | free body clean => simp [Lines.ended_free _ _ clean, Lines.ended_free _ _ (newline_decode body clean)]
  | line first after clean ih =>
    rw [Utf8.decode_ascii first 10 after (by decide), Lines.ended_line _ _ _ clean, List.map_cons, ← ih]
    exact Lines.ended_line '\n' _ _ (newline_decode first clean)

theorem rest_decode (body : Bytes) :
    Lines.rest '\n' (Utf8.decode body) = Utf8.decode (Lines.rest 10 body) := by
  induction body using Lines.induction (10 : UInt8) with
  | free body clean => simp [Lines.rest_free _ _ clean, Lines.rest_free _ _ (newline_decode body clean)]
  | line first after clean ih =>
    rw [Utf8.decode_ascii first 10 after (by decide), Lines.rest_line _ _ _ clean, ← ih]
    exact Lines.rest_line '\n' _ _ (newline_decode first clean)

theorem stripMark_decode (line : Bytes) :
    Lines.stripMark '\r' (Utf8.decode line) = Utf8.decode (Lines.stripMark 13 line) := by
  have ends : (Utf8.decode line).getLast? = some '\r' ↔ line.getLast? = some 13 :=
    Utf8.getLast?_decode_ascii line 13 (by decide) (by decide)
  unfold Lines.stripMark
  by_cases marked : line.getLast? = some 13
  · rw [if_pos marked, if_pos (ends.mpr marked)]
    obtain ⟨init, rfl⟩ := List.getLast?_eq_some_iff.mp marked
    rw [List.dropLast_concat, Utf8.decode_ascii init 13 [] (by decide)]
    exact List.dropLast_concat
  · rw [if_neg marked, if_neg (fun last => marked (ends.mp last))]

theorem lines_decode (body : Bytes) :
    lines (Utf8.decode body) =
      (Lines.ended 10 body).map (fun line => Utf8.decode (Lines.stripMark 13 line)) ++
        if (Lines.rest 10 body).isEmpty then [] else [Utf8.decode (Lines.rest 10 body)] := by
  have unfinished : (Utf8.decode (Lines.rest 10 body)).isEmpty = (Lines.rest 10 body).isEmpty := by
    rw [Bool.eq_iff_iff, List.isEmpty_iff, List.isEmpty_iff, Utf8.decode_eq_nil_iff]
  simp only [lines, ended_decode, rest_decode, List.map_map, unfinished]
  congr 2
  funext line
  exact stripMark_decode line

/-- The events of a body, and the walk that collects them. -/
def sseEvents (body : Bytes) : List Value :=
  let onEvent := fun (items : List Value) v => items ++ [v]
  (settle rust onEvent (Lines.rest 10 body)
    ((Lines.ended 10 body).foldl (feedBytes rust onEvent) ([], []))).2

theorem parseSseData_eq (body : Bytes) : parseSseData rust body = .array (sseEvents rust body) := by
  unfold parseSseData sseEvents settle
  rw [show parseSseLine rust = feedLine rust (fun items v => items ++ [v]) from
    funext fun state => funext (parseSseLine_eq rust state), lines_decode, List.foldl_append, List.foldl_map]
  simp only [flushSseData_eq]
  cases (Lines.rest 10 body) <;> rfl

/-- What another callback has made of the events collected so far. -/
def replay (onEvent : σ → Value → σ) (s : σ) (state : List Str × List Value) : List Str × σ :=
  (state.1, state.2.foldl onEvent s)

theorem feedLine_replay (onEvent : σ → Value → σ) (s : σ) (state : List Str × List Value) (line : Str) :
    feedLine rust onEvent (replay onEvent s state) line =
      replay onEvent s (feedLine rust (fun items v => items ++ [v]) state line) := by
  unfold feedLine replay
  dsimp only
  split
  · split
    · rfl
    · split
      · rfl
      · simp
  · split <;> rfl

/-- Any callback sees the same events in the same order. -/
theorem settle_replay (onEvent : σ → Value → σ) (s : σ) (body : Bytes) :
    (settle rust onEvent (Lines.rest 10 body)
      ((Lines.ended 10 body).foldl (feedBytes rust onEvent) ([], s))).2 =
      (sseEvents rust body).foldl onEvent s := by
  have walked : (Lines.ended 10 body).foldl (feedBytes rust onEvent) (replay onEvent s ([], [])) =
      replay onEvent s ((Lines.ended 10 body).foldl (feedBytes rust fun items v => items ++ [v]) ([], [])) :=
    List.foldl_hom (replay onEvent s) fun state line => feedLine_replay rust onEvent s state _
  rw [show (([], s) : List Str × σ) = replay onEvent s ([], []) from rfl, walked, sseEvents]
  unfold settle
  split
  · rw [feedLine_replay]
    rfl
  · rw [feedLine_replay, feedLine_replay]
    rfl

/-- Feeding a body in chunks and finishing, with any callback, replays its events. -/
theorem sse_pipeline (onEvent : σ → Value → σ) (s : σ) (chunks : List Bytes) :
    let fed := chunks.foldl (fun state chunk => state.1.push rust onEvent state.2 chunk)
      (({} : SseEventParser), s)
    (fed.1.finish rust onEvent fed.2).2 = (sseEvents rust chunks.flatten).foldl onEvent s := by
  dsimp only
  rw [push_chunks, finish_eq_settle]
  exact settle_replay rust onEvent s chunks.flatten

end TeeProof.Enclave
