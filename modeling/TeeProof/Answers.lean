import TeeProof.Chunking
import TeeProof.Trim

/-! A JSON answer to a request that may have asked for a stream: the collector against
the claims of the whole body. -/
namespace TeeProof.Enclave

/-! What the code relies on of the JSON reader: a text it accepts is a sequence of JSON
tokens, and one it reads as an object begins with a brace. -/

inductive Lex where
  | outside
  | inside
  | escaped

/-- White space, punctuation and the characters of numbers and of the three literals. -/
def isJsonMark (c : Char) : Bool := " \t\n\r[]\x7b\x7d:,-+.0123456789eEtrufalsn".toList.contains c

def isJsonSpace (c : Char) : Bool := c == ' ' || c == '\t' || c == '\n' || c == '\r'

def lexStep : Lex → Char → Option Lex
  | .outside, c => if c = '"' then some .inside else if isJsonMark c then some .outside else none
  | .inside, c =>
    if c = '"' then some .outside
    else if c = '\\' then some .escaped
    else if c.toNat < 0x20 then none
    else some .inside
  | .escaped, c => if c.toNat < 0x20 then none else some .inside

def lexical (text : Str) : Bool := (text.foldlM lexStep .outside).isSome

structure ReadsJson (rust : Rust) : Prop where
  tokens : ∀ text value, rust.fromStr text = some value → lexical text = true
  brace : ∀ text map, rust.fromStr text = some (.object map) →
    (text.dropWhile isJsonSpace).head? = some '\x7b'

/-- A line feed stands outside strings, and so does what follows it. -/
theorem lexStep_newline {state next : Lex} (h : lexStep state '\n' = some next) : next = .outside := by
  cases state with
  | outside => exact (Option.some.inj h).symm
  | inside => cases h
  | escaped => cases h

/-- No line of a JSON text begins with a `d`. -/
theorem lexical_line (before after : Str) (start : before = [] ∨ before.getLast? = some '\n') :
    lexical (before ++ 'd' :: after) = false := by
  have refused : lexStep .outside 'd' = none := by decide
  rw [lexical, List.foldlM_append]
  rcases start with rfl | last
  · simp [refused]
  · obtain ⟨init, rfl⟩ := List.getLast?_eq_some_iff.mp last
    rw [List.foldlM_append]
    cases init.foldlM lexStep .outside with
    | none => rfl
    | some state =>
      cases line : lexStep state '\n' with
      | none => simp [line]
      | some next =>
        obtain rfl := lexStep_newline line
        simp [line, refused]

/-- A body that is the text of a JSON object, for the reader and for `trim`. -/
def IsObjectText (rust : Rust) (body : Bytes) (map : Value.Map) : Prop :=
  rust.fromStr (Str.trim (Utf8.decode body)) = some (.object map)

open FieldResponseCollector

section Body

variable {rust : Rust} (json : ReadsJson rust) {body : Bytes} {map : Value.Map}
  (object : IsObjectText rust body map)

include json object

theorem head_object : (Str.trim (Utf8.decode body)).head? = some '\x7b' := by
  have first := json.brace _ _ object
  cases trimmed : Str.trim (Utf8.decode body) with
  | nil => simp [trimmed] at first
  | cons c rest =>
    have solid := Str.head_trim (Utf8.decode body) c (by simp [trimmed])
    have kept : isJsonSpace c = false := by
      by_contra space
      simp only [isJsonSpace, Bool.not_eq_false, Bool.or_eq_true, beq_iff_eq] at space
      rcases space with ((rfl | rfl) | rfl) | rfl <;> exact absurd solid (by decide)
    rwa [trimmed, List.dropWhile_cons_of_neg (by simp [kept]), List.head?_cons] at first

/-- White space, then the brace. -/
theorem decode_object :
    ∃ before after, Utf8.decode body = before ++ '\x7b' :: after ∧ ∀ c ∈ before, isWhitespace c = true := by
  obtain ⟨before, after, split, space, -⟩ := Str.trim_split (Utf8.decode body)
  obtain ⟨rest, eq⟩ := List.head?_eq_some_iff.mp (head_object json object)
  exact ⟨before, rest ++ after, by rw [eq] at split; simpa using split, space⟩

/-- No line of the body is a data line. -/
theorem no_data_line (line : Str) (member : line ∈ (Utf8.decode body).splitOn '\n') (rest : Str) :
    line ≠ 'd' :: rest := by
  rintro rfl
  obtain ⟨before, after, split, start⟩ := Lines.piece_start '\n' _ _ member
  obtain ⟨front, back, trimmed, space, tail⟩ := Str.trim_split (Utf8.decode body)
  replace trimmed := split.symm.trans trimmed
  -- the `d` stands in the trimmed text, since the rest is white space
  have solid : isWhitespace 'd' = false := by decide
  rcases List.append_eq_append_iff.mp trimmed with ⟨gap, rfl, later⟩ | ⟨gap, rfl, later⟩
  · cases gap with
    | nil =>
      obtain ⟨inner, eq⟩ := List.head?_eq_some_iff.mp (head_object json object)
      rw [eq] at later
      simp at later
    | cons c gap =>
      obtain ⟨rfl, -⟩ := List.cons.inj later
      exact absurd (space 'd' (by simp)) (by simp [solid])
  · rcases List.append_eq_append_iff.mp later with ⟨more, -, behind⟩ | ⟨more, within, behind⟩
    · exact absurd (tail 'd' (by simp [behind])) (by simp [solid])
    · cases more with
      | nil => exact absurd (tail 'd' (by simp at behind; simp [← behind])) (by simp [solid])
      | cons c more =>
        obtain ⟨rfl, -⟩ := List.cons.inj behind
        have accepted := json.tokens _ _ object
        have place : gap = [] ∨ gap.getLast? = some '\n' := by
          cases gap with
          | nil => exact .inl rfl
          | cons x gap =>
            rcases start with none | last
            · simp at none
            · rw [List.getLast?_append, List.getLast?_cons] at last
              exact .inr (by simpa [List.getLast?_cons] using last)
        rw [within, lexical_line gap more place] at accepted
        cases accepted

theorem stripPrefix_line (line : Bytes) (member : line ∈ body.splitOn 10) :
    Str.stripPrefix "data:" (Utf8.decode (Lines.stripMark 13 line)) = none := by
  have pieces : Utf8.decode line ∈ (Utf8.decode body).splitOn '\n' := by
    rw [Lines.splitOn_eq, ended_decode, rest_decode]
    rw [Lines.splitOn_eq] at member
    rcases List.mem_append.mp member with ended | last
    · exact List.mem_append_left _ (List.mem_map_of_mem ended)
    · exact List.mem_append_right _ (by simp [List.mem_singleton.mp last])
  rw [Str.stripPrefix, if_neg]
  intro data
  obtain ⟨rest, eq⟩ := List.isPrefixOf_iff_prefix.mp data
  rw [← stripMark_decode] at eq
  unfold Lines.stripMark at eq
  split at eq
  next marked =>
    have whole := List.dropLast_append_getLast? '\r' marked
    rw [← eq] at whole
    exact no_data_line json object _ pieces _ whole.symm
  next => exact no_data_line json object _ pieces _ eq.symm

/-- Read as an event stream, the body holds nothing. -/
theorem sseEvents_object : sseEvents rust body = [] := by
  have quiet (line : Str) (plain : Str.stripPrefix "data:" line = none) :
      feedLine rust (fun items v => items ++ [v]) ([], []) line = ([], []) := by
    unfold feedLine
    rw [plain]
    split <;> rfl
  have walked (lines : List Bytes) (members : ∀ line ∈ lines, line ∈ body.splitOn 10) :
      lines.foldl (feedBytes rust fun items v => items ++ [v]) ([], []) = ([], []) := by
    induction lines with
    | nil => rfl
    | cons line rest ih =>
      rw [List.foldl_cons, feedBytes, quiet _ (stripPrefix_line json object line (members line (by simp)))]
      exact ih fun l member => members l (List.mem_cons_of_mem _ member)
  have pieces := Lines.splitOn_eq 10 body
  have last : Str.stripPrefix "data:" (Utf8.decode (Lines.rest 10 body)) = none := by
    rw [Str.stripPrefix, if_neg]
    intro data
    obtain ⟨rest, eq⟩ := List.isPrefixOf_iff_prefix.mp data
    refine no_data_line json object _ ?_ _ eq.symm
    rw [Lines.splitOn_eq, rest_decode]
    simp
  rw [sseEvents, walked _ fun line member => pieces ▸ List.mem_append_left _ member, settle]
  split
  · rw [quiet _ (by decide)]
  · rw [quiet _ last, quiet _ (by decide)]

omit json object in
theorem be32_large (bytes : Bytes) (long : 12 ≤ bytes.length) (first : ∀ b ∈ bytes.head?, 9 ≤ b.toNat) :
    maxAwsEventstreamMessage < be32 bytes := by
  match bytes, long with
  | b :: c :: d :: e :: rest, _ =>
    have := first b (by simp)
    simp only [maxAwsEventstreamMessage, be32, List.take_succ_cons, List.take_zero, List.foldl_cons,
      List.foldl_nil]
    omega

theorem head_body : ∃ b rest, body = b :: rest ∧ 9 ≤ b.toNat := by
  have low : ∀ n < 9, isWhitespace (Char.ofNat n) = false ∧ Char.ofNat n ≠ '\x7b' := by decide
  obtain ⟨before, after, text, space⟩ := decode_object json object
  cases body with
  | nil => simp at text
  | cons b rest =>
    refine ⟨b, rest, rfl, ?_⟩
    by_contra small
    rw [Utf8.decode_cons_ascii b rest (by omega)] at text
    cases before with
    | nil => exact (low b.toNat (by omega)).2 (List.cons.inj text).1
    | cons c before =>
      have first := space c (by simp)
      rw [← (List.cons.inj text).1, (low b.toNat (by omega)).1] at first
      cases first

/-- Read as EventStream messages, the body is refused: no length begins like JSON. -/
theorem framed_object (protocol : ProtocolFamily) (upstreamPath : Str) :
    finishBody rust protocol upstreamPath (framed rust body) = none := by
  obtain ⟨b, rest, cut, large⟩ := head_body json object
  have pushed : AwsEventStreamParser.push rust BedrockConverseStreamState.apply {} {} body =
      AwsEventStreamParser.drain rust BedrockConverseStreamState.apply body {} := by
    simp [AwsEventStreamParser.push]
  have failed : (AwsEventStreamParser.push rust BedrockConverseStreamState.apply {} {} body).1.finish.failed
      = true := by
    rw [pushed]
    by_cases short : body.length < 12
    · rw [drain_waits rust _ body _ (.inl short), cut]
      rfl
    · rw [drain_refuses rust _ body _ short]
      · rfl
      · have total := be32_large body (by omega) (by simp [cut, large])
        simp only [AwsEventStreamParser.admissible, Bool.and_eq_true, decide_eq_true_eq]
        omega
  simp only [framed, finishBody, failed, if_true]

/-- The sniffer does not take the body for a stream. -/
theorem plain_object : bodyPrefixIndicatesSse body = false := by
  obtain ⟨before, after, text, space⟩ := decode_object json object
  rw [Bool.eq_false_iff]
  intro stream
  obtain ⟨spaces, blank, word, known, tail, sniffed⟩ := prefix_text body (body.drop maxStreamSniffBytes) stream
  rw [List.take_append_drop, text] at sniffed
  have first := congrArg (List.dropWhile isSniffSpace) sniffed
  rw [dropWhile_stream spaces word tail blank known,
    dropWhile_prefix _ _ _ (fun c member => by simp [isSniffSpace, space c member]) (by simp; decide)] at first
  simp only [List.mem_cons, List.not_mem_nil, or_false] at known
  rcases known with rfl | rfl | rfl <;> simp at first

theorem fieldView_object (protocol : ProtocolFamily) (upstreamPath : Option Str) (plain : looksLikeSse body = false) :
    fieldView rust protocol .response body upstreamPath = pickValue (responseKeys protocol) (.object map) := by
  have shown : (Str.trim (Utf8.decode body)).isEmpty = false := by
    obtain ⟨rest, eq⟩ := List.head?_eq_some_iff.mp (head_object json object)
    rw [eq]
    rfl
  have parsed : parseJsonBody rust body = .object map := by
    simp only [parseJsonBody, shown, Bool.false_eq_true, if_false]
    rw [object]
    rfl
  simp only [fieldView, parseBody, plain, Bool.false_eq_true, if_false, parsed]
  rfl

end Body

theorem clipsRun_short (seen : Bytes) (chunks : List Bytes)
    (short : (seen ++ chunks.flatten).length ≤ maxFieldClaimsCapture) : clipsRun seen chunks = false := by
  induction chunks generalizing seen with
  | nil => rfl
  | cons chunk rest ih =>
    rw [List.flatten_cons, ← List.append_assoc] at short
    have within : (seen ++ chunk).length ≤ maxFieldClaimsCapture := by
      rw [List.length_append] at short
      omega
    rw [clipsRun, ih _ short, Bool.or_false, clips, decide_eq_false (not_lt.mpr within), Bool.and_false]

/-! The mode a request asks for, under a content type that announces no stream. -/

section Mode

variable (rust : Rust) (head : ReqHead) (reqBody : Bytes) (contentType : Str) (protocol : ProtocolFamily)
  (noSse : isSseContentType contentType = false) (noAws : isAwsEventStreamContentType contentType = false)

include noSse

include noAws in
theorem initialBody_quiet (quiet : requestIndicatesStreaming rust protocol reqBody head.upstream.path = false) :
    initialBody rust head reqBody contentType protocol = sniffed rust protocol [] := by
  have framing : ¬(protocol = .bedrock ∧ (isAwsEventStreamContentType contentType = true ∨
      requestIndicatesStreaming rust protocol reqBody head.upstream.path = true ∨
      (contentType = [] ∧ pathIsBedrockConverseStream head.upstream.path = true))) := by
    rintro ⟨rfl, announced | asked | ⟨-, converse⟩⟩
    · exact absurd announced (by simp [noAws])
    · exact absurd asked (by simp [quiet])
    · exact absurd (converse.symm.trans quiet) (by decide)
  rw [initialBody, if_neg (by simp [noSse]), if_neg framing, if_neg (by simp [quiet]), sniffed_nil]

theorem initialBody_asked (asked : requestIndicatesStreaming rust protocol reqBody head.upstream.path = true) :
    initialBody rust head reqBody contentType protocol = streamed rust protocol [] ∨
      initialBody rust head reqBody contentType protocol = framed rust [] := by
  rw [initialBody, if_neg (by simp [noSse]), streamed_nil, framed_nil]
  split
  · exact .inr rfl
  · exact .inl rfl

end Mode

/-! The claims collected from an object, by what the request asked for. -/

section Exchange

variable {rust : Rust} (json : ReadsJson rust) (configuredEnv : Option Str) (head : ReqHead) (reqBody : Bytes)
  (contentType normMethod : Str) (status : UInt16) {body : Bytes} {map : Value.Map}
  (object : IsObjectText rust body map) (noSse : isSseContentType contentType = false)
  (noAws : isAwsEventStreamContentType contentType = false)
  {protocol : ProtocolFamily} (known : headProtocol rust configuredEnv head reqBody = some protocol)
  (present : hasRequiredPresence protocol .request
    (fieldView rust protocol .request reqBody (some head.upstream.path)) = true)

include json object noSse known present

/-- A request for a stream: nothing is found in the body, and nothing is claimed. -/
theorem collectedClaims_asked (asked : requestIndicatesStreaming rust protocol reqBody head.upstream.path = true)
    (chunks : List Bytes) (cut : chunks.flatten = body) :
    collectedClaims rust configuredEnv head reqBody contentType normMethod status chunks = none := by
  rw [collectedClaims_eq rust configuredEnv head reqBody contentType normMethod status protocol known present]
  rcases initialBody_asked rust head reqBody contentType protocol noSse asked with mode | mode
  · rw [mode, parsed_run rust _ (streamed_push rust protocol), List.nil_append, cut, finishBody_streamed,
      sseEvents_object json object, Option.bind_some]
    simp only [buildFieldClaimsFromViews, present, presence_none, Bool.not_true, Bool.not_false, Bool.false_eq_true,
      if_false, if_true]
  · rw [mode, parsed_run rust _ (framed_push rust), List.nil_append, cut, framed_object json object]
    rfl

include noAws in
/-- No stream asked for: the claims of the whole body. -/
theorem collectedClaims_quiet (plain : looksLikeSse body = false) (short : body.length ≤ maxFieldClaimsCapture)
    (quiet : requestIndicatesStreaming rust protocol reqBody head.upstream.path = false)
    (chunks : List Bytes) (cut : chunks.flatten = body) :
    collectedClaims rust configuredEnv head reqBody contentType normMethod status chunks =
      buildFieldClaims rust configuredEnv head normMethod status reqBody body := by
  have kept : clipsRun [] chunks = false := clipsRun_short [] chunks (by rw [List.nil_append, cut]; exact short)
  have buffered : sniffed rust protocol body = .sniffing body false (some (.new protocol)) := by
    rw [sniffed, if_neg (by simp [plain_object json object]), List.take_of_length_le short,
      decide_eq_false (not_lt.mpr short)]
  rw [collectedClaims_eq rust configuredEnv head reqBody contentType normMethod status protocol known present,
    initialBody_quiet rust head reqBody contentType protocol noSse noAws quiet,
    sniffed_run rust protocol [] chunks kept, List.nil_append, cut, buffered, buildFieldClaims, known,
    Option.bind_some, plain]
  rfl

end Exchange

/-- A JSON object answers a request with the claims of the whole body, in every cut,
unless it has a claim to make and the request asked for a stream. -/
theorem collectedClaims_object (rust : Rust) (json : ReadsJson rust) (configuredEnv : Option Str) (head : ReqHead)
    (reqBody : Bytes) (contentType normMethod : Str) (status : UInt16) (body : Bytes) (map : Value.Map)
    (object : IsObjectText rust body map) (plain : looksLikeSse body = false)
    (short : body.length ≤ maxFieldClaimsCapture) (noSse : isSseContentType contentType = false)
    (noAws : isAwsEventStreamContentType contentType = false) :
    (∀ chunks : List Bytes, chunks.flatten = body →
      collectedClaims rust configuredEnv head reqBody contentType normMethod status chunks =
        buildFieldClaims rust configuredEnv head normMethod status reqBody body) ↔
      ∀ protocol, headProtocol rust configuredEnv head reqBody = some protocol →
        hasRequiredPresence protocol .request
          (fieldView rust protocol .request reqBody (some head.upstream.path)) = true →
        hasRequiredPresence protocol .response (pickValue (responseKeys protocol) (.object map)) = true →
        requestIndicatesStreaming rust protocol reqBody head.upstream.path = false := by
  constructor
  · intro same protocol known present answered
    rw [Bool.eq_false_iff]
    intro asked
    have missing := same [body] (List.flatten_singleton)
    rw [collectedClaims_asked json configuredEnv head reqBody contentType normMethod status object noSse known
      present asked [body] List.flatten_singleton, buildFieldClaims, known, Option.bind_some,
      fieldView_object json object protocol _ plain] at missing
    simp [buildFieldClaimsFromViews, present, answered] at missing
  · intro quiet chunks cut
    cases known : headProtocol rust configuredEnv head reqBody with
    | none => simp [collectedClaims, FieldResponseCollector.new, buildFieldClaims, known]
    | some protocol =>
      by_cases present : hasRequiredPresence protocol .request
          (fieldView rust protocol .request reqBody (some head.upstream.path)) = true
      · by_cases answered :
            hasRequiredPresence protocol .response (pickValue (responseKeys protocol) (.object map)) = true
        · exact collectedClaims_quiet json configuredEnv head reqBody contentType normMethod status object noSse
            noAws known present plain short (quiet protocol known present answered) chunks cut
        · -- an object without the required fields is never claimed
          cases asked : requestIndicatesStreaming rust protocol reqBody head.upstream.path with
          | false =>
            exact collectedClaims_quiet json configuredEnv head reqBody contentType normMethod status object noSse
              noAws known present plain short asked chunks cut
          | true =>
            rw [collectedClaims_asked json configuredEnv head reqBody contentType normMethod status object noSse
              known present asked chunks cut, buildFieldClaims, known, Option.bind_some,
              fieldView_object json object protocol _ plain]
            simp [buildFieldClaimsFromViews, present, answered]
      · simp [collectedClaims, FieldResponseCollector.new, buildFieldClaims, buildFieldClaimsFromViews, known, present]

/-! A chat request, without and with `stream`, answered by an error object. -/

theorem ReadsJson.sample (digests : List (Bytes × Digest)) (texts : List (Str × Value))
    (objects : ∀ entry ∈ texts, lexical entry.1 = true ∧ (entry.1.dropWhile isJsonSpace).head? = some '\x7b') :
    ReadsJson (.sample digests texts) where
  tokens _ _ read := (objects _ (Assoc.mem_of_lookup read)).1
  brace _ _ read := (objects _ (Assoc.mem_of_lookup read)).2

def streamRequestText : Str := "\x7b\"model\":\"m\",\"messages\":[1],\"stream\":true\x7d".toList

def streamRequest : Value := .ofFields [("model", .lit "m"), ("messages", .array [.ofNat 1]), ("stream", .bool true)]

def errorText : Str := "\x7b\"error\":\"overloaded\"\x7d".toList

def errorMap : Value.Map := [("error".toList, .lit "overloaded")]

def answerRust : Rust :=
  .sample [] [(chatRequestText, chatRequest), (streamRequestText, streamRequest), (errorText, .object errorMap)]

theorem readsJson_answer : ReadsJson answerRust := by
  refine .sample _ _ ?_
  decide

theorem isObjectText_error : IsObjectText answerRust (Utf8.encode errorText) errorMap := by
  have trimmed : Str.trim (Utf8.decode (Utf8.encode errorText)) = errorText := by decide
  rw [IsObjectText, trimmed]
  rfl

theorem collectedClaims_object_error :
    collectedClaims answerRust none chatHead (Utf8.encode chatRequestText) "application/json" "POST" 529
        [(Utf8.encode errorText).take 5, (Utf8.encode errorText).drop 5] =
      buildFieldClaims answerRust none chatHead "POST" 529 (Utf8.encode chatRequestText) (Utf8.encode errorText) := by
  have chat : headProtocol answerRust none chatHead (Utf8.encode chatRequestText) = some .openaiChat := by
    decide
  have equivalent := collectedClaims_object answerRust readsJson_answer none chatHead (Utf8.encode chatRequestText)
    "application/json" "POST" 529 (Utf8.encode errorText) errorMap isObjectText_error (by decide)
    (by decide) (by decide) (by decide)
  refine equivalent.mpr ?_ _ (by simp)
  intro protocol known _ _
  obtain rfl : protocol = .openaiChat := Option.some.inj (known.symm.trans chat)
  decide

/-- Had the request asked for a stream, the same answer would give no claims. -/
theorem claims_lost_error :
    ReadsJson answerRust ∧ IsObjectText answerRust (Utf8.encode errorText) errorMap ∧
      looksLikeSse (Utf8.encode errorText) = false ∧
      (Utf8.encode errorText).length ≤ maxFieldClaimsCapture ∧
      isSseContentType "application/json" = false ∧ isAwsEventStreamContentType "application/json" = false ∧
      collectedClaims answerRust none chatHead (Utf8.encode streamRequestText) "application/json" "POST" 529
          [Utf8.encode errorText] ≠
        buildFieldClaims answerRust none chatHead "POST" 529 (Utf8.encode streamRequestText)
          (Utf8.encode errorText) := by
  refine ⟨readsJson_answer, isObjectText_error, by decide, by decide, by decide,
    by decide, ?_⟩
  have answered : (buildFieldClaims answerRust none chatHead "POST" 529 (Utf8.encode streamRequestText)
      (Utf8.encode errorText)).isSome = true := by decide
  have known : headProtocol answerRust none chatHead (Utf8.encode streamRequestText) = some .openaiChat := by
    decide
  rw [collectedClaims_asked readsJson_answer none chatHead (Utf8.encode streamRequestText) "application/json" "POST"
    529 isObjectText_error (by decide) known (by decide) (by decide) _ List.flatten_singleton]
  intro missing
  rw [← missing] at answered
  cases answered

end TeeProof.Enclave
