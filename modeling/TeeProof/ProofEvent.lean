import TeeProof.Capture

/-! The trailing proof event in all the forms the verifier accepts: line ends of either
kind, blanks behind it, transport comments in front of the body. Extraction returns the
signed body and the proof, whatever bytes the body is made of; bytes that follow the
event undo it. -/
namespace TeeProof.Verifier

variable (node : Node)

inductive LineEnd where
  | lf
  | crlf
  deriving DecidableEq

def LineEnd.bytes : LineEnd → Bytes
  | lf => [0x0A]
  | crlf => [0x0D, 0x0A]

/-- What may stand behind the event: `[\t\n\r ]`. -/
def isBlankByte (b : UInt8) : Bool := b = 0x09 || b = 0x0A || b = 0x0D || b = 0x20

structure EventForm where
  afterName : LineEnd
  afterData : LineEnd
  afterBlank : LineEnd
  trailing : Bytes
  blanks : ∀ b ∈ trailing, isBlankByte b = true

def EventForm.bytes (form : EventForm) (json : JStr) : Bytes :=
  eventMarker ++ (form.afterName.bytes ++ (JStr.utf8 "data: " ++ json.utf8 ++ (form.afterData.bytes ++
    (form.afterBlank.bytes ++ form.trailing))))

/-- `n` comments that a relay sends to keep the connection open. -/
def keepalives : Nat → Bytes
  | 0 => []
  | n + 1 => keepalive ++ keepalives n

/-- No line of `tail` ends as the first line of a proof event does. -/
def NoMarker (tail : Bytes) : Prop :=
  Search.lastIndexOf lfMarker tail = none ∧ Search.lastIndexOf crlfMarker tail = none

/-! Where the event is found -/

/-- The carriage return that a line keeps before its line feed. -/
def LineEnd.mark : LineEnd → Bytes
  | lf => []
  | crlf => [0x0D]

theorem LineEnd.bytes_eq (e : LineEnd) (rest : Bytes) : e.bytes ++ rest = e.mark ++ 0x0A :: rest := by
  cases e <;> rfl

def LineEnd.needle (e : LineEnd) : Bytes := eventMarker ++ e.mark

def LineEnd.marker (e : LineEnd) : Bytes := e.needle ++ [0x0A]

theorem marker_lf : lfMarker = LineEnd.lf.marker := rfl
theorem marker_crlf : crlfMarker = LineEnd.crlf.marker := by decide

theorem needle_free (e : LineEnd) : (0x0A : UInt8) ∉ e.needle := by
  cases e <;> decide

theorem marker_cons (e : LineEnd) : ∃ rest, e.marker = 0x65 :: rest := by
  cases e <;> exact ⟨_, rfl⟩

theorem lastIndexOf_blanks (e : LineEnd) (blanks tail : Bytes) (blank : ∀ b ∈ blanks, isBlankByte b = true)
    (later : Search.lastIndexOf e.marker tail = none) : Search.lastIndexOf e.marker (blanks ++ tail) = none := by
  obtain ⟨rest, eq⟩ := marker_cons e
  rw [eq] at later ⊢
  refine Search.lastIndexOf_skip (fun member => ?_) later
  exact absurd (blank _ member) (by decide)

theorem not_mem_mark (e : LineEnd) : (0x0A : UInt8) ∉ e.mark := by
  cases e <;> decide

section Event

variable {node} {value : JsVal} {json : JStr} (line : JsonLine node value json)

include line

/-- The data line ends in a brace, not as a first line does. -/
theorem needle_not_suffix_data (e e' : LineEnd) : ¬e.needle <:+ JStr.utf8 "data: " ++ json.utf8 ++ e'.mark := by
  cases e' with
  | lf =>
    rw [LineEnd.mark, List.append_nil]
    exact data_other line e.needle (by cases e <;> decide) (by cases e <;> decide)
  | crlf =>
    rintro ⟨front, eq⟩
    cases e with
    | lf =>
      have last := congrArg List.getLast? eq
      rw [LineEnd.mark, List.getLast?_concat, LineEnd.needle, LineEnd.mark, List.append_nil, List.getLast?_append] at last
      have ends : eventMarker.getLast? = some 0x66 := by decide
      rw [ends] at last
      cases last
    | crlf =>
      rw [LineEnd.needle, LineEnd.mark, ← List.append_assoc] at eq
      exact data_other line eventMarker (by decide) (by decide) ⟨front, List.append_cancel_right eq⟩

theorem lastIndexOf_behind (e : LineEnd) (form : EventForm) (tail : Bytes)
    (later : Search.lastIndexOf e.marker tail = none) :
    Search.lastIndexOf e.marker (eventMarker.tail ++ (form.afterName.bytes ++ (JStr.utf8 "data: " ++ json.utf8 ++
      (form.afterData.bytes ++ (form.afterBlank.bytes ++ (form.trailing ++ tail)))))) = none := by
  have behind := lastIndexOf_blanks e form.trailing tail form.blanks later
  have blank : Search.lastIndexOf e.marker (form.afterBlank.bytes ++ (form.trailing ++ tail)) = none := by
    rw [LineEnd.bytes_eq]
    refine Search.lastIndexOf_line (needle_free e) (not_mem_mark _) ?_ behind
    cases e <;> cases form.afterBlank <;> decide
  have data : Search.lastIndexOf e.marker (JStr.utf8 "data: " ++ json.utf8 ++ (form.afterData.bytes ++
      (form.afterBlank.bytes ++ (form.trailing ++ tail)))) = none := by
    rw [LineEnd.bytes_eq, ← List.append_assoc]
    refine Search.lastIndexOf_line (needle_free e) ?_ (needle_not_suffix_data line e _) blank
    intro member
    rcases List.mem_append.mp member with text | mark
    · exact data_free line text
    · exact not_mem_mark _ mark
  rw [LineEnd.bytes_eq, ← List.append_assoc]
  refine Search.lastIndexOf_line (needle_free e) ?_ ?_ data
  · cases form.afterName <;> decide
  · cases e <;> cases form.afterName <;> decide

omit line in
/-- The event begins with the marker of its first line end, and with no other. -/
theorem marker_prefix_iff (e : LineEnd) (form : EventForm) (tail : Bytes) :
    e.marker <+: form.bytes json ++ tail ↔ form.afterName = e := by
  rw [LineEnd.marker, LineEnd.needle, EventForm.bytes]
  simp only [List.append_assoc, LineEnd.bytes_eq, List.prefix_append_right_inj]
  cases e <;> cases form.afterName <;> simp [LineEnd.mark]

/-- The event is found where it begins, whatever stands before it and as long as no
other one follows. -/
theorem markerIndex_form (form : EventForm) (before tail : Bytes) (clear : NoMarker tail) :
    markerIndex (before ++ (form.bytes json ++ tail)) = some before.length := by
  have cut : eventMarker = 0x65 :: eventMarker.tail := by decide
  have layout : form.bytes json ++ tail = 0x65 :: (eventMarker.tail ++ (form.afterName.bytes ++
      (JStr.utf8 "data: " ++ json.utf8 ++ (form.afterData.bytes ++ (form.afterBlank.bytes ++ (form.trailing ++ tail)))))) := by
    rw [EventForm.bytes]
    simp only [List.append_assoc]
    rw [cut, List.tail_cons, List.cons_append]
  have found (e : LineEnd) (later : Search.lastIndexOf e.marker tail = none) :
      Search.lastIndexOf e.marker (form.bytes json ++ tail) = if form.afterName = e then some 0 else none := by
    have here := @marker_prefix_iff json e form tail
    rw [← List.isPrefixOf_iff_prefix] at here
    rw [layout] at here ⊢
    rw [Search.lastIndexOf, lastIndexOf_behind line e form tail later]
    dsimp only
    by_cases same : form.afterName = e
    · rw [if_pos (here.mpr same), if_pos same]
    · rw [if_neg fun starts => same (here.mp starts), if_neg same]
  unfold markerIndex
  rw [marker_lf, marker_crlf]
  have lf := found .lf clear.1
  have crlf := found .crlf clear.2
  cases name : form.afterName with
  | lf =>
    rw [name, if_pos rfl] at lf
    rw [name, if_neg (by decide)] at crlf
    rw [Search.lastIndexOf_append lf before]
    cases other : Search.lastIndexOf LineEnd.crlf.marker (before ++ (form.bytes json ++ tail)) with
    | none => rfl
    | some k =>
      have below := Search.lastIndexOf_lt crlf other
      exact congrArg some (by omega)
  | crlf =>
    rw [name, if_neg (by decide)] at lf
    rw [name, if_pos rfl] at crlf
    rw [Search.lastIndexOf_append crlf before]
    cases other : Search.lastIndexOf LineEnd.lf.marker (before ++ (form.bytes json ++ tail)) with
    | none => rfl
    | some k =>
      have below := Search.lastIndexOf_lt lf other
      exact congrArg some (by omega)

end Event

/-! What the pattern reads -/

def LineEnd.chars : LineEnd → List Char
  | lf => ['\n']
  | crlf => ['\r', '\n']

def LineEnd.units (e : LineEnd) : JStr := JStr.ofChars e.chars

/-- The text of the event in front of its blanks. -/
def EventForm.text (form : EventForm) (json : JStr) : JStr :=
  JStr.lit "event: tee.proof" ++ (form.afterName.units ++ (JStr.lit "data: " ++ (json ++ (form.afterData.units ++
    form.afterBlank.units))))

theorem LineEnd.encode_chars (e : LineEnd) : Utf8.encode e.chars = e.bytes := by
  cases e <;> decide

theorem bufferText_form (form : EventForm) (json : JStr) (text : json.WellFormed) (tail : Bytes) :
    bufferText (form.bytes json ++ tail) = form.text json ++ bufferText (form.trailing ++ tail) := by
  obtain ⟨chars, rfl⟩ := text
  have bytes : form.bytes (JStr.ofChars chars) ++ tail = Utf8.encode ("event: tee.proof".toList ++ (form.afterName.chars ++
      ("data: ".toList ++ (chars ++ (form.afterData.chars ++ form.afterBlank.chars))))) ++ (form.trailing ++ tail) := by
    simp only [EventForm.bytes, eventMarker, JStr.lit, JStr.utf8_ofChars, Utf8.encode_append, LineEnd.encode_chars,
      List.append_assoc]
  rw [bufferText, bytes, Utf8.decode_encode_append, ofChars_append]
  simp only [EventForm.text, JStr.lit, LineEnd.units, ofChars_append, bufferText]

theorem stripLit_lineEnd (e : LineEnd) (rest : JStr) : stripLit "\n" (skipCr (e.units ++ rest)) = some rest := by
  have newline : JStr.lit "\n" = [0x0A] := by decide
  cases e with
  | lf =>
    have units : LineEnd.lf.units = [0x0A] := by decide
    rw [units]
    exact newline ▸ stripLit_append "\n" rest
  | crlf =>
    have units : LineEnd.crlf.units = [0x0D, 0x0A] := by decide
    rw [units]
    exact newline ▸ stripLit_append "\n" rest

theorem takeWhile_lineEnd (json : JStr) (e : LineEnd) (rest : JStr) (oneLine : ∀ u ∈ json, isBreak u = false) :
    (json ++ (e.units ++ rest)).takeWhile (fun u => !isBreak u) = json ∧
      (json ++ (e.units ++ rest)).dropWhile (fun u => !isBreak u) = e.units ++ rest := by
  have inside : ∀ u ∈ json, (!isBreak u) = true := fun u member => by rw [oneLine u member]; rfl
  rw [List.takeWhile_append_of_pos inside, List.dropWhile_append_of_pos inside]
  cases e with
  | lf =>
    have units : LineEnd.lf.units = [0x0A] := by decide
    simp [units, isBreak]
  | crlf =>
    have units : LineEnd.crlf.units = [0x0D, 0x0A] := by decide
    simp [units, isBreak]

/-- The pattern captures the data of the event, if only blanks follow it. -/
theorem matchEvent_text (form : EventForm) (json rest : JStr) (oneLine : ∀ u ∈ json, isBreak u = false)
    (nonempty : json ≠ []) :
    matchEvent (form.text json ++ rest) = if rest.all isBlank then some json else none := by
  obtain ⟨data, left⟩ := takeWhile_lineEnd json form.afterData (form.afterBlank.units ++ rest) oneLine
  unfold matchEvent
  simp only [EventForm.text, List.append_assoc, stripLit_append, stripLit_lineEnd, Option.bind_eq_bind, Option.bind_some,
    data, left, nonempty, if_false]

theorem isBlank_ofChar (c : Char) (blank : ∀ u ∈ JStr.ofChar c, isBlank u = true) :
    ∃ b : UInt8, b.toNat < 0x80 ∧ 0 < b.toNat ∧ isBlankByte b = true ∧ c = Char.ofNat b.toNat := by
  obtain ⟨u, rest, units⟩ := List.exists_cons_of_ne_nil (JStr.ofChar_ne_nil c)
  have member : u ∈ JStr.ofChar c := by rw [units]; exact List.mem_cons_self
  have holds := blank u member
  simp only [isBlank, Bool.or_eq_true, decide_eq_true_eq] at holds
  rcases holds with ((rfl | rfl) | rfl) | rfl
  · exact ⟨9, by decide, by decide, by decide, JStr.ofChar_ascii member (by decide)⟩
  · exact ⟨10, by decide, by decide, by decide, JStr.ofChar_ascii member (by decide)⟩
  · exact ⟨13, by decide, by decide, by decide, JStr.ofChar_ascii member (by decide)⟩
  · exact ⟨32, by decide, by decide, by decide, JStr.ofChar_ascii member (by decide)⟩

/-- A text of blanks comes from blank octets alone. -/
theorem all_isBlank_iff (bytes : Bytes) : (bufferText bytes).all isBlank = true ↔ ∀ b ∈ bytes, isBlankByte b = true := by
  rw [List.all_eq_true]
  constructor
  · intro blank
    refine Utf8.mem_of_decode_ascii bytes fun c member => isBlank_ofChar c fun u unit => ?_
    exact blank u (List.mem_flatMap.mpr ⟨c, member, unit⟩)
  · intro blank
    induction bytes with
    | nil => simp [bufferText, JStr.ofChars]
    | cons b rest ih =>
      have first := blank b List.mem_cons_self
      have ascii : b.toNat < 0x80 := by
        simp only [isBlankByte, Bool.or_eq_true, decide_eq_true_eq] at first
        rcases first with ((rfl | rfl) | rfl) | rfl <;> decide
      have unit : JStr.ofChar (Char.ofNat b.toNat) = [UInt16.ofNat b.toNat] := by
        have value : (Char.ofNat b.toNat).toNat = b.toNat := by
          rw [Char.toNat_ofNat, if_pos (.inl (by omega))]
        rw [JStr.ofChar, value, if_pos (by omega)]
      have head : ∀ u ∈ JStr.ofChar (Char.ofNat b.toNat), isBlank u = true := by
        rw [unit, List.forall_mem_singleton]
        simp only [isBlankByte, Bool.or_eq_true, decide_eq_true_eq] at first
        rcases first with ((rfl | rfl) | rfl) | rfl <;> rfl
      intro u member
      rw [bufferText, Utf8.decode_cons_ascii b rest ascii, JStr.ofChars, List.flatMap_cons] at member
      rcases List.mem_append.mp member with here | later
      · exact head u here
      · exact ih (fun x among => blank x (List.mem_cons_of_mem b among)) u later

/-! What is cut off in front -/

/-- The loop passes the comments one by one and stops at the body that the proof signs. -/
theorem keepaliveLoop_exact (expected : JStr) (body : Bytes) (signed : sha256Hex node body = expected) (n fuel count : Nat)
    (apart : ∀ k, 0 < k → k ≤ n → sha256Hex node (keepalives k ++ body) ≠ expected) (enough : n < fuel) :
    keepaliveLoop node expected fuel (keepalives (n + 1) ++ body) count = some (body, count + n + 1) := by
  induction n generalizing fuel count with
  | zero =>
    obtain ⟨fuel, rfl⟩ : ∃ m, fuel = m + 1 := ⟨fuel - 1, by omega⟩
    have front : keepalives 1 ++ body = keepalive ++ body := by simp [keepalives]
    rw [front, keepaliveLoop, if_pos (List.isPrefixOf_iff_prefix.mpr (List.prefix_append _ _)), List.drop_left,
      if_pos signed]
  | succ n ih =>
    obtain ⟨fuel, rfl⟩ : ∃ m, fuel = m + 1 := ⟨fuel - 1, by omega⟩
    have front : keepalives (n + 2) ++ body = keepalive ++ (keepalives (n + 1) ++ body) := by
      rw [keepalives, List.append_assoc]
    rw [front, keepaliveLoop, if_pos (List.isPrefixOf_iff_prefix.mpr (List.prefix_append _ _)), List.drop_left,
      if_neg (apart (n + 1) (by omega) le_rfl),
      ih fuel (count + 1) (fun k positive below => apart k positive (by omega)) (by omega)]
    congr 2
    omega

theorem keepalives_length (n : Nat) : (keepalives n).length = n * keepalive.length := by
  induction n with
  | zero => simp [keepalives]
  | succ n ih =>
    rw [keepalives, List.length_append, ih, Nat.succ_mul, Nat.add_comm]

theorem keepalive_length : keepalive.length = 32 := by decide

theorem keepalives_append_ne (n : Nat) (positive : 0 < n) (body : Bytes) : keepalives n ++ body ≠ body := by
  intro same
  have size := congrArg List.length same
  rw [List.length_append, keepalives_length, keepalive_length] at size
  omega

/-- What extraction returns when `n` comments stood in front of the body. -/
def extracted (body : Bytes) (proof : JsVal) : Nat → ParsedTeeProofStream
  | 0 => { body, proof := some proof }
  | n + 1 =>
    { body
      proof := some proof
      ignoredTransportKeepaliveBytes := some ((n + 1) * keepalive.length)
      ignoredTransportKeepaliveCount := some (n + 1) }

/-- `SHA-256` keeps the body apart from what still has comments in front. -/
def BodyBinds (body : Bytes) (n : Nat) : Prop := Set.InjOn node.sha256 {m | ∃ k ≤ n, m = keepalives k ++ body}

theorem sha256Hex_isHex64 (data : Bytes) : (sha256Hex node data).isHex64 = true := by
  rw [JStr.isHex64, Bool.and_eq_true, beq_iff_eq, sha256Hex, JStr.length_hex, (node.sha256 data).2]
  exact ⟨rfl, JStr.hex_all _⟩

theorem removeLeading_exact (lower : ∀ s, s.all JStr.isHexUnit = true → node.toLowerCase s = s) (body : Bytes)
    (proof : JsVal) (signed : proof.get "response_body_sha256" = .str (sha256Hex node body)) (n : Nat)
    (binds : BodyBinds node body n) :
    removeLeadingTransportKeepalivesIfSignedHashMatches node (keepalives n ++ body) proof = extracted body proof n := by
  have expected : expectedHash node proof = sha256Hex node body := by
    rw [expectedHash, signed]
    exact lower _ (JStr.hex_all _)
  cases n with
  | zero => exact removeLeading_signed node lower body proof signed
  | succ n =>
    have apart (k : Nat) (positive : 0 < k) (below : k ≤ n + 1) :
        sha256Hex node (keepalives k ++ body) ≠ sha256Hex node body := by
      intro same
      have digest := JStr.hex_injective_digest same
      exact keepalives_append_ne k positive body
        (binds ⟨k, below, rfl⟩ ⟨0, Nat.zero_le _, rfl⟩ digest)
    have hex : (sha256Hex node body).isHex64 = true := sha256Hex_isHex64 node body
    have room : n < (keepalives (n + 1) ++ body).length + 1 := by
      rw [List.length_append, keepalives_length, keepalive_length]
      omega
    unfold removeLeadingTransportKeepalivesIfSignedHashMatches
    rw [expected]
    dsimp only
    rw [hex, Bool.not_true, if_neg Bool.false_ne_true, if_neg (apart (n + 1) (by omega) le_rfl),
      keepaliveLoop_exact node _ body rfl n _ 0 (fun k positive below => apart k positive (by omega)) room]
    simp only [Nat.zero_add, extracted]

theorem noMarker_nil : NoMarker [] := ⟨by decide, by decide⟩

theorem parseTeeProofEvent_exact (lower : ∀ s, s.all JStr.isHexUnit = true → node.toLowerCase s = s) (proof : JsVal)
    (json : JStr) (line : JsonLine node proof json) (body : Bytes)
    (signed : proof.get "response_body_sha256" = .str (sha256Hex node body)) (n : Nat) (binds : BodyBinds node body n)
    (form : EventForm) :
    parseTeeProofEvent node (keepalives n ++ body ++ form.bytes json) = extracted body proof n ∧
      ∀ tail, (∃ b ∈ tail, isBlankByte b = false) → NoMarker tail →
        parseTeeProofEvent node (keepalives n ++ body ++ (form.bytes json ++ tail)) =
          { body := keepalives n ++ body ++ (form.bytes json ++ tail) } := by
  constructor
  · have place := markerIndex_form line form (keepalives n ++ body) [] noMarker_nil
    have text := bufferText_form form json line.wellFormed []
    have blank : (bufferText form.trailing).all isBlank = true := (all_isBlank_iff _).mpr form.blanks
    rw [List.append_nil] at place text
    rw [List.append_nil] at text
    unfold parseTeeProofEvent
    rw [place]
    dsimp only
    rw [List.drop_left, List.take_left, text, matchEvent_text form json _ line.oneLine line.nonempty, if_pos blank]
    dsimp only
    rw [line.parses]
    exact removeLeading_exact node lower body proof signed n binds
  · rintro tail ⟨b, member, solid⟩ clear
    have unread : ¬(bufferText (form.trailing ++ tail)).all isBlank = true := by
      rw [all_isBlank_iff]
      intro blank
      exact absurd (blank b (List.mem_append_right _ member)) (by rw [solid]; exact Bool.false_ne_true)
    unfold parseTeeProofEvent
    rw [markerIndex_form line form (keepalives n ++ body) tail clear]
    dsimp only
    rw [List.drop_left, bufferText_form form json line.wellFormed,
      matchEvent_text form json _ line.oneLine line.nonempty, if_neg unread]

/-- Line ends of both kinds and blanks behind. -/
def mixedForm : EventForm where
  afterName := .crlf
  afterData := .lf
  afterBlank := .crlf
  trailing := [0x20, 0x0A]
  blanks := by simp [isBlankByte]

theorem parseTeeProofEvent_exact_sample :
    parseTeeProofEvent (captureNode plainDigests plainHash)
      (keepalives 1 ++ plainBody ++ mixedForm.bytes (captureJson plainHash)) =
        extracted plainBody (captureProof plainHash) 1 := by
  refine (parseTeeProofEvent_exact (captureNode plainDigests plainHash) (captureNode_lower _ _) (captureProof plainHash)
    (captureJson plainHash) plainCapture_line plainBody plain_signed 1 ?_ _).1
  have known : (captureNode plainDigests plainHash).sha256 (keepalives 0 ++ plainBody) = emptyObjectDigest := rfl
  have other : (captureNode plainDigests plainHash).sha256 (keepalives 1 ++ plainBody) ≠ emptyObjectDigest := by
    intro same
    exact absurd (congrArg (fun digest => digest.1.head?) same) (by decide)
  rintro _ ⟨i, smallI, rfl⟩ _ ⟨j, smallJ, rfl⟩ same
  interval_cases i <;> interval_cases j
  · rfl
  · exact absurd (same.symm.trans known) other
  · exact absurd (same.trans known) other
  · rfl

end TeeProof.Verifier
