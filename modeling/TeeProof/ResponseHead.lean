import TeeProof.ChunkedBody

/-! The head of an upstream response: the fields that are read from an HTTP/1.1 header block or
handed over by the HTTP/2 client, and what is reported and signed of them. -/
namespace TeeProof.Enclave

variable (rust : Rust)

/-- `s.split("\r\n")`. -/
def splitCrlf : Str → List Str
  | [] => [[]]
  | '\r' :: '\n' :: rest => [] :: splitCrlf rest
  | c :: rest =>
    match splitCrlf rest with
    | [] => [[c]]
    | first :: more => (c :: first) :: more

/-- `s.split_whitespace()`. -/
def splitWhitespace (s : Str) : List Str := (s.splitOnP isWhitespace).filter fun word => !word.isEmpty

/-- A plus sign may stand before the digits. -/
def unsignedDigits : Str → Str
  | '+' :: rest => rest
  | text => text

/-- `s.parse()` for an unsigned integer type of the given size. -/
def parseUnsigned (size : Nat) (text : Str) : Option Nat :=
  let digits := unsignedDigits text
  if digits.isEmpty || !digits.all Char.isDigit then none
  else (some (digits.foldl (fun n c => n * 10 + (c.toNat - 48)) 0)).filter (· < size)

structure Headers where
  status : Nat
  contentType : Option Str := none
  chunked : Bool := false
  contentLength : Option Nat := none
  headers : List (Str × Str) := []

namespace Headers

/-- Values of a repeated name are joined. -/
def joined (k v : Str) (headers : List (Str × Str)) : List (Str × Str) :=
  match OrdMap.find k headers with
  | some existing => OrdMap.insert k (existing ++ ", ".toList ++ v) headers
  | none => OrdMap.insert k v headers

/-- One field. -/
def field (h : Headers) (k v : Str) : Headers :=
  { h with
    contentType := if k = "content-type".toList then some v else h.contentType
    chunked := h.chunked ||
      (k = "transfer-encoding".toList && Str.contains "chunked".toList (rust.toLowercase v))
    contentLength := if k = "content-length".toList then parseUnsigned usizeSize v else h.contentLength
    headers := joined k v h.headers }

/-- One line of the block; a line without a colon is passed over. -/
def line (h : Headers) (text : Str) : Headers :=
  match text.idxOf? ':' with
  | some idx => h.field rust (rust.toLowercase (Str.trim (text.take idx))) (Str.trim (text.drop (idx + 1)))
  | none => h

end Headers

def statusOf (statusLine : Str) : Option Nat := (splitWhitespace statusLine)[1]?.bind (parseUnsigned (2 ^ 16))

def parseHeaders (head : Bytes) : Except Str Headers :=
  match splitCrlf (Utf8.decode head) with
  | [] => .error "状态行解析失败".toList
  | statusLine :: lines =>
    match statusOf statusLine with
    | none => .error "状态行解析失败".toList
    | some status => .ok (lines.foldl (Headers.line rust) { status })

/-- What `on_head` of the HTTP/2 sink keeps: the content type and the fields of `RESP_HEAD`. -/
structure H2Head where
  contentType : Str := []
  headers : List (Str × Str) := []

def H2Head.field (h : H2Head) (name value : Str) : H2Head where
  contentType := if Str.eqIgnoreAsciiCase name "content-type".toList then value else h.contentType
  headers := OrdMap.insert name value h.headers

def onHead (headers : List (Str × Str)) : H2Head := headers.foldl (fun h p => h.field p.1 p.2) {}

/-! The fields of a response as they are sent. -/

/-- A field with a name in lower case and a value without line breaks. -/
structure ResponseField where
  name : Bytes
  value : Bytes
  nonempty : name ≠ []
  lower : ∀ b ∈ name, isTokenByte b = true ∧ ¬(65 ≤ b.toNat ∧ b.toNat ≤ 90)
  unbroken : ∀ b ∈ value, b ≠ 13 ∧ b ≠ 10

namespace ResponseField

def nameText (f : ResponseField) : Str := asciiText f.name
def valueText (f : ResponseField) : Str := Utf8.decode f.value

/-- The line of the field. -/
def bytes (f : ResponseField) : Bytes := f.name ++ 58 :: 32 :: f.value

end ResponseField

/-- The block of a response: the status line and the fields, up to the empty line. -/
def headBytes (statusLine : Bytes) (fields : List ResponseField) : Bytes :=
  statusLine ++ fields.flatMap fun f => crlf ++ f.bytes

/-! Reading the block. -/

theorem splitCrlf_cons {c : Char} (other : c ≠ '\r') (rest : Str) :
    splitCrlf (c :: rest) =
      match splitCrlf rest with
      | [] => [[c]]
      | first :: more => (c :: first) :: more := by
  rw [splitCrlf]
  rintro after rfl
  exact absurd rfl other

theorem splitCrlf_free {s : Str} (free : '\r' ∉ s) : splitCrlf s = [s] := by
  induction s with
  | nil => rfl
  | cons c rest ih =>
    rw [List.mem_cons, not_or] at free
    rw [splitCrlf_cons (Ne.symm free.1), ih free.2]

theorem splitCrlf_line {front : Str} (free : '\r' ∉ front) (rest : Str) :
    splitCrlf (front ++ '\r' :: '\n' :: rest) = front :: splitCrlf rest := by
  induction front with
  | nil => rfl
  | cons c front ih =>
    rw [List.mem_cons, not_or] at free
    rw [List.cons_append, splitCrlf_cons (Ne.symm free.1), ih free.2]

/-- The text of a field's line. -/
def ResponseField.line (f : ResponseField) : Str := f.nameText ++ ':' :: ' ' :: f.valueText

theorem tokenByte_text (b : UInt8) (token : isTokenByte b = true) (lower : ¬(65 ≤ b.toNat ∧ b.toNat ≤ 90)) :
    b.toNat < 0x80 ∧ b ≠ 13 ∧ b ≠ 10 ∧ Char.ofNat b.toNat ≠ ':' ∧ isWhitespace (Char.ofNat b.toNat) = false ∧
      (Char.ofNat b.toNat).toLower = Char.ofNat b.toNat ∧ (Char.ofNat b.toNat).toNat < 0x80 := by
  revert token lower
  revert b
  decide +kernel

theorem decode_lines (front : Bytes) (fields : List ResponseField) :
    Utf8.decode (front ++ fields.flatMap fun f => crlf ++ f.bytes) =
      Utf8.decode front ++ fields.flatMap fun f => '\r' :: '\n' :: f.line := by
  induction fields generalizing front with
  | nil => simp
  | cons f rest ih =>
    have ascii : ∀ b ∈ f.name, b.toNat < 0x80 := fun b member =>
      (tokenByte_text b (f.lower b member).1 (f.lower b member).2).1
    have split : front ++ (f :: rest).flatMap (fun f => crlf ++ f.bytes) =
        front ++ 13 :: (10 :: (f.name ++ (58 :: (32 :: (f.value ++ rest.flatMap fun f => crlf ++ f.bytes))))) := by
      simp [crlf, ResponseField.bytes]
    rw [split, Utf8.decode_ascii _ 13 _ (by decide), Utf8.decode_cons_ascii 10 _ (by decide), decode_asciiText ascii,
      Utf8.decode_cons_ascii 58 _ (by decide), Utf8.decode_cons_ascii 32 _ (by decide), ih]
    simp only [List.flatMap_cons, ResponseField.line, List.append_assoc, List.cons_append]
    rfl

theorem free_line (f : ResponseField) : '\r' ∉ f.line := by
  intro member
  rcases List.mem_append.mp member with inside | inside
  · obtain ⟨b, listed, eq⟩ := List.mem_map.mp inside
    obtain ⟨ascii, other, _⟩ := tokenByte_text b (f.lower b listed).1 (f.lower b listed).2
    have code : b.toNat = 13 := Utf8.ofNat_eq_ascii _ 13 (by decide) (by decide) eq
    exact other (UInt8.toNat_inj.mp code)
  · simp only [List.mem_cons] at inside
    rcases inside with eq | eq | inside
    · exact absurd eq (by decide)
    · exact absurd eq (by decide)
    · exact (f.unbroken 13 (Utf8.mem_decode_ascii f.value 13 (by decide) (by decide) inside)).1 rfl

theorem splitCrlf_lines {front : Str} (free : '\r' ∉ front) (fields : List ResponseField) :
    splitCrlf (front ++ fields.flatMap fun f => '\r' :: '\n' :: f.line) = front :: fields.map ResponseField.line := by
  induction fields generalizing front with
  | nil => simpa using splitCrlf_free free
  | cons f rest ih =>
    rw [List.flatMap_cons, List.cons_append, List.cons_append, splitCrlf_line free, ih (free_line f), List.map_cons]

/-- `to_lowercase` of ASCII text. -/
def LowersAscii : Prop := ∀ s : Str, (∀ c ∈ s, c.toNat < 0x80) → rust.toLowercase s = Str.toAsciiLowercase s

theorem ResponseField.lower_nameText (f : ResponseField) : Str.toAsciiLowercase f.nameText = f.nameText := by
  rw [Str.toAsciiLowercase, ResponseField.nameText, asciiText, List.map_map]
  refine List.map_congr_left fun b member => ?_
  obtain ⟨_, _, _, _, _, lower, _⟩ := tokenByte_text b (f.lower b member).1 (f.lower b member).2
  exact lower

theorem idxOf?_front {a : Char} {front : Str} (free : a ∉ front) (rest : Str) :
    (front ++ a :: rest).idxOf? a = some front.length := by
  induction front with
  | nil => simp [List.idxOf?_cons]
  | cons c front ih =>
    rw [List.mem_cons, not_or] at free
    rw [List.cons_append, List.idxOf?_cons, if_neg (by simpa using Ne.symm free.1), ih free.2]
    rfl

theorem line_field (lowers : LowersAscii rust) (h : Headers) (f : ResponseField) :
    h.line rust f.line = h.field rust f.nameText (Str.trim f.valueText) := by
  have byte (b : UInt8) (member : b ∈ f.name) := tokenByte_text b (f.lower b member).1 (f.lower b member).2
  have colon : ':' ∉ f.nameText := by
    intro member
    obtain ⟨b, listed, eq⟩ := List.mem_map.mp member
    exact (byte b listed).2.2.2.1 eq
  have found : f.line.idxOf? ':' = some f.nameText.length := idxOf?_front colon _
  have solid : Str.trim f.nameText = f.nameText := by
    refine Str.trim_solid fun c member => ?_
    obtain ⟨b, listed, rfl⟩ := List.mem_map.mp member
    exact (byte b listed).2.2.2.2.1
  have kept : rust.toLowercase f.nameText = f.nameText := by
    rw [lowers]
    · exact f.lower_nameText
    · intro c member
      obtain ⟨b, listed, rfl⟩ := List.mem_map.mp member
      exact (byte b listed).2.2.2.2.2.2
  have name : f.line.take f.nameText.length = f.nameText := List.take_left
  have value : f.line.drop (f.nameText.length + 1) = ' ' :: f.valueText := by
    have split : f.line = f.nameText ++ [':'] ++ ' ' :: f.valueText := by simp [ResponseField.line]
    rw [split]
    exact List.drop_left' (by simp)
  rw [Headers.line, found]
  simp only [name, value, solid, kept]
  rfl

/-- What is read of a block. -/
theorem parseHeaders_block (lowers : LowersAscii rust) (statusLine : Bytes) (unbroken : (13 : UInt8) ∉ statusLine)
    {status : Nat} (parsed : statusOf (Utf8.decode statusLine) = some status) (fields : List ResponseField) :
    parseHeaders rust (headBytes statusLine fields) =
      .ok (fields.foldl (fun h f => h.field rust f.nameText (Str.trim f.valueText)) { status }) := by
  have free : '\r' ∉ Utf8.decode statusLine := fun member =>
    unbroken (Utf8.mem_decode_ascii statusLine 13 (by decide) (by decide) member)
  have lines : splitCrlf (Utf8.decode (headBytes statusLine fields)) =
      Utf8.decode statusLine :: fields.map ResponseField.line := by
    rw [headBytes, decode_lines, splitCrlf_lines free]
  have folded (h : Headers) : (fields.map ResponseField.line).foldl (Headers.line rust) h =
      fields.foldl (fun h f => h.field rust f.nameText (Str.trim f.valueText)) h := by
    simp only [List.foldl_map, line_field rust lowers]
  rw [parseHeaders, lines]
  simp only [parsed, folded]

/-! Repeated names. -/

/-- The values of a name, in their order. -/
def valuesOf (name : Str) (pairs : List (Str × Str)) : List Str := (pairs.filter fun p => p.1 = name).map Prod.snd

/-- `v1, v2, ...`. -/
def commaList : List Str → Option Str
  | [] => none
  | v :: rest => some (rest.foldl (fun text v => text ++ ", ".toList ++ v) v)

theorem valuesOf_append (name : Str) (front back : List (Str × Str)) :
    valuesOf name (front ++ back) = valuesOf name front ++ valuesOf name back := by
  simp [valuesOf]

theorem valuesOf_self {name : Str} {p : Str × Str} (same : p.1 = name) : valuesOf name [p] = [p.2] := by
  simp [valuesOf, same]

theorem valuesOf_ne {name : Str} {p : Str × Str} (other : p.1 ≠ name) : valuesOf name [p] = [] := by
  simp [valuesOf, other]

theorem commaList_concat (values : List Str) (v : Str) :
    commaList (values ++ [v]) = some ((commaList values).elim v fun text => text ++ ", ".toList ++ v) := by
  cases values with
  | nil => rfl
  | cons first rest => simp [commaList]

section Pairs

variable (pairs : List (Str × Str))

theorem joined_sorted (h : Headers) (sorted : OrdMap.Sorted h.headers) :
    OrdMap.Sorted (pairs.foldl (fun h p => Headers.field rust h p.1 p.2) h).headers := by
  induction pairs generalizing h with
  | nil => exact sorted
  | cons p rest ih =>
    refine ih _ ?_
    simp only [Headers.field, Headers.joined]
    split
    next => exact sorted.insert _ _
    next => exact sorted.insert _ _

/-- The HTTP/1.1 block: joined values, the last content type. -/
theorem find_joined (name : Str) (status : Nat) :
    OrdMap.find name (pairs.foldl (fun h p => Headers.field rust h p.1 p.2) { status }).headers =
      commaList (valuesOf name pairs) := by
  induction pairs using List.reverseRecOn with
  | nil => rfl
  | append_singleton front p ih =>
    rw [List.foldl_append, valuesOf_append]
    generalize front.foldl (fun h p => Headers.field rust h p.1 p.2) ({ status } : Headers) = h at ih
    simp only [List.foldl_cons, List.foldl_nil, Headers.field, Headers.joined]
    by_cases same : p.1 = name
    · rw [valuesOf_self same, commaList_concat, ← ih, same]
      cases OrdMap.find name h.headers with
      | none => exact OrdMap.find_insert_self _ _ _
      | some existing => exact OrdMap.find_insert_self _ _ _
    · rw [valuesOf_ne same, List.append_nil, ← ih]
      split
      next => exact OrdMap.find_insert_ne _ _ (Ne.symm same) _ _
      next => exact OrdMap.find_insert_ne _ _ (Ne.symm same) _ _

theorem contentType_joined (status : Nat) :
    (pairs.foldl (fun h p => Headers.field rust h p.1 p.2) { status }).contentType =
      (valuesOf "content-type".toList pairs).getLast? := by
  induction pairs using List.reverseRecOn with
  | nil => rfl
  | append_singleton front p ih =>
    rw [List.foldl_append, valuesOf_append]
    simp only [List.foldl_cons, List.foldl_nil, Headers.field]
    by_cases same : p.1 = "content-type".toList
    · rw [if_pos same, valuesOf_self same, List.getLast?_concat]
    · rw [if_neg same, valuesOf_ne same, List.append_nil]
      exact ih

theorem onHead_concat (p : Str × Str) : onHead (pairs ++ [p]) = (onHead pairs).field p.1 p.2 := by
  rw [onHead, List.foldl_append]
  rfl

/-- The HTTP/2 client: the last value of a name. -/
theorem find_onHead (name : Str) : OrdMap.find name (onHead pairs).headers = (valuesOf name pairs).getLast? := by
  induction pairs using List.reverseRecOn with
  | nil => rfl
  | append_singleton front p ih =>
    rw [onHead_concat, valuesOf_append, H2Head.field]
    by_cases same : p.1 = name
    · rw [valuesOf_self same, List.getLast?_concat, same]
      exact OrdMap.find_insert_self _ _ _
    · rw [valuesOf_ne same, List.append_nil, ← ih]
      exact OrdMap.find_insert_ne _ _ (Ne.symm same) _ _

theorem onHead_sorted : OrdMap.Sorted (onHead pairs).headers := by
  induction pairs using List.reverseRecOn with
  | nil => exact OrdMap.sorted_nil
  | append_singleton front p ih =>
    rw [onHead_concat]
    exact ih.insert _ _

theorem contentType_onHead (lower : ∀ p ∈ pairs, Str.toAsciiLowercase p.1 = p.1) :
    (onHead pairs).contentType = (valuesOf "content-type".toList pairs).getLast?.getD [] := by
  induction pairs using List.reverseRecOn with
  | nil => rfl
  | append_singleton front p ih =>
    have kept : Str.toAsciiLowercase p.1 = p.1 := lower p (by simp)
    have constant : Str.toAsciiLowercase "content-type".toList = "content-type".toList := by decide
    rw [onHead_concat, valuesOf_append, H2Head.field]
    simp only [Str.eqIgnoreAsciiCase, kept, constant, beq_iff_eq]
    by_cases same : p.1 = "content-type".toList
    · rw [if_pos same, valuesOf_self same, List.getLast?_concat]
      rfl
    · rw [if_neg same, valuesOf_ne same, List.append_nil]
      exact ih fun q member => lower q (List.mem_append_left _ member)

end Pairs

/-! Where the two paths agree. -/

theorem count_trim (s : Str) : (Str.trim s).count ',' = s.count ',' := by
  have spaces (t : Str) (blank : ∀ c ∈ t, isWhitespace c = true) : t.count ',' = 0 := by
    rw [List.count_eq_zero]
    exact fun member => absurd (blank ',' member) (by decide)
  obtain ⟨before, after, split, front, back⟩ := Str.trim_split s
  conv_rhs => rw [split]
  simp only [List.count_append, spaces before front, spaces after back, Nat.zero_add, Nat.add_zero]

/-- A joined text has more commas than its last value. -/
theorem commaList_commas (v : Str) (rest : List Str) (last : Str) (ends : (v :: rest).getLast? = some last)
    (several : rest ≠ []) : ∃ text, commaList (v :: rest) = some text ∧ last.count ',' < text.count ',' := by
  refine ⟨_, rfl, ?_⟩
  cases rest using List.reverseRecOn with
  | nil => exact absurd rfl several
  | append_singleton front w =>
    rw [← List.cons_append, List.getLast?_concat] at ends
    cases ends
    rw [List.foldl_append]
    simp only [List.foldl_cons, List.foldl_nil, List.count_append]
    have one : (", ".toList).count ',' = 1 := by decide
    omega

/-- The two paths report one map and sign one content type, and each shows the one it signs. -/
structure Consistent (h : Headers) (o : H2Head) : Prop where
  shown : h.headers = o.headers
  signed : h.contentType.getD [] = o.contentType
  first : ∀ v, OrdMap.find "content-type".toList h.headers = some v → v = h.contentType.getD []
  second : ∀ v, OrdMap.find "content-type".toList o.headers = some v → v = o.contentType

/-- The fields as the HTTP/2 client hands them over. -/
def sentPairs (fields : List ResponseField) : List (Str × Str) := fields.map fun f => (f.nameText, f.valueText)

theorem valuesOf_trim (name : Str) (pairs : List (Str × Str)) :
    valuesOf name (pairs.map fun p => (p.1, Str.trim p.2)) = (valuesOf name pairs).map Str.trim := by
  simp only [valuesOf, List.filter_map, List.map_map]
  rfl

theorem length_valuesOf (name : Str) (pairs : List (Str × Str)) :
    (valuesOf name pairs).length = (pairs.map Prod.fst).count name := by
  rw [valuesOf, List.length_map, List.count, List.countP_map, List.countP_eq_length_filter]
  refine congrArg List.length (List.filter_congr fun p _ => ?_)
  exact (beq_eq_decide p.1 name).symm

/-- One name: joining the trimmed values gives the last value only if there is no other. -/
theorem joined_eq_last {values : List Str} :
    commaList (values.map Str.trim) = values.getLast? ↔ values = [] ∨ ∃ v, values = [v] ∧ Str.trim v = v := by
  constructor
  · intro same
    cases values with
    | nil => exact .inl rfl
    | cons v rest =>
      refine .inr ⟨v, ?_⟩
      by_cases several : rest = []
      · subst several
        exact ⟨rfl, Option.some.inj same⟩
      · have ends : (v :: rest).getLast? = some ((v :: rest).getLast (List.cons_ne_nil v rest)) :=
          List.getLast?_eq_some_getLast _
        generalize (v :: rest).getLast (List.cons_ne_nil v rest) = last at ends
        have trimmed : (Str.trim v :: rest.map Str.trim).getLast? = some (Str.trim last) := by
          rw [← List.map_cons, List.getLast?_map, ends]
          rfl
        obtain ⟨text, joined, more⟩ := commaList_commas _ _ _ trimmed (by simpa using several)
        rw [List.map_cons, joined, ends] at same
        rw [Option.some.inj same, count_trim] at more
        exact absurd more (lt_irrefl _)
  · rintro (rfl | ⟨v, rfl, trimmed⟩)
    · rfl
    · exact congrArg some trimmed

theorem consistent_iff (pairs : List (Str × Str)) (lower : ∀ p ∈ pairs, Str.toAsciiLowercase p.1 = p.1) (status : Nat) :
    Consistent ((pairs.map fun p => (p.1, Str.trim p.2)).foldl (fun h p => Headers.field rust h p.1 p.2) { status })
        (onHead pairs) ↔ (pairs.map Prod.fst).Nodup ∧ ∀ p ∈ pairs, Str.trim p.2 = p.2 := by
  have shown (name : Str) := find_joined rust (pairs.map fun p => (p.1, Str.trim p.2)) name status
  have signed := contentType_joined rust (pairs.map fun p => (p.1, Str.trim p.2)) status
  have sorted := joined_sorted rust (pairs.map fun p => (p.1, Str.trim p.2)) { status } OrdMap.sorted_nil
  generalize (pairs.map fun p => (p.1, Str.trim p.2)).foldl (fun h p => Headers.field rust h p.1 p.2)
    ({ status } : Headers) = h at shown signed sorted
  simp only [valuesOf_trim] at shown signed
  constructor
  · intro consistent
    have values (name : Str) : valuesOf name pairs = [] ∨ ∃ v, valuesOf name pairs = [v] ∧ Str.trim v = v := by
      rw [← joined_eq_last, ← shown, consistent.shown, find_onHead]
    constructor
    · rw [List.nodup_iff_count_le_one]
      intro name
      rw [← length_valuesOf]
      rcases values name with none | ⟨v, one, _⟩
      · rw [none]
        exact Nat.zero_le 1
      · rw [one]
        exact Nat.le_refl 1
    · intro p member
      have listed : p.2 ∈ valuesOf p.1 pairs := List.mem_map.mpr ⟨p, List.mem_filter.mpr ⟨member, by simp⟩, rfl⟩
      rcases values p.1 with none | ⟨v, one, trimmed⟩
      · rw [none] at listed
        cases listed
      · rw [one, List.mem_singleton] at listed
        rw [listed, trimmed]
  · rintro ⟨once, trimmed⟩
    have values (name : Str) : valuesOf name pairs = [] ∨ ∃ v, valuesOf name pairs = [v] ∧ Str.trim v = v := by
      have bound := List.nodup_iff_count_le_one.mp once name
      rw [← length_valuesOf] at bound
      have clean : ∀ v ∈ valuesOf name pairs, Str.trim v = v := by
        intro v member
        obtain ⟨p, inside, rfl⟩ := List.mem_map.mp member
        exact trimmed p (List.mem_filter.mp inside).1
      match eq : valuesOf name pairs, bound with
      | [], _ => exact .inl rfl
      | [v], _ => exact .inr ⟨v, rfl, clean v (by simp [eq])⟩
    have same (name : Str) : OrdMap.find name h.headers = OrdMap.find name (onHead pairs).headers := by
      rw [shown, find_onHead]
      exact joined_eq_last.mpr (values name)
    have types : h.contentType = OrdMap.find "content-type".toList (onHead pairs).headers := by
      rw [signed, find_onHead, List.getLast?_map]
      rcases values "content-type".toList with none | ⟨v, one, clean⟩
      · rw [none]
        rfl
      · rw [one]
        exact congrArg some clean
    have kept : (onHead pairs).contentType = h.contentType.getD [] := by
      rw [contentType_onHead pairs lower, types, find_onHead]
    refine ⟨OrdMap.eq_of_find sorted (onHead_sorted pairs) same, kept.symm, fun v found => ?_, fun v found => ?_⟩
    · rw [same, ← types] at found
      rw [found]
      rfl
    · rw [← types] at found
      rw [kept, found]
      rfl

/-- The header maps and content types of the two paths agree exactly when no name is repeated and
no value has white space at its ends. -/
theorem responseHeaders_consistent_iff (lowers : LowersAscii rust) (statusLine : Bytes)
    (unbroken : (13 : UInt8) ∉ statusLine) (status : Nat) (parsed : statusOf (Utf8.decode statusLine) = some status)
    (fields : List ResponseField) :
    ∃ h, parseHeaders rust (headBytes statusLine fields) = .ok h ∧ (Consistent h (onHead (sentPairs fields)) ↔
      (fields.map ResponseField.nameText).Nodup ∧ ∀ f ∈ fields, Str.trim f.valueText = f.valueText) := by
  refine ⟨_, parseHeaders_block rust lowers statusLine unbroken parsed fields, ?_⟩
  have lower : ∀ p ∈ sentPairs fields, Str.toAsciiLowercase p.1 = p.1 := by
    intro p member
    obtain ⟨f, _, rfl⟩ := List.mem_map.mp member
    exact f.lower_nameText
  have agree := consistent_iff rust (sentPairs fields) lower status
  simp only [sentPairs, List.map_map, List.foldl_map, List.forall_mem_map] at agree
  exact agree

/-- `HTTP/1.1 200 OK`. -/
def okLine : Bytes := Utf8.encode "HTTP/1.1 200 OK".toList

theorem okLine_status : statusOf (Utf8.decode okLine) = some 200 := by decide

/-- A content type of one letter. -/
def typeField (letter : UInt8) (unbroken : letter ≠ 13 ∧ letter ≠ 10) : ResponseField where
  name := Utf8.encode "content-type".toList
  value := [letter]
  nonempty := by decide
  lower := by decide +kernel
  unbroken := by simpa using unbroken

theorem responseHeaders_consistent_sample :
    LowersAscii (.sample [] []) ∧ ∃ h, parseHeaders (.sample [] []) (headBytes okLine [typeField 97 (by decide)]) = .ok h ∧
      (Consistent h (onHead (sentPairs [typeField 97 (by decide)])) ↔
        ([typeField 97 (by decide)].map ResponseField.nameText).Nodup ∧
          ∀ f ∈ [typeField 97 (by decide)], Str.trim f.valueText = f.valueText) := by
  have lowers : LowersAscii (.sample [] []) := fun _ _ => rfl
  exact ⟨lowers, responseHeaders_consistent_iff (.sample [] []) lowers okLine (by decide) 200 okLine_status _⟩

/-- Two content types: shown joined and signed apart over HTTP/1.1, the last one over HTTP/2. -/
theorem repeated_contentType :
    (fun h : Headers => (OrdMap.find "content-type".toList h.headers, h.contentType)) <$>
        parseHeaders (.sample [] []) (headBytes okLine [typeField 97 (by decide), typeField 98 (by decide)]) =
      .ok (some "a, b".toList, some "b".toList) ∧
    OrdMap.find "content-type".toList (onHead (sentPairs [typeField 97 (by decide), typeField 98 (by decide)])).headers =
      some "b".toList ∧
    ∀ h, parseHeaders (.sample [] []) (headBytes okLine [typeField 97 (by decide), typeField 98 (by decide)]) = .ok h →
      ¬Consistent h (onHead (sentPairs [typeField 97 (by decide), typeField 98 (by decide)])) := by
  have read : (fun h : Headers => (OrdMap.find "content-type".toList h.headers, h.contentType)) <$>
      parseHeaders (.sample [] []) (headBytes okLine [typeField 97 (by decide), typeField 98 (by decide)]) =
      .ok (some "a, b".toList, some "b".toList) := by
    decide
  refine ⟨read, by decide, fun h run consistent => ?_⟩
  rw [run] at read
  have values : OrdMap.find "content-type".toList h.headers = some "a, b".toList ∧ h.contentType = some "b".toList :=
    Prod.mk.inj (Except.ok.inj read)
  have same := consistent.first _ values.1
  rw [values.2] at same
  exact absurd same (by decide)

end TeeProof.Enclave
