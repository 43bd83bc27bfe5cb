import TeeProof.ProofEvent

/-! The multipart capture: a response part and a proof part between delimiter lines. The
body is cut by its announced length, so it may hold whatever the envelope holds. -/
namespace TeeProof.Verifier

variable (node : Node)

/-! Pieces of the source's patterns -/

/-- `text` at the front, in either case of ASCII. -/
def stripCi (text : String) (s : JStr) : Option JStr :=
  let size := (JStr.lit text).length
  if JStr.asciiCase 65 97 (s.take size) = JStr.lit text then some (s.drop size) else none

def isDigitUnit (u : UInt16) : Bool := 48 ≤ u.toNat && u.toNat ≤ 57

/-- What `.` stands for. -/
def isDot (u : UInt16) : Bool := !(u = 0x0A || u = 0x0D || u = 0x2028 || u = 0x2029)

/-- `/[^;\r\n]/`. -/
def isPlain (u : UInt16) : Bool := !(u = 0x3B || u = 0x0D || u = 0x0A)

/-- All that may be left behind `p*`. -/
def many (p : UInt16 → Bool) : JStr → List JStr
  | [] => [[]]
  | u :: rest => if p u then (u :: rest) :: many p rest else [u :: rest]

/-- `Number.parseInt(digits, 10)`. The digits of a number that a double does not hold
exactly say more octets than any buffer has, rounded or not. -/
def decimal (digits : JStr) : Nat := digits.foldl (fun acc u => acc * 10 + (u.toNat - 48)) 0

/-- `s.split(/\r?\n/)`. -/
def splitLines (s : JStr) : List JStr := (Lines.ended 0x0A s).map (Lines.stripMark 0x0D) ++ [Lines.rest 0x0A s]

/-- `bytes.indexOf(needle, offset)`. -/
def indexFrom (needle bytes : Bytes) (offset : Nat) : Option Nat :=
  (Search.indexOf needle (bytes.drop offset)).map (offset + ·)

def consumeLineEnding (bytes : Bytes) (offset : Nat) : Option Nat :=
  if bytes[offset]? = some 0x0D ∧ bytes[offset + 1]? = some 0x0A then some (offset + 2)
  else if bytes[offset]? = some 0x0A then some (offset + 1)
  else none

def startsAt (needle bytes : Bytes) (offset : Nat) : Bool := needle.isPrefixOf (bytes.drop offset)

/-! Boundaries -/

/-- `/boundary="?([^";]+)"?/i` at the front of what is left. -/
def boundaryHere (s : JStr) : Option JStr :=
  (stripCi "boundary=" s).bind fun rest =>
    let value := (if rest.head? = some 0x22 then rest.tail else rest).takeWhile fun u => !(u = 0x22 || u = 0x3B)
    if value = [] then none else some value

def boundaryParameter : JStr → Option JStr
  | [] => none
  | u :: rest => match boundaryHere (u :: rest) with
    | some value => some value
    | none => boundaryParameter rest

structure FirstBoundary where
  boundary : JStr
  offset : Nat

/-- Behind the first LF that two dashes follow. -/
def dashesAfterLine (bytes : Bytes) : Option Nat := (Search.indexOf [10, 45, 45] bytes).map (· + 1)

def firstMultipartBoundary (bytes : Bytes) : Option FirstBoundary := do
  let start ← if bytes.take 2 = [45, 45] then some 0 else dashesAfterLine bytes
  let lineEnd ← indexFrom [0x0A] bytes start
  let firstLine := Lines.stripMark 0x0D (bufferText ((bytes.drop start).take (lineEnd - start)))
  guard (JStr.startsWith firstLine "--" && !JStr.endsWith firstLine "--")
  return ⟨firstLine.drop 2, start⟩

def multipartBoundary (contentType : Option JStr) (first : Option FirstBoundary) : Option JStr :=
  match contentType.bind boundaryParameter with
  | some value => some value
  | none => first.map (·.boundary)

structure Delimiter where
  closing : Bool
  nextOffset : Nat
  deriving DecidableEq

def readMultipartBoundary (bytes boundaryBytes : Bytes) (offset : Nat) : Option Delimiter :=
  if !startsAt boundaryBytes bytes offset then none
  else
    let p := offset + boundaryBytes.length
    let closing := bytes[p]? = some 45 ∧ bytes[p + 1]? = some 45
    let p := if closing then p + 2 else p
    if closing ∧ p = bytes.length then some ⟨closing, p⟩
    else (consumeLineEnding bytes p).map fun nextOffset => ⟨closing, nextOffset⟩

/-! Parts -/

structure HeaderEnd where
  headerEnd : Nat
  bodyStart : Nat
  deriving DecidableEq

def multipartHeaderEnd (bytes : Bytes) (offset : Nat) : Option HeaderEnd :=
  match indexFrom [0x0D, 0x0A, 0x0D, 0x0A] bytes offset, indexFrom [0x0A, 0x0A] bytes offset with
  | some crlf, some lf => if crlf < lf then some ⟨crlf, crlf + 4⟩ else some ⟨lf, lf + 2⟩
  | some crlf, none => some ⟨crlf, crlf + 4⟩
  | none, some lf => some ⟨lf, lf + 2⟩
  | none, none => none

/-- `/^content-length:\s*(\d+)\s*$/i`. -/
def contentLength (line : JStr) : Option Nat :=
  (stripCi "content-length:" line).bind fun rest =>
    let rest := rest.dropWhile isSpace
    let digits := rest.takeWhile isDigitUnit
    if digits ≠ [] ∧ (rest.dropWhile isDigitUnit).all isSpace then some (decimal digits) else none

def multipartContentLength (headers : JStr) : Option Nat := (splitLines headers).findSome? contentLength

/-- `/^content-type:\s*(.+?)\s*$/i`. Where only blanks follow the colon, the last of
them is given back to the group. -/
def contentTypeValue (line : JStr) : Option JStr :=
  (stripCi "content-type:" line).bind fun rest =>
    let value := trim rest
    if value = [] then (rest.filter isDot).getLast?.map fun u => [u]
    else if value.all isDot then some value
    else none

def multipartContentType (headers : JStr) : Option JStr := (splitLines headers).findSome? contentTypeValue

structure MultipartPart where
  headers : JStr
  body : Bytes
  nextBoundaryOffset : Nat

/-- Where the body ends by its announced length, if a delimiter stands there, and where
that delimiter is. -/
def announcedEnd (bytes boundaryBytes : Bytes) (bodyStart length : Nat) : Option (Nat × Nat) :=
  let expectedEnd := bodyStart + length
  if expectedEnd ≤ bytes.length then
    (consumeLineEnding bytes expectedEnd).bind fun expectedNext =>
      if startsAt boundaryBytes bytes expectedNext then some (expectedEnd, expectedNext) else none
  else none

def searchedEnd (bytes boundaryBytes : Bytes) (bodyStart : Nat) : Option (Nat × Nat) :=
  match indexFrom ([0x0D, 0x0A] ++ boundaryBytes) bytes bodyStart, indexFrom (0x0A :: boundaryBytes) bytes bodyStart with
  | some crlf, some lf => if crlf ≤ lf then some (crlf, crlf + 2) else some (lf, lf + 1)
  | some crlf, none => some (crlf, crlf + 2)
  | none, some lf => some (lf, lf + 1)
  | none, none => none

def readMultipartPart (bytes boundaryBytes : Bytes) (offset : Nat) : Option MultipartPart := do
  let ends ← multipartHeaderEnd bytes offset
  let headers := bufferText ((bytes.drop offset).take (ends.headerEnd - offset))
  let announced := (multipartContentLength headers).bind (announcedEnd bytes boundaryBytes ends.bodyStart)
  let (bodyEnd, nextBoundaryOffset) ← announced.or (searchedEnd bytes boundaryBytes ends.bodyStart)
  some ⟨headers, (bytes.drop ends.bodyStart).take (bodyEnd - ends.bodyStart), nextBoundaryOffset⟩

/-- `isProofPartHeaders`: two patterns, neither anchored. -/
def isProofPartHeaders (headers : JStr) : Bool :=
  let disposition (s : JStr) :=
    (stripCi "content-disposition:" s).any fun s =>
      (many isSpace s).any fun s => (many isPlain s).any fun s =>
        (s :: ((stripCi ";" s).toList.flatMap (many isSpace))).any fun s =>
          (stripCi "name=" s).any fun s => ((s :: (stripCi "\"" s).toList).any fun s => (stripCi "proof" s).isSome)
  let type (s : JStr) :=
    (stripCi "content-type:" s).any fun s =>
      (many isSpace s).any fun s => (stripCi "application/" s).any fun s =>
        (many isPlain s).any fun s => (stripCi "proof" s).isSome
  headers.tails.any disposition || headers.tails.any type

/-! A body with the end of a capture behind it -/

def stripBoundarySeparatorLineEnding (bytes : Bytes) : Bytes :=
  if [0x0D, 0x0A].isSuffixOf bytes then bytes.take (bytes.length - 2)
  else if [0x0A].isSuffixOf bytes then bytes.take (bytes.length - 1)
  else bytes

def consumeLeadingBlankLine (bytes : Bytes) (offset : Nat) : Option Nat :=
  consumeLineEnding bytes (offset + ((bytes.drop offset).takeWhile fun b => b = 32 || b = 9).length)

/-- The loop over leading blank lines; each one moves the offset, so the octets bound it. -/
def blankLineLoop (expected : JStr) (body : Bytes) : Nat → Nat → Option Nat
  | 0, _ => none
  | fuel + 1, offset =>
    (consumeLeadingBlankLine body offset).bind fun next =>
      if next ≤ offset then none
      else if sha256Hex node (body.drop next) = expected then some next
      else blankLineLoop expected body fuel next

def removeLeadingBlankLinesIfSignedHashMatches (body : Bytes) (proof : Option JsVal) : Bytes × Option Nat :=
  let expected := (proof.map (expectedHash node)).getD []
  if !expected.isHex64 then (body, none)
  else if sha256Hex node body = expected then (body, none)
  else match blankLineLoop node expected body (body.length + 1) 0 with
  | some offset => (body.drop offset, some offset)
  | none => (body, none)

/-- A part's body read as a proof. -/
def partProof (body : Bytes) : Option JsVal :=
  match node.parseJson (bufferText body) with
  | .error _ => none
  | .ok parsed => match parsed.get "type" with
    | .str s => if s = JStr.lit "tee.proof_unavailable" then none else some parsed
    | _ => some parsed

def parseTeeProofMultipartTailCapture (bytes boundaryBytes : Bytes) (boundaryOffset : Nat) :
    Option ParsedTeeProofStream := do
  guard (0 < boundaryOffset)
  let capture := bytes.drop boundaryOffset
  let proofBoundary ← readMultipartBoundary capture boundaryBytes 0
  guard (proofBoundary.closing = false)
  let proofPart ← readMultipartPart capture boundaryBytes proofBoundary.nextOffset
  guard (isProofPartHeaders proofPart.headers)
  let closingBoundary ← readMultipartBoundary capture boundaryBytes proofPart.nextBoundaryOffset
  guard closingBoundary.closing
  let proof := partProof node proofPart.body
  let normalized := removeLeadingBlankLinesIfSignedHashMatches node
    (stripBoundarySeparatorLineEnding (bytes.take boundaryOffset)) proof
  return { body := normalized.1, proof, ignoredLeadingBlankBytes := normalized.2 }

/-- A whole capture: two parts and the closing delimiter. -/
def parseMultipartParts (capture boundaryBytes : Bytes) : Option ParsedTeeProofStream := do
  let firstBoundary ← readMultipartBoundary capture boundaryBytes 0
  guard (firstBoundary.closing = false)
  let responsePart ← readMultipartPart capture boundaryBytes firstBoundary.nextOffset
  let proofBoundary ← readMultipartBoundary capture boundaryBytes responsePart.nextBoundaryOffset
  guard (proofBoundary.closing = false)
  let proofPart ← readMultipartPart capture boundaryBytes proofBoundary.nextOffset
  let closingBoundary ← readMultipartBoundary capture boundaryBytes proofPart.nextBoundaryOffset
  guard closingBoundary.closing
  return {
    body := responsePart.body
    proof := partProof node proofPart.body
    bodyContentType := multipartContentType responsePart.headers }

def parseTeeProofMultipartResponse (bytes : Bytes) (contentType : Option JStr) : Option ParsedTeeProofStream := do
  let first := firstMultipartBoundary bytes
  let boundary ← multipartBoundary contentType first
  let boundaryBytes := JStr.utf8 (JStr.lit "--" ++ boundary)
  let startOffset := match first with
    | some found => if found.boundary = boundary then found.offset else 0
    | none => 0
  (parseTeeProofMultipartTailCapture node bytes boundaryBytes startOffset).or
    (parseMultipartParts node (bytes.drop startOffset) boundaryBytes)

/-! A capture as it is written -/

structure HeaderLine (line : Bytes) : Prop where
  nonempty : line ≠ []
  noLf : (0x0A : UInt8) ∉ line
  noCr : (0x0D : UInt8) ∉ line

def joined (e : LineEnd) : List Bytes → Bytes
  | [] => []
  | [line] => line
  | line :: next :: rest => line ++ (e.bytes ++ joined e (next :: rest))

/-- Header lines, a blank line and a body. -/
structure Part where
  headers : List Bytes
  body : Bytes
  given : headers ≠ []
  lines : ∀ line ∈ headers, HeaderLine line

def Part.bytes (e : LineEnd) (part : Part) : Bytes := joined e part.headers ++ (e.bytes ++ (e.bytes ++ part.body))

/-- A line that announces `n` octets. -/
structure Announces (line : JStr) (n : Nat) : Prop where
  spelled : ∃ name left digits right, line = name ++ (left ++ (digits ++ right)) ∧
    JStr.asciiCase 65 97 name = JStr.lit "content-length:" ∧ left.all isSpace = true ∧ right.all isSpace = true ∧
    digits ≠ [] ∧ digits.all isDigitUnit = true ∧ decimal digits = n

def OtherField (line : Bytes) : Prop := stripCi "content-length:" (bufferText line) = none

/-- One line announces `n` octets and no other one is of that field. -/
def Announced (headers : List Bytes) (n : Nat) : Prop :=
  ∃ before line after, headers = before ++ line :: after ∧ Announces (bufferText line) n ∧
    ∀ other ∈ before ++ after, OtherField other

def delimiter (boundary : JStr) : Bytes := JStr.utf8 (JStr.lit "--" ++ boundary)

def multipartCapture (e : LineEnd) (boundary : JStr) (response proof : Part) : Bytes :=
  delimiter boundary ++ (e.bytes ++ (response.bytes e ++ (e.bytes ++ (delimiter boundary ++ (e.bytes ++
    (proof.bytes e ++ (e.bytes ++ (delimiter boundary ++ [45, 45]))))))))

/-! The end of the header -/

theorem joined_cons (e : LineEnd) (line next : Bytes) (rest : List Bytes) (after : Bytes) :
    joined e (line :: next :: rest) ++ after = line ++ (e.bytes ++ (joined e (next :: rest) ++ after)) := by
  simp only [joined, List.append_assoc]

theorem joined_head (e : LineEnd) (next : Bytes) (rest : List Bytes) (after : Bytes) (line : HeaderLine next) :
    ∃ b more, joined e (next :: rest) ++ after = b :: more ∧ b ≠ 0x0A ∧ b ≠ 0x0D := by
  obtain ⟨b, tail, rfl⟩ := List.exists_cons_of_ne_nil line.nonempty
  have lf : b ≠ 0x0A := fun eq => line.noLf (eq ▸ List.mem_cons_self)
  have cr : b ≠ 0x0D := fun eq => line.noCr (eq ▸ List.mem_cons_self)
  cases rest with
  | nil => exact ⟨b, tail ++ after, rfl, lf, cr⟩
  | cons m rest => exact ⟨b, _, by rw [joined_cons]; rfl, lf, cr⟩

/-- A line end that a line follows is not blank. -/
theorem indexOf_lineEnd (e : LineEnd) {b : UInt8} (more : Bytes) (lf : b ≠ 0x0A) (cr : b ≠ 0x0D) :
    Search.indexOf (e.bytes ++ e.bytes) (e.bytes ++ b :: more) =
      (Search.indexOf (e.bytes ++ e.bytes) (b :: more)).map (· + e.bytes.length) := by
  cases e with
  | lf =>
    apply Search.indexOf_step
    rintro ⟨_, eq⟩
    cases eq
    exact lf rfl
  | crlf =>
    have first : ¬[0x0D, 0x0A, 0x0D, 0x0A] <+: 0x0D :: 0x0A :: b :: more := by
      rintro ⟨_, eq⟩
      cases eq
      exact cr rfl
    have second : ¬[0x0D, 0x0A, 0x0D, 0x0A] <+: 0x0A :: b :: more := by
      rintro ⟨_, eq⟩
      cases eq
    change Search.indexOf [0x0D, 0x0A, 0x0D, 0x0A] (0x0D :: 0x0A :: b :: more) = _
    rw [Search.indexOf_step first, Search.indexOf_step second, Option.map_map]
    rfl

theorem indexOf_line (e : LineEnd) {line : Bytes} (lf : (0x0A : UInt8) ∉ line) (cr : (0x0D : UInt8) ∉ line) (after : Bytes) :
    Search.indexOf (e.bytes ++ e.bytes) (line ++ after) =
      (Search.indexOf (e.bytes ++ e.bytes) after).map (· + line.length) := by
  cases e with
  | lf => exact Search.indexOf_skip lf after
  | crlf => exact Search.indexOf_skip cr after

/-- The blank line is the first place where two line ends meet. -/
theorem indexOf_blank (e : LineEnd) (headers : List Bytes) (lines : ∀ line ∈ headers, HeaderLine line) (rest : Bytes) :
    Search.indexOf (e.bytes ++ e.bytes) (joined e headers ++ (e.bytes ++ (e.bytes ++ rest))) =
      some (joined e headers).length := by
  have blank : Search.indexOf (e.bytes ++ e.bytes) (e.bytes ++ (e.bytes ++ rest)) = some 0 := by
    rw [← List.append_assoc]
    exact Search.indexOf_here (List.prefix_append _ _)
  induction headers with
  | nil => exact blank
  | cons line others ih =>
    have here := lines line List.mem_cons_self
    cases others with
    | nil =>
      rw [joined, indexOf_line e here.noLf here.noCr, blank, Option.map_some, Nat.zero_add]
    | cons next others =>
      have later := ih fun l member => lines l (List.mem_cons_of_mem line member)
      obtain ⟨b, more, head, lf, cr⟩ := joined_head e next others (e.bytes ++ (e.bytes ++ rest)) (lines next (by simp))
      rw [joined_cons, indexOf_line e here.noLf here.noCr, head, indexOf_lineEnd e more lf cr, ← head, later]
      simp only [Option.map_some, joined, List.length_append, Option.some.injEq]
      omega

/-- No two line feeds meet in a header whose lines end in CRLF, nor at its blank line. -/
theorem indexOf_lf_crlf (headers : List Bytes) (lines : ∀ line ∈ headers, HeaderLine line) (rest : Bytes) :
    Search.indexOf [0x0A, 0x0A] (joined .crlf headers ++ (LineEnd.crlf.bytes ++ (LineEnd.crlf.bytes ++ rest))) =
      (Search.indexOf [0x0A, 0x0A] (0x0A :: rest)).map (· + ((joined .crlf headers).length + 3)) := by
  have pass (front : Bytes) (lf : (0x0A : UInt8) ∉ front) {b : UInt8} (more : Bytes) (other : b ≠ 0x0A) :
      Search.indexOf [0x0A, 0x0A] (front ++ (LineEnd.crlf.bytes ++ b :: more)) =
        (Search.indexOf [0x0A, 0x0A] (b :: more)).map (· + (front.length + 2)) := by
    have clean : (0x0A : UInt8) ∉ front ++ [0x0D] := by simp [lf]
    have apart : ¬[0x0A, 0x0A] <+: 0x0A :: b :: more := by
      rintro ⟨_, eq⟩
      cases eq
      exact other rfl
    have layout : front ++ (LineEnd.crlf.bytes ++ b :: more) = front ++ [0x0D] ++ 0x0A :: b :: more := by
      simp [LineEnd.bytes]
    rw [layout, Search.indexOf_skip clean, Search.indexOf_step apart, Option.map_map]
    cases Search.indexOf [0x0A, 0x0A] (b :: more) with
    | none => rfl
    | some i => exact congrArg some (by simp only [Function.comp_apply, List.length_append, List.length_singleton]; omega)
  have last (front : Bytes) (lf : (0x0A : UInt8) ∉ front) :
      Search.indexOf [0x0A, 0x0A] (front ++ (LineEnd.crlf.bytes ++ (LineEnd.crlf.bytes ++ rest))) =
        (Search.indexOf [0x0A, 0x0A] (0x0A :: rest)).map (· + (front.length + 3)) := by
    have carriage : (0x0A : UInt8) ∉ ([0x0D] : Bytes) := by decide
    have blank : Search.indexOf [0x0A, 0x0A] (0x0D :: 0x0A :: rest) =
        (Search.indexOf [0x0A, 0x0A] (0x0A :: rest)).map (· + 1) := Search.indexOf_skip carriage (0x0A :: rest)
    have opens : LineEnd.crlf.bytes ++ rest = 0x0D :: 0x0A :: rest := rfl
    rw [opens, pass front lf _ (by decide), blank, Option.map_map]
    cases Search.indexOf [0x0A, 0x0A] (0x0A :: rest) with
    | none => rfl
    | some i => exact congrArg some (by simp only [Function.comp_apply]; omega)
  induction headers with
  | nil => exact last [] (by simp)
  | cons line others ih =>
    have here := lines line List.mem_cons_self
    cases others with
    | nil => exact last line here.noLf
    | cons next others =>
      have later := ih fun l member => lines l (List.mem_cons_of_mem line member)
      obtain ⟨b, more, head, lf, -⟩ := joined_head .crlf next others (LineEnd.crlf.bytes ++ (LineEnd.crlf.bytes ++ rest))
        (lines next (by simp))
      rw [joined_cons, head, pass line here.noLf more lf, ← head, later, Option.map_map]
      cases Search.indexOf [0x0A, 0x0A] (0x0A :: rest) with
      | none => rfl
      | some i =>
        exact congrArg some (by simp only [Function.comp_apply, joined, List.length_append, LineEnd.bytes]; simp; omega)

theorem joined_noCr (headers : List Bytes) (lines : ∀ line ∈ headers, HeaderLine line) :
    (0x0D : UInt8) ∉ joined .lf headers := by
  fun_induction joined LineEnd.lf headers with
  | case1 => exact List.not_mem_nil
  | case2 line => exact (lines line List.mem_cons_self).noCr
  | case3 line next rest ih =>
    have here := (lines line List.mem_cons_self).noCr
    have later := ih fun l member => lines l (List.mem_cons_of_mem line member)
    simp [LineEnd.bytes, here, later]

theorem indexFrom_at (needle front rest : Bytes) :
    indexFrom needle (front ++ rest) front.length = (Search.indexOf needle rest).map (front.length + ·) := by
  rw [indexFrom, List.drop_left]

theorem multipartHeaderEnd_part (e : LineEnd) (part : Part) (front rest : Bytes) :
    multipartHeaderEnd (front ++ (part.bytes e ++ rest)) front.length =
      some ⟨front.length + (joined e part.headers).length,
        front.length + (joined e part.headers).length + (e.bytes ++ e.bytes).length⟩ := by
  have layout : part.bytes e ++ rest = joined e part.headers ++ (e.bytes ++ (e.bytes ++ (part.body ++ rest))) := by
    simp only [Part.bytes, List.append_assoc]
  have same := indexOf_blank e part.headers part.lines (part.body ++ rest)
  unfold multipartHeaderEnd
  rw [layout, indexFrom_at, indexFrom_at]
  cases e with
  | lf =>
    have needle : LineEnd.lf.bytes ++ LineEnd.lf.bytes = [0x0A, 0x0A] := rfl
    have clean : (0x0D : UInt8) ∉ joined .lf part.headers ++ [0x0A, 0x0A] := by simp [joined_noCr part.headers part.lines]
    have other : Search.indexOf [0x0D, 0x0A, 0x0D, 0x0A] (joined .lf part.headers ++ (LineEnd.lf.bytes ++ (LineEnd.lf.bytes ++
        (part.body ++ rest)))) = (Search.indexOf [0x0D, 0x0A, 0x0D, 0x0A] (part.body ++ rest)).map
          (· + ((joined .lf part.headers).length + 2)) := by
      have skipped := @Search.indexOf_skip _ _ _ [0x0A, 0x0D, 0x0A] _ clean (part.body ++ rest)
      simpa [LineEnd.bytes] using skipped
    rw [needle] at same
    rw [same, other]
    cases Search.indexOf [0x0D, 0x0A, 0x0D, 0x0A] (part.body ++ rest) with
    | none => rfl
    | some i =>
      simp only [Option.map_some]
      rw [if_neg (by omega)]
      rfl
  | crlf =>
    have needle : LineEnd.crlf.bytes ++ LineEnd.crlf.bytes = [0x0D, 0x0A, 0x0D, 0x0A] := rfl
    rw [needle] at same
    rw [same, indexOf_lf_crlf part.headers part.lines]
    cases Search.indexOf [0x0A, 0x0A] (0x0A :: (part.body ++ rest)) with
    | none => rfl
    | some i =>
      simp only [Option.map_some]
      rw [if_pos (by omega)]
      rfl

/-! What the header announces -/

theorem mem_bufferText_ascii {bytes : Bytes} {b : UInt8} (ascii : b.toNat < 0x80) (positive : 0 < b.toNat)
    (member : UInt16.ofNat b.toNat ∈ bufferText bytes) : b ∈ bytes := by
  obtain ⟨c, among, unit⟩ := List.mem_flatMap.mp member
  have value : (UInt16.ofNat b.toNat).toNat = b.toNat := by
    rw [UInt16.toNat_ofNat']
    omega
  have char := JStr.ofChar_ascii unit (by omega)
  rw [value] at char
  exact Utf8.mem_decode_ascii bytes b ascii positive (char ▸ among)

theorem bufferText_lineEnd (e : LineEnd) (line rest : Bytes) :
    bufferText (line ++ (e.bytes ++ rest)) = bufferText line ++ (e.units ++ bufferText rest) := by
  cases e with
  | lf =>
    have cut := Utf8.decode_ascii line 0x0A rest (by decide)
    simp only [bufferText, LineEnd.bytes, List.singleton_append, cut, JStr.ofChars, List.flatMap_append, List.flatMap_cons]
    rfl
  | crlf =>
    have cut := Utf8.decode_ascii line 0x0D (0x0A :: rest) (by decide)
    have again := Utf8.decode_cons_ascii 0x0A rest (by decide)
    simp only [bufferText, LineEnd.bytes, List.cons_append, List.nil_append, cut, again, JStr.ofChars, List.flatMap_append,
      List.flatMap_cons]
    rfl

theorem stripMark_free {line : JStr} (cr : (0x0D : UInt16) ∉ line) : Lines.stripMark 0x0D line = line := by
  rw [Lines.stripMark, if_neg]
  intro last
  exact cr (List.mem_of_getLast? last)

theorem splitLines_line (e : LineEnd) {line : JStr} (lf : (0x0A : UInt16) ∉ line) (cr : (0x0D : UInt16) ∉ line) (rest : JStr) :
    splitLines (line ++ (e.units ++ rest)) = line :: splitLines rest := by
  cases e with
  | lf =>
    have units : LineEnd.lf.units ++ rest = 0x0A :: rest := rfl
    rw [units, splitLines, Lines.ended_line _ _ _ lf, Lines.rest_line _ _ _ lf, List.map_cons, stripMark_free cr]
    rfl
  | crlf =>
    have units : line ++ (LineEnd.crlf.units ++ rest) = line ++ [0x0D] ++ 0x0A :: rest := by
      rw [List.append_assoc]
      rfl
    have clean : (0x0A : UInt16) ∉ line ++ [0x0D] := by simp [lf]
    have stripped : Lines.stripMark 0x0D (line ++ [0x0D]) = line := by simp [Lines.stripMark]
    rw [units, splitLines, Lines.ended_line _ _ _ clean, Lines.rest_line _ _ _ clean, List.map_cons, stripped]
    rfl

theorem HeaderLine.text {line : Bytes} (clean : HeaderLine line) :
    (0x0A : UInt16) ∉ bufferText line ∧ (0x0D : UInt16) ∉ bufferText line :=
  ⟨fun member => clean.noLf (mem_bufferText_ascii (b := 0x0A) (by decide) (by decide) member),
    fun member => clean.noCr (mem_bufferText_ascii (b := 0x0D) (by decide) (by decide) member)⟩

theorem splitLines_joined (e : LineEnd) (headers : List Bytes) (given : headers ≠ []) (lines : ∀ line ∈ headers, HeaderLine line) :
    splitLines (bufferText (joined e headers)) = headers.map bufferText := by
  fun_induction joined e headers with
  | case1 => exact absurd rfl given
  | case2 line =>
    have clean := (lines line List.mem_cons_self).text
    simp only [splitLines, Lines.ended_free _ _ clean.1, Lines.rest_free _ _ clean.1, List.map_nil, List.nil_append,
      List.map_cons]
  | case3 line next rest ih =>
    have clean := (lines line List.mem_cons_self).text
    rw [bufferText_lineEnd, splitLines_line e clean.1 clean.2, ih nofun fun l member => lines l (List.mem_cons_of_mem line member)]
    rfl

theorem takeWhile_stop {p : UInt16 → Bool} (inside after : JStr) (all : inside.all p = true)
    (stop : ∀ u ∈ after.head?, p u = false) :
    (inside ++ after).takeWhile p = inside ∧ (inside ++ after).dropWhile p = after := by
  have pass : ∀ u ∈ inside, p u = true := List.all_eq_true.mp all
  rw [List.takeWhile_append_of_pos pass, List.dropWhile_append_of_pos pass]
  cases after with
  | nil => simp
  | cons u rest =>
    have here := stop u rfl
    simp [here]

theorem isSpace_digit {u : UInt16} (digit : isDigitUnit u = true) : isSpace u = false := by
  simp only [isDigitUnit, Bool.and_eq_true, decide_eq_true_eq] at digit
  simp only [isSpace, Bool.or_eq_false_iff, Bool.and_eq_false_iff, decide_eq_false_iff_not, beq_eq_false_iff_ne]
  omega

theorem stripCi_name {text : String} {name : JStr} (field : JStr.asciiCase 65 97 name = JStr.lit text) (rest : JStr) :
    stripCi text (name ++ rest) = some rest := by
  have size : (JStr.lit text).length = name.length := by
    rw [← field, JStr.asciiCase, List.length_map]
  rw [stripCi, size, List.take_left, List.drop_left, if_pos field]

theorem contentLength_announces {line : JStr} {n : Nat} (announces : Announces line n) : contentLength line = some n := by
  obtain ⟨name, left, digits, right, rfl, field, blankLeft, blankRight, nonempty, numeric, value⟩ := announces.spelled
  have first : (left ++ (digits ++ right)).dropWhile isSpace = digits ++ right := by
    refine (takeWhile_stop left (digits ++ right) blankLeft fun u head => ?_).2
    obtain ⟨d, more, rfl⟩ := List.exists_cons_of_ne_nil nonempty
    obtain rfl := Option.some.inj head
    exact isSpace_digit (List.all_eq_true.mp numeric d List.mem_cons_self)
  obtain ⟨taken, dropped⟩ := takeWhile_stop digits right numeric fun u head => by
    have blank := List.all_eq_true.mp blankRight u (List.mem_of_mem_head? head)
    by_contra digit
    rw [isSpace_digit (Bool.not_eq_false _ ▸ digit)] at blank
    cases blank
  unfold contentLength
  rw [stripCi_name field, Option.bind_some, first]
  dsimp only
  rw [taken, dropped, if_pos ⟨nonempty, blankRight⟩, value]

theorem contentLength_other {line : Bytes} (other : OtherField line) : contentLength (bufferText line) = none := by
  rw [contentLength, other, Option.bind_none]

theorem multipartContentLength_joined (e : LineEnd) (part : Part) :
    multipartContentLength (bufferText (joined e part.headers)) =
      part.headers.findSome? fun line => contentLength (bufferText line) := by
  rw [multipartContentLength, splitLines_joined e part.headers part.given part.lines, List.findSome?_map]
  rfl

theorem multipartContentLength_announced (e : LineEnd) {part : Part} {n : Nat} (announced : Announced part.headers n) :
    multipartContentLength (bufferText (joined e part.headers)) = some n := by
  obtain ⟨before, line, after, headers, announces, others⟩ := announced
  have skipped : before.findSome? (fun line => contentLength (bufferText line)) = none :=
    List.findSome?_eq_none_iff.mpr fun l member => contentLength_other (others l (List.mem_append_left after member))
  rw [multipartContentLength_joined, headers, List.findSome?_append, skipped, List.findSome?_cons,
    contentLength_announces announces]
  rfl

theorem multipartContentLength_none (e : LineEnd) {part : Part} (silent : ∀ line ∈ part.headers, OtherField line) :
    multipartContentLength (bufferText (joined e part.headers)) = none := by
  rw [multipartContentLength_joined]
  exact List.findSome?_eq_none_iff.mpr fun l member => contentLength_other (silent l member)

/-! Reading what was written -/

theorem consumeLineEnding_at (e : LineEnd) (front rest : Bytes) :
    consumeLineEnding (front ++ (e.bytes ++ rest)) front.length = some (front.length + e.bytes.length) := by
  unfold consumeLineEnding
  cases e with
  | lf => simp [LineEnd.bytes]
  | crlf => simp [LineEnd.bytes]

theorem startsAt_front (needle front rest : Bytes) : startsAt needle (front ++ (needle ++ rest)) front.length = true := by
  rw [startsAt, List.drop_left]
  exact List.isPrefixOf_iff_prefix.mpr (List.prefix_append _ _)

theorem readMultipartBoundary_open (e : LineEnd) (boundary front rest : Bytes) :
    readMultipartBoundary (front ++ (boundary ++ (e.bytes ++ rest))) boundary front.length =
      some ⟨false, front.length + boundary.length + e.bytes.length⟩ := by
  have first : (front ++ (boundary ++ (e.bytes ++ rest)))[front.length + boundary.length]? ≠ some 45 := by
    rw [← List.append_assoc, ← List.length_append]
    cases e <;> simp [LineEnd.bytes]
  have ended := consumeLineEnding_at e (front ++ boundary) rest
  rw [List.length_append, List.append_assoc] at ended
  unfold readMultipartBoundary
  simp only [startsAt_front, Bool.not_true, Bool.false_eq_true, if_false, first, false_and, ended, Option.map_some,
    decide_false]

theorem readMultipartBoundary_closing (boundary front : Bytes) :
    readMultipartBoundary (front ++ (boundary ++ [45, 45])) boundary front.length =
      some ⟨true, front.length + boundary.length + 2⟩ := by
  have first : (front ++ (boundary ++ [45, 45]))[front.length + boundary.length]? = some 45 := by
    rw [← List.append_assoc, ← List.length_append, List.getElem?_append_right le_rfl, Nat.sub_self]
    rfl
  have second : (front ++ (boundary ++ [45, 45]))[front.length + boundary.length + 1]? = some 45 := by
    rw [← List.append_assoc, ← List.length_append, List.getElem?_append_right (by omega), Nat.add_sub_cancel_left]
    rfl
  have size : front.length + boundary.length + 2 = (front ++ (boundary ++ [45, 45])).length := by
    simp only [List.length_append, List.length_cons, List.length_nil]
    omega
  have ended : startsAt boundary (front ++ (boundary ++ [45, 45])) front.length = true := startsAt_front _ _ _
  unfold readMultipartBoundary
  simp only [ended, Bool.not_true, Bool.false_eq_true, if_false, first, second, and_self, if_true, ← size,
    decide_true]

theorem announcedEnd_at (e : LineEnd) (boundary front body rest : Bytes) :
    announcedEnd (front ++ (body ++ (e.bytes ++ (boundary ++ rest)))) boundary front.length body.length =
      some (front.length + body.length, front.length + body.length + e.bytes.length) := by
  have ended := consumeLineEnding_at e (front ++ body) (boundary ++ rest)
  have starts := startsAt_front boundary (front ++ (body ++ e.bytes)) rest
  have inside : front.length + body.length ≤ (front ++ (body ++ (e.bytes ++ (boundary ++ rest)))).length := by
    simp only [List.length_append]
    omega
  simp only [List.length_append, List.append_assoc, ← Nat.add_assoc] at ended starts
  unfold announcedEnd
  dsimp only
  rw [if_pos inside, ended, Option.bind_some, starts, if_pos rfl]

/-- A body of one line ends where the delimiter is first seen. -/
theorem searchedEnd_at (e : LineEnd) (boundary front body rest : Bytes) (lf : (0x0A : UInt8) ∉ body)
    (cr : (0x0D : UInt8) ∉ body ++ (boundary ++ rest)) :
    searchedEnd (front ++ (body ++ (e.bytes ++ (boundary ++ rest)))) boundary front.length =
      some (front.length + body.length, front.length + body.length + e.bytes.length) := by
  unfold searchedEnd
  rw [indexFrom_at, indexFrom_at]
  cases e with
  | lf =>
    have here : Search.indexOf (0x0A :: boundary) (0x0A :: (boundary ++ rest)) = some 0 :=
      Search.indexOf_here (List.prefix_append _ _)
    have absent : (0x0D : UInt8) ∉ body ++ 0x0A :: (boundary ++ rest) := by simpa using cr
    have layout : LineEnd.lf.bytes ++ (boundary ++ rest) = 0x0A :: (boundary ++ rest) := rfl
    have needle : [0x0D, 0x0A] ++ boundary = 0x0D :: 0x0A :: boundary := rfl
    rw [layout, needle, Search.indexOf_absent absent, Search.indexOf_skip lf, here]
    simp [LineEnd.bytes]
  | crlf =>
    have here : Search.indexOf (0x0D :: 0x0A :: boundary) (0x0D :: 0x0A :: (boundary ++ rest)) = some 0 :=
      Search.indexOf_here (List.prefix_append _ _)
    have free : (0x0D : UInt8) ∉ body := fun member => cr (List.mem_append_left _ member)
    have later : Search.indexOf (0x0A :: boundary) (0x0A :: (boundary ++ rest)) = some 0 :=
      Search.indexOf_here (List.prefix_append _ _)
    have clean : (0x0A : UInt8) ∉ body ++ [0x0D] := by simp [lf]
    have second := @Search.indexOf_skip _ _ _ boundary _ clean (0x0A :: (boundary ++ rest))
    rw [later, List.append_assoc, List.singleton_append] at second
    have layout : LineEnd.crlf.bytes ++ (boundary ++ rest) = 0x0D :: 0x0A :: (boundary ++ rest) := rfl
    have needle : [0x0D, 0x0A] ++ boundary = 0x0D :: 0x0A :: boundary := rfl
    rw [layout, needle, second, Search.indexOf_skip free, here]
    simp [LineEnd.bytes]

theorem readMultipartPart_at (e : LineEnd) (part : Part) (boundary front rest : Bytes) (next : Nat)
    (found : ((multipartContentLength (bufferText (joined e part.headers))).bind
        (announcedEnd (front ++ (part.bytes e ++ rest)) boundary (front.length + (joined e part.headers).length +
          (e.bytes ++ e.bytes).length))).or
        (searchedEnd (front ++ (part.bytes e ++ rest)) boundary (front.length + (joined e part.headers).length +
          (e.bytes ++ e.bytes).length)) =
      some (front.length + (joined e part.headers).length + (e.bytes ++ e.bytes).length + part.body.length, next)) :
    readMultipartPart (front ++ (part.bytes e ++ rest)) boundary front.length =
      some ⟨bufferText (joined e part.headers), part.body, next⟩ := by
  have header : ((front ++ (part.bytes e ++ rest)).drop front.length).take
      (front.length + (joined e part.headers).length - front.length) = joined e part.headers := by
    rw [List.drop_left, Nat.add_sub_cancel_left, Part.bytes, List.append_assoc, List.take_left]
  have body (bodyStart : Nat) (size : bodyStart = front.length + (joined e part.headers).length + (e.bytes ++ e.bytes).length) :
      ((front ++ (part.bytes e ++ rest)).drop bodyStart).take (bodyStart + part.body.length - bodyStart) = part.body := by
    have layout : front ++ (part.bytes e ++ rest) =
        front ++ (joined e part.headers ++ (e.bytes ++ e.bytes)) ++ (part.body ++ rest) := by
      simp only [Part.bytes, List.append_assoc]
    have reaches : bodyStart = (front ++ (joined e part.headers ++ (e.bytes ++ e.bytes))).length := by
      simp only [size, List.length_append, Nat.add_assoc]
    rw [Nat.add_sub_cancel_left, layout, reaches, List.drop_left, List.take_left]
  unfold readMultipartPart
  rw [multipartHeaderEnd_part]
  simp only [Option.bind_eq_bind, Option.bind_some, header, found, body _ rfl]

theorem readMultipartPart_announced (e : LineEnd) (part : Part) (boundary front rest : Bytes)
    (announced : Announced part.headers part.body.length) :
    readMultipartPart (front ++ (part.bytes e ++ (e.bytes ++ (boundary ++ rest)))) boundary front.length =
      some ⟨bufferText (joined e part.headers), part.body, (front ++ (part.bytes e ++ e.bytes)).length⟩ := by
  have ends := announcedEnd_at e boundary (front ++ (joined e part.headers ++ (e.bytes ++ e.bytes))) part.body rest
  have size : (front ++ (part.bytes e ++ e.bytes)).length =
      front.length + (joined e part.headers).length + (e.bytes ++ e.bytes).length + part.body.length + e.bytes.length := by
    simp only [Part.bytes, List.length_append]
    omega
  rw [size]
  apply readMultipartPart_at
  rw [multipartContentLength_announced e announced, Option.bind_some]
  simp only [Part.bytes, List.append_assoc, List.length_append, ← Nat.add_assoc] at ends ⊢
  rw [ends, Option.some_or]

theorem readMultipartPart_searched (e : LineEnd) (part : Part) (boundary front rest : Bytes)
    (silent : ∀ line ∈ part.headers, OtherField line) (lf : (0x0A : UInt8) ∉ part.body)
    (cr : (0x0D : UInt8) ∉ part.body ++ (boundary ++ rest)) :
    readMultipartPart (front ++ (part.bytes e ++ (e.bytes ++ (boundary ++ rest)))) boundary front.length =
      some ⟨bufferText (joined e part.headers), part.body, (front ++ (part.bytes e ++ e.bytes)).length⟩ := by
  have ends := searchedEnd_at e boundary (front ++ (joined e part.headers ++ (e.bytes ++ e.bytes))) part.body rest lf cr
  have size : (front ++ (part.bytes e ++ e.bytes)).length =
      front.length + (joined e part.headers).length + (e.bytes ++ e.bytes).length + part.body.length + e.bytes.length := by
    simp only [Part.bytes, List.length_append]
    omega
  rw [size]
  apply readMultipartPart_at
  rw [multipartContentLength_none e silent, Option.bind_none, Option.none_or]
  simp only [Part.bytes, List.append_assoc, List.length_append, ← Nat.add_assoc] at ends ⊢
  exact ends

/-! Where a capture begins -/

theorem stripCi_other {text : String} {first u : UInt16} {more : JStr} (spelled : JStr.lit text = first :: more)
    (other : JStr.asciiCase 65 97 [u] ≠ [first]) (rest : JStr) : stripCi text (u :: rest) = none := by
  rw [stripCi, spelled, if_neg]
  intro same
  apply other
  rw [List.length_cons, List.take_succ_cons] at same
  have heads := congrArg (List.take 1) same
  simpa [JStr.asciiCase] using heads

/-- The parameter of this content type is the whole boundary. -/
theorem boundaryParameter_mixed (boundary : JStr) (given : boundary ≠ [])
    (plain : ∀ u ∈ boundary, u ≠ 0x22 ∧ u ≠ 0x3B) :
    boundaryParameter (JStr.lit "multipart/mixed; boundary=" ++ boundary) = some boundary := by
  have spelled : JStr.lit "boundary=" = 0x62 :: JStr.lit "oundary=" := by decide
  have skip (front rest : JStr) (other : front.all (fun u => JStr.asciiCase 65 97 [u] != [0x62]) = true) :
      boundaryParameter (front ++ rest) = boundaryParameter rest := by
    induction front with
    | nil => rfl
    | cons u front ih =>
      rw [List.all_cons, Bool.and_eq_true, bne_iff_ne] at other
      rw [List.cons_append, boundaryParameter, boundaryHere, stripCi_other spelled other.1 (front ++ rest), Option.bind_none]
      exact ih other.2
  have front : JStr.lit "multipart/mixed; boundary=" = JStr.lit "multipart/mixed; " ++ JStr.lit "boundary=" := by decide
  have value : boundaryHere (JStr.lit "boundary=" ++ boundary) = some boundary := by
    obtain ⟨u, rest, rfl⟩ := List.exists_cons_of_ne_nil given
    have first : ¬(u :: rest).head? = some 0x22 := fun head =>
      (plain u List.mem_cons_self).1 (Option.some.inj head)
    have whole : (u :: rest).takeWhile (fun v => !(v = 0x22 || v = 0x3B)) = u :: rest := by
      refine List.takeWhile_eq_self_iff.mpr fun v member => ?_
      simp [plain v member]
    rw [boundaryHere, stripCi_name (by decide), Option.bind_some, if_neg first]
    dsimp only
    rw [whole, if_neg given]
  have opens : ∃ u more, JStr.lit "boundary=" ++ boundary = u :: more := ⟨_, _, by rw [spelled]; rfl⟩
  obtain ⟨u, more, eq⟩ := opens
  rw [front, List.append_assoc, skip _ _ (by decide), eq, boundaryParameter, ← eq, value]

theorem firstMultipartBoundary_front {bytes : Bytes} (dashes : bytes.take 2 = [45, 45]) {found : FirstBoundary}
    (eq : firstMultipartBoundary bytes = some found) : found.offset = 0 := by
  unfold firstMultipartBoundary at eq
  rw [if_pos dashes] at eq
  simp only [Option.bind_eq_bind, Option.bind_some, Option.bind_eq_some_iff, Option.pure_def, Option.some.injEq] at eq
  obtain ⟨lineEnd, -, _, -, rfl⟩ := eq
  rfl

theorem delimiter_eq (boundary : JStr) : delimiter boundary = 45 :: 45 :: boundary.utf8 :=
  JStr.utf8_lit_append "--" (by decide) boundary

/-- The two parts come back, whatever octets the response is made of. -/
theorem parseMultipartParts_capture (e : LineEnd) (boundary : JStr) (oneLine : ∀ u ∈ boundary, u ≠ 0x0D ∧ u ≠ 0x0A)
    (response proof : Part) (sized : Announced response.headers response.body.length)
    (lf : (0x0A : UInt8) ∉ proof.body) (cr : (0x0D : UInt8) ∉ proof.body)
    (fields : (∀ line ∈ proof.headers, OtherField line) ∨ Announced proof.headers proof.body.length) :
    parseMultipartParts node (multipartCapture e boundary response proof) (delimiter boundary) =
      some {
        body := response.body
        proof := partProof node proof.body
        bodyContentType := multipartContentType (bufferText (joined e response.headers)) } := by
  have carriage : (0x0D : UInt8) ∉ delimiter boundary := by
    rw [delimiter_eq]
    intro member
    simp only [List.mem_cons] at member
    rcases member with eq | eq | inside
    · cases eq
    · cases eq
    · exact (oneLine _ (JStr.mem_utf8_ascii (by decide) (by decide) inside)).1 rfl
  have first := readMultipartBoundary_open e (delimiter boundary) [] (response.bytes e ++ (e.bytes ++ (delimiter boundary ++
    (e.bytes ++ (proof.bytes e ++ (e.bytes ++ (delimiter boundary ++ [45, 45])))))))
  have part := readMultipartPart_announced e response (delimiter boundary) (delimiter boundary ++ e.bytes)
    (e.bytes ++ (proof.bytes e ++ (e.bytes ++ (delimiter boundary ++ [45, 45])))) sized
  have second := readMultipartBoundary_open e (delimiter boundary) (delimiter boundary ++ e.bytes ++ (response.bytes e ++ e.bytes))
    (proof.bytes e ++ (e.bytes ++ (delimiter boundary ++ [45, 45])))
  have read : readMultipartPart (delimiter boundary ++ e.bytes ++ (response.bytes e ++ e.bytes) ++ (delimiter boundary ++ e.bytes) ++
      (proof.bytes e ++ (e.bytes ++ (delimiter boundary ++ [45, 45])))) (delimiter boundary)
      (delimiter boundary ++ e.bytes ++ (response.bytes e ++ e.bytes) ++ (delimiter boundary ++ e.bytes)).length =
        some ⟨bufferText (joined e proof.headers), proof.body, (delimiter boundary ++ e.bytes ++ (response.bytes e ++ e.bytes) ++
          (delimiter boundary ++ e.bytes) ++ (proof.bytes e ++ e.bytes)).length⟩ := by
    rcases fields with silent | announced
    · refine readMultipartPart_searched e proof (delimiter boundary) _ [45, 45] silent lf ?_
      simp [cr, carriage]
    · exact readMultipartPart_announced e proof (delimiter boundary) _ [45, 45] announced
  have third := readMultipartBoundary_closing (delimiter boundary) (delimiter boundary ++ e.bytes ++ (response.bytes e ++ e.bytes) ++
    (delimiter boundary ++ e.bytes) ++ (proof.bytes e ++ e.bytes))
  simp only [List.nil_append, List.length_nil, Nat.zero_add, List.append_assoc, List.length_append, Nat.add_assoc]
    at first part second read third
  unfold parseMultipartParts multipartCapture
  rw [first]
  simp only [Option.bind_eq_bind, Option.bind_some, part, second, read, third, Option.pure_def, guard]
  rfl

theorem partProof_line {proof : JsVal} {json : JStr} (line : JsonLine node proof json)
    (available : proof.get "type" ≠ JsVal.lit "tee.proof_unavailable") : partProof node json.utf8 = some proof := by
  unfold partProof
  rw [bufferText_utf8 json line.wellFormed, line.parses]
  dsimp only
  split
  next s type =>
    rw [if_neg]
    rintro rfl
    exact available type
  next => rfl

theorem parseTeeProofMultipartResponse_exact (e : LineEnd) (boundary : JStr) (given : boundary ≠ [])
    (plain : ∀ u ∈ boundary, u ≠ 0x0D ∧ u ≠ 0x0A ∧ u ≠ 0x22 ∧ u ≠ 0x3B) (proof : JsVal) (json : JStr)
    (line : JsonLine node proof json) (available : proof.get "type" ≠ JsVal.lit "tee.proof_unavailable")
    (response proofPart : Part) (sized : Announced response.headers response.body.length) (text : proofPart.body = json.utf8)
    (fields : (∀ line ∈ proofPart.headers, OtherField line) ∨ Announced proofPart.headers proofPart.body.length) :
    parseTeeProofMultipartResponse node (multipartCapture e boundary response proofPart)
      (some (JStr.lit "multipart/mixed; boundary=" ++ boundary)) =
        some {
          body := response.body
          proof := some proof
          bodyContentType := multipartContentType (bufferText (joined e response.headers)) } := by
  have parameter := boundaryParameter_mixed boundary given fun u member => (plain u member).2.2
  have dashes : (multipartCapture e boundary response proofPart).take 2 = [45, 45] := by
    rw [multipartCapture, delimiter_eq]
    rfl
  have start : (match firstMultipartBoundary (multipartCapture e boundary response proofPart) with
      | some found => if found.boundary = boundary then found.offset else 0
      | none => 0) = 0 := by
    cases first : firstMultipartBoundary (multipartCapture e boundary response proofPart) with
    | none => rfl
    | some found =>
      dsimp only
      rw [firstMultipartBoundary_front dashes first, ite_self]
  have lf : (0x0A : UInt8) ∉ proofPart.body := text ▸ line.noNewline
  have cr : (0x0D : UInt8) ∉ proofPart.body := by
    rw [text]
    intro member
    exact absurd (line.oneLine _ (JStr.mem_utf8_ascii (by decide) (by decide) member)) (by decide)
  have parts := parseMultipartParts_capture node e boundary (fun u member => ⟨(plain u member).1, (plain u member).2.1⟩)
    response proofPart sized lf cr fields
  have named (first : Option FirstBoundary) :
      multipartBoundary (some (JStr.lit "multipart/mixed; boundary=" ++ boundary)) first = some boundary := by
    unfold multipartBoundary
    rw [Option.bind_some, parameter]
  unfold parseTeeProofMultipartResponse
  simp only [Option.bind_eq_bind, Option.bind_some, named, start, List.drop_zero]
  have tail : parseTeeProofMultipartTailCapture node (multipartCapture e boundary response proofPart)
      (JStr.utf8 (JStr.lit "--" ++ boundary)) 0 = none := rfl
  rw [tail, Option.none_or, ← delimiter, parts, text, partProof_line node line available]

/-- A response that imitates the end of its own part. -/
def imitatingPart : Part where
  headers := [JStr.utf8 "Content-Type: text/plain", JStr.utf8 "content-LENGTH: 11 "]
  body := JStr.utf8 "\r\n--x\r\n\r\n\r\n"
  given := nofun
  lines line member := by
    rcases List.mem_pair.mp member with rfl | rfl
    · exact ⟨by decide, by decide, by decide⟩
    · exact ⟨by decide, by decide, by decide⟩

theorem imitatingPart_announced : Announced imitatingPart.headers imitatingPart.body.length := by
  refine ⟨[_], _, [], rfl, ⟨⟨JStr.lit "content-LENGTH:", JStr.lit " ", JStr.lit "11", JStr.lit " ", ?_⟩⟩, ?_⟩
  · exact ⟨by decide, by decide, by decide, by decide, by decide, by decide, by decide⟩
  · intro other member
    obtain rfl := List.mem_singleton.mp member
    rw [OtherField]
    decide

def samplePart : Part where
  headers := [JStr.utf8 "Content-Disposition: attachment; name=\"proof\""]
  body := (captureJson plainHash).utf8
  given := nofun
  lines line member := by
    obtain rfl := List.mem_singleton.mp member
    exact ⟨by decide, by decide, by decide⟩

theorem parseTeeProofMultipartResponse_sample :
    parseTeeProofMultipartResponse (captureNode plainDigests plainHash) (multipartCapture .crlf (JStr.lit "x") imitatingPart samplePart)
      (some (JStr.lit "multipart/mixed; boundary=" ++ JStr.lit "x")) =
        some {
          body := imitatingPart.body
          proof := some (captureProof plainHash)
          bodyContentType := multipartContentType (bufferText (joined .crlf imitatingPart.headers)) } := by
  refine parseTeeProofMultipartResponse_exact (captureNode plainDigests plainHash) .crlf (JStr.lit "x") (by decide) ?_
    (captureProof plainHash) (captureJson plainHash) plainCapture_line ?_ imitatingPart samplePart imitatingPart_announced rfl (.inl ?_)
  · intro u member
    obtain rfl := List.mem_singleton.mp member
    decide
  · rintro ⟨⟩
  · intro line member
    obtain rfl := List.mem_singleton.mp member
    rw [OtherField]
    decide

end TeeProof.Verifier
