import TeeProof.Http1

/-! HTTP/1.1 requests on the wire, as RFC 7230 has a server read them: a request line, fields,
an empty line, and a body whose length the fields announce. -/
namespace TeeProof.Http

open Enclave (isTokenByte crlf)

structure Request where
  method : Bytes
  target : Bytes
  fields : List (Bytes × Bytes)
  body : Bytes
  deriving DecidableEq

def isBlank (b : UInt8) : Bool := b == 32 || b == 9

/-- `VCHAR`. -/
def isVisible (b : UInt8) : Bool := 33 ≤ b.toNat && b.toNat ≤ 126

/-- What a field value may hold: `VCHAR`, `obs-text` and blanks. -/
def isFieldByte (b : UInt8) : Bool := isVisible b || 128 ≤ b.toNat || isBlank b

def IsToken (b : Bytes) : Prop := b ≠ [] ∧ ∀ x ∈ b, isTokenByte x = true
def IsTarget (b : Bytes) : Prop := b ≠ [] ∧ ∀ x ∈ b, isVisible x = true
def IsFieldValue (b : Bytes) : Prop := ∀ x ∈ b, isFieldByte x = true

instance (b : Bytes) : Decidable (IsToken b) := inferInstanceAs (Decidable (b ≠ [] ∧ ∀ x ∈ b, isTokenByte x = true))
instance (b : Bytes) : Decidable (IsTarget b) := inferInstanceAs (Decidable (b ≠ [] ∧ ∀ x ∈ b, isVisible x = true))
instance (b : Bytes) : Decidable (IsFieldValue b) := inferInstanceAs (Decidable (∀ x ∈ b, isFieldByte x = true))

/-- A value without the blanks around it. -/
def trimBlanks (b : Bytes) : Bytes := ((b.dropWhile isBlank).reverse.dropWhile isBlank).reverse

def lowerByte (b : UInt8) : UInt8 := if 65 ≤ b.toNat ∧ b.toNat ≤ 90 then b + 32 else b

/-- The values of the fields of one name, given in lower case. -/
def valuesOf (name : Bytes) (fields : List (Bytes × Bytes)) : List Bytes :=
  (fields.filter fun p => p.1.map lowerByte = name).map Prod.snd

def hostName : Bytes := Utf8.encode "host".toList
def contentLengthName : Bytes := Utf8.encode "content-length".toList
def transferEncodingName : Bytes := Utf8.encode "transfer-encoding".toList

/-- `1*DIGIT`. -/
def decimal (b : Bytes) : Option Nat :=
  if b = [] then none
  else b.foldlM (fun n x => if 48 ≤ x.toNat ∧ x.toNat ≤ 57 then some (n * 10 + (x.toNat - 48)) else none) 0

/-- The length of the body: by a single content length, and under no transfer coding. -/
def bodyLength (fields : List (Bytes × Bytes)) : Option Nat :=
  if valuesOf transferEncodingName fields ≠ [] then none
  else
    match valuesOf contentLengthName fields with
    | [] => some 0
    | [value] => decimal value
    | _ => none

/-- A line and what follows its end. -/
def cutLine : Bytes → Option (Bytes × Bytes)
  | [] => none
  | x :: rest =>
    if x = 13 ∧ rest.head? = some 10 then some ([], rest.tail)
    else (cutLine rest).map fun cut => (x :: cut.1, cut.2)

/-- The part before the first such byte, and the part behind it. -/
def cutAt (sep : UInt8) (b : Bytes) : Option (Bytes × Bytes) :=
  match b.dropWhile (· != sep) with
  | [] => none
  | _ :: rest => some (b.takeWhile (· != sep), rest)

def version : Bytes := Utf8.encode "HTTP/1.1".toList

def readRequestLine (line : Bytes) : Option (Bytes × Bytes) := do
  let (method, rest) ← cutAt 32 line
  let (target, last) ← cutAt 32 rest
  if IsToken method ∧ IsTarget target ∧ last = version then some (method, target) else none

def readField (line : Bytes) : Option (Bytes × Bytes) := do
  let (name, rest) ← cutAt 58 line
  let value := trimBlanks rest
  if IsToken name ∧ IsFieldValue value then some (name, value) else none

theorem cutLine_eq_some {b line rest : Bytes} (cut : cutLine b = some (line, rest)) : b = line ++ (crlf ++ rest) := by
  induction b generalizing line with
  | nil => cases cut
  | cons x tail ih =>
    rw [cutLine] at cut
    split at cut
    next ends =>
      obtain ⟨rfl, rfl⟩ := Prod.mk.inj (Option.some.inj cut)
      obtain ⟨more, rfl⟩ : ∃ more, tail = 10 :: more := by
        cases tail with
        | nil => simp at ends
        | cons y more => exact ⟨more, by simpa using ends.2⟩
      rw [ends.1]
      rfl
    next =>
      obtain ⟨⟨front, last⟩, inner, eq⟩ := Option.map_eq_some_iff.mp cut
      obtain ⟨rfl, rfl⟩ := Prod.mk.inj eq
      rw [ih inner]
      rfl

theorem cutLine_shorter {b line rest : Bytes} (cut : cutLine b = some (line, rest)) : rest.length < b.length := by
  rw [cutLine_eq_some cut]
  simp only [List.length_append, crlf, List.length_cons]
  omega

theorem cutLine_line {line : Bytes} (free : (13 : UInt8) ∉ line) (rest : Bytes) :
    cutLine (line ++ (crlf ++ rest)) = some (line, rest) := by
  induction line with
  | nil => rfl
  | cons x tail ih =>
    rw [List.mem_cons, not_or] at free
    obtain ⟨other, inside⟩ := free
    rw [List.cons_append, cutLine, if_neg (fun ends => other ends.1.symm), ih inside]
    rfl

/-- The fields up to the empty line, and what follows it. -/
def readFields (b : Bytes) : Option (List (Bytes × Bytes) × Bytes) :=
  match _cut : cutLine b with
  | none => none
  | some (line, rest) =>
    if line = [] then some ([], rest)
    else do
      let field ← readField line
      let (fields, rest) ← readFields rest
      some (field :: fields, rest)
  termination_by b.length
  decreasing_by exact cutLine_shorter _cut

/-- One request from the front of a stream, and the bytes that follow it. -/
def readRequest (b : Bytes) : Option (Request × Bytes) := do
  let (line, rest) ← cutLine b
  let (method, target) ← readRequestLine line
  let (fields, rest) ← readFields rest
  let n ← bodyLength fields
  if n ≤ rest.length then some (⟨method, target, fields, rest.take n⟩, rest.drop n) else none

/-! What is read is well formed. -/

/-- A field as it was written: a value may have blanks around it. -/
structure IsField (field : Bytes × Bytes) : Prop where
  name : IsToken field.1
  value : IsFieldValue field.2

theorem readField_isField {line : Bytes} {field : Bytes × Bytes} (read : readField line = some field) : IsField field := by
  rw [readField] at read
  obtain ⟨⟨name, rest⟩, -, read⟩ := Option.bind_eq_some_iff.mp read
  dsimp only at read
  split at read
  next valid =>
    obtain rfl := Option.some.inj read
    exact ⟨valid.1, valid.2⟩
  · cases read

theorem readFields_line {b line rest : Bytes} (cut : cutLine b = some (line, rest)) :
    readFields b =
      if line = [] then some ([], rest)
      else (readField line).bind fun field => (readFields rest).bind fun more => some (field :: more.1, more.2) := by
  rw [readFields]
  split
  next none => cases cut.symm.trans none
  next same =>
    obtain ⟨rfl, rfl⟩ := Prod.mk.inj (Option.some.inj (cut.symm.trans same))
    rfl

theorem readFields_isField {b rest : Bytes} {fields : List (Bytes × Bytes)} (read : readFields b = some (fields, rest)) :
    ∀ p ∈ fields, IsField p := by
  induction size : b.length using Nat.strong_induction_on generalizing b rest fields with
  | _ size ih =>
    cases cut : cutLine b with
    | none =>
      rw [readFields] at read
      split at read
      · cases read
      next same => cases cut.symm.trans same
    | some parts =>
      rw [readFields_line cut] at read
      split at read
      · obtain ⟨rfl, -⟩ := Prod.mk.inj (Option.some.inj read)
        exact List.forall_mem_nil _
      · obtain ⟨field, one, read⟩ := Option.bind_eq_some_iff.mp read
        obtain ⟨⟨more, last⟩, many, read⟩ := Option.bind_eq_some_iff.mp read
        obtain ⟨rfl, rfl⟩ := Prod.mk.inj (Option.some.inj read)
        intro p member
        rcases List.mem_cons.mp member with rfl | inside
        · exact readField_isField one
        · exact ih _ (size ▸ cutLine_shorter cut) many rfl p inside

/-- A request as a server has read it. -/
structure IsRequest (r : Request) : Prop where
  method : IsToken r.method
  target : IsTarget r.target
  fields : ∀ p ∈ r.fields, IsField p
  length : bodyLength r.fields = some r.body.length

theorem readRequest_isRequest {b rest : Bytes} {r : Request} (read : readRequest b = some (r, rest)) : IsRequest r := by
  rw [readRequest] at read
  obtain ⟨⟨line, after⟩, -, read⟩ := Option.bind_eq_some_iff.mp read
  obtain ⟨⟨method, target⟩, first, read⟩ := Option.bind_eq_some_iff.mp read
  obtain ⟨⟨fields, body⟩, many, read⟩ := Option.bind_eq_some_iff.mp read
  obtain ⟨n, announced, read⟩ := Option.bind_eq_some_iff.mp read
  split at read
  next enough =>
    obtain ⟨rfl, -⟩ := Prod.mk.inj (Option.some.inj read)
    have valid : IsToken method ∧ IsTarget target := by
      rw [readRequestLine] at first
      obtain ⟨⟨front, back⟩, -, first⟩ := Option.bind_eq_some_iff.mp first
      obtain ⟨⟨middle, last⟩, -, first⟩ := Option.bind_eq_some_iff.mp first
      dsimp only at first
      split at first
      next valid =>
        obtain ⟨rfl, rfl⟩ := Prod.mk.inj (Option.some.inj first)
        exact ⟨valid.1, valid.2.1⟩
      · cases first
    refine ⟨valid.1, valid.2, readFields_isField many, ?_⟩
    rw [announced, List.length_take, Nat.min_eq_left enough]
  · cases read

/-! What is written is read back. -/

def lineBytes (name value : Bytes) : Bytes := name ++ (58 :: 32 :: value)

/-- A request line, the fields, an empty line and the body. -/
def render (method target : Bytes) (fields : List (Bytes × Bytes)) (body : Bytes) : Bytes :=
  (method ++ 32 :: (target ++ 32 :: version)) ++ (crlf ++
    ((fields.flatMap fun p => lineBytes p.1 p.2 ++ crlf) ++ (crlf ++ body)))

theorem cutAt_front {sep : UInt8} {front : Bytes} (free : sep ∉ front) (rest : Bytes) :
    cutAt sep (front ++ sep :: rest) = some (front, rest) := by
  have all : ∀ x ∈ front, (x != sep) = true := by
    intro x member
    rw [bne_iff_ne]
    rintro rfl
    exact free member
  rw [cutAt, List.dropWhile_append_of_pos all, List.takeWhile_append_of_pos all, List.dropWhile_cons_of_neg (by simp),
    List.takeWhile_cons_of_neg (by simp), List.append_nil]

theorem isToken_free {b : Bytes} (token : IsToken b) : (13 : UInt8) ∉ b ∧ (32 : UInt8) ∉ b ∧ (58 : UInt8) ∉ b := by
  have other (x : UInt8) (no : isTokenByte x = false) : x ∉ b := by
    intro member
    rw [token.2 x member] at no
    cases no
  exact ⟨other 13 (by decide), other 32 (by decide), other 58 (by decide)⟩

theorem isTarget_free {b : Bytes} (target : IsTarget b) : (13 : UInt8) ∉ b ∧ (32 : UInt8) ∉ b := by
  have other (x : UInt8) (no : isVisible x = false) : x ∉ b := by
    intro member
    rw [target.2 x member] at no
    cases no
  exact ⟨other 13 (by decide), other 32 (by decide)⟩

theorem isFieldValue_free {b : Bytes} (value : IsFieldValue b) : (13 : UInt8) ∉ b := by
  intro member
  have no : isFieldByte 13 = true := value 13 member
  revert no
  decide

theorem readRequestLine_bytes {method target : Bytes} (token : IsToken method) (visible : IsTarget target) :
    readRequestLine (method ++ 32 :: (target ++ 32 :: version)) = some (method, target) := by
  rw [readRequestLine, cutAt_front (isToken_free token).2.1]
  simp only [Option.bind_eq_bind, Option.bind_some, cutAt_front (isTarget_free visible).2]
  rw [if_pos ⟨token, visible, trivial⟩]

theorem trimBlanks_cons (value : Bytes) : trimBlanks (32 :: value) = trimBlanks value := by
  have blank : isBlank 32 = true := by decide
  rw [trimBlanks, trimBlanks, List.dropWhile_cons_of_pos blank]

theorem mem_of_mem_trimBlanks {x : UInt8} {value : Bytes} (member : x ∈ trimBlanks value) : x ∈ value := by
  rw [trimBlanks, List.mem_reverse] at member
  have back := List.dropWhile_subset _ member
  rw [List.mem_reverse] at back
  exact List.dropWhile_subset _ back

/-- Only blanks are taken away. -/
theorem mem_trimBlanks {x : UInt8} {value : Bytes} (member : x ∈ value) : isBlank x = true ∨ x ∈ trimBlanks value := by
  have cut (l : Bytes) (inside : x ∈ l) : isBlank x = true ∨ x ∈ l.dropWhile isBlank := by
    rw [← List.takeWhile_append_dropWhile (p := isBlank) (l := l)] at inside
    rcases List.mem_append.mp inside with front | back
    · exact .inl (List.mem_takeWhile_imp front)
    · exact .inr back
  rcases cut value member with blank | inside
  · exact .inl blank
  · rw [← List.mem_reverse] at inside
    rw [trimBlanks, List.mem_reverse]
    exact cut _ inside

theorem isFieldValue_trimBlanks (value : Bytes) : IsFieldValue (trimBlanks value) ↔ IsFieldValue value := by
  constructor
  · intro valid x member
    rcases mem_trimBlanks member with blank | inside
    · rw [isFieldByte, blank, Bool.or_true]
    · exact valid x inside
  · intro valid x member
    exact valid x (mem_of_mem_trimBlanks member)

theorem readField_bytes {name value : Bytes} (field : IsField (name, value)) :
    readField (lineBytes name value) = some (name, trimBlanks value) := by
  rw [readField, lineBytes, cutAt_front (isToken_free field.name).2.2]
  simp only [Option.bind_eq_bind, Option.bind_some, trimBlanks_cons]
  rw [if_pos ⟨field.name, (isFieldValue_trimBlanks value).mpr field.value⟩]

/-- A field as it is read. -/
def received (p : Bytes × Bytes) : Bytes × Bytes := (p.1, trimBlanks p.2)

theorem readFields_bytes {fields : List (Bytes × Bytes)} (valid : ∀ p ∈ fields, IsField p) (rest : Bytes) :
    readFields ((fields.flatMap fun p => lineBytes p.1 p.2 ++ crlf) ++ (crlf ++ rest)) = some (fields.map received, rest) := by
  induction fields with
  | nil =>
    have free : (13 : UInt8) ∉ ([] : Bytes) := by simp
    have cut : cutLine (crlf ++ rest) = some ([], rest) := cutLine_line free rest
    rw [List.flatMap_nil, List.nil_append, readFields_line cut, if_pos rfl]
    rfl
  | cons p fields ih =>
    have field : IsField (p.1, p.2) := valid p List.mem_cons_self
    have free : (13 : UInt8) ∉ lineBytes p.1 p.2 := by
      simp only [lineBytes, List.mem_append, List.mem_cons, not_or]
      exact ⟨(isToken_free field.name).1, by decide, by decide, isFieldValue_free field.value⟩
    have some : lineBytes p.1 p.2 ≠ [] := by simp [lineBytes]
    rw [List.flatMap_cons, List.append_assoc, List.append_assoc, readFields_line (cutLine_line free _), if_neg some,
      readField_bytes field]
    simp only [Option.bind_some, ih fun q member => valid q (List.mem_cons_of_mem p member)]
    rfl

/-- Bytes that were put together are read as one request, field by field and with nothing behind
it, where its parts are well formed and announce the body. -/
theorem readRequest_render_iff (method target : Bytes) (fields : List (Bytes × Bytes)) (body : Bytes) :
    readRequest (render method target fields body) = some (⟨method, target, fields.map received, body⟩, []) ↔
      IsToken method ∧ IsTarget target ∧ (∀ p ∈ fields, IsField p) ∧ bodyLength (fields.map received) = some body.length := by
  constructor
  · intro read
    have valid := readRequest_isRequest read
    refine ⟨valid.method, valid.target, fun p member => ?_, valid.length⟩
    have field := valid.fields (received p) (List.mem_map_of_mem member)
    exact ⟨field.name, (isFieldValue_trimBlanks p.2).mp field.value⟩
  · rintro ⟨token, visible, valid, announced⟩
    have free : (13 : UInt8) ∉ method ++ 32 :: (target ++ 32 :: version) := by
      have fixed : (13 : UInt8) ∉ version := by decide
      simp only [List.mem_append, List.mem_cons, not_or]
      exact ⟨(isToken_free token).1, by decide, (isTarget_free visible).1, by decide, fixed⟩
    rw [readRequest, render, cutLine_line free]
    simp only [Option.bind_eq_bind, Option.bind_some, readRequestLine_bytes token visible, readFields_bytes valid, announced]
    rw [if_pos le_rfl, List.take_length, List.drop_length]

end TeeProof.Http
