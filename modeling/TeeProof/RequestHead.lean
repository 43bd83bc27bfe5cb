import TeeProof.RequestGrammar
import TeeProof.ResponseHead
import TeeProof.Trailer

/-! The request that `handle` sends upstream: its head from the ordered header template of the
caller or from the caller's header map, and the body behind it. -/
namespace TeeProof.Enclave

open Http (Request IsTarget IsFieldValue IsField trimBlanks)

variable (rust : Rust)

/-- `parse_headers_ordered`: every item is a name and a value. -/
def parseHeadersOrdered (v : Option (List (List Str))) : Option (List (Str × Str)) :=
  v.bind fun arr => arr.mapM fun pair =>
    match pair with
    | [k, v] => some (k, v)
    | _ => none

/-- `format!("{} {} HTTP/1.1\r\n")`. -/
def requestLine (method path : Str) : Str := method ++ ' ' :: (path ++ " HTTP/1.1\r\n".toList)

/-- `format!("{}: {}\r\n")`. -/
def fieldLine (k v : Str) : Str := k ++ ':' :: ' ' :: (v ++ "\r\n".toList)

def bearer (token : Str) : Str := "Bearer ".toList ++ token

def isNamed (name : String) (k : Str) : Bool := Str.eqIgnoreAsciiCase k name.toList

/-- The head while `build_request_head_ordered` goes through the template. -/
structure HeadWriter where
  s : Str
  hostSeen : Bool := false
  clenSeen : Bool := false

/-- One item of the template. -/
def HeadWriter.item (token : Option Str) (bodyLen : Nat) (w : HeadWriter) (p : Str × Str) : HeadWriter :=
  if isNamed "authorization" p.1 then
    match token with
    | some t => { w with s := w.s ++ fieldLine p.1 (bearer t) }
    | none => w
  else if isNamed "content-length" p.1 then { w with s := w.s ++ fieldLine p.1 (Str.natDigits bodyLen), clenSeen := true }
  else if isNamed "transfer-encoding" p.1 then w
  else { w with s := w.s ++ fieldLine p.1 p.2, hostSeen := w.hostSeen || isNamed "host" p.1 }

def buildRequestHeadOrdered (normMethod path host : Str) (ordered : List (Str × Str)) (token : Option Str) (bodyLen : Nat) :
    Str :=
  let w := ordered.foldl (HeadWriter.item token bodyLen) { s := requestLine normMethod path }
  let s := if !w.hostSeen then w.s ++ fieldLine "host".toList host else w.s
  let s := if !w.clenSeen then s ++ fieldLine "content-length".toList (Str.natDigits bodyLen) else s
  s ++ "\r\n".toList

/-- The names that are left out of the header map. -/
def reservedNames : List String :=
  ["host", "authorization", "content-length", "connection", "transfer-encoding", "te", "trailer", "upgrade",
    "proxy-connection", "keep-alive"]

def isReserved (k : Str) : Bool := reservedNames.any fun name => rust.toLowercase k == name.toList

/-- The head of `handle` without a template. -/
def buildRequestHead (normMethod path host : Str) (headers : List (Str × Str)) (token : Option Str) (bodyLen : Nat) : Str :=
  let req := requestLine normMethod path ++ fieldLine "host".toList host
  let req := headers.foldl (fun req p => if isReserved rust p.1 then req else req ++ fieldLine p.1 p.2) req
  let req := match token with
    | some t => req ++ fieldLine "authorization".toList (bearer t)
    | none => req
  req ++ fieldLine "content-length".toList (Str.natDigits bodyLen) ++ "connection: close\r\n\r\n".toList

def requestHead (head : ReqHead) (bodyLen : Nat) : Str :=
  let normMethod := rust.toUppercase head.upstream.method
  match parseHeadersOrdered head.upstream.headersOrdered with
  | some ordered => buildRequestHeadOrdered normMethod head.upstream.path head.upstream.host ordered head.token bodyLen
  | none => buildRequestHead rust normMethod head.upstream.path head.upstream.host head.upstream.headers head.token bodyLen

/-- What `handle` writes to an HTTP/1.1 upstream. -/
def requestBytes (head : ReqHead) (body : Bytes) : Bytes := Utf8.encode (requestHead rust head body.length) ++ body

/-! The fields of a head. -/

/-- The field that an item of the template goes out as. -/
def orderedField (token : Option Str) (bodyLen : Nat) (p : Str × Str) : Option (Str × Str) :=
  if isNamed "authorization" p.1 then token.map fun t => (p.1, bearer t)
  else if isNamed "content-length" p.1 then some (p.1, Str.natDigits bodyLen)
  else if isNamed "transfer-encoding" p.1 then none
  else some p

/-- A field added where the template has none of its name. -/
def absent (name : String) (ordered : List (Str × Str)) (value : Str) : List (Str × Str) :=
  if ordered.any fun p => isNamed name p.1 then [] else [(name.toList, value)]

def orderedFields (host : Str) (ordered : List (Str × Str)) (token : Option Str) (bodyLen : Nat) : List (Str × Str) :=
  ordered.filterMap (orderedField token bodyLen) ++ absent "host" ordered host ++
    absent "content-length" ordered (Str.natDigits bodyLen)

def mapFields (host : Str) (headers : List (Str × Str)) (token : Option Str) (bodyLen : Nat) : List (Str × Str) :=
  ("host".toList, host) :: (headers.filter fun p => !isReserved rust p.1) ++
    (token.map fun t => ("authorization".toList, bearer t)).toList ++
    [("content-length".toList, Str.natDigits bodyLen), ("connection".toList, "close".toList)]

def requestFields (head : ReqHead) (bodyLen : Nat) : List (Str × Str) :=
  match parseHeadersOrdered head.upstream.headersOrdered with
  | some ordered => orderedFields head.upstream.host ordered head.token bodyLen
  | none => mapFields rust head.upstream.host head.upstream.headers head.token bodyLen

def fieldLines (fields : List (Str × Str)) : Str := fields.flatMap fun p => fieldLine p.1 p.2

theorem named_apart {name other : String} (apart : Str.toAsciiLowercase name.toList ≠ Str.toAsciiLowercase other.toList)
    {k : Str} (named : isNamed name k = true) : isNamed other k = false := by
  rw [isNamed, Str.eqIgnoreAsciiCase, beq_iff_eq] at named
  rw [isNamed, Str.eqIgnoreAsciiCase, beq_eq_false_iff_ne, named]
  exact apart

theorem item_run (token : Option Str) (bodyLen : Nat) (ordered : List (Str × Str)) (w : HeadWriter) :
    ordered.foldl (HeadWriter.item token bodyLen) w =
      { s := w.s ++ fieldLines (ordered.filterMap (orderedField token bodyLen))
        hostSeen := w.hostSeen || ordered.any fun p => isNamed "host" p.1
        clenSeen := w.clenSeen || ordered.any fun p => isNamed "content-length" p.1 } := by
  induction ordered generalizing w with
  | nil => simp [fieldLines]
  | cons p ordered ih =>
    rw [List.foldl_cons, ih, List.filterMap_cons, List.any_cons, List.any_cons]
    by_cases auth : isNamed "authorization" p.1
    · have host : isNamed "host" p.1 = false := named_apart (by decide) auth
      have clen : isNamed "content-length" p.1 = false := named_apart (by decide) auth
      cases token with
      | none => simp [HeadWriter.item, orderedField, auth, host, clen]
      | some t => simp [HeadWriter.item, orderedField, auth, host, clen, fieldLines]
    · by_cases clen : isNamed "content-length" p.1
      · have host : isNamed "host" p.1 = false := named_apart (by decide) clen
        simp [HeadWriter.item, orderedField, auth, host, clen, fieldLines]
      · by_cases te : isNamed "transfer-encoding" p.1
        · have host : isNamed "host" p.1 = false := named_apart (by decide) te
          simp [HeadWriter.item, orderedField, auth, host, clen, te]
        · simp [HeadWriter.item, orderedField, auth, clen, te, fieldLines, Bool.or_assoc]

theorem buildRequestHeadOrdered_lines (normMethod path host : Str) (ordered : List (Str × Str)) (token : Option Str)
    (bodyLen : Nat) :
    buildRequestHeadOrdered normMethod path host ordered token bodyLen =
      requestLine normMethod path ++ fieldLines (orderedFields host ordered token bodyLen) ++ "\r\n".toList := by
  rw [buildRequestHeadOrdered, item_run, orderedFields, absent, absent]
  cases ordered.any fun p => isNamed "host" p.1 <;> cases ordered.any fun p => isNamed "content-length" p.1 <;>
    simp [fieldLines]

theorem reserved_run (headers : List (Str × Str)) (req : Str) :
    headers.foldl (fun req p => if isReserved rust p.1 then req else req ++ fieldLine p.1 p.2) req =
      req ++ fieldLines (headers.filter fun p => !isReserved rust p.1) := by
  induction headers generalizing req with
  | nil => simp [fieldLines]
  | cons p headers ih =>
    rw [List.foldl_cons, ih, List.filter_cons]
    cases isReserved rust p.1 <;> simp [fieldLines]

theorem buildRequestHead_lines (normMethod path host : Str) (headers : List (Str × Str)) (token : Option Str) (bodyLen : Nat) :
    buildRequestHead rust normMethod path host headers token bodyLen =
      requestLine normMethod path ++ fieldLines (mapFields rust host headers token bodyLen) ++ "\r\n".toList := by
  have close : "connection: close\r\n\r\n".toList = fieldLine "connection".toList "close".toList ++ "\r\n".toList := rfl
  unfold buildRequestHead
  simp only [reserved_run, mapFields, close]
  cases token <;> simp [fieldLines]

/-- A field as its bytes. -/
def fieldBytes (p : Str × Str) : Bytes × Bytes := (Utf8.encode p.1, Utf8.encode p.2)

theorem encode_crlf : Utf8.encode "\r\n".toList = crlf := by decide

theorem encode_fieldLines (fields : List (Str × Str)) :
    Utf8.encode (fieldLines fields) = (fields.map fieldBytes).flatMap fun p => Http.lineBytes p.1 p.2 ++ crlf := by
  induction fields with
  | nil => rfl
  | cons p fields ih =>
    have mark : Utf8.encode (fieldLine p.1 p.2) = Http.lineBytes (Utf8.encode p.1) (Utf8.encode p.2) ++ crlf := by
      rw [← encode_crlf]
      simp only [fieldLine, Http.lineBytes, Utf8.encode_append, Utf8.encode_cons, List.append_assoc, List.cons_append]
      rfl
    have more := ih
    rw [fieldLines] at more ⊢
    rw [List.flatMap_cons, Utf8.encode_append, mark, more]
    rfl

theorem requestBytes_render (head : ReqHead) (body : Bytes) :
    requestBytes rust head body =
      Http.render (Utf8.encode (rust.toUppercase head.upstream.method)) (Utf8.encode head.upstream.path)
        ((requestFields rust head body.length).map fieldBytes) body := by
  have lines : requestHead rust head body.length = requestLine (rust.toUppercase head.upstream.method) head.upstream.path ++
      fieldLines (requestFields rust head body.length) ++ "\r\n".toList := by
    rw [requestHead, requestFields]
    cases parseHeadersOrdered head.upstream.headersOrdered with
    | none => exact buildRequestHead_lines rust ..
    | some ordered => exact buildRequestHeadOrdered_lines ..
  have first (method path : Str) : Utf8.encode (requestLine method path) =
      Utf8.encode method ++ 32 :: (Utf8.encode path ++ 32 :: Http.version) ++ crlf := by
    have last : Utf8.encode " HTTP/1.1\r\n".toList = 32 :: (Http.version ++ crlf) := by decide
    simp only [requestLine, Utf8.encode_append, Utf8.encode_cons, last, List.append_assoc, List.cons_append]
    rfl
  rw [requestBytes, lines, Utf8.encode_append, Utf8.encode_append, first, encode_fieldLines, encode_crlf, Http.render]
  simp only [List.append_assoc]

/-! Names and lengths on the wire. -/

theorem toLower_wide {c : Char} (wide : 0x80 ≤ c.toNat) : c.toLower = c := by
  have bound : ¬(c.val ≤ 'Z'.val) := by
    intro small
    have le : c.val.toNat ≤ 90 := UInt32.le_iff_toNat_le.mp small
    have eq : c.toNat = c.val.toNat := rfl
    omega
  rw [Char.toLower, dif_neg (fun upper => bound upper.2)]

theorem lower_char (c : Char) : (String.utf8EncodeChar c).map Http.lowerByte = String.utf8EncodeChar c.toLower := by
  rcases Nat.lt_or_ge c.toNat 0x80 with ascii | wide
  · have all : ∀ n < 0x80, (String.utf8EncodeChar (Char.ofNat n)).map Http.lowerByte =
        String.utf8EncodeChar (Char.ofNat n).toLower := by decide
    have same := all c.toNat ascii
    rwa [Char.ofNat_toNat] at same
  · rw [toLower_wide wide]
    have high (b : UInt8) (member : b ∈ String.utf8EncodeChar c) : Http.lowerByte b = b := by
      have large : ¬b.toNat < 0x80 := by
        intro small
        have eq := (Utf8.mem_encodeChar_ascii c b small).mp member
        have same : c.toNat = c.val.toNat := rfl
        omega
      rw [Http.lowerByte, if_neg (by omega)]
    rw [List.map_congr_left high, List.map_id']

theorem lower_encode (k : Str) : (Utf8.encode k).map Http.lowerByte = Utf8.encode (Str.toAsciiLowercase k) := by
  induction k with
  | nil => rfl
  | cons c k ih =>
    rw [Utf8.encode_cons, List.map_append, lower_char, ih]
    rfl

theorem lower_encode_iff {name : String} (lower : Str.toAsciiLowercase name.toList = name.toList) (k : Str) :
    (Utf8.encode k).map Http.lowerByte = Utf8.encode name.toList ↔ isNamed name k = true := by
  rw [lower_encode, isNamed, Str.eqIgnoreAsciiCase, beq_iff_eq, lower]
  exact ⟨fun same => Utf8.encode_injective same, congrArg Utf8.encode⟩

/-- The values that a server reads under a name. -/
theorem valuesOf_fields {name : String} (lower : Str.toAsciiLowercase name.toList = name.toList) (fields : List (Str × Str)) :
    Http.valuesOf (Utf8.encode name.toList) ((fields.map fieldBytes).map Http.received) =
      (fields.filter fun p => isNamed name p.1).map fun p => trimBlanks (Utf8.encode p.2) := by
  induction fields with
  | nil => rfl
  | cons p fields ih =>
    rw [Http.valuesOf] at ih ⊢
    rw [List.map_cons, List.map_cons, List.filter_cons, List.filter_cons]
    have head : (Http.received (fieldBytes p)).1 = Utf8.encode p.1 := rfl
    rw [head]
    by_cases named : isNamed name p.1 = true
    · rw [if_pos (decide_eq_true ((lower_encode_iff lower p.1).mpr named)), if_pos named, List.map_cons, List.map_cons, ih]
      rfl
    · rw [if_neg (by rw [decide_eq_true_eq, lower_encode_iff lower]; exact named), if_neg named, ih]

theorem isDigit_char {c : Char} (digit : c.isDigit = true) :
    ∃ b : UInt8, String.utf8EncodeChar c = [b] ∧ 48 ≤ b.toNat ∧ b.toNat ≤ 57 ∧ b.toNat = c.toNat := by
  have table : ∀ n < 0x80, (Char.ofNat n).isDigit = true →
      String.utf8EncodeChar (Char.ofNat n) = [UInt8.ofNat n] ∧ 48 ≤ (UInt8.ofNat n).toNat ∧
        (UInt8.ofNat n).toNat ≤ 57 ∧ (UInt8.ofNat n).toNat = n := by decide
  have small : c.toNat < 0x80 := by
    simp only [Char.isDigit, ge_iff_le, Bool.and_eq_true, decide_eq_true_eq] at digit
    have le : c.val.toNat ≤ 57 := UInt32.le_iff_toNat_le.mp digit.2
    have eq : c.toNat = c.val.toNat := rfl
    omega
  have here := table c.toNat small
  rw [Char.ofNat_toNat] at here
  exact ⟨_, here digit⟩

theorem digits_run (s : Str) (digits : ∀ c ∈ s, c.isDigit = true) (n : Nat) :
    (Utf8.encode s).foldlM (fun n (x : UInt8) => if 48 ≤ x.toNat ∧ x.toNat ≤ 57 then some (n * 10 + (x.toNat - 48)) else none) n =
      some (Nat.ofDigitChars 10 s n) := by
  induction s generalizing n with
  | nil => rfl
  | cons c s ih =>
    obtain ⟨b, one, low, high, same⟩ := isDigit_char (digits c List.mem_cons_self)
    rw [Utf8.encode_cons, one, List.singleton_append, List.foldlM_cons, if_pos ⟨low, high⟩, Option.bind_eq_bind,
      Option.bind_some, ih (fun d member => digits d (List.mem_cons_of_mem c member)), Nat.ofDigitChars_cons, same,
      Nat.mul_comm]
    rfl

theorem encode_eq_nil {s : Str} (none : Utf8.encode s = []) : s = [] := Utf8.encode_injective (t := []) none

/-- A length as it is written is the length that is read. -/
theorem decimal_natDigits (n : Nat) : Http.decimal (trimBlanks (Utf8.encode (Str.natDigits n))) = some n := by
  have digits (c : Char) (member : c ∈ Str.natDigits n) : c.isDigit = true :=
    Nat.isDigit_of_mem_toDigits (by decide) (by decide) member
  have solid : ∀ b ∈ Utf8.encode (Str.natDigits n), Http.isBlank b = false := by
    intro b member
    obtain ⟨c, inside, found⟩ := List.mem_flatMap.mp member
    obtain ⟨x, one, low, high, -⟩ := isDigit_char (digits c inside)
    rw [one, List.mem_singleton] at found
    rw [found, Http.isBlank, Bool.or_eq_false_iff, beq_eq_false_iff_ne, beq_eq_false_iff_ne]
    constructor
    · rintro rfl
      exact absurd low (by decide)
    · rintro rfl
      exact absurd low (by decide)
  have kept (l : Bytes) (all : ∀ b ∈ l, Http.isBlank b = false) : l.dropWhile Http.isBlank = l := by
    cases l with
    | nil => rfl
    | cons b l => rw [List.dropWhile_cons_of_neg (by rw [all b List.mem_cons_self]; decide)]
  have same : trimBlanks (Utf8.encode (Str.natDigits n)) = Utf8.encode (Str.natDigits n) := by
    rw [trimBlanks, kept _ solid, kept _ (fun b member => solid b (List.mem_reverse.mp member)), List.reverse_reverse]
  have some : Utf8.encode (Str.natDigits n) ≠ [] := fun none => Nat.toDigits_ne_nil (encode_eq_nil none)
  rw [same, Http.decimal, if_neg some, digits_run _ digits, Str.natDigits,
    Nat.ofDigitChars_toDigits (b := 10) (by decide) (by decide)]

/-! When a head is read as the fields it was made of. -/

/-- The items that are not sent as they are. -/
def isFilled (k : Str) : Bool := isNamed "authorization" k || isNamed "content-length" k || isNamed "transfer-encoding" k

/-- A value that is read as it was written. -/
structure IsExact (text : Str) : Prop where
  value : IsFieldValue (Utf8.encode text)
  trimmed : trimBlanks (Utf8.encode text) = Utf8.encode text

/-- The hosts that a template names: the upstream's and no other, or none. -/
def HostOnly (host : Str) (ordered : List (Str × Str)) : Prop :=
  match ordered.filter fun p => isNamed "host" p.1 with
  | [] => IsExact host
  | [p] => trimBlanks (Utf8.encode p.2) = Utf8.encode host
  | _ => False

structure TemplateSound (host : Str) (ordered : List (Str × Str)) (token : Option Str) : Prop where
  fields : ∀ p ∈ ordered, isFilled p.1 = false → IsField (fieldBytes p)
  token : ∀ t ∈ token, (∃ p ∈ ordered, isNamed "authorization" p.1 = true) → IsFieldValue (Utf8.encode t)
  length : (ordered.filter fun p => isNamed "content-length" p.1).length ≤ 1
  host : HostOnly host ordered

structure MapSound (host : Str) (headers : List (Str × Str)) (token : Option Str) : Prop where
  fields : ∀ p ∈ headers, isReserved rust p.1 = false → IsField (fieldBytes p)
  token : ∀ t ∈ token, IsFieldValue (Utf8.encode t)
  host : IsExact host

/-- A request head whose HTTP/1.1 request is read as it is meant. -/
structure Forwards (head : ReqHead) : Prop where
  method : Http.IsToken (Utf8.encode (rust.toUppercase head.upstream.method))
  target : IsTarget (Utf8.encode head.upstream.path)
  template : ∀ ordered, parseHeadersOrdered head.upstream.headersOrdered = some ordered →
    TemplateSound head.upstream.host ordered head.token
  map : parseHeadersOrdered head.upstream.headersOrdered = none →
    MapSound rust head.upstream.host head.upstream.headers head.token

theorem orderedField_name {token : Option Str} {bodyLen : Nat} {p q : Str × Str}
    (sent : orderedField token bodyLen p = some q) : q.1 = p.1 := by
  unfold orderedField at sent
  split at sent
  · obtain ⟨t, -, eq⟩ := Option.map_eq_some_iff.mp sent
    rw [← eq]
  · split at sent
    · rw [← Option.some.inj sent]
    · split at sent
      · cases sent
      · rw [← Option.some.inj sent]

theorem filter_ordered (name : String) (token : Option Str) (bodyLen : Nat) (ordered : List (Str × Str)) :
    (ordered.filterMap (orderedField token bodyLen)).filter (fun p => isNamed name p.1) =
      (ordered.filter fun p => isNamed name p.1).filterMap (orderedField token bodyLen) := by
  induction ordered with
  | nil => rfl
  | cons p ordered ih =>
    cases sent : orderedField token bodyLen p with
    | none =>
      rw [List.filterMap_cons_none sent, List.filter_cons]
      split
      · rw [List.filterMap_cons_none sent, ih]
      · exact ih
    | some q =>
      rw [List.filterMap_cons_some sent, List.filter_cons, List.filter_cons, orderedField_name sent]
      split
      · rw [List.filterMap_cons_some sent, ih]
      · exact ih

/-- The fields of a name, where its items all go out in one way. -/
theorem filter_uniform {name : String} {token : Option Str} {bodyLen : Nat} {f : Str × Str → Option (Str × Str)}
    (uniform : ∀ p : Str × Str, isNamed name p.1 = true → orderedField token bodyLen p = f p) (ordered : List (Str × Str)) :
    (ordered.filterMap (orderedField token bodyLen)).filter (fun p => isNamed name p.1) =
      (ordered.filter fun p => isNamed name p.1).filterMap f := by
  rw [filter_ordered]
  apply List.filterMap_congr
  intro p member
  exact uniform p (List.mem_filter.mp member).2

theorem orderedField_length (token : Option Str) (bodyLen : Nat) (p : Str × Str) (named : isNamed "content-length" p.1 = true) :
    orderedField token bodyLen p = some (p.1, Str.natDigits bodyLen) := by
  have auth : isNamed "authorization" p.1 = false := named_apart (by decide) named
  rw [orderedField, auth, named]
  rfl

theorem orderedField_coding (token : Option Str) (bodyLen : Nat) (p : Str × Str) (named : isNamed "transfer-encoding" p.1 = true) :
    orderedField token bodyLen p = none := by
  have auth : isNamed "authorization" p.1 = false := named_apart (by decide) named
  have clen : isNamed "content-length" p.1 = false := named_apart (by decide) named
  rw [orderedField, auth, clen, named]
  rfl

theorem orderedField_plain (token : Option Str) (bodyLen : Nat) (p : Str × Str) (plain : isFilled p.1 = false) :
    orderedField token bodyLen p = some p := by
  rw [isFilled, Bool.or_eq_false_iff, Bool.or_eq_false_iff] at plain
  rw [orderedField, plain.1.1, plain.1.2, plain.2]
  rfl

theorem host_plain {k : Str} (named : isNamed "host" k = true) : isFilled k = false := by
  rw [isFilled, named_apart (by decide) named, named_apart (by decide) named, named_apart (by decide) named]
  rfl

theorem absent_filter (name other : String) (ordered : List (Str × Str)) (value : Str) :
    (absent other ordered value).filter (fun p => isNamed name p.1) =
      if isNamed name other.toList = true then absent other ordered value else [] := by
  unfold absent
  split
  · simp
  · rw [List.filter_cons, List.filter_nil]

section Template

variable (host : Str) (ordered : List (Str × Str)) (token : Option Str) (bodyLen : Nat)

theorem coding_orderedFields :
    ((orderedFields host ordered token bodyLen).filter fun p => isNamed "transfer-encoding" p.1) = [] := by
  rw [orderedFields, List.filter_append, List.filter_append, filter_uniform (orderedField_coding token bodyLen), absent_filter,
    absent_filter, if_neg (by decide), if_neg (by decide), List.append_nil, List.append_nil]
  exact List.filterMap_eq_nil_iff.mpr (by simp)

theorem host_orderedFields :
    ((orderedFields host ordered token bodyLen).filter fun p => isNamed "host" p.1) =
      (ordered.filter fun p => isNamed "host" p.1) ++ absent "host" ordered host := by
  rw [orderedFields, List.filter_append, List.filter_append,
    filter_uniform (fun p named => orderedField_plain token bodyLen p (host_plain named)), absent_filter,
    absent_filter, if_pos (by decide), if_neg (by decide), List.append_nil, List.filterMap_some]

theorem length_orderedFields :
    ((orderedFields host ordered token bodyLen).filter fun p => isNamed "content-length" p.1) =
      ((ordered.filter fun p => isNamed "content-length" p.1).map fun p => (p.1, Str.natDigits bodyLen)) ++
        absent "content-length" ordered (Str.natDigits bodyLen) := by
  rw [orderedFields, List.filter_append, List.filter_append, filter_uniform (orderedField_length token bodyLen), absent_filter,
    absent_filter, if_neg (by decide), if_pos (by decide), List.append_nil]
  congr 1
  induction (ordered.filter fun p => isNamed "content-length" p.1) with
  | nil => rfl
  | cons p rest ih => rw [List.filterMap_cons, ih, List.map_cons]

end Template

theorem any_named (name : String) (ordered : List (Str × Str)) :
    (ordered.any fun p => isNamed name p.1) = !(ordered.filter fun p => isNamed name p.1).isEmpty := by
  rw [List.any_eq_not_all_not, Bool.not_inj_iff, Bool.eq_iff_iff, List.isEmpty_iff, List.filter_eq_nil_iff, List.all_eq_true]
  simp

/-- A template announces the body exactly where it has no second slot for the length. -/
theorem bodyLength_orderedFields (host : Str) (ordered : List (Str × Str)) (token : Option Str) (bodyLen : Nat) :
    Http.bodyLength (((orderedFields host ordered token bodyLen).map fieldBytes).map Http.received) = some bodyLen ↔
      (ordered.filter fun p => isNamed "content-length" p.1).length ≤ 1 := by
  have coding : Http.valuesOf Http.transferEncodingName
      (((orderedFields host ordered token bodyLen).map fieldBytes).map Http.received) = [] := by
    rw [Http.transferEncodingName, valuesOf_fields (by decide), coding_orderedFields]
    rfl
  have lowered : Str.toAsciiLowercase "content-length".toList = "content-length".toList := by decide
  have length := valuesOf_fields lowered (orderedFields host ordered token bodyLen)
  rw [length_orderedFields, absent, any_named] at length
  rw [Http.bodyLength, if_neg (by rw [coding]; simp), Http.contentLengthName, length]
  cases slots : ordered.filter fun p => isNamed "content-length" p.1 with
  | nil => simp [decimal_natDigits]
  | cons p rest =>
    cases rest with
    | nil => simp [decimal_natDigits]
    | cons q rest => simp

theorem isTokenByte_lower (b : UInt8) : isTokenByte (Http.lowerByte b) = isTokenByte b := by
  revert b
  decide +kernel

/-- The case of its letters does not make a name another token. -/
theorem isToken_named {name : String} (lower : Str.toAsciiLowercase name.toList = name.toList)
    (token : Http.IsToken (Utf8.encode name.toList)) {k : Str} (named : isNamed name k = true) : Http.IsToken (Utf8.encode k) := by
  have same := (lower_encode_iff lower k).mpr named
  constructor
  · intro none
    rw [none, List.map_nil] at same
    exact token.1 same.symm
  · intro b member
    rw [← isTokenByte_lower]
    apply token.2
    rw [← same]
    exact List.mem_map_of_mem member

theorem named_authorization : isNamed "authorization" "authorization".toList = true := by decide

theorem isToken_own : ∀ name ∈ ["host", "content-length", "authorization", "connection"],
    Http.IsToken (Utf8.encode name.toList) := by decide +kernel
theorem isToken_host : Http.IsToken (Utf8.encode "host".toList) := isToken_own _ (by simp)
theorem isToken_length : Http.IsToken (Utf8.encode "content-length".toList) := isToken_own _ (by simp)
theorem isToken_authorization : Http.IsToken (Utf8.encode "authorization".toList) := isToken_own _ (by simp)
theorem isToken_connection : Http.IsToken (Utf8.encode "connection".toList) := isToken_own _ (by simp)

theorem isFieldValue_digits (n : Nat) : IsFieldValue (Utf8.encode (Str.natDigits n)) := by
  intro b member
  obtain ⟨c, inside, found⟩ := List.mem_flatMap.mp member
  obtain ⟨x, one, low, high, -⟩ := isDigit_char (Nat.isDigit_of_mem_toDigits (by decide) (by decide) inside)
  rw [one, List.mem_singleton] at found
  rw [found, Http.isFieldByte, Http.isVisible, decide_eq_true (by omega), decide_eq_true (by omega)]
  rfl

theorem isFieldValue_append (s t : Str) :
    IsFieldValue (Utf8.encode (s ++ t)) ↔ IsFieldValue (Utf8.encode s) ∧ IsFieldValue (Utf8.encode t) := by
  rw [Utf8.encode_append]
  exact List.forall_mem_append

theorem isFieldValue_own : ∀ value ∈ ["Bearer ", "close"], IsFieldValue (Utf8.encode value.toList) := by decide +kernel
theorem isFieldValue_front : IsFieldValue (Utf8.encode "Bearer ".toList) := isFieldValue_own _ (by simp)
theorem isFieldValue_close : IsFieldValue (Utf8.encode "close".toList) := isFieldValue_own _ (by simp)

theorem isFieldValue_bearer (t : Str) : IsFieldValue (Utf8.encode (bearer t)) ↔ IsFieldValue (Utf8.encode t) := by
  unfold bearer
  rw [isFieldValue_append]
  exact and_iff_right isFieldValue_front

theorem host_absent {ordered : List (Str × Str)} (none : (ordered.filter fun p => isNamed "host" p.1) = []) (host : Str) :
    absent "host" ordered host = [("host".toList, host)] := by
  rw [absent, any_named, none]
  rfl

theorem orderedFields_isField (host : Str) (ordered : List (Str × Str)) (token : Option Str) (bodyLen : Nat) :
    (∀ q ∈ orderedFields host ordered token bodyLen, IsField (fieldBytes q)) ↔
      (∀ p ∈ ordered, isFilled p.1 = false → IsField (fieldBytes p)) ∧
        (∀ t ∈ token, (∃ p ∈ ordered, isNamed "authorization" p.1 = true) → IsFieldValue (Utf8.encode t)) ∧
        ((ordered.filter fun p => isNamed "host" p.1) = [] → IsFieldValue (Utf8.encode host)) := by
  have sent {p q : Str × Str} (member : p ∈ ordered) (goes : orderedField token bodyLen p = some q) :
      q ∈ orderedFields host ordered token bodyLen :=
    List.mem_append_left _ (List.mem_append_left _ (List.mem_filterMap.mpr ⟨p, member, goes⟩))
  constructor
  · intro valid
    refine ⟨fun p member plain => valid p (sent member (orderedField_plain token bodyLen p plain)), ?_, fun none => ?_⟩
    · rintro t some ⟨p, member, named⟩
      have goes : orderedField token bodyLen p = Option.some (p.1, bearer t) := by
        rw [orderedField, if_pos named, some, Option.map_some]
      exact (isFieldValue_bearer t).mp (valid _ (sent member goes)).value
    · have member : ("host".toList, host) ∈ orderedFields host ordered token bodyLen := by
        rw [orderedFields, host_absent none]
        exact List.mem_append_left _ (List.mem_append_right _ List.mem_cons_self)
      exact (valid _ member).value
  · rintro ⟨plain, filled, added⟩ q member
    rw [orderedFields] at member
    rcases List.mem_append.mp member with front | last
    · rcases List.mem_append.mp front with inside | hosts
      · obtain ⟨p, within, goes⟩ := List.mem_filterMap.mp inside
        unfold orderedField at goes
        split at goes
        next auth =>
          obtain ⟨t, some, rfl⟩ := Option.map_eq_some_iff.mp goes
          exact ⟨isToken_named (by decide) isToken_authorization auth, (isFieldValue_bearer t).mpr (filled t some ⟨p, within, auth⟩)⟩
        next noAuth =>
          split at goes
          next clen =>
            obtain rfl := Option.some.inj goes
            exact ⟨isToken_named (by decide) isToken_length clen, isFieldValue_digits bodyLen⟩
          next noLength =>
            split at goes
            next => cases goes
            next noCoding =>
              obtain rfl := Option.some.inj goes
              exact plain p within (by rw [isFilled]; simp [noAuth, noLength, noCoding])
      · cases slots : ordered.filter fun p => isNamed "host" p.1 with
        | nil =>
          rw [host_absent slots, List.mem_singleton] at hosts
          rw [hosts]
          exact ⟨isToken_host, added slots⟩
        | cons p rest =>
          rw [absent, any_named, slots] at hosts
          cases hosts
    · rw [absent] at last
      split at last
      · cases last
      · rw [List.mem_singleton] at last
        rw [last]
        exact ⟨isToken_length, isFieldValue_digits bodyLen⟩

theorem templateSound_iff (host : Str) (ordered : List (Str × Str)) (token : Option Str) (bodyLen : Nat) :
    ((∀ q ∈ orderedFields host ordered token bodyLen, IsField (fieldBytes q)) ∧
        Http.bodyLength (((orderedFields host ordered token bodyLen).map fieldBytes).map Http.received) = some bodyLen) ∧
        Http.valuesOf Http.hostName (((orderedFields host ordered token bodyLen).map fieldBytes).map Http.received) =
          [Utf8.encode host] ↔
      TemplateSound host ordered token := by
  rw [orderedFields_isField, bodyLength_orderedFields, Http.hostName, valuesOf_fields (by decide), host_orderedFields]
  cases slots : ordered.filter fun p => isNamed "host" p.1 with
  | nil =>
    rw [host_absent slots, List.nil_append, List.map_cons, List.map_nil, List.singleton_inj]
    constructor
    · rintro ⟨⟨⟨plain, filled, added⟩, single⟩, trimmed⟩
      exact ⟨plain, filled, single, by rw [HostOnly, slots]; exact ⟨added rfl, trimmed⟩⟩
    · intro sound
      have exact := sound.host
      rw [HostOnly, slots] at exact
      exact ⟨⟨⟨sound.fields, sound.token, fun _ => exact.value⟩, sound.length⟩, exact.trimmed⟩
  | cons p rest =>
    have given : absent "host" ordered host = [] := by
      rw [absent, any_named, slots]
      rfl
    rw [given, List.append_nil]
    constructor
    · rintro ⟨⟨⟨plain, filled, -⟩, single⟩, hosts⟩
      refine ⟨plain, filled, single, ?_⟩
      rw [HostOnly, slots]
      cases rest with
      | nil => exact List.head_eq_of_cons_eq hosts
      | cons q more => cases congrArg List.length hosts
    · intro sound
      have only := sound.host
      rw [HostOnly, slots] at only
      refine ⟨⟨⟨sound.fields, sound.token, by simp⟩, sound.length⟩, ?_⟩
      cases rest with
      | nil => exact congrArg (fun b => [b]) only
      | cons q more => exact absurd only id

theorem isNamed_ascii {name : String} (ascii : JStr.isAscii name.toList = true)
    (lower : Str.toAsciiLowercase name.toList = name.toList) {k : Str} (named : isNamed name k = true) :
    ∀ c ∈ k, c.toNat < 0x80 := by
  rw [isNamed, Str.eqIgnoreAsciiCase, beq_iff_eq, lower] at named
  intro c member
  have inside : c.toLower ∈ name.toList := by
    rw [← named]
    exact List.mem_map_of_mem member
  have small : c.toLower.toNat < 0x80 := of_decide_eq_true (List.all_eq_true.mp ascii _ inside)
  by_contra wide
  rw [toLower_wide (not_lt.mp wide)] at small
  exact wide small

/-- A name that is spelt like a reserved one is reserved. -/
theorem isReserved_named (lowers : LowersAscii rust) {name : String} (reserved : name ∈ reservedNames)
    (ascii : JStr.isAscii name.toList = true) (lower : Str.toAsciiLowercase name.toList = name.toList) {k : Str}
    (named : isNamed name k = true) : isReserved rust k = true := by
  have same := lowers k (isNamed_ascii ascii lower named)
  rw [isNamed, Str.eqIgnoreAsciiCase, beq_iff_eq, lower] at named
  exact List.any_eq_true.mpr ⟨name, reserved, by rw [same, named, beq_self_eq_true]⟩

section Map

variable {rust} (lowers : LowersAscii rust) (host : Str) (headers : List (Str × Str)) (token : Option Str) (bodyLen : Nat)

include lowers

theorem filter_mapFields {name : String} (reserved : name ∈ reservedNames) (ascii : JStr.isAscii name.toList = true)
    (lower : Str.toAsciiLowercase name.toList = name.toList) :
    ((mapFields rust host headers token bodyLen).filter fun p => isNamed name p.1) =
      ([("host".toList, host)].filter fun p => isNamed name p.1) ++
        ((token.map fun t => ("authorization".toList, bearer t)).toList.filter fun p => isNamed name p.1) ++
        [("content-length".toList, Str.natDigits bodyLen), ("connection".toList, "close".toList)].filter
          fun p => isNamed name p.1 := by
  have gone : (headers.filter fun p => !isReserved rust p.1).filter (fun p => isNamed name p.1) = [] := by
    rw [List.filter_eq_nil_iff]
    intro p member named
    have kept := (List.mem_filter.mp member).2
    rw [isReserved_named rust lowers reserved ascii lower named] at kept
    cases kept
  have front : ("host".toList, host) :: headers.filter (fun p => !isReserved rust p.1) =
      [("host".toList, host)] ++ headers.filter (fun p => !isReserved rust p.1) := rfl
  rw [mapFields, front, List.filter_append, List.filter_append, List.filter_append, gone, List.append_nil]

theorem host_mapFields :
    ((mapFields rust host headers token bodyLen).filter fun p => isNamed "host" p.1) = [("host".toList, host)] := by
  rw [filter_mapFields lowers host headers token bodyLen (by decide) (by decide) (by decide)]
  cases token <;> rfl

theorem coding_mapFields :
    ((mapFields rust host headers token bodyLen).filter fun p => isNamed "transfer-encoding" p.1) = [] := by
  rw [filter_mapFields lowers host headers token bodyLen (by decide) (by decide) (by decide)]
  cases token <;> rfl

theorem length_mapFields :
    ((mapFields rust host headers token bodyLen).filter fun p => isNamed "content-length" p.1) =
      [("content-length".toList, Str.natDigits bodyLen)] := by
  rw [filter_mapFields lowers host headers token bodyLen (by decide) (by decide) (by decide)]
  cases token <;> rfl

theorem bodyLength_mapFields :
    Http.bodyLength (((mapFields rust host headers token bodyLen).map fieldBytes).map Http.received) = some bodyLen := by
  have coding : Http.valuesOf Http.transferEncodingName
      (((mapFields rust host headers token bodyLen).map fieldBytes).map Http.received) = [] := by
    rw [Http.transferEncodingName, valuesOf_fields (by decide), coding_mapFields lowers]
    rfl
  have lowered : Str.toAsciiLowercase "content-length".toList = "content-length".toList := by decide
  have length := valuesOf_fields lowered (mapFields rust host headers token bodyLen)
  rw [length_mapFields lowers] at length
  rw [Http.bodyLength, if_neg (by rw [coding]; simp), Http.contentLengthName, length]
  exact decimal_natDigits bodyLen

theorem mapSound_iff :
    ((∀ q ∈ mapFields rust host headers token bodyLen, IsField (fieldBytes q)) ∧
        Http.bodyLength (((mapFields rust host headers token bodyLen).map fieldBytes).map Http.received) = some bodyLen) ∧
        Http.valuesOf Http.hostName (((mapFields rust host headers token bodyLen).map fieldBytes).map Http.received) =
          [Utf8.encode host] ↔
      MapSound rust host headers token := by
  have length := bodyLength_mapFields lowers host headers token bodyLen
  rw [Http.hostName, valuesOf_fields (by decide), host_mapFields lowers, List.map_cons, List.map_nil, List.singleton_inj]
  constructor
  · rintro ⟨⟨valid, -⟩, trimmed⟩
    refine ⟨fun p member plain => valid p ?_, fun t some => ?_, ⟨(valid _ List.mem_cons_self).value, trimmed⟩⟩
    · refine List.mem_append_left _ (List.mem_append_left _ (List.mem_cons_of_mem _ (List.mem_filter.mpr ⟨member, ?_⟩)))
      rw [plain]
      rfl
    · have sent : ("authorization".toList, bearer t) ∈ mapFields rust host headers token bodyLen := by
        rw [mapFields, some]
        exact List.mem_append_left _ (List.mem_append_right _ List.mem_cons_self)
      exact (isFieldValue_bearer t).mp (valid _ sent).value
  · intro sound
    refine ⟨⟨fun q member => ?_, length⟩, sound.host.trimmed⟩
    rw [mapFields] at member
    rcases List.mem_append.mp member with front | last
    · rcases List.mem_append.mp front with inside | credential
      · rcases List.mem_cons.mp inside with rfl | kept
        · exact ⟨isToken_host, sound.host.value⟩
        · obtain ⟨within, free⟩ := List.mem_filter.mp kept
          rw [Bool.not_eq_true'] at free
          exact sound.fields q within free
      · rw [Option.mem_toList] at credential
        obtain ⟨t, some, rfl⟩ := Option.map_eq_some_iff.mp credential
        exact ⟨isToken_authorization, (isFieldValue_bearer t).mpr (sound.token t some)⟩
    · rcases List.mem_cons.mp last with rfl | close
      · exact ⟨isToken_length, isFieldValue_digits bodyLen⟩
      · rw [List.mem_singleton] at close
        rw [close]
        exact ⟨isToken_connection, isFieldValue_close⟩

end Map

/-- The request that a head and a body mean. -/
def meantRequest (head : ReqHead) (body : Bytes) : Request where
  method := Utf8.encode (rust.toUppercase head.upstream.method)
  target := Utf8.encode head.upstream.path
  fields := ((requestFields rust head body.length).map fieldBytes).map Http.received
  body

/-- What `handle` writes upstream is read as the one request that is meant, with the upstream's host
alone and nothing behind it, exactly for the heads that say so field by field. -/
theorem requestBytes_iff (lowers : LowersAscii rust) (head : ReqHead) (body : Bytes) :
    (Http.readRequest (requestBytes rust head body) = some (meantRequest rust head body, []) ∧
        Http.valuesOf Http.hostName (meantRequest rust head body).fields = [Utf8.encode head.upstream.host]) ↔
      Forwards rust head := by
  rw [requestBytes_render, meantRequest, Http.readRequest_render_iff, List.forall_mem_map]
  cases template : parseHeadersOrdered head.upstream.headersOrdered with
  | some ordered =>
    have fields : requestFields rust head body.length =
        orderedFields head.upstream.host ordered head.token body.length := by
      rw [requestFields, template]
    rw [fields]
    have sound := templateSound_iff head.upstream.host ordered head.token body.length
    constructor
    · rintro ⟨⟨method, target, valid, length⟩, hosts⟩
      refine ⟨method, target, fun other same => ?_, fun none => ?_⟩
      · obtain rfl := Option.some.inj (template.symm.trans same)
        exact sound.mp ⟨⟨valid, length⟩, hosts⟩
      · cases template.symm.trans none
    · intro forwards
      obtain ⟨⟨valid, length⟩, hosts⟩ := sound.mpr (forwards.template ordered template)
      exact ⟨⟨forwards.method, forwards.target, valid, length⟩, hosts⟩
  | none =>
    have fields : requestFields rust head body.length =
        mapFields rust head.upstream.host head.upstream.headers head.token body.length := by
      rw [requestFields, template]
    rw [fields]
    have sound := mapSound_iff lowers head.upstream.host head.upstream.headers head.token body.length
    constructor
    · rintro ⟨⟨method, target, valid, length⟩, hosts⟩
      refine ⟨method, target, fun ordered same => ?_, fun _ => sound.mp ⟨⟨valid, length⟩, hosts⟩⟩
      cases template.symm.trans same
    · intro forwards
      obtain ⟨⟨valid, length⟩, hosts⟩ := sound.mpr (forwards.map template)
      exact ⟨⟨forwards.method, forwards.target, valid, length⟩, hosts⟩

/-- A template with a line break in a value. -/
def splitHead : ReqHead where
  nonce := "AAAA"
  upstream := ⟨"api", "post", "/v1", [], some [["x-a", "1\r\nx-b: 2"]]⟩
  token := none
  clientProtocolFamily := none
  downstreamProtocolFamily := none
  protocolFamily := none

theorem splitHead_admitted : Admitted splitHead where
  nonce := by decide
  host := by decide
  method := by decide
  path := by decide
  headers := by simp [splitHead]
  token := by simp [splitHead]

/-- The checks on a request head let it through, and another request goes out. -/
theorem requestBytes_split : Admitted splitHead ∧
    ¬(Http.readRequest (requestBytes (.sample [] []) splitHead []) = some (meantRequest (.sample [] []) splitHead [], []) ∧
        Http.valuesOf Http.hostName (meantRequest (.sample [] []) splitHead []).fields =
          [Utf8.encode splitHead.upstream.host]) := by
  have lowers : LowersAscii (.sample [] []) := fun _ _ => rfl
  refine ⟨splitHead_admitted, fun read => ?_⟩
  have sound := ((requestBytes_iff (.sample [] []) lowers splitHead []).mp read).template _ rfl
  have field := (sound.fields ("x-a".toList, "1\r\nx-b: 2".toList) List.mem_cons_self (by decide)).value
  exact Http.isFieldValue_free field (by decide)

/-! The credential. -/

/-- The names that `h2_client::execute` leaves out. -/
def connectionNames : List String :=
  ["host", "connection", "transfer-encoding", "te", "trailer", "upgrade", "proxy-connection", "keep-alive"]

def isConnectionName (k : Str) : Bool := connectionNames.any fun name => isNamed name k

/-- The field that `execute` makes of a header. -/
def h2Field (token : Option Str) (bodyLen : Nat) (p : Str × Str) : Option (Str × Str) :=
  if isConnectionName p.1 then none
  else if isNamed "authorization" p.1 then token.map fun t => (Str.toAsciiLowercase p.1, bearer t)
  else if isNamed "content-length" p.1 then some (Str.toAsciiLowercase p.1, Str.natDigits bodyLen)
  else some (Str.toAsciiLowercase p.1, p.2)

/-- The fields of the HTTP/2 request. -/
def h2Fields (ordered : List (Str × Str)) (token : Option Str) (bodyLen : Nat) : List (Str × Str) :=
  ordered.filterMap (h2Field token bodyLen) ++
    (token.map fun t => absent "authorization" ordered (bearer t)).getD [] ++
    absent "content-length" ordered (Str.natDigits bodyLen)

/-- `parse_headers_ordered(..).unwrap_or_else(..)`. -/
def orderedHeaders (head : ReqHead) : List (Str × Str) :=
  (parseHeadersOrdered head.upstream.headersOrdered).getD head.upstream.headers

theorem toLower_idem (c : Char) : c.toLower.toLower = c.toLower := by
  rcases Nat.lt_or_ge c.toNat 0x80 with ascii | wide
  · have all : ∀ n < 0x80, (Char.ofNat n).toLower.toLower = (Char.ofNat n).toLower := by decide
    have same := all c.toNat ascii
    rwa [Char.ofNat_toNat] at same
  · rw [toLower_wide wide, toLower_wide wide]

theorem isNamed_lower (name : String) (k : Str) : isNamed name (Str.toAsciiLowercase k) = isNamed name k := by
  have twice : Str.toAsciiLowercase (Str.toAsciiLowercase k) = Str.toAsciiLowercase k := by
    rw [Str.toAsciiLowercase, Str.toAsciiLowercase, List.map_map]
    exact List.map_congr_left fun c _ => toLower_idem c
  rw [isNamed, isNamed, Str.eqIgnoreAsciiCase, Str.eqIgnoreAsciiCase, twice]

theorem absent_credential {name : String} (other : isNamed "authorization" name.toList = false) {ordered : List (Str × Str)}
    {value : Str} {q : Str × Str} (member : q ∈ absent name ordered value) : isNamed "authorization" q.1 = false := by
  rw [absent] at member
  split at member
  · cases member
  · rw [List.mem_singleton] at member
    rw [member]
    exact other

theorem orderedFields_credential {host : Str} {ordered : List (Str × Str)} {token : Option Str} {bodyLen : Nat} {q : Str × Str}
    (member : q ∈ orderedFields host ordered token bodyLen) (credential : isNamed "authorization" q.1 = true) :
    (∃ t ∈ token, q.2 = bearer t) ∧ ∃ p ∈ ordered, isNamed "authorization" p.1 = true := by
  rw [orderedFields] at member
  rcases List.mem_append.mp member with front | added
  · rcases List.mem_append.mp front with inside | added
    · obtain ⟨p, within, goes⟩ := List.mem_filterMap.mp inside
      rw [orderedField_name goes] at credential
      rw [orderedField, if_pos credential] at goes
      obtain ⟨t, some, rfl⟩ := Option.map_eq_some_iff.mp goes
      exact ⟨⟨t, some, rfl⟩, p, within, credential⟩
    · rw [absent_credential (by decide) added] at credential
      cases credential
  · rw [absent_credential (by decide) added] at credential
    cases credential

theorem mapFields_credential (lowers : LowersAscii rust) {host : Str} {headers : List (Str × Str)} {token : Option Str}
    {bodyLen : Nat} {q : Str × Str} (member : q ∈ mapFields rust host headers token bodyLen)
    (credential : isNamed "authorization" q.1 = true) : ∃ t ∈ token, q.2 = bearer t := by
  have found : q ∈ (mapFields rust host headers token bodyLen).filter fun p => isNamed "authorization" p.1 :=
    List.mem_filter.mpr ⟨member, credential⟩
  rw [filter_mapFields lowers host headers token bodyLen (by decide) (by decide) (by decide)] at found
  have first : ([("host".toList, host)].filter fun p => isNamed "authorization" p.1) = [] := rfl
  have last : ([("content-length".toList, Str.natDigits bodyLen), ("connection".toList, "close".toList)].filter
      fun p => isNamed "authorization" p.1) = [] := rfl
  rw [first, last, List.nil_append, List.append_nil] at found
  obtain ⟨t, some, rfl⟩ := Option.map_eq_some_iff.mp (Option.mem_toList.mp (List.mem_filter.mp found).1)
  exact ⟨t, some, rfl⟩

theorem h2Field_name {token : Option Str} {bodyLen : Nat} {p q : Str × Str} (sent : h2Field token bodyLen p = some q) :
    isConnectionName p.1 = false ∧ q.1 = Str.toAsciiLowercase p.1 := by
  unfold h2Field at sent
  split at sent
  · cases sent
  next free =>
    refine ⟨Bool.not_eq_true _ ▸ free, ?_⟩
    split at sent
    · obtain ⟨t, -, eq⟩ := Option.map_eq_some_iff.mp sent
      rw [← eq]
    · split at sent
      · rw [← Option.some.inj sent]
      · rw [← Option.some.inj sent]

theorem h2Field_credential (token : Option Str) (bodyLen : Nat) {p : Str × Str} (credential : isNamed "authorization" p.1 = true) :
    h2Field token bodyLen p = token.map fun t => (Str.toAsciiLowercase p.1, bearer t) := by
  have free : isConnectionName p.1 = false := by
    rw [isConnectionName, List.any_eq_false]
    intro name member named
    have apart : ∀ name ∈ connectionNames, Str.toAsciiLowercase "authorization".toList ≠ Str.toAsciiLowercase name.toList := by
      decide
    rw [named_apart (apart name member) credential] at named
    cases named
  rw [h2Field, free, if_neg (by decide), if_pos credential]

theorem h2Fields_credential {ordered : List (Str × Str)} {token : Option Str} {bodyLen : Nat} {q : Str × Str}
    (member : q ∈ h2Fields ordered token bodyLen) (credential : isNamed "authorization" q.1 = true) :
    ∃ t ∈ token, q.2 = bearer t := by
  rw [h2Fields] at member
  rcases List.mem_append.mp member with front | added
  · rcases List.mem_append.mp front with inside | added
    · obtain ⟨p, within, goes⟩ := List.mem_filterMap.mp inside
      rw [(h2Field_name goes).2, isNamed_lower] at credential
      rw [h2Field_credential token bodyLen credential] at goes
      obtain ⟨t, some, rfl⟩ := Option.map_eq_some_iff.mp goes
      exact ⟨t, some, rfl⟩
    · cases token with
      | none => cases added
      | some t =>
        rw [Option.map_some, Option.getD_some, absent] at added
        split at added
        · cases added
        · rw [List.mem_singleton] at added
          exact ⟨t, rfl, congrArg Prod.snd added⟩
  · rw [absent_credential (by decide) added] at credential
    cases credential

/-- HTTP/2 sends the credential with every template. -/
theorem h2Fields_sends (ordered : List (Str × Str)) (t : Str) (bodyLen : Nat) :
    ∃ p ∈ h2Fields ordered (some t) bodyLen, isNamed "authorization" p.1 = true := by
  by_cases slot : ∃ p ∈ ordered, isNamed "authorization" p.1 = true
  · obtain ⟨p, member, named⟩ := slot
    refine ⟨(Str.toAsciiLowercase p.1, bearer t), ?_, by rw [isNamed_lower, named]⟩
    refine List.mem_append_left _ (List.mem_append_left _ (List.mem_filterMap.mpr ⟨p, member, ?_⟩))
    rw [h2Field_credential _ _ named]
    rfl
  · refine ⟨("authorization".toList, bearer t), ?_, named_authorization⟩
    refine List.mem_append_left _ (List.mem_append_right _ ?_)
    have none : (ordered.any fun p => isNamed "authorization" p.1) = false := by
      rw [List.any_eq_false]
      exact fun p member named => slot ⟨p, member, named⟩
    rw [Option.map_some, Option.getD_some, absent, none]
    exact List.mem_singleton_self _

end TeeProof.Enclave
