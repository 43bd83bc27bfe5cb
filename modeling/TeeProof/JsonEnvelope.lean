import TeeProof.Brackets
import TeeProof.JsonText
import TeeProof.Multipart

/-! The JSON envelope: a response object that carries its proof as a member, found among
whatever text stands around it. -/
namespace TeeProof.Verifier

open Brackets (Span Mark Balanced)

variable (node : Node)

/-! The scanner -/

structure SpanScan where
  inString : Bool
  escape : Bool
  index : Nat
  stack : List Nat
  spans : List Span

def spanStep (s : SpanScan) (b : UInt8) : SpanScan :=
  let next := { s with index := s.index + 1 }
  if s.inString then
    if s.escape then { next with escape := false }
    else if b = 0x5C then { next with escape := true }
    else if b = 0x22 then { next with inString := false }
    else next
  else if b = 0x22 then { next with inString := true }
  else if b = 0x7B then { next with stack := s.index :: s.stack }
  else if b = 0x7D then
    match s.stack with
    | [] => next
    | start :: rest => { next with stack := rest, spans := s.spans ++ [⟨start, s.index + 1⟩] }
  else next

def SpanScan.init : SpanScan := ⟨false, false, 0, [], []⟩

/-- Sorted by start, the longer first; one that ends before `coveredEnd` is left out. -/
def outermostJsonEnvelopeSpans (spans : List Span) : List Span := Brackets.outermost spans

def findJsonEnvelopeSpans (bytes : Bytes) : List Span := outermostJsonEnvelopeSpans (bytes.foldl spanStep .init).spans

def jsonProofField : Bytes := JStr.utf8 "\"proof\""

def proofKey : JStr := "proof"

def isTeeProofWireLike (value : JsVal) : Bool :=
  value.isRecord && isTwo (value.get "v") && isText "ed25519" (value.get "alg") && isString (value.get "public_key") &&
    isString (value.get "nonce") && isString (value.get "signature") && isString (value.get "attestation")

def isEmbeddedProofValue (value : JsVal) : Bool :=
  isTeeProofWireLike value || (value.isRecord && isText "tee.proof_unavailable" (value.get "type"))

/-- `delete target[key]`. -/
def deleteKey (key : JStr) : JsVal → JsVal
  | .obj proto props => .obj proto (props.filter fun p => p.1 ≠ key)
  | other => other

def parseTeeProofJsonEnvelopeObject (bytes : Bytes) (contentType : Option JStr) : Option ParsedTeeProofStream :=
  match node.parseJson (bufferText bytes) with
  | .error _ => none
  | .ok parsed =>
    if !parsed.isRecord || !parsed.hasOwn proofKey then none
    else
      let proofValue := parsed.get proofKey
      if !isEmbeddedProofValue proofValue then none
      else some {
        body := (stringify node (deleteKey proofKey parsed.spread)).utf8
        proof := if isTeeProofWireLike proofValue then some proofValue else none
        bodyContentType := some (contentType.getD "application/json") }

def spanBytes (bytes : Bytes) (s : Span) : Bytes := (bytes.drop s.start).take (s.stop - s.start)

/-- What one span gives, if anything. -/
def envelopeAt (bytes : Bytes) (contentType : Option JStr) (s : Span) : Option ParsedTeeProofStream :=
  if Search.indexOf jsonProofField (spanBytes bytes s) = none then none
  else parseTeeProofJsonEnvelopeObject node (spanBytes bytes s) contentType

def parseTeeProofJsonEnvelopeBytes (bytes : Bytes) (contentType : Option JStr) : Option ParsedTeeProofStream :=
  match (findJsonEnvelopeSpans bytes).filterMap (envelopeAt node bytes contentType) with
  | [candidate] => some candidate
  | _ => none

def isForeignType (contentType : Option JStr) : Bool :=
  match contentType with
  | some type => type ≠ [] && !JStr.includes (node.toLowerCase type) "json"
  | none => false

def parseTeeProofJsonEnvelope (bytes : Bytes) (contentType : Option JStr) : Option ParsedTeeProofStream :=
  if isForeignType node contentType then none else parseTeeProofJsonEnvelopeBytes node bytes contentType

/-! Octets as marks -/

/-- Where the octets read so far leave a reader of JSON text. -/
inductive Lex where
  | text
  | string
  | escaped
  deriving DecidableEq

def Lex.next : Lex → UInt8 → Lex
  | text, b => if b = 0x22 then string else text
  | string, b => if b = 0x5C then escaped else if b = 0x22 then text else string
  | escaped, _ => string

/-- Only a brace outside strings is a mark. -/
def Lex.mark : Lex → UInt8 → Mark
  | text, b => if b = 0x7B then .opening else if b = 0x7D then .closing else .plain
  | _, _ => .plain

def Lex.after (l : Lex) (bytes : Bytes) : Lex := bytes.foldl Lex.next l

def Lex.marks : Lex → Bytes → Brackets.Word
  | _, [] => []
  | l, b :: rest => l.mark b :: (l.next b).marks rest

/-- A brace group of the text, whose braces all stand outside strings. -/
def BraceGroup (bytes : Bytes) (s : Span) : Prop := Brackets.IsGroup (Lex.text.marks bytes) s

theorem Lex.after_append (l : Lex) (a b : Bytes) : l.after (a ++ b) = (l.after a).after b := List.foldl_append

theorem Lex.marks_append (l : Lex) (a b : Bytes) : l.marks (a ++ b) = l.marks a ++ (l.after a).marks b := by
  induction a generalizing l with
  | nil => rfl
  | cons x rest ih =>
    rw [List.cons_append, Lex.marks, ih]
    rfl

theorem Lex.length_marks (l : Lex) (bytes : Bytes) : (l.marks bytes).length = bytes.length := by
  induction bytes generalizing l with
  | nil => rfl
  | cons b rest ih => rw [Lex.marks, List.length_cons, ih, List.length_cons]

/-- The scanner's state is the reader's place and the state of the scan of marks. -/
def SpanScan.joined (l : Lex) (s : Brackets.Scan) : SpanScan := ⟨l ≠ .text, l = .escaped, s.position, s.stack, s.spans⟩

theorem spanStep_joined (l : Lex) (s : Brackets.Scan) (b : UInt8) :
    spanStep (.joined l s) b = .joined (l.next b) (Brackets.step s (l.mark b)) := by
  cases l with
  | escaped => rfl
  | string =>
    simp only [spanStep, SpanScan.joined, Lex.next, Lex.mark, Brackets.step]
    by_cases slash : b = 0x5C
    · simp [slash]
    · by_cases quote : b = 0x22 <;> simp [slash, quote]
  | text =>
    by_cases quote : b = 0x22
    · simp [spanStep, SpanScan.joined, Lex.next, Lex.mark, Brackets.step, quote]
    · by_cases opening : b = 0x7B
      · simp [spanStep, SpanScan.joined, Lex.next, Lex.mark, Brackets.step, opening]
      · by_cases closing : b = 0x7D
        · cases top : s.stack <;>
            simp [spanStep, SpanScan.joined, Lex.next, Lex.mark, Brackets.step, closing, top]
        · simp [spanStep, SpanScan.joined, Lex.next, Lex.mark, Brackets.step, quote, opening, closing]

theorem foldl_spanStep (l : Lex) (s : Brackets.Scan) (bytes : Bytes) :
    bytes.foldl spanStep (.joined l s) = .joined (l.after bytes) ((l.marks bytes).foldl Brackets.step s) := by
  induction bytes generalizing l s with
  | nil => rfl
  | cons b rest ih =>
    rw [List.foldl_cons, spanStep_joined, ih]
    rfl

theorem findJsonEnvelopeSpans_eq (bytes : Bytes) :
    findJsonEnvelopeSpans bytes = Brackets.outermost (Brackets.scan (Lex.text.marks bytes)).spans := by
  have start : SpanScan.init = .joined .text .init := rfl
  rw [findJsonEnvelopeSpans, start, foldl_spanStep]
  rfl

theorem mem_findJsonEnvelopeSpans (bytes : Bytes) (s : Span) :
    s ∈ findJsonEnvelopeSpans bytes ↔ Brackets.Maximal (Lex.text.marks bytes) s := by
  rw [findJsonEnvelopeSpans_eq]
  exact Brackets.mem_outermost_iff _ s

/-! Texts that close what they open -/

/-- A text that leaves the reader outside strings and its braces balanced. -/
structure Closed (bytes : Bytes) : Prop where
  balanced : Balanced (Lex.text.marks bytes)
  outside : Lex.text.after bytes = .text

theorem closed_nil : Closed [] := ⟨.nil, rfl⟩

theorem Closed.append {a b : Bytes} (left : Closed a) (right : Closed b) : Closed (a ++ b) := by
  constructor
  · rw [Lex.marks_append, left.outside]
    exact left.balanced.append right.balanced
  · rw [Lex.after_append, left.outside, right.outside]

theorem Closed.braces {inner : Bytes} (closed : Closed inner) : Closed (0x7B :: (inner ++ [0x7D])) := by
  have marks : Lex.text.marks (0x7B :: (inner ++ [0x7D])) = .opening :: (Lex.text.marks inner ++ [.closing]) := by
    rw [Lex.marks]
    change _ :: Lex.text.marks (inner ++ [0x7D]) = _
    rw [Lex.marks_append, closed.outside]
    rfl
  constructor
  · rw [marks]
    exact Brackets.balanced_group closed.balanced
  · change Lex.text.after (inner ++ [0x7D]) = _
    rw [Lex.after_append, closed.outside]
    rfl

theorem after_text {bytes : Bytes} (free : (0x22 : UInt8) ∉ bytes) : Lex.text.after bytes = .text := by
  induction bytes with
  | nil => rfl
  | cons b rest ih =>
    have other : b ≠ 0x22 := fun eq => free (eq ▸ List.mem_cons_self)
    change (Lex.next .text b).after rest = _
    rw [Lex.next, if_neg other, ih fun member => free (List.mem_cons_of_mem b member)]

theorem mem_marks_text {bytes : Bytes} (free : (0x22 : UInt8) ∉ bytes) :
    (Mark.opening ∈ Lex.text.marks bytes → (0x7B : UInt8) ∈ bytes) ∧
      (Mark.closing ∈ Lex.text.marks bytes → (0x7D : UInt8) ∈ bytes) := by
  induction bytes with
  | nil => exact ⟨nofun, nofun⟩
  | cons b rest ih =>
    have other : b ≠ 0x22 := fun eq => free (eq ▸ List.mem_cons_self)
    obtain ⟨opening, closing⟩ := ih fun member => free (List.mem_cons_of_mem b member)
    rw [Lex.marks, Lex.next, if_neg other]
    constructor
    · intro member
      rcases List.mem_cons.mp member with here | later
      · by_cases eq : b = 0x7B
        · exact eq ▸ List.mem_cons_self
        · rw [Lex.mark, if_neg eq] at here
          split at here <;> cases here
      · exact List.mem_cons_of_mem b (opening later)
    · intro member
      rcases List.mem_cons.mp member with here | later
      · by_cases eq : b = 0x7D
        · exact eq ▸ List.mem_cons_self
        · rw [Lex.mark, if_neg eq] at here
          split at here <;> cases here
      · exact List.mem_cons_of_mem b (closing later)

theorem closed_free {bytes : Bytes} (quote : (0x22 : UInt8) ∉ bytes) (opening : (0x7B : UInt8) ∉ bytes)
    (closing : (0x7D : UInt8) ∉ bytes) : Closed bytes := by
  refine ⟨Brackets.balanced_plain fun m member => ?_, after_text quote⟩
  cases m with
  | opening => exact absurd ((mem_marks_text quote).1 member) opening
  | closing => exact absurd ((mem_marks_text quote).2 member) closing
  | plain => rfl

/-- A stretch of a string that does not end it. -/
structure Within (bytes : Bytes) : Prop where
  plain : ∀ m ∈ Lex.string.marks bytes, m = .plain
  inside : Lex.string.after bytes = .string

theorem Within.append {a b : Bytes} (left : Within a) (right : Within b) : Within (a ++ b) := by
  constructor
  · rw [Lex.marks_append, left.inside]
    intro m member
    rcases List.mem_append.mp member with first | second
    · exact left.plain m first
    · exact right.plain m second
  · rw [Lex.after_append, left.inside, right.inside]

theorem within_free {bytes : Bytes} (quote : (0x22 : UInt8) ∉ bytes) (slash : (0x5C : UInt8) ∉ bytes) : Within bytes := by
  induction bytes with
  | nil => exact ⟨nofun, rfl⟩
  | cons b rest ih =>
    have notQuote : b ≠ 0x22 := fun eq => quote (eq ▸ List.mem_cons_self)
    have notSlash : b ≠ 0x5C := fun eq => slash (eq ▸ List.mem_cons_self)
    obtain ⟨plain, inside⟩ := ih (fun member => quote (List.mem_cons_of_mem b member))
      fun member => slash (List.mem_cons_of_mem b member)
    have stays : Lex.next .string b = .string := by rw [Lex.next, if_neg notSlash, if_neg notQuote]
    constructor
    · intro m member
      rw [Lex.marks, stays] at member
      rcases List.mem_cons.mp member with rfl | later
      · rfl
      · exact plain m later
    · change (Lex.next .string b).after rest = _
      rw [stays, inside]

theorem within_escaped (b : UInt8) : Within [0x5C, b] := by
  refine ⟨fun m member => ?_, rfl⟩
  have marks : Lex.string.marks [0x5C, b] = [.plain, .plain] := rfl
  rw [marks] at member
  simpa using member

theorem Within.quoted {bytes : Bytes} (within : Within bytes) : Closed (0x22 :: (bytes ++ [0x22])) := by
  have marks : Lex.text.marks (0x22 :: (bytes ++ [0x22])) = .plain :: (Lex.string.marks bytes ++ [.plain]) := by
    rw [Lex.marks]
    change _ :: Lex.string.marks (bytes ++ [0x22]) = _
    rw [Lex.marks_append, within.inside]
    rfl
  constructor
  · rw [marks]
    apply Brackets.balanced_plain
    intro m member
    simp only [List.mem_cons, List.mem_append, List.not_mem_nil, or_false] at member
    rcases member with rfl | inside | rfl
    · rfl
    · exact within.plain m inside
    · rfl
  · change Lex.string.after (bytes ++ [0x22]) = _
    rw [Lex.after_append, within.inside]
    rfl

/-! What the serialiser writes -/

/-- Well formed, and closed in its octets. -/
structure ClosedText (s : JStr) : Prop where
  wellFormed : s.WellFormed
  closed : Closed s.utf8

theorem ClosedText.append {s t : JStr} (left : ClosedText s) (right : ClosedText t) : ClosedText (s ++ t) :=
  ⟨left.wellFormed.append right.wellFormed,
    JStr.utf8_append_wellFormed left.wellFormed right.wellFormed ▸ left.closed.append right.closed⟩

/-- What a number is written with: `[0-9.e+-]`. -/
def isNumberUnit (u : UInt16) : Bool := isDigitUnit u || u = 0x2E || u = 0x65 || u = 0x2B || u = 0x2D

/-- A token of letters, digits and marks that are neither quotation marks nor braces. -/
theorem closedText_token {s : JStr} (token : ∀ u ∈ s, 0x23 ≤ u.toNat ∧ u.toNat < 0x7B) : ClosedText s := by
  refine ⟨JStr.wellFormed_ascii fun u member => by have := token u member; omega, closed_free ?_ ?_ ?_⟩
  · intro member
    exact absurd (token _ (JStr.mem_utf8_ascii (by decide) (by decide) member)) (by decide)
  · intro member
    exact absurd (token _ (JStr.mem_utf8_ascii (by decide) (by decide) member)) (by decide)
  · intro member
    exact absurd (token _ (JStr.mem_utf8_ascii (by decide) (by decide) member)) (by decide)

theorem within_units {s : JStr} (units : ∀ u ∈ s, u ≠ 0x22 ∧ u ≠ 0x5C) : Within s.utf8 := by
  apply within_free
  · intro member
    exact (units _ (JStr.mem_utf8_ascii (by decide) (by decide) member)).1 rfl
  · intro member
    exact (units _ (JStr.mem_utf8_ascii (by decide) (by decide) member)).2 rfl

theorem escapeUnit_within (u : UInt16) : Within (escapeUnit u).utf8 := by
  fun_cases escapeUnit
  case case8 =>
    have split : ([0x5C, 0x75, JStr.hexDigit (u.toNat / 4096), JStr.hexDigit (u.toNat / 256 % 16),
        JStr.hexDigit (u.toNat / 16 % 16), JStr.hexDigit (u.toNat % 16)] : JStr) = JStr.lit "\\u" ++
      [JStr.hexDigit (u.toNat / 4096), JStr.hexDigit (u.toNat / 256 % 16), JStr.hexDigit (u.toNat / 16 % 16),
        JStr.hexDigit (u.toNat % 16)] := rfl
    rw [split, JStr.utf8_lit_append _ (by decide)]
    apply (within_escaped 0x75).append
    apply within_units
    intro v member
    have hex : JStr.isHexUnit v = true := by
      have small := u.toNat_lt
      simp only [List.mem_cons, List.not_mem_nil, or_false] at member
      rcases member with rfl | rfl | rfl | rfl
      · exact JStr.hexDigit_isHex _ (by omega)
      · exact JStr.hexDigit_isHex _ (by omega)
      · exact JStr.hexDigit_isHex _ (by omega)
      · exact JStr.hexDigit_isHex _ (by omega)
    constructor
    · rintro rfl
      cases hex
    · rintro rfl
      cases hex
  case case9 quote slash _ _ _ _ _ _ =>
    apply within_units
    intro v member
    obtain rfl := List.mem_singleton.mp member
    exact ⟨quote, slash⟩
  all_goals exact within_escaped _

theorem escape_within (s : JStr) : Within (escape s).utf8 := by
  fun_induction escape s with
  | case1 => exact ⟨List.forall_mem_nil _, rfl⟩
  | case2 u => exact escapeUnit_within u
  | case3 u v rest both ih =>
    simp only [Bool.and_eq_true] at both
    have pair : u :: v :: escape rest = [u, v] ++ escape rest := rfl
    rw [pair, JStr.utf8_append_wellFormed (JStr.wellFormed_pair both.1 both.2) (escape_wellFormed rest)]
    refine (within_units fun w member => ?_).append ih
    rcases List.mem_pair.mp member with rfl | rfl
    · constructor <;> (rintro rfl; exact absurd both.1 (by decide))
    · constructor <;> (rintro rfl; exact absurd both.2 (by decide))
  | case4 u v rest apart ih =>
    rw [JStr.utf8_append_wellFormed (escapeUnit_wellFormed u) (escape_wellFormed _)]
    exact (escapeUnit_within u).append ih

theorem quote_closed (s : JStr) : ClosedText (quote s) := by
  refine ⟨quote_wellFormed s, ?_⟩
  have mark : JStr.WellFormed [0x22] := JStr.wellFormed_unit (by decide) (by decide)
  have layout : quote s = [0x22] ++ (escape s ++ [0x22]) := rfl
  rw [layout, JStr.utf8_append_wellFormed mark ((escape_wellFormed s).append mark),
    JStr.utf8_append_wellFormed (escape_wellFormed s) mark]
  exact (escape_within s).quoted

theorem digits_token (n : Nat) : ∀ u ∈ JStr.natDigits n, 0x23 ≤ u.toNat ∧ u.toNat < 0x7B := by
  intro u member
  have digit := JStr.natDigits_digit n u member
  omega

/-- A mark between tokens. -/
theorem closedText_mark {u : UInt16} (mark : 0x23 ≤ u.toNat ∧ u.toNat < 0x7B) : ClosedText [u] := by
  apply closedText_token
  intro v member
  exact List.mem_singleton.mp member ▸ mark

theorem ClosedText.braces {s : JStr} (inner : ClosedText s) : ClosedText (0x7B :: s ++ [0x7D]) := by
  have opening : JStr.WellFormed [0x7B] := JStr.wellFormed_unit (by decide) (by decide)
  have closing : JStr.WellFormed [0x7D] := JStr.wellFormed_unit (by decide) (by decide)
  have layout : 0x7B :: s ++ [0x7D] = [0x7B] ++ (s ++ [0x7D]) := rfl
  rw [layout]
  refine ⟨opening.append (inner.wellFormed.append closing), ?_⟩
  rw [JStr.utf8_append_wellFormed opening (inner.wellFormed.append closing), JStr.utf8_append_wellFormed inner.wellFormed closing]
  exact inner.closed.braces

theorem commaJoin_closed {parts : List JStr} (closed : ∀ s ∈ parts, ClosedText s) : ClosedText (commaJoin parts) := by
  fun_induction commaJoin parts with
  | case1 => exact ⟨JStr.WellFormed.nil, closed_nil⟩
  | case2 s => exact closed s List.mem_cons_self
  | case3 s t rest ih =>
    have comma : ClosedText [0x2C] := closedText_mark (by decide)
    exact (closed s List.mem_cons_self).append (comma.append (ih fun x member => closed x (List.mem_cons_of_mem s member)))

theorem closedText_word (s : JStr) (word : (s.all fun u => 0x23 ≤ u.toNat && u.toNat < 0x7B) = true) : ClosedText s :=
  closedText_token (by simpa using word)

theorem null_closed : ClosedText "null" := closedText_word _ (by decide)
theorem true_closed : ClosedText "true" := closedText_word _ (by decide)
theorem false_closed : ClosedText "false" := closedText_word _ (by decide)

/-- What is written between the braces of an object. -/
def membersText (members : List (JStr × JStr)) : JStr :=
  commaJoin ((JsVal.enumerate members).map fun p => quote p.1 ++ 0x3A :: p.2)

theorem members_closed {members : List (JStr × JStr)} (closed : ∀ p ∈ members, ClosedText p.2) :
    ClosedText (membersText members) := by
  apply commaJoin_closed
  intro s member
  obtain ⟨p, inside, rfl⟩ := List.mem_map.mp member
  have colon : ClosedText [0x3A] := closedText_mark (by decide)
  exact (quote_closed p.1).append (colon.append (closed p ((JsVal.enumerate_perm _).mem_iff.mp inside)))

theorem stringify_obj (proto : JsVal) (props : JsVal.Props) :
    stringify node (.obj proto props) = 0x7B :: membersText (stringifyProps node props) ++ [0x7D] := by
  rw [stringify, membersText]

/-- A written member is the first one, or one of the rest. -/
theorem stringifyProps_cons {k : JStr} {v : JsVal} {rest : JsVal.Props} {p : JStr × JStr}
    (member : p ∈ stringifyProps node ((k, v) :: rest)) : p = (k, stringify node v) ∨ p ∈ stringifyProps node rest := by
  cases v with
  | undefined => exact .inr member
  | null => exact List.mem_cons.mp member
  | bool b => exact List.mem_cons.mp member
  | num n => exact List.mem_cons.mp member
  | str s => exact List.mem_cons.mp member
  | arr items => exact List.mem_cons.mp member
  | obj proto props => exact List.mem_cons.mp member

theorem mem_stringifyProps {props : JsVal.Props} {k : JStr} {v : JsVal} (member : (k, v) ∈ props) (defined : v ≠ .undefined) :
    (k, stringify node v) ∈ stringifyProps node props := by
  induction props with
  | nil => cases member
  | cons p rest ih =>
    obtain ⟨key, w⟩ := p
    rcases List.mem_cons.mp member with here | later
    · cases here
      rw [stringifyProps]
      · exact List.mem_cons_self
      · exact defined
    · have found := ih later
      cases w with
      | undefined => exact found
      | null => exact List.mem_cons_of_mem _ found
      | bool b => exact List.mem_cons_of_mem _ found
      | num n => exact List.mem_cons_of_mem _ found
      | str s => exact List.mem_cons_of_mem _ found
      | arr items => exact List.mem_cons_of_mem _ found
      | obj proto props => exact List.mem_cons_of_mem _ found

/-- The host writes a number with digits, a point, an exponent and signs. -/
def PlainNumbers : Prop := ∀ q, ∀ u ∈ node.formatNumber q, isNumberUnit u = true

section Stringify

variable {node} (numbers : PlainNumbers node)

include numbers

theorem number_closed (q : ℚ) : ClosedText (numberToString node (.finite q)) := by
  apply closedText_token
  rw [numberToString]
  split
  next =>
    unfold intDigits
    split
    next =>
      intro u member
      rcases List.mem_append.mp member with sign | digit
      · obtain rfl := List.mem_singleton.mp sign
        decide
      · exact digits_token _ u digit
    next => exact digits_token _
  next =>
    intro u member
    have spelled := numbers q u member
    simp only [isNumberUnit, isDigitUnit, Bool.or_eq_true, Bool.and_eq_true, decide_eq_true_eq] at spelled
    rcases spelled with (((digit | rfl) | rfl) | rfl) | rfl
    · omega
    all_goals decide

end Stringify

mutual

/-- Every brace of a JSON text stands in a string or is matched. -/
theorem stringify_closed (numbers : PlainNumbers node) : ∀ v, ClosedText (stringify node v)
  | .undefined => null_closed
  | .null => null_closed
  | .bool true => true_closed
  | .bool false => false_closed
  | .num (.finite q) => number_closed numbers q
  | .num .posInf => null_closed
  | .num .negInf => null_closed
  | .str s => quote_closed s
  | .arr items => by
    rw [stringify]
    have opening : ClosedText [0x5B] := closedText_mark (by decide)
    have closing : ClosedText [0x5D] := closedText_mark (by decide)
    exact opening.append ((commaJoin_closed (stringifyItems_closed numbers items)).append closing)
  | .obj _ props => by
    rw [stringify_obj]
    exact (members_closed (stringifyProps_closed numbers props)).braces

theorem stringifyItems_closed (numbers : PlainNumbers node) : ∀ items, ∀ s ∈ stringifyItems node items, ClosedText s
  | [] => nofun
  | v :: rest => by
    intro s member
    rw [stringifyItems] at member
    rcases List.mem_cons.mp member with rfl | later
    · exact stringify_closed numbers v
    · exact stringifyItems_closed numbers rest s later

theorem stringifyProps_closed (numbers : PlainNumbers node) : ∀ props, ∀ p ∈ stringifyProps node props, ClosedText p.2
  | [] => nofun
  | (k, v) :: rest => by
    intro p member
    rcases stringifyProps_cons node member with rfl | later
    · exact stringify_closed numbers v
    · exact stringifyProps_closed numbers rest p later

end

end TeeProof.Verifier
