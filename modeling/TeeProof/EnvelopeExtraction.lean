import TeeProof.Agreement
import TeeProof.JsonEnvelope

/-! Reading a JSON envelope back out of the text around it. -/
namespace TeeProof.Verifier

open Brackets (Span Mark IsGroup Maximal)

variable (node : Node)

/-! An object among other text -/

section Place

variable {front inner back : Bytes} (quoteless : (0x22 : UInt8) ∉ front) (closed : Closed inner)

include quoteless closed

theorem marks_object : Lex.text.marks (front ++ (0x7B :: (inner ++ [0x7D]) ++ back)) =
    Lex.text.marks front ++ .opening :: (Lex.text.marks inner ++ .closing :: Lex.text.marks back) := by
  rw [Lex.marks_append, after_text quoteless, Lex.marks_append, closed.braces.outside]
  have marks : Lex.text.marks (0x7B :: (inner ++ [0x7D])) = .opening :: (Lex.text.marks inner ++ [.closing]) := by
    rw [Lex.marks]
    change _ :: Lex.text.marks (inner ++ [0x7D]) = _
    rw [Lex.marks_append, closed.outside]
    rfl
  rw [marks, List.cons_append, List.append_assoc, List.singleton_append]

/-- The object's place. -/
theorem isGroup_object : BraceGroup (front ++ (0x7B :: (inner ++ [0x7D]) ++ back))
    ⟨front.length, front.length + inner.length + 2⟩ := by
  refine ⟨_, _, _, marks_object quoteless closed, closed.balanced, ?_⟩
  rw [Lex.length_marks, Lex.length_marks]

variable (backQuote : (0x22 : UInt8) ∉ back) (backBrace : (0x7D : UInt8) ∉ back)

include backQuote backBrace

/-- No group ends behind the object. -/
theorem group_stop_le {t : Span} (group : BraceGroup (front ++ (0x7B :: (inner ++ [0x7D]) ++ back)) t) :
    t.stop ≤ front.length + inner.length + 2 := by
  have ends := group.ends
  by_contra beyond
  obtain ⟨k, eq⟩ : ∃ k, t.stop - 1 = front.length + (inner.length + (k + 1) + 1) :=
    ⟨t.stop - 3 - front.length - inner.length, by omega⟩
  rw [marks_object quoteless closed, eq, List.getElem?_append_right (by rw [Lex.length_marks]; omega),
    Lex.length_marks, Nat.add_sub_cancel_left, List.getElem?_cons_succ,
    List.getElem?_append_right (by rw [Lex.length_marks]; omega), Lex.length_marks, Nat.add_sub_cancel_left,
    List.getElem?_cons_succ] at ends
  exact backBrace ((mem_marks_text backQuote).2 (List.mem_of_getElem? ends))

theorem maximal_object : Maximal (Lex.text.marks (front ++ (0x7B :: (inner ++ [0x7D]) ++ back)))
    ⟨front.length, front.length + inner.length + 2⟩ := by
  have own : BraceGroup (front ++ (0x7B :: (inner ++ [0x7D]) ++ back)) _ := isGroup_object quoteless closed
  refine ⟨own, fun t group inside => ?_⟩
  have stop := group_stop_le quoteless closed backQuote backBrace group
  obtain ⟨low, high⟩ := inside
  have order := own.deeper.1
  rcases own.laminar group with same | apart | ⟨_, shorter⟩ | ⟨_, longer⟩
  · exact same.symm
  · simp only [Span.Apart] at apart low high order
    omega
  · dsimp only at shorter high
    omega
  · dsimp only at longer
    omega

/-- Every other outermost group stands in front of the object. -/
theorem other_in_front {t : Span} (other : Maximal (Lex.text.marks (front ++ (0x7B :: (inner ++ [0x7D]) ++ back))) t)
    (different : t ≠ ⟨front.length, front.length + inner.length + 2⟩) : t.stop ≤ front.length := by
  have own := maximal_object quoteless closed backQuote backBrace
  have stop := group_stop_le quoteless closed backQuote backBrace other.1
  have order := other.1.deeper.1
  rcases own.1.laminar other.1 with same | apart | ⟨low, high⟩ | ⟨low, high⟩
  · exact absurd same.symm different
  · simp only [Span.Apart] at apart
    omega
  · exact absurd (other.2 _ own.1 ⟨Nat.le_of_lt low, Nat.le_of_lt high⟩).symm different
  · exact absurd (own.2 _ other.1 ⟨Nat.le_of_lt low, Nat.le_of_lt high⟩) different

end Place

/-! What stands at the outermost places -/

/-- Distinct members keep one result together exactly if one of them gives it and no other gives any. -/
theorem filterMap_eq_singleton_iff {α β : Type} {l : List α} (nodup : l.Nodup) (f : α → Option β) (b : β) :
    l.filterMap f = [b] ↔ ∃ x ∈ l, f x = some b ∧ ∀ y ∈ l, (f y).isSome → y = x := by
  induction l with
  | nil => simp
  | cons a rest ih =>
    obtain ⟨fresh, distinct⟩ := List.nodup_cons.mp nodup
    cases here : f a with
    | none =>
      rw [List.filterMap_cons_none here, ih distinct]
      constructor
      · rintro ⟨x, member, gives, alone⟩
        refine ⟨x, List.mem_cons_of_mem a member, gives, fun y inside found => ?_⟩
        rcases List.mem_cons.mp inside with rfl | later
        · simp [here] at found
        · exact alone y later found
      · rintro ⟨x, member, gives, alone⟩
        rcases List.mem_cons.mp member with rfl | later
        · simp [here] at gives
        · exact ⟨x, later, gives, fun y inside => alone y (List.mem_cons_of_mem a inside)⟩
    | some c =>
      rw [List.filterMap_cons_some here, List.cons.injEq, List.filterMap_eq_nil_iff]
      constructor
      · rintro ⟨rfl, none⟩
        refine ⟨a, List.mem_cons_self, here, fun y inside found => ?_⟩
        rcases List.mem_cons.mp inside with rfl | later
        · rfl
        · simp [none y later] at found
      · rintro ⟨x, member, gives, alone⟩
        obtain rfl := alone a List.mem_cons_self (by rw [here]; rfl)
        refine ⟨Option.some.inj (here.symm.trans gives), fun y inside => ?_⟩
        by_contra found
        have same := alone y (List.mem_cons_of_mem a inside) (Option.isSome_iff_ne_none.mpr found)
        exact fresh (same ▸ inside)

/-- The spans follow one another, they are the outermost groups, and every group lies inside one. -/
theorem findJsonEnvelopeSpans_outermost (bytes : Bytes) :
    (findJsonEnvelopeSpans bytes).Pairwise (fun s t => s.stop ≤ t.start) ∧
      (∀ s ∈ findJsonEnvelopeSpans bytes, BraceGroup bytes s ∧ ∀ t, BraceGroup bytes t → s.Inside t → t = s) ∧
      ∀ t, BraceGroup bytes t → ∃ s ∈ findJsonEnvelopeSpans bytes, t.Inside s := by
  refine ⟨?_, fun s member => (mem_findJsonEnvelopeSpans bytes s).mp member, fun t group => ?_⟩
  · rw [findJsonEnvelopeSpans_eq]
    exact Brackets.outermost_apart fun s => (Brackets.mem_scan_iff _ s).mp
  · rw [findJsonEnvelopeSpans_eq]
    exact Brackets.outermost_covers t ((Brackets.mem_scan_iff _ t).mpr group)

theorem findJsonEnvelopeSpans_nodup (bytes : Bytes) : (findJsonEnvelopeSpans bytes).Nodup := by
  obtain ⟨apart, groups, -⟩ := findJsonEnvelopeSpans_outermost bytes
  refine apart.imp_of_mem fun {s t} here _ order same => ?_
  have size := (groups s here).1.deeper.1
  subst same
  omega

/-- An envelope is returned exactly if one outermost group is one, and no other. -/
theorem parseTeeProofJsonEnvelope_eq_some_iff (bytes : Bytes) (contentType : Option JStr) (result : ParsedTeeProofStream) :
    parseTeeProofJsonEnvelope node bytes contentType = some result ↔
      isForeignType node contentType = false ∧
        ∃ s, Maximal (Lex.text.marks bytes) s ∧ envelopeAt node bytes contentType s = some result ∧
          ∀ t, Maximal (Lex.text.marks bytes) t → (envelopeAt node bytes contentType t).isSome → t = s := by
  have single := filterMap_eq_singleton_iff (findJsonEnvelopeSpans_nodup bytes) (envelopeAt node bytes contentType) result
  simp only [mem_findJsonEnvelopeSpans] at single
  rw [← single, parseTeeProofJsonEnvelope, parseTeeProofJsonEnvelopeBytes]
  cases isForeignType node contentType with
  | true => simp
  | false =>
    simp only [Bool.false_eq_true, if_false, true_and]
    cases (findJsonEnvelopeSpans bytes).filterMap (envelopeAt node bytes contentType) with
    | nil => simp
    | cons first rest => cases rest <;> simp

/-! An envelope among other text -/

theorem commaJoin_wellFormed {parts : List JStr} (texts : ∀ s ∈ parts, s.WellFormed) : (commaJoin parts).WellFormed := by
  have comma : JStr.WellFormed [0x2C] := JStr.wellFormed_unit (by decide) (by decide)
  fun_induction commaJoin parts with
  | case1 => exact .nil
  | case2 s => exact texts s List.mem_cons_self
  | case3 s t rest ih =>
    exact (texts s List.mem_cons_self).append (comma.append (ih fun x member => texts x (List.mem_cons_of_mem s member)))

theorem commaJoin_around {parts : List JStr} (texts : ∀ s ∈ parts, s.WellFormed) {s : JStr} (member : s ∈ parts) :
    ∃ a b : JStr, a.WellFormed ∧ b.WellFormed ∧ commaJoin parts = a ++ (s ++ b) := by
  have comma : JStr.WellFormed [0x2C] := JStr.wellFormed_unit (by decide) (by decide)
  fun_induction commaJoin parts with
  | case1 => cases member
  | case2 t =>
    obtain rfl := List.mem_singleton.mp member
    exact ⟨[], [], .nil, .nil, by simp⟩
  | case3 t u rest ih =>
    have later : ∀ x ∈ u :: rest, x.WellFormed := fun x inside => texts x (List.mem_cons_of_mem t inside)
    rcases List.mem_cons.mp member with rfl | inside
    · exact ⟨[], 0x2C :: commaJoin (u :: rest), .nil, comma.append (commaJoin_wellFormed later), rfl⟩
    · obtain ⟨a, b, front, back, eq⟩ := ih later inside
      refine ⟨t ++ 0x2C :: a, b, (texts t List.mem_cons_self).append (comma.append front), back, ?_⟩
      rw [eq]
      simp

theorem ClosedText.utf8_braces {s : JStr} (inner : ClosedText s) :
    JStr.utf8 (0x7B :: s ++ [0x7D]) = 0x7B :: (s.utf8 ++ [0x7D]) := by
  have opening : JStr.WellFormed [0x7B] := JStr.wellFormed_unit (by decide) (by decide)
  have closing : JStr.WellFormed [0x7D] := JStr.wellFormed_unit (by decide) (by decide)
  have layout : 0x7B :: s ++ [0x7D] = [0x7B] ++ (s ++ [0x7D]) := rfl
  rw [layout, JStr.utf8_append_wellFormed opening (inner.wellFormed.append closing),
    JStr.utf8_append_wellFormed inner.wellFormed closing]
  rfl

/-- A span that ends in the front holds nothing else. -/
theorem mem_spanBytes {front rest : Bytes} {s : Span} (stop : s.stop ≤ front.length) {b : UInt8}
    (member : b ∈ spanBytes (front ++ rest) s) : b ∈ front := by
  rw [spanBytes, ← List.drop_take, List.take_append_of_le_length stop] at member
  exact List.mem_of_mem_take (List.mem_of_mem_drop member)

section Envelope

variable {node} (numbers : PlainNumbers node) {props : JsVal.Props} {proof : JsVal}

/-- `{ ...response, proof }`. -/
def withProof (props : JsVal.Props) (proof : JsVal) : JsVal := .obj .undefined (props ++ [(proofKey, proof)])

include numbers

/-- The key of the proof stands in the text with its quotation marks. -/
theorem proofField_infix (defined : proof ≠ .undefined) : jsonProofField <:+: (stringify node (withProof props proof)).utf8 := by
  have written : (proofKey, stringify node proof) ∈ stringifyProps node (props ++ [(proofKey, proof)]) :=
    mem_stringifyProps node (List.mem_append_right _ List.mem_cons_self) defined
  have closed (p : JStr × JStr) (member : p ∈ stringifyProps node (props ++ [(proofKey, proof)])) : ClosedText p.2 :=
    stringifyProps_closed node numbers _ p member
  have colon : JStr.WellFormed [0x3A] := JStr.wellFormed_unit (by decide) (by decide)
  have texts : ∀ s ∈ (JsVal.enumerate (stringifyProps node (props ++ [(proofKey, proof)]))).map
      (fun p => quote p.1 ++ 0x3A :: p.2), s.WellFormed := by
    intro s member
    obtain ⟨p, inside, rfl⟩ := List.mem_map.mp member
    have value := (closed p ((JsVal.enumerate_perm _).mem_iff.mp inside)).wellFormed
    exact (quote_wellFormed p.1).append (colon.append value)
  obtain ⟨a, b, front, back, eq⟩ := commaJoin_around texts
    (List.mem_map_of_mem (f := fun p => quote p.1 ++ 0x3A :: p.2) ((JsVal.enumerate_perm _).mem_iff.mpr written))
  have opening : JStr.WellFormed [0x7B] := JStr.wellFormed_unit (by decide) (by decide)
  have closing : JStr.WellFormed [0x7D] := JStr.wellFormed_unit (by decide) (by decide)
  have value := (closed _ written).wellFormed
  have layout : stringify node (withProof props proof) =
      (0x7B :: a) ++ (quote proofKey ++ (0x3A :: stringify node proof ++ b ++ [0x7D])) := by
    rw [withProof, stringify, eq]
    simp
  have key : (quote proofKey).utf8 = jsonProofField := by decide
  have tail : JStr.WellFormed (0x3A :: stringify node proof ++ b ++ [0x7D]) := (colon.append value).append back |>.append closing
  have head : JStr.WellFormed (0x7B :: a) := opening.append front
  refine ⟨JStr.utf8 (0x7B :: a), JStr.utf8 (0x3A :: stringify node proof ++ b ++ [0x7D]), ?_⟩
  rw [layout, JStr.utf8_append_wellFormed head ((quote_wellFormed _).append tail),
    JStr.utf8_append_wellFormed (quote_wellFormed _) tail, key, List.append_assoc]

variable (absent : JsVal.own props proofKey = none) (wire : isTeeProofWireLike proof = true)
  (parses : node.parseJson (stringify node (withProof props proof)) = .ok (withProof props proof))

include absent wire parses

/-- The proof comes out of its object, and the text of the other members. -/
theorem parse_withProof (contentType : Option JStr) :
    parseTeeProofJsonEnvelopeObject node (stringify node (withProof props proof)).utf8 contentType =
      some { body := (stringify node (.obj .undefined props)).utf8, proof := some proof,
             bodyContentType := some (contentType.getD "application/json") } := by
  have own : JsVal.own (props ++ [(proofKey, proof)]) proofKey = some proof := by
    rw [own_append _ _ _ _ absent, if_pos rfl]
  have has : (withProof props proof).hasOwn proofKey = true := by rw [withProof, JsVal.hasOwn, own]; rfl
  have value : (withProof props proof).get proofKey = proof := by rw [withProof, JsVal.get, own]
  have embedded : isEmbeddedProofValue proof = true := by rw [isEmbeddedProofValue, wire]; rfl
  have others : ∀ q ∈ props, decide (q.1 ≠ proofKey) = true := by
    intro q member
    rw [decide_eq_true_eq]
    rintro same
    exact Assoc.lookup_eq_none.mp absent (List.mem_map.mpr ⟨q, member, same⟩)
  have rest : deleteKey proofKey (withProof props proof).spread = .obj .undefined props := by
    rw [withProof, JsVal.spread, deleteKey, List.filter_append, List.filter_eq_self.mpr others]
    simp
  have record : (withProof props proof).isRecord = true := rfl
  rw [parseTeeProofJsonEnvelopeObject, bufferText_utf8 _ (stringify_closed node numbers _).wellFormed, parses]
  simp only [record, has, value, embedded, rest, wire, Bool.not_true, Bool.or_self, Bool.false_eq_true, if_false, if_true]

/-- The envelope is found whatever braces stand in front of it. -/
theorem parseTeeProofJsonEnvelope_embedded {front back : Bytes} (frontQuote : (0x22 : UInt8) ∉ front)
    (backQuote : (0x22 : UInt8) ∉ back) (backBrace : (0x7D : UInt8) ∉ back) (contentType : Option JStr)
    (type : isForeignType node contentType = false) :
    parseTeeProofJsonEnvelope node (front ++ (stringify node (withProof props proof)).utf8 ++ back) contentType =
      some { body := (stringify node (.obj .undefined props)).utf8, proof := some proof,
             bodyContentType := some (contentType.getD "application/json") } := by
  have members : ClosedText (membersText (stringifyProps node (props ++ [(proofKey, proof)]))) :=
    members_closed (stringifyProps_closed node numbers _)
  have text : (stringify node (withProof props proof)).utf8 =
      0x7B :: ((membersText (stringifyProps node (props ++ [(proofKey, proof)]))).utf8 ++ [0x7D]) := by
    rw [withProof, stringify_obj, members.utf8_braces]
  have defined : proof ≠ .undefined := by
    rintro rfl
    cases wire
  have whole := parse_withProof numbers absent wire parses contentType
  have named : jsonProofField <:+: (stringify node (withProof props proof)).utf8 := proofField_infix numbers defined
  have key := Search.indexOf_infix named
  have closed := members.closed
  rw [text] at whole key ⊢
  rw [List.append_assoc]
  generalize (membersText (stringifyProps node (props ++ [(proofKey, proof)]))).utf8 = inner at closed whole key ⊢
  have here : spanBytes (front ++ (0x7B :: (inner ++ [0x7D]) ++ back)) ⟨front.length, front.length + inner.length + 2⟩ =
      0x7B :: (inner ++ [0x7D]) := by
    have size : front.length + inner.length + 2 - front.length = (0x7B :: (inner ++ [0x7D])).length := by
      simp only [List.length_cons, List.length_append, List.length_nil]
      omega
    rw [spanBytes, List.drop_left, size, List.take_left]
  have found : envelopeAt node (front ++ (0x7B :: (inner ++ [0x7D]) ++ back)) contentType
      ⟨front.length, front.length + inner.length + 2⟩ =
        some { body := (stringify node (.obj .undefined props)).utf8, proof := some proof,
               bodyContentType := some (contentType.getD "application/json") } := by
    rw [envelopeAt, here, if_neg (Option.isSome_iff_ne_none.mp key), whole]
  refine (parseTeeProofJsonEnvelope_eq_some_iff node _ _ _).mpr ⟨type, _,
    maximal_object frontQuote closed backQuote backBrace, found, fun t group gives => ?_⟩
  by_contra different
  have stop := other_in_front frontQuote closed backQuote backBrace group different
  have unquoted : (0x22 : UInt8) ∉ spanBytes (front ++ (0x7B :: (inner ++ [0x7D]) ++ back)) t :=
    fun member => frontQuote (mem_spanBytes stop member)
  have first : jsonProofField = 0x22 :: jsonProofField.tail := by decide
  have missing : Search.indexOf jsonProofField (spanBytes (front ++ (0x7B :: (inner ++ [0x7D]) ++ back)) t) = none := by
    rw [first]
    exact Search.indexOf_absent unquoted
  rw [envelopeAt, if_pos missing] at gives
  cases gives

end Envelope

/-! An envelope to look at -/

def envelopeProof : JsVal := .ofObject
  [("v", .num 2), ("alg", .lit "ed25519"), ("public_key", .lit "k"), ("nonce", .lit "n"), ("signature", .lit "s"),
    ("attestation", .lit "a")]

def envelopeText : JStr := JStr.lit ("\x7b\"id\":\"\x7d\",\"proof\":\x7b\"v\":2,\"alg\":\"ed25519\"," ++
  "\"public_key\":\"k\",\"nonce\":\"n\",\"signature\":\"s\",\"attestation\":\"a\"\x7d\x7d")

def envelopeNode : Node := .sample [] [(envelopeText, withProof [("id", .lit "\x7d")] envelopeProof)] [] [] 0

theorem stringify_envelope : stringify envelopeNode (withProof [("id", .lit "\x7d")] envelopeProof) = envelopeText := by decide

theorem parse_envelope : envelopeNode.parseJson (stringify envelopeNode (withProof [("id", .lit "\x7d")] envelopeProof)) =
    .ok (withProof [("id", .lit "\x7d")] envelopeProof) := by
  rw [stringify_envelope]
  simp only [envelopeNode, Node.sample, List.lookup_cons_self]

/-- A brace in the response, one in front of the envelope and one behind it. -/
theorem parseTeeProofJsonEnvelope_embedded_sample :
    parseTeeProofJsonEnvelope envelopeNode
      ([0x7B] ++ (stringify envelopeNode (withProof [("id", .lit "\x7d")] envelopeProof)).utf8 ++ [0x7B]) none =
      some { body := (stringify envelopeNode (.obj .undefined [("id", .lit "\x7d")])).utf8, proof := some envelopeProof,
             bodyContentType := some ((none : Option JStr).getD "application/json") } :=
  parseTeeProofJsonEnvelope_embedded (fun _ => List.forall_mem_nil _) (by decide) (by decide) parse_envelope (by decide)
    (by decide) (by decide) none rfl

end TeeProof.Verifier
