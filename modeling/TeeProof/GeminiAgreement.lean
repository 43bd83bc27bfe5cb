import TeeProof.IndexAgreement

/-! Gemini streams: candidates by index, contents by key and parts by position, on
the two sides. -/
namespace TeeProof

open JsVal Verifier
open Value (Map)
open Enclave (put field strField arrayField objectField IndexMap indexOr padTo objectAt)

variable {numbers : Numbers}

/-! Parts. -/

theorem same_part {out : List Value} {out' : List JsVal} (same : List.Forall₂ (Same numbers) out out') (i : Nat)
    (near : i ≤ out.length) (fits : i < maxArray) {raw : Value} {incoming : JsVal} (value : Same numbers raw incoming) :
    List.Forall₂ (Same numbers) (Enclave.mergeIndexedPart out i raw) (mergeIndexedPart out' i incoming) := by
  unfold Enclave.mergeIndexedPart Verifier.mergeIndexedPart
  have target := same_objectAt same i fits
  rcases value.object_cases with ⟨source, found, record, members⟩ | ⟨missing, noRecord⟩
  · simp only [found, record, if_true]
    exact same_setAt same i near fits (target.mergeSemanticPart members)
  · simp only [missing, noRecord, Bool.false_eq_true, if_false]
    exact same_setAt same i near fits value

theorem length_part (out : List Value) (i : Nat) (raw : Value) :
    i + 1 ≤ (Enclave.mergeIndexedPart out i raw).length := by
  unfold Enclave.mergeIndexedPart padTo
  split <;> simp <;> omega

theorem same_partsFrom {incoming : List Value} {incoming' : List JsVal}
    (values : List.Forall₂ (Same numbers) incoming incoming') (n : Nat) (fits : n + incoming.length ≤ maxArray)
    {out : List Value} {out' : List JsVal} (same : List.Forall₂ (Same numbers) out out') (near : n ≤ out.length) :
    List.Forall₂ (Same numbers)
      ((incoming.zipIdx n).foldl (fun out p => Enclave.mergeIndexedPart out p.2 p.1) out)
      ((incoming'.zipIdx n).foldl (fun out p => mergeIndexedPart out p.2 p.1) out') := by
  induction values generalizing n out out' with
  | nil => exact same
  | cons first rest ih =>
    rw [List.length_cons] at fits
    exact ih (n + 1) (by omega) (same_part same n near (by omega) first) (length_part out n _)

theorem same_parts {o : Option Value} {x : JsVal} (existing : SameField numbers o x) {incoming : List Value}
    {incoming' : List JsVal} (values : List.Forall₂ (Same numbers) incoming incoming')
    (fits : incoming.length ≤ maxArray) :
    Same numbers (Enclave.mergeIndexedParts o incoming) (.arr (mergeIndexedParts x.items incoming')) := by
  unfold Enclave.mergeIndexedParts Verifier.mergeIndexedParts
  refine .array ?_
  rcases existing.array with ⟨items, items', found, rfl, same⟩ | ⟨missing, empty, -⟩
  · rw [found, JsVal.items, copyItems_same same]
    exact same_partsFrom values 0 (by omega) same (Nat.zero_le _)
  · rw [missing, empty]
    exact same_partsFrom values 0 (by omega) .nil (Nat.zero_le _)

/-! The members of a content and of a candidate. -/

def contentValue (key : Str) (old : Option Value) (value : Value) : Option Value :=
  if key = "parts".toList then
    match value.asArray with
    | some parts => some (Enclave.mergeIndexedParts old parts)
    | none => none
  else if value.isNull then none
  else some value

def contentValueJs (key : JStr) (old value : JsVal) : Option JsVal :=
  match value with
  | .arr incoming =>
    if key = JStr.lit "parts" then some (.arr (mergeIndexedParts old.items incoming)) else some value
  | _ => if isNullish value then none else some value

theorem mergeGeminiContentField_eq : Enclave.mergeGeminiContentField = revise contentValue := by
  funext content key value
  unfold Enclave.mergeGeminiContentField revise contentValue
  split
  next same =>
    subst same
    cases value.asArray <;> rfl
  next => split <;> rfl

theorem mergeGeminiContentFieldJs_eq : mergeGeminiContentField = reviseJs contentValueJs := by
  funext content key value
  unfold Verifier.mergeGeminiContentField reviseJs contentValueJs
  cases value with
  | arr incoming =>
    dsimp only
    split
    next same =>
      subst same
      rfl
    next => rfl
  | _ => rfl

/-- `parts` is an array or null. -/
def IsParts (o : Option Value) : Prop := ∀ v ∈ o, v.isNull = true ∨ ∃ items, v = .array items

theorem contentValueJs_defined (key : JStr) (x y : JsVal) (defined : y ≠ .undefined) :
    contentValueJs key x y ≠ some .undefined := by
  unfold contentValueJs
  split
  · split <;> simp
  · split
    · simp
    · simpa using defined

theorem contentValues :
    Revisions numbers (fun _ => True)
      (fun key _ v y => (key = "parts".toList → IsParts (some v)) ∧ y.short = true) contentValue contentValueJs where
  same key _ _ o x old v y value defined admitted := by
    obtain ⟨parts, short⟩ := admitted
    refine old.revised ?_ (contentValueJs_defined _ x y defined)
    unfold contentValue contentValueJs
    by_cases here : key = "parts".toList
    · subst here
      rw [if_pos rfl]
      rcases parts rfl v rfl with null | ⟨items, rfl⟩
      · cases value with
        | hole => exact absurd rfl defined
        | null => exact .none
        | _ => cases null
      · cases value with
        | @array _ items' same =>
          have fits : items'.length ≤ maxArray := by
            simp only [JsVal.short, Bool.and_eq_true, decide_eq_true_eq] at short
            exact short.1
          have named : JStr.ofChars "parts".toList = JStr.lit "parts" := rfl
          dsimp only
          rw [if_pos named]
          exact .some (same_parts old same (same.length_eq ▸ fits))
    · have apart : JStr.ofChars key ≠ JStr.lit "parts" := mt (ofChars_eq_lit key "parts").mp here
      rw [if_neg here]
      cases value with
      | hole => exact absurd rfl defined
      | null => exact .none
      | array same =>
        dsimp only
        rw [if_neg apart]
        exact .some (.array same)
      | bool b => exact .some (.bool b)
      | number t => exact .some (.number t)
      | string s => exact .some (.string s)
      | object sorted plain fields => exact .some (.object sorted plain fields)
  defined := contentValueJs_defined

theorem same_content {o : Option Value} {x : JsVal} (existing : SameField numbers o x) {source : Map} {u : JsVal}
    (members : Same numbers (.object source) u) (short : u.short = true) (parts : IsParts (field source "parts")) :
    Same numbers (.object (source.foldl (fun out p => Enclave.mergeGeminiContentField out p.1 p.2)
        ((o.bind Value.asObject).getD [])))
      (u.entries.foldl (fun c p => mergeGeminiContentField c p.1 p.2) (if x.isRecord then x.spread else JsVal.empty)) := by
  rw [mergeGeminiContentField_eq, mergeGeminiContentFieldJs_eq]
  refine existing.objectOr.loop contentValues members fun key v y safe found read => ⟨?_, ?_⟩
  · rintro rfl
    exact found ▸ parts
  · exact read ▸ short_get (same_object.mp members) short key safe

def candidateValue (key : Str) (old : Option Value) (value : Value) : Option Value :=
  if key = "index".toList then none
  else if key = "content".toList then
    match value.asObject with
    | none => none
    | some source =>
      some (.object (source.foldl (fun out p => Enclave.mergeGeminiContentField out p.1 p.2)
        ((old.bind Value.asObject).getD [])))
  else if value.isNull then none
  else some value

def candidateValueJs (key : JStr) (old value : JsVal) : Option JsVal :=
  if key = JStr.lit "index" then none
  else if key = JStr.lit "content" && value.isRecord then
    some (value.entries.foldl (fun c p => mergeGeminiContentField c p.1 p.2)
      (if old.isRecord then old.spread else JsVal.empty))
  else if isNullish value then none
  else some value

theorem mergeGeminiField_eq : Enclave.mergeGeminiField = revise candidateValue := by
  funext target key value
  unfold Enclave.mergeGeminiField revise candidateValue
  split
  · rfl
  · split
    next same =>
      subst same
      cases value.asObject <;> rfl
    next => split <;> rfl

theorem mergeGeminiFieldJs_eq : mergeGeminiField = reviseJs candidateValueJs := by
  funext target key value
  unfold Verifier.mergeGeminiField reviseJs candidateValueJs
  split
  · rfl
  · split
    next same =>
      rw [Bool.and_eq_true, decide_eq_true_eq] at same
      obtain ⟨rfl, -⟩ := same
      rfl
    next => split <;> rfl

/-- What a provider's candidate looks like. -/
structure CandidateShaped (candidate : Map) : Prop where
  content : ∀ v, field candidate "content" = some v → v.isNull = true ∨
    ∃ content, v = .object content ∧ IsParts (field content "parts")
  index : IsIndex (field candidate "index")

theorem candidateValueJs_defined (key : JStr) (x y : JsVal) (defined : y ≠ .undefined) :
    candidateValueJs key x y ≠ some .undefined := by
  unfold candidateValueJs
  rw [mergeGeminiContentFieldJs_eq]
  split
  · simp
  · split
    · have record := isRecord_foldl contentValueJs y.entries (if x.isRecord then x.spread else JsVal.empty)
      have start : (if x.isRecord then x.spread else JsVal.empty).isRecord = true := by
        split
        · cases x <;> rfl
        · rfl
      intro eq
      rw [Option.some.inj eq, start] at record
      cases record
    · split
      · simp
      · simpa using defined

theorem candidateValues :
    Revisions numbers (fun _ => True)
      (fun key _ v y => (key = "content".toList → v.isNull = true ∨
        ∃ content, v = .object content ∧ IsParts (field content "parts")) ∧ y.short = true)
      candidateValue candidateValueJs where
  same key _ _ o x old v y value defined admitted := by
    obtain ⟨content, short⟩ := admitted
    refine old.revised ?_ (candidateValueJs_defined _ x y defined)
    unfold candidateValue candidateValueJs
    simp only [ofChars_eq_lit]
    by_cases index : key = "index".toList
    · rw [if_pos index, if_pos index]
      exact .none
    rw [if_neg index, if_neg index]
    by_cases here : key = "content".toList
    · rw [if_pos here, decide_eq_true here, Bool.true_and]
      rcases content here with null | ⟨source, rfl, parts⟩
      · cases value with
        | hole => exact absurd rfl defined
        | null => exact .none
        | _ => cases null
      · rw [value.isRecord]
        exact .some (same_content old value short parts)
    · rw [if_neg here, decide_eq_false here, Bool.false_and, value.nullish]
      cases v.isNull with
      | true => exact .none
      | false => exact .some value
  defined := candidateValueJs_defined

theorem same_candidate {target source : Map} {w u : JsVal} (same : Same numbers (.object target) w)
    (members : Same numbers (.object source) u) (short : u.short = true) (shaped : CandidateShaped source) :
    Same numbers (.object (Enclave.mergeGeminiCandidate target source)) (mergeGeminiCandidate w u) := by
  unfold Enclave.mergeGeminiCandidate Verifier.mergeGeminiCandidate
  rw [mergeGeminiField_eq, mergeGeminiFieldJs_eq]
  refine same.loop candidateValues members fun key v y safe found read => ⟨?_, ?_⟩
  · rintro rfl
    exact shaped.content v found
  · exact read ▸ short_get (same_object.mp members) short key safe

/-! One candidate, one chunk, then the stream. -/

theorem candidate_step {map : IndexMap} {nums : NumMap} (same : SameIndexed numbers map nums) {v : Value} {w : JsVal}
    (read : Same numbers v w) (short : w.short = true) (i : Nat) (small : i < 2 ^ 53)
    (shaped : ∀ candidate, v = .object candidate → CandidateShaped candidate) :
    SameIndexed numbers (Enclave.aggregateGeminiGenerateContentStream.candidate map (v, i))
      (geminiCandidateStep nums w i) := by
  unfold Enclave.aggregateGeminiGenerateContentStream.candidate geminiCandidateStep
  rcases read.object_cases with ⟨candidate, found, record, members⟩ | ⟨missing, noRecord⟩
  · obtain rfl := eq_object found
    have shape := shaped candidate rfl
    have index := (members.read "index" (by decide)).index shape.index i
    obtain ⟨n, bound, position⟩ := shape.index.bound i small
    simp only [Value.asObject, record, Bool.not_true, Bool.false_eq_true, if_false, index.2]
    have default : Same numbers (.object [("index".toList, .ofInt (indexOr candidate "index" i))])
        (ofObject [("index", .num (.finite (indexOr candidate "index" i : Int)))]) := by
      rw [indexOr, position]
      exact Same.empty.set "index" (by decide) (.ofIndex n bound) nofun
    exact same.entry _ default fun m w same => same_candidate same members short shape
  · simp only [missing, noRecord, Bool.not_false, if_true]
    exact same

def GeminiShaped (chunk : Map) : Prop :=
  ∀ items, arrayField chunk "candidates" = some items → ∀ candidate, .object candidate ∈ items →
    CandidateShaped candidate

theorem gemini_step {locals : Map × IndexMap} {s : Indexed} (state : SameLocals numbers (fun _ => True) locals s) {v : Value}
    {w : JsVal} (read : Reads numbers v w) (shaped : ∀ chunk, v = .object chunk → GeminiShaped chunk) :
    SameLocals numbers (fun _ => True) (Enclave.aggregateGeminiGenerateContentStream.item locals v) (geminiStep s w) := by
  obtain ⟨out, candidates⟩ := locals
  unfold Enclave.aggregateGeminiGenerateContentStream.item geminiStep
  rcases read.same.object_cases with ⟨chunk, found, record, same⟩ | ⟨missing, noRecord⟩
  · obtain rfl := eq_object found
    simp only [Value.asObject, record, Bool.not_true, Bool.false_eq_true, if_false]
    have copied := state.out.copyAll same ["promptFeedback", "usageMetadata", "error", "modelVersion"] (by decide)
    have short := short_get (same_object.mp same) read.short "candidates" (by decide)
    rcases (same.read "candidates" (by decide)).array with ⟨items, items', held, eq, pairs⟩ | ⟨none, empty, -⟩
    · have bounds := short_arr (eq ▸ short : (JsVal.arr items').short = true)
      simp only [arrayField, held, eq, JsVal.items]
      refine ⟨copied, List.rel_foldl ?_ state.map (forall₂_zipIdx (forall₂_mem pairs) 0)⟩
      rintro map nums same ⟨raw, i⟩ ⟨raw', j⟩ ⟨⟨value, member, member'⟩, rfl, below⟩
      refine candidate_step same value (bounds.2 _ member') i ?_ fun candidate eq => ?_
      · have length := pairs.length_eq
        have limit := bounds.1
        dsimp only at below
        omega
      · exact shaped chunk rfl items held candidate (eq ▸ member)
    · simp only [arrayField, none, empty, List.zipIdx_nil, List.foldl_nil]
      exact ⟨copied, state.map⟩
  · simp only [missing, noRecord, Bool.not_false, if_true]
    exact state

/-- The enclave and the verifier aggregate a provider-shaped stream alike. -/
theorem aggregateGeminiGenerateContentStream_same (numbers : Numbers) (events : List (Json numbers.Token))
    (plain : ∀ e ∈ events, e.plain = true)
    (shaped : ∀ e ∈ events, ∀ chunk, e.toRust numbers = .object chunk → GeminiShaped chunk) :
    Same numbers (Enclave.aggregateGeminiGenerateContentStream (.array (events.map (Json.toRust numbers))))
      (aggregateGeminiGenerateContentStream (events.map (Json.toJs numbers))) := by
  have run := rel_documents (I := SameLocals numbers (fun _ => True)) (fun _ _ _ _ state => gemini_step state) events plain shaped
    SameLocals.init
  revert run
  unfold Enclave.aggregateGeminiGenerateContentStream aggregateGeminiGenerateContentStream
  simp only [Value.asArray]
  generalize (events.map (Json.toRust numbers)).foldl _ _ = locals
  generalize (events.map (Json.toJs numbers)).foldl _ _ = s
  intro run
  obtain ⟨out, candidates⟩ := locals
  exact (run.out.withValues run.map "candidates" (by decide)).pick geminiFields (by decide)

/-- A chunk with the text of one candidate. -/
def geminiSample : Json Numbers.sample.Token :=
  .obj [("candidates".toList, .arr [.obj [("index".toList, .num Numbers.zero),
    ("content".toList, .obj [("parts".toList, .arr [.obj [("text".toList, .str "hi".toList)]])])]])]

theorem aggregateGeminiGenerateContentStream_same_text :
    geminiSample.plain = true ∧
      Same Numbers.sample
        (Enclave.aggregateGeminiGenerateContentStream
          (.array ([geminiSample, geminiSample].map (Json.toRust Numbers.sample))))
        (aggregateGeminiGenerateContentStream ([geminiSample, geminiSample].map (Json.toJs Numbers.sample))) := by
  have plain : geminiSample.plain = true := by decide
  refine ⟨plain, aggregateGeminiGenerateContentStream_same Numbers.sample [geminiSample, geminiSample]
    (by simpa using plain) ?_⟩
  intro e member chunk read
  obtain rfl : e = geminiSample := by simpa using member
  obtain rfl := (Value.object.inj read).symm
  intro items held candidate member
  obtain rfl := Option.some.inj held
  obtain rfl := Value.object.inj (List.mem_singleton.mp member)
  constructor
  · intro v held
    obtain rfl := Option.some.inj held
    refine .inr ⟨_, rfl, fun parts held => ?_⟩
    obtain rfl := Option.some.inj held
    exact .inr ⟨_, rfl⟩
  · intro v held
    obtain rfl := Option.some.inj held
    exact ⟨0, rfl, by decide⟩

end TeeProof
