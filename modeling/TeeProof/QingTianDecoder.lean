import TeeProof.QingTianFormat

/-! The QingTian decoder against the format: it returns whole items and items that are cut
off, and nothing else. -/
namespace TeeProof.Verifier.QingTian

/-- The items behind a head, without the value they make up. -/
def collect (dec : Decoder) : Nat → Offset → Throws (List CborValue × Offset)
  | 0, p => .ok ([], p)
  | n + 1, p => do
    let (v, p) ← dec p
    let (vs, p) ← collect dec n p
    .ok (v :: vs, p)

theorem collect_succ (dec : Decoder) (n : Nat) (p : Offset) :
    collect dec (n + 1) p = (dec p >>= fun v => collect dec n v.2 >>= fun r => .ok (v.1 :: r.1, r.2)) := rfl

theorem decodeItems_eq (dec : Decoder) (n : Nat) (done : List CborValue) (p : Offset) :
    decodeItems dec n done p = (collect dec n p >>= fun r => .ok (.array (done ++ r.1), r.2)) := by
  induction n generalizing done p with
  | zero => exact congrArg (fun vs => Except.ok (CborValue.array vs, p)) (List.append_nil done).symm
  | succ n ih =>
    rw [decodeItems, collect_succ, bind_assoc]
    refine bind_congr fun v => (ih (done ++ [v.1]) v.2).trans ?_
    rw [bind_assoc]
    refine bind_congr fun r => ?_
    rw [List.append_assoc]
    rfl

theorem decodeEntries_eq (dec : Decoder) (n : Nat) (entries : List (CborValue × CborValue)) (p : Offset) :
    decodeEntries dec n entries p =
      (collect dec (2 * n) p >>= fun r => .ok (.map (setAll entries (entriesOf r.1)), r.2)) := by
  induction n generalizing entries p with
  | zero => rfl
  | succ n ih =>
    rw [decodeEntries, Nat.mul_succ, collect_succ, bind_assoc]
    refine bind_congr fun k => ?_
    rw [collect_succ, bind_assoc, bind_assoc]
    refine bind_congr fun v => (ih (mapSet k.1 v.1 entries) v.2).trans ?_
    rw [bind_assoc]
    rfl

theorem decodeMajor_items (dec : Decoder) (b : Bytes) {major : Nat} (low : 4 ≤ major) (high : major ≤ 6)
    (len : Option Nat) (next : Nat) :
    decodeMajor dec b major len next =
      (collect dec (due major (len.getD 0)) (some next) >>= fun r => .ok (build major len r.1, r.2)) := by
  obtain rfl | rfl | rfl : major = 4 ∨ major = 5 ∨ major = 6 := by omega
  · exact decodeItems_eq dec _ [] _
  · exact decodeEntries_eq dec _ [] _
  · show (dec (some next) >>= _) = _
    rw [due, if_neg (by decide), if_neg (by decide), if_pos rfl, collect]
    cases dec (some next) <;> rfl

/-! Heads -/

theorem beNat_slice_one (b : Bytes) (p : Nat) (inside : p < b.length) : beNat (slice b p 1) = (b[p]).toNat := by
  rw [slice, List.drop_eq_getElem_cons inside, List.take_succ_cons, List.take_zero]
  simp [beNat]

theorem readUIntBE_ok (run : readUIntBE b p n = .ok v) : p + n ≤ b.length ∧ v = beNat (slice b p n) := by
  rw [readUIntBE] at run
  split at run
  next fits =>
    cases run
    exact ⟨fits, rfl⟩
  next => cases run

theorem readUIntBE_fits (fits : p + n ≤ b.length) : readUIntBE b p n = .ok (beNat (slice b p n)) := by
  rw [readUIntBE, if_pos fits]

/-- The length is read in full, or its one octet would stand behind the end. -/
theorem readCborLength_ok (start : p ≤ b.length) (run : readCborLength b p ai = .ok (len, next)) :
    (∃ n, len = some n ∧ Argument b p ai n next) ∨ (len = none ∧ ai = 24 ∧ p = b.length ∧ next = b.length + 1) := by
  rw [readCborLength] at run
  split at run
  next small =>
    cases run
    exact .inl ⟨ai, rfl, .short small⟩
  split at run
  next eq =>
    subst eq
    cases run
    by_cases inside : p < b.length
    · refine .inl ⟨beNat (slice b p 1), ?_, .wide (k := 0) (by omega) inside (beNat_slice_safe b p (by omega))⟩
      rw [List.getElem?_eq_getElem inside, beNat_slice_one b p inside]
      rfl
    · obtain rfl : p = b.length := by omega
      refine .inr ⟨?_, rfl, rfl, rfl⟩
      rw [List.getElem?_eq_none (Nat.le_refl _)]
      rfl
  split at run
  next eq =>
    subst eq
    obtain ⟨v, read, run⟩ := Throws.bind_ok run
    obtain ⟨fits, rfl⟩ := readUIntBE_ok read
    cases run
    exact .inl ⟨_, rfl, .wide (k := 1) (by omega) fits (beNat_slice_safe b p (by omega))⟩
  split at run
  next eq =>
    subst eq
    obtain ⟨v, read, run⟩ := Throws.bind_ok run
    obtain ⟨fits, rfl⟩ := readUIntBE_ok read
    cases run
    exact .inl ⟨_, rfl, .wide (k := 2) (by omega) fits (beNat_slice_safe b p (by omega))⟩
  split at run
  next eq =>
    subst eq
    obtain ⟨v, read, run⟩ := Throws.bind_ok run
    obtain ⟨fits, rfl⟩ := readUIntBE_ok read
    split at run
    · cases run
    next safe =>
      cases run
      exact .inl ⟨_, rfl, .wide (k := 3) (by omega) fits (Nat.le_of_not_lt safe)⟩
  next => cases run

theorem readCborLength_argument (argument : Argument b p ai n next) :
    readCborLength b p ai = .ok (some n, next) := by
  cases argument with
  | short small => rw [readCborLength, if_pos small]
  | @wide k width fits safe =>
    obtain rfl | rfl | rfl | rfl : k = 0 ∨ k = 1 ∨ k = 2 ∨ k = 3 := by omega
    · have inside : p < b.length := fits
      rw [readCborLength, if_neg (by omega), if_pos rfl, List.getElem?_eq_getElem inside]
      exact congrArg (fun n => Except.ok (some n, p + 1)) (beNat_slice_one b p inside).symm
    · rw [readCborLength, if_neg (by omega), if_neg (by omega), if_pos rfl, readUIntBE_fits (n := 2) fits]
      rfl
    · rw [readCborLength, if_neg (by omega), if_neg (by omega), if_neg (by omega), if_pos rfl,
        readUIntBE_fits (n := 4) fits]
      rfl
    · rw [readCborLength, if_neg (by omega), if_neg (by omega), if_neg (by omega), if_neg (by omega), if_pos rfl,
        readUIntBE_fits (n := 8) fits]
      exact if_neg (Nat.not_lt_of_le safe)

theorem readCborLength_missing (b : Bytes) : readCborLength b b.length 24 = .ok (none, b.length + 1) := by
  rw [readCborLength, if_neg (by omega), if_pos rfl, List.getElem?_eq_none (Nat.le_refl _)]
  rfl

/-! Sequences of items -/

/-- The decoder returns whole items and items that are cut off, and nothing else. -/
structure Exact (b : Bytes) (dec : Decoder) (item : Grammar CborValue) (cut : Missing → Nat → Prop) : Prop where
  inside : item.Inside b.length
  returns : ∀ p v r, dec (some p) = .ok (v, r) →
    (∃ q, r = some q ∧ item p v q) ∨ ∃ m, cut m p ∧ r = m.offset b
  whole : ∀ p v q, item p v q → dec (some p) = .ok (v, some q)
  cutOff : ∀ m p, cut m p → ∃ v, dec (some p) = .ok (v, m.offset b)
  lost : ∀ m p, cut m p → ∃ v, dec none = .ok (v, none)
  beyond : ∀ p, b.length ≤ p → ∃ e, dec (some p) = .error e

theorem collect_lost {dec : Decoder} (lost : ∃ v, dec none = .ok (v, none)) (n : Nat) :
    ∃ vs, collect dec n none = .ok (vs, none) := by
  obtain ⟨v, zero⟩ := lost
  induction n with
  | zero => exact ⟨[], rfl⟩
  | succ n ih =>
    obtain ⟨vs, all⟩ := ih
    refine ⟨v :: vs, ?_⟩
    rw [collect_succ, zero]
    show (collect dec n none >>= _) = _
    rw [all]
    rfl

variable {dec : Decoder} {item : Grammar CborValue} {cut : Missing → Nat → Prop}

theorem collect_whole (whole : ∀ p v q, item p v q → dec (some p) = .ok (v, some q)) (all : Items item p vs q) :
    collect dec vs.length (some p) = .ok (vs, some q) := by
  induction all with
  | nil p => rfl
  | cons one _ ih =>
    rw [List.length_cons, collect_succ, whole _ _ _ one]
    show (collect dec _ (some _) >>= _) = _
    rw [ih]
    rfl

theorem Exact.collect_returns (exact : Exact b dec item cut) {n p : Nat}
    (run : collect dec n (some p) = .ok (vs, r)) :
    (∃ q, r = some q ∧ Items item p vs q ∧ vs.length = n) ∨
    ∃ m ws q, Items item p ws q ∧ cut m q ∧ ws.length < n ∧ (m = .length ∨ ws.length + 1 = n) ∧ r = m.offset b := by
  induction n generalizing p vs with
  | zero =>
    cases run
    exact .inl ⟨p, rfl, .nil p, rfl⟩
  | succ n ih =>
    rw [collect_succ] at run
    obtain ⟨⟨v, next⟩, read, run⟩ := Throws.bind_ok run
    obtain ⟨⟨rest, behind⟩, later, eq⟩ := Throws.bind_ok run
    cases eq
    rcases exact.returns p v next read with ⟨q, rfl, one⟩ | ⟨m, cutOff, rfl⟩
    · rcases ih later with ⟨end_, rfl, all, count⟩ | ⟨m, ws, q', all, cutOff, more, last, eq⟩
      · exact .inl ⟨end_, rfl, .cons one all, congrArg Nat.succ count⟩
      · refine .inr ⟨m, v :: ws, q', .cons one all, cutOff, Nat.succ_lt_succ more, ?_, eq⟩
        exact last.imp_right (congrArg Nat.succ)
    · cases m with
      | length =>
        obtain ⟨ws, zeros⟩ := collect_lost (exact.lost _ _ cutOff) n
        rw [Missing.offset] at later
        rw [zeros] at later
        cases later
        exact .inr ⟨.length, [], p, .nil p, cutOff, Nat.zero_lt_succ n, .inl rfl, rfl⟩
      | argument =>
        cases n with
        | zero =>
          cases later
          exact .inr ⟨.argument, [], p, .nil p, cutOff, Nat.one_pos, .inr rfl, rfl⟩
        | succ n =>
          -- something is still due behind the end, and the decoder throws there
          obtain ⟨e, throws⟩ := exact.beyond (b.length + 1) (Nat.le_succ _)
          rw [collect_succ] at later
          obtain ⟨_, read, _⟩ := Throws.bind_ok later
          rw [Missing.offset, throws] at read
          cases read

theorem Exact.collect_cutOff (exact : Exact b dec item cut) (all : Items item p ws q) (cutOff : cut m q)
    (more : ws.length < n) (last : m = .length ∨ ws.length + 1 = n) :
    ∃ vs, collect dec n (some p) = .ok (vs, m.offset b) := by
  induction all generalizing n with
  | nil p =>
    obtain ⟨n, rfl⟩ : ∃ k, n = k + 1 := ⟨n - 1, by omega⟩
    obtain ⟨v, read⟩ := exact.cutOff m p cutOff
    have rest : ∃ vs, collect dec n (m.offset b) = .ok (vs, m.offset b) := by
      rcases last with rfl | last
      · exact collect_lost (exact.lost _ _ cutOff) n
      · obtain rfl : n = 0 := (Nat.succ.inj last).symm
        exact ⟨[], rfl⟩
    obtain ⟨vs, rest⟩ := rest
    refine ⟨v :: vs, ?_⟩
    rw [collect_succ, read]
    show (collect dec n (m.offset b) >>= _) = _
    rw [rest]
    rfl
  | @cons p q r v ws one _ ih =>
    obtain ⟨n, rfl⟩ : ∃ k, n = k + 1 := ⟨n - 1, by omega⟩
    obtain ⟨vs, rest⟩ := ih cutOff (Nat.lt_of_succ_lt_succ more) (last.imp_right Nat.succ.inj)
    refine ⟨v :: vs, ?_⟩
    rw [collect_succ, exact.whole p v q one]
    show (collect dec n (some q) >>= _) = _
    rw [rest]
    rfl

/-! Levels -/

theorem decodeCbor_beyond (b : Bytes) (fuel : Nat) (far : b.length ≤ p) :
    decodeCbor b fuel (some p) = .error "unexpected end of CBOR" := by
  cases fuel with
  | zero => rfl
  | succ fuel => exact if_pos far

theorem decodeCbor_seven {fuel : Nat} (start : p < b.length) (seven : byteAt b p / 32 = 7) :
    decodeCbor b (fuel + 1) (some p) =
      match simple (byteAt b p % 32) with
      | some v => .ok (v, some (p + 1))
      | none => .error (JStr.lit "unsupported CBOR major=7 ai=" ++ JStr.natDigits (byteAt b p % 32)) := by
  rw [decodeCbor, if_neg (Nat.not_le_of_lt start)]
  dsimp only
  rw [if_pos seven, simple]
  split_ifs <;> rfl

theorem decodeCbor_head {fuel : Nat} (start : p < b.length) (other : byteAt b p / 32 ≠ 7) :
    decodeCbor b (fuel + 1) (some p) =
      (readCborLength b (p + 1) (byteAt b p % 32) >>= fun r =>
        decodeMajor (decodeCbor b fuel) b (byteAt b p / 32) r.1 r.2) := by
  rw [decodeCbor, if_neg (Nat.not_le_of_lt start)]
  dsimp only
  rw [if_neg other]

theorem decodeCbor_items {fuel : Nat} (head : Head b p major n q) (low : 4 ≤ major) (high : major ≤ 6) :
    decodeCbor b (fuel + 1) (some p) =
      (collect (decodeCbor b fuel) (due major n) (some q) >>= fun r => .ok (build major (some n) r.1, r.2)) := by
  obtain ⟨start, rfl, argument⟩ := head
  rw [decodeCbor_head start (by omega), readCborLength_argument argument]
  exact decodeMajor_items _ b low high (some n) q

theorem due_none {major n : Nat} (apart : major < 4 ∨ 6 < major) : due major n = 0 := by
  rw [due, if_neg (by omega), if_neg (by omega), if_neg (by omega)]

theorem byteAt_div (b : Bytes) (p : Nat) : byteAt b p / 32 < 8 := by
  have := byteAt_lt b p
  omega

section
variable {fuel : Nat} (ih : Exact b (decodeCbor b fuel) (Whole b fuel) (CutAt b fuel))
include ih

theorem level_whole (level : Level b (Whole b fuel) p v q) : decodeCbor b (fuel + 1) (some p) = .ok (v, some q) := by
  cases level with
  | unsigned head =>
    obtain ⟨start, major, argument⟩ := head
    rw [decodeCbor_head start (by omega), readCborLength_argument argument, major]
    rfl
  | negative head =>
    obtain ⟨start, major, argument⟩ := head
    rw [decodeCbor_head start (by omega), readCborLength_argument argument, major]
    rfl
  | bytes head fits =>
    obtain ⟨start, major, argument⟩ := head
    rw [decodeCbor_head start (by omega), readCborLength_argument argument, major]
    show (decodeString b (some _) _ >>= _) = _
    rw [decodeString, if_neg (Nat.not_lt_of_le fits)]
    rfl
  | text head fits =>
    obtain ⟨start, major, argument⟩ := head
    rw [decodeCbor_head start (by omega), readCborLength_argument argument, major]
    show (decodeString b (some _) _ >>= _) = _
    rw [decodeString, if_neg (Nat.not_lt_of_le fits)]
    rfl
  | items low high head all count =>
    rw [decodeCbor_items head low high, ← count, collect_whole ih.whole all]
    rfl
  | simple start seven known =>
    rw [decodeCbor_seven start seven, known]

theorem level_cutOff (cut : CutLevel b (Whole b fuel) (CutAt b fuel) m p) :
    ∃ v, decodeCbor b (fuel + 1) (some p) = .ok (v, m.offset b) := by
  cases cut with
  | length last major octet =>
    have start : p < b.length := by omega
    rcases List.mem_cons.mp major with two | three
    · rw [decodeCbor_head start (by omega), octet, last, readCborLength_missing, two]
      exact ⟨_, rfl⟩
    · rw [List.mem_singleton] at three
      rw [decodeCbor_head start (by omega), octet, last, readCborLength_missing, three]
      exact ⟨_, rfl⟩
  | argument last major octet =>
    have start : p < b.length := by omega
    simp only [List.mem_cons, List.not_mem_nil, or_false] at major
    rcases major with eq | eq | eq | eq <;>
      (rw [decodeCbor_head start (by omega), octet, last, readCborLength_missing, eq]
       exact ⟨_, rfl⟩)
  | @items p major n q r _ vs head all inner more last =>
    have low : 4 ≤ major := by
      by_contra small
      rw [due_none (by omega)] at more
      omega
    have high : major ≤ 6 := by
      by_contra large
      rw [due_none (by omega)] at more
      omega
    obtain ⟨ws, run⟩ := ih.collect_cutOff all inner more last
    refine ⟨build major (some n) ws, ?_⟩
    rw [decodeCbor_items head low high, run]
    rfl

theorem level_returns (run : decodeCbor b (fuel + 1) (some p) = .ok (v, r)) :
    (∃ q, r = some q ∧ Level b (Whole b fuel) p v q) ∨
    ∃ m, CutLevel b (Whole b fuel) (CutAt b fuel) m p ∧ r = m.offset b := by
  have start : p < b.length := by
    by_contra far
    rw [decodeCbor_beyond b (fuel + 1) (Nat.le_of_not_lt far)] at run
    cases run
  by_cases seven : byteAt b p / 32 = 7
  · rw [decodeCbor_seven start seven] at run
    split at run
    next known =>
      cases run
      exact .inl ⟨p + 1, rfl, .simple start seven known⟩
    next => cases run
  have small := byteAt_div b p
  rw [decodeCbor_head start seven] at run
  obtain ⟨⟨len, next⟩, read, run⟩ := Throws.bind_ok run
  rcases readCborLength_ok start read with ⟨n, rfl, argument⟩ | ⟨rfl, octet, last, rfl⟩
  · by_cases items : 4 ≤ byteAt b p / 32
    · rw [decodeMajor_items _ b items (by omega)] at run
      obtain ⟨⟨vs, behind⟩, gathered, eq⟩ := Throws.bind_ok run
      cases eq
      have head : Head b p (byteAt b p / 32) n next := .mk start rfl argument
      rcases ih.collect_returns gathered with ⟨q, rfl, all, count⟩ | ⟨m, ws, q, all, inner, more, last, rfl⟩
      · exact .inl ⟨q, rfl, .items items (by omega) head all count⟩
      · exact .inr ⟨m, .items head all inner more last, rfl⟩
    · obtain major | major | major | major : byteAt b p / 32 = 0 ∨ byteAt b p / 32 = 1 ∨ byteAt b p / 32 = 2 ∨
        byteAt b p / 32 = 3 := by omega
      · rw [major] at run
        cases run
        exact .inl ⟨next, rfl, .unsigned (.mk start major argument)⟩
      · rw [major] at run
        cases run
        exact .inl ⟨next, rfl, .negative (.mk start major argument)⟩
      · rw [major] at run
        obtain ⟨⟨s, behind⟩, string, eq⟩ := Throws.bind_ok run
        rw [decodeString] at string
        split at string
        · cases string
        next fits =>
          cases string
          cases eq
          exact .inl ⟨_, rfl, .bytes (.mk start major argument) (Nat.le_of_not_lt fits)⟩
      · rw [major] at run
        obtain ⟨⟨s, behind⟩, string, eq⟩ := Throws.bind_ok run
        rw [decodeString] at string
        split at string
        · cases string
        next fits =>
          cases string
          cases eq
          exact .inl ⟨_, rfl, .text (.mk start major argument) (Nat.le_of_not_lt fits)⟩
  · refine .inr ?_
    obtain major | major | major | major | major | major | major : byteAt b p / 32 = 0 ∨ byteAt b p / 32 = 1 ∨
      byteAt b p / 32 = 2 ∨ byteAt b p / 32 = 3 ∨ byteAt b p / 32 = 4 ∨ byteAt b p / 32 = 5 ∨
      byteAt b p / 32 = 6 := by omega
    · rw [major] at run
      cases run
      exact ⟨.argument, .argument last (by rw [major]; decide) octet, rfl⟩
    · rw [major] at run
      cases run
      exact ⟨.argument, .argument last (by rw [major]; decide) octet, rfl⟩
    · rw [major] at run
      cases run
      exact ⟨.length, .length last (by rw [major]; decide) octet, rfl⟩
    · rw [major] at run
      cases run
      exact ⟨.length, .length last (by rw [major]; decide) octet, rfl⟩
    · rw [major] at run
      cases run
      exact ⟨.argument, .argument last (by rw [major]; decide) octet, rfl⟩
    · rw [major] at run
      cases run
      exact ⟨.argument, .argument last (by rw [major]; decide) octet, rfl⟩
    · -- the tagged item would start behind the end
      rw [major] at run
      obtain ⟨_, inner, _⟩ := Throws.bind_ok run
      rw [decodeCbor_beyond b fuel (Nat.le_succ b.length)] at inner
      cases inner

end

theorem decodeCbor_exact (b : Bytes) (fuel : Nat) : Exact b (decodeCbor b fuel) (Whole b fuel) (CutAt b fuel) := by
  induction fuel with
  | zero => exact ⟨whole_inside b 0, nofun, nofun, nofun, nofun, fun p _ => ⟨_, rfl⟩⟩
  | succ fuel ih =>
    exact {
      inside := whole_inside b (fuel + 1)
      returns := fun p v r run => level_returns ih run
      whole := fun p v q level => level_whole ih level
      cutOff := fun m p cut => level_cutOff ih cut
      lost := fun _ _ _ => ⟨_, rfl⟩
      beyond := fun p far => ⟨_, decodeCbor_beyond b (fuel + 1) far⟩ }

end TeeProof.Verifier.QingTian
