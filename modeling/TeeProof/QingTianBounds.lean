import TeeProof.QingTianDecoder

/-! How far the QingTian decoder goes, and how much it does: inside its input exactly where
no item is cut off behind an initial octet. -/
namespace TeeProof.Verifier.QingTian

/-- The calls of `decodeCbor` and, for every array and map loop, its successful rounds. -/
structure Work where
  calls : Nat
  loops : List Nat
  deriving DecidableEq

/-- Successful calls of a loop that makes up to `n` of them, and the work inside it. -/
def rounds (dec : Decoder) (work : Offset → Work) : Nat → Offset → Nat × Work
  | 0, _ => (0, ⟨0, []⟩)
  | n + 1, p =>
    match dec p with
    | .error _ => (0, work p)
    | .ok (_, next) =>
      let (done, rest) := rounds dec work n next
      (done + 1, ⟨(work p).calls + rest.calls, (work p).loops ++ rest.loops⟩)

/-- The call itself and what it does behind its head; a round of a map decodes twice. -/
def headWork (major : Nat) (inner : Nat × Work) : Work :=
  let loop := if major = 4 then [inner.1] else if major = 5 then [inner.1 / 2] else []
  ⟨inner.2.calls + 1, loop ++ inner.2.loops⟩

/-- The work of `decodeCbor`. -/
def work (buf : Bytes) : (fuel : Nat) → Offset → Work
  | 0, _ => ⟨1, []⟩
  | _ + 1, none => ⟨1, []⟩
  | fuel + 1, some offset =>
    if offset ≥ buf.length then ⟨1, []⟩
    else
      let major := byteAt buf offset / 32
      match readCborLength buf (offset + 1) (byteAt buf offset % 32) with
      | .error _ => ⟨1, []⟩
      | .ok (len, next) =>
        headWork major (rounds (decodeCbor buf fuel) (work buf fuel) (due major (len.getD 0)) (some next))

/-- What the decoder does from `o` on stays inside the buffer. -/
structure StaysInside (b : Bytes) (o : Nat) : Prop where
  result : ∀ v r, decodeCbor b (b.length + 1) (some o) = .ok (v, r) →
    WellFormed v ∧ ∃ q, r = some q ∧ o < q ∧ q ≤ b.length
  loops : ∀ k ∈ (work b (b.length + 1) (some o)).loops, k ≤ b.length

/-! Fuel beyond the length of the buffer changes nothing -/

theorem collect_none_congr {f g : Nat} (n : Nat) :
    collect (decodeCbor b (f + 1)) n none = collect (decodeCbor b (g + 1)) n none := by
  induction n with
  | zero => rfl
  | succ n ih =>
    rw [collect_succ, collect_succ]
    show (collect _ n none >>= _) = (collect _ n none >>= _)
    rw [ih]

/-- Where a call that returns leaves off. -/
theorem decodeCbor_forward {fuel : Nat} (run : decodeCbor b fuel (some p) = .ok (v, some q)) :
    p < q ∧ q ≤ b.length + 1 := by
  have exact := decodeCbor_exact b fuel
  rcases exact.returns p v _ run with ⟨_, ⟨rfl⟩, one⟩ | ⟨m, cut, eq⟩
  · have := exact.inside p v q one
    omega
  · have start : p < b.length := by
      by_contra far
      obtain ⟨e, throws⟩ := exact.beyond p (Nat.le_of_not_lt far)
      rw [throws] at run
      cases run
    cases m with
    | length => cases eq
    | argument =>
      cases eq
      omega

theorem collect_congr {f g : Nat} {n p : Nat} (low : 0 < f) (low' : 0 < g)
    (same : ∀ q, p ≤ q → decodeCbor b f (some q) = decodeCbor b g (some q)) :
    collect (decodeCbor b f) n (some p) = collect (decodeCbor b g) n (some p) := by
  induction n generalizing p with
  | zero => rfl
  | succ n ih =>
    rw [collect_succ, collect_succ, same p (Nat.le_refl p)]
    cases run : decodeCbor b g (some p) with
    | error e => rfl
    | ok r =>
      obtain ⟨v, next⟩ := r
      show (collect _ n next >>= _) = (collect _ n next >>= _)
      cases next with
      | none =>
        obtain ⟨f, rfl⟩ := Nat.exists_eq_succ_of_ne_zero (Nat.ne_of_gt low)
        obtain ⟨g, rfl⟩ := Nat.exists_eq_succ_of_ne_zero (Nat.ne_of_gt low')
        rw [collect_none_congr]
      | some q =>
        have forward := (decodeCbor_forward run).1
        rw [ih fun r above => same r (by omega)]

theorem readCborLength_forward (start : p ≤ b.length) (run : readCborLength b p ai = .ok (len, next)) :
    p ≤ next ∧ next ≤ b.length + 1 := by
  rcases readCborLength_ok start run with ⟨n, rfl, argument⟩ | ⟨rfl, _, rfl, rfl⟩
  · have := argument.le start
    omega
  · omega

/-- Two bounds on the nesting that what is left of the buffer cannot reach. -/
theorem decodeCbor_enough (f g : Nat) (deep : b.length < f + p) (deep' : b.length < g + p) :
    decodeCbor b f (some p) = decodeCbor b g (some p) := by
  induction f generalizing g p with
  | zero =>
    have far : b.length ≤ p := by omega
    rw [decodeCbor_beyond b 0 far, decodeCbor_beyond b g far]
  | succ f ih =>
    by_cases start : p < b.length
    · obtain ⟨g, rfl⟩ : ∃ k, g = k + 1 := ⟨g - 1, by omega⟩
      by_cases seven : byteAt b p / 32 = 7
      · rw [decodeCbor_seven start seven, decodeCbor_seven start seven]
      · rw [decodeCbor_head start seven, decodeCbor_head start seven]
        cases read : readCborLength b (p + 1) (byteAt b p % 32) with
        | error e => rfl
        | ok r =>
          obtain ⟨len, next⟩ := r
          show decodeMajor (decodeCbor b f) b (byteAt b p / 32) len next =
            decodeMajor (decodeCbor b g) b (byteAt b p / 32) len next
          have forward := (readCborLength_forward start read).1
          have small := byteAt_div b p
          by_cases items : 4 ≤ byteAt b p / 32
          · rw [decodeMajor_items _ b items (by omega), decodeMajor_items _ b items (by omega)]
            rw [collect_congr (by omega) (by omega) fun q above => ih g (by omega) (by omega)]
          · obtain major | major | major | major : byteAt b p / 32 = 0 ∨ byteAt b p / 32 = 1 ∨
              byteAt b p / 32 = 2 ∨ byteAt b p / 32 = 3 := by omega
            all_goals
              rw [major]
              rfl
    · have far := Nat.le_of_not_lt start
      rw [decodeCbor_beyond b _ far, decodeCbor_beyond b _ far]

/-! The work -/

/-- Where the work of a call must have ended; nothing is known once the offset is lost. -/
def reach (b : Bytes) : Throws (α × Offset) → Option Nat
  | .error _ => some (b.length + 2)
  | .ok (_, r) => r

/-- One call for each octet passed, and rounds no more than the buffer has octets. -/
def Cheap (b : Bytes) (p e : Nat) (w : Work) : Prop := p + w.calls ≤ e ∧ ∀ k ∈ w.loops, k ≤ b.length

theorem Cheap.single (above : p + 1 ≤ e) : Cheap b p e ⟨1, []⟩ := ⟨above, nofun⟩

theorem rounds_cheap {fuel : Nat}
    (ih : ∀ p e, p ≤ b.length + 1 → reach b (decodeCbor b fuel (some p)) = some e →
      Cheap b p e (work b fuel (some p)))
    (n : Nat) (start : p ≤ b.length + 1) (ends : reach b (collect (decodeCbor b fuel) n (some p)) = some e) :
    Cheap b p e (rounds (decodeCbor b fuel) (work b fuel) n (some p)).2 ∧
      p + (rounds (decodeCbor b fuel) (work b fuel) n (some p)).1 ≤ b.length + 1 := by
  induction n generalizing p with
  | zero =>
    obtain rfl : p = e := Option.some.inj ends
    exact ⟨⟨Nat.le_refl p, nofun⟩, start⟩
  | succ n ih' =>
    rw [collect_succ] at ends
    rw [rounds]
    cases run : decodeCbor b fuel (some p) with
    | error m =>
      rw [run] at ends
      have one := ih p (b.length + 2) start (by rw [run]; rfl)
      cases ends
      exact ⟨one, start⟩
    | ok r =>
      obtain ⟨v, next⟩ := r
      rw [run] at ends
      replace ends : reach b (collect (decodeCbor b fuel) n next >>= fun r => .ok (v :: r.1, r.2)) = some e := ends
      cases next with
      | none =>
        -- the offset stays lost
        have exact := decodeCbor_exact b fuel
        rcases exact.returns p v none run with ⟨_, lost, _⟩ | ⟨m, cut, _⟩
        · cases lost
        · obtain ⟨vs, all⟩ := collect_lost (exact.lost m p cut) n
          rw [all] at ends
          cases ends
      | some q =>
        obtain ⟨forward, within⟩ := decodeCbor_forward run
        have one := ih p q start (by rw [run]; rfl)
        have later : reach b (collect (decodeCbor b fuel) n (some q)) = some e := by
          cases rest : collect (decodeCbor b fuel) n (some q) with
          | error m => rw [rest] at ends; exact ends
          | ok r => rw [rest] at ends; exact ends
        obtain ⟨⟨calls, loops⟩, done⟩ := ih' within later
        refine ⟨⟨?_, ?_⟩, ?_⟩
        · have := one.1
          show p + (_ + _) ≤ e
          omega
        · intro k member
          rcases List.mem_append.mp member with here | there
          · exact one.2 k here
          · exact loops k there
        · show p + (_ + 1) ≤ b.length + 1
          omega

theorem headWork_cheap (major : Nat) {inner : Nat × Work} (cheap : Cheap b (p + 1) e inner.2)
    (done : inner.1 ≤ b.length) : Cheap b p e (headWork major inner) := by
  constructor
  · have := cheap.1
    show p + (_ + 1) ≤ e
    omega
  · intro k member
    rcases List.mem_append.mp member with here | there
    · split at here
      · rwa [List.mem_singleton.mp here]
      split at here
      · rw [List.mem_singleton.mp here]
        omega
      · cases here
    · exact cheap.2 k there

theorem reach_map (b : Bytes) (x : Throws (List CborValue × Offset)) (f : List CborValue → CborValue) :
    reach b (x >>= fun r => .ok (f r.1, r.2)) = reach b x := by
  cases x <;> rfl

theorem rounds_none (dec : Decoder) (w : Offset → Work) (p : Offset) : rounds dec w 0 p = (0, ⟨0, []⟩) := rfl

theorem work_cheap (b : Bytes) (fuel p e : Nat) (start : p ≤ b.length + 1)
    (ends : reach b (decodeCbor b fuel (some p)) = some e) : Cheap b p e (work b fuel (some p)) := by
  induction fuel generalizing p e with
  | zero =>
    cases ends
    exact Cheap.single (by omega)
  | succ fuel ih =>
    have above : p + 1 ≤ e := by
      cases run : decodeCbor b (fuel + 1) (some p) with
      | error m =>
        rw [run] at ends
        cases ends
        omega
      | ok r =>
        rw [run] at ends
        obtain ⟨v, next⟩ := r
        obtain rfl : next = some e := ends
        exact (decodeCbor_forward run).1
    rw [work]
    split
    · exact .single above
    next inside =>
      have within := Nat.lt_of_not_le inside
      dsimp only
      split
      · exact .single above
      next len next read =>
        have forward := readCborLength_forward within read
        by_cases items : 4 ≤ byteAt b p / 32 ∧ byteAt b p / 32 ≤ 6
        · obtain ⟨low, high⟩ := items
          rw [decodeCbor_head within (by omega), read] at ends
          replace ends : reach b (decodeMajor (decodeCbor b fuel) b (byteAt b p / 32) len next) = some e := ends
          rw [decodeMajor_items _ b low high, reach_map] at ends
          obtain ⟨⟨calls, loops⟩, done⟩ := rounds_cheap ih _ forward.2 ends
          exact headWork_cheap _ ⟨by omega, loops⟩ (by omega)
        · rw [due_none (by omega), rounds_none]
          exact headWork_cheap _ ⟨above, nofun⟩ (Nat.zero_le _)

/-! Inside the input -/

theorem not_cutOff_reach (whole : ¬CutOff b o) (fuel : Nat) : ∃ e, reach b (decodeCbor b fuel (some o)) = some e := by
  cases run : decodeCbor b fuel (some o) with
  | error m => exact ⟨_, rfl⟩
  | ok r =>
    obtain ⟨v, next⟩ := r
    rcases (decodeCbor_exact b fuel).returns o v next run with ⟨q, rfl, _⟩ | ⟨m, cut, _⟩
    · exact ⟨q, rfl⟩
    · exact absurd ⟨fuel, m, cut⟩ whole

theorem not_cutOff_cheap (whole : ¬CutOff b o) (start : o ≤ b.length + 1) :
    Cheap b o (b.length + 2) (work b (b.length + 1) (some o)) := by
  obtain ⟨e, ends⟩ := not_cutOff_reach whole (b.length + 1)
  obtain ⟨calls, loops⟩ := work_cheap b _ o e start ends
  refine ⟨?_, loops⟩
  cases run : decodeCbor b (b.length + 1) (some o) with
  | error m =>
    rw [run] at ends
    cases ends
    exact calls
  | ok r =>
    rw [run] at ends
    obtain ⟨v, next⟩ := r
    obtain rfl : next = some e := ends
    have := (decodeCbor_forward run).2
    omega

theorem StaysInside.not_cutOff (stays : StaysInside b o) : ¬CutOff b o := by
  rintro ⟨depth, m, cut⟩
  have deeper := cutAt_deeper (Nat.le_max_left depth (b.length + 1)) cut
  obtain ⟨v, run⟩ := (decodeCbor_exact b _).cutOff m o deeper
  rw [decodeCbor_enough _ (b.length + 1) (by omega) (by omega)] at run
  obtain ⟨_, q, eq, _, within⟩ := stays.result v _ run
  cases m with
  | length => cases eq
  | argument =>
    cases eq
    omega

theorem staysInside_of_not_cutOff (whole : ¬CutOff b o) : StaysInside b o where
  result v r run := by
    have exact := decodeCbor_exact b (b.length + 1)
    rcases exact.returns o v r run with ⟨q, rfl, one⟩ | ⟨m, cut, _⟩
    · obtain ⟨forward, within⟩ := exact.inside o v q one
      exact ⟨whole_wellFormed b _ o v q one, q, rfl, forward, within⟩
    · exact absurd ⟨_, m, cut⟩ whole
  loops k member := by
    by_cases start : o ≤ b.length + 1
    · exact (not_cutOff_cheap whole start).2 k member
    · rw [work, if_pos (by omega)] at member
      cases member

/-! The evidence -/

/-- The byte strings that `parseQingTianEvidence` decodes. -/
def decodedParts (attestation : Bytes) : List Bytes :=
  if attestation.length > maxAttestationBytes then []
  else
    attestation ::
      match decode attestation with
      | .error _ => []
      | .ok (value, offset) =>
        if offset ≠ some attestation.length then []
        else
          match unwrapCoseSign1 value with
          | .array [.bytes protectedBytes, .map [], .bytes payloadBytes, .bytes signature] =>
            if signature.length ≠ 96 then []
            else
              match decode protectedBytes with
              | .ok (.map _, _) => [protectedBytes, payloadBytes]
              | _ => [protectedBytes]
          | _ => []

/-- The byte strings of a value, those inside a map apart, have at most `size` octets. -/
inductive Fits (size : Nat) : CborValue → Prop
  | bytes {s : Bytes} : s.length ≤ size → Fits size (.bytes s)
  | array {items : List CborValue} : (∀ v ∈ items, Fits size v) → Fits size (.array items)
  | tagged {tag : Option Nat} {value : CborValue} : Fits size value → Fits size (.tagged tag value)
  | num (n : Option Int) : Fits size (.num n)
  | text (s : JStr) : Fits size (.text s)
  | map (entries : List (CborValue × CborValue)) : Fits size (.map entries)
  | bool (x : Bool) : Fits size (.bool x)
  | null : Fits size .null
  | undefined : Fits size .undefined

theorem slice_length_le (b : Bytes) (p n : Nat) : (slice b p n).length ≤ b.length := by
  rw [slice, List.length_take, List.length_drop]
  omega

theorem build_fits {size major : Nat} {vs : List CborValue} (all : ∀ v ∈ vs, Fits size v) (len : Option Nat) :
    Fits size (build major len vs) := by
  rw [build]
  split
  · exact .array all
  split
  · exact .map _
  · refine .tagged ?_
    cases vs with
    | nil => exact .undefined
    | cons v rest => exact all v List.mem_cons_self

theorem whole_fits (b : Bytes) (depth : Nat) : (Whole b depth).Within (Fits b.length) := by
  induction depth with
  | zero => exact fun _ _ _ none => none.elim
  | succ depth ih =>
    intro p v q level
    cases level with
    | unsigned _ => exact .num _
    | negative _ => exact .num _
    | bytes _ _ => exact .bytes (slice_length_le _ _ _)
    | text _ _ => exact .text _
    | items _ _ _ all _ => exact build_fits (all.within ih) _
    | simple _ _ known =>
      rw [simple] at known
      split at known
      · cases known
        exact .bool false
      split at known
      · cases known
        exact .bool true
      split at known
      · cases known
        exact .null
      · cases known

theorem unwrapCoseSign1_fits {size : Nat} (fits : Fits size v) : Fits size (unwrapCoseSign1 v) := by
  rw [unwrapCoseSign1.eq_def]
  split
  next inner =>
    cases fits with
    | tagged inner => exact inner
  next => exact fits

/-- A value that takes up the whole buffer. -/
theorem decode_fits (run : decode b = .ok (v, some b.length)) : Fits b.length v := by
  rcases (decodeCbor_exact b (b.length + 1)).returns 0 v _ run with ⟨q, _, one⟩ | ⟨m, _, eq⟩
  · exact whole_fits b _ 0 v q one
  · cases m with
    | length => cases eq
    | argument => exact absurd (Option.some.inj eq) (Nat.ne_of_lt (Nat.lt_succ_self _))

/-- At most three byte strings, each within the limit on the first. -/
theorem decodedParts_short (attestation : Bytes) :
    (decodedParts attestation).length ≤ 3 ∧ ∀ d ∈ decodedParts attestation, d.length ≤ maxAttestationBytes := by
  rw [decodedParts]
  split
  · exact ⟨Nat.zero_le 3, nofun⟩
  next small =>
    have own : attestation.length ≤ maxAttestationBytes := Nat.le_of_not_lt small
    have alone : ([attestation] : List Bytes).length ≤ 3 ∧
        ∀ d ∈ [attestation], d.length ≤ maxAttestationBytes := by
      refine ⟨Nat.le_add_left 1 2, fun d member => ?_⟩
      rwa [List.mem_singleton.mp member]
    split
    · exact alone
    next value offset run =>
      split
      · exact alone
      next end_ =>
        rw [of_not_not end_] at run
        have fits := unwrapCoseSign1_fits (decode_fits run)
        split
        next protectedBytes payloadBytes signature form =>
          rw [form] at fits
          have part : ∀ d : Bytes, CborValue.bytes d ∈
              [.bytes protectedBytes, .map [], .bytes payloadBytes, .bytes signature] →
              d.length ≤ maxAttestationBytes := by
            intro d member
            cases fits with
            | array all =>
              cases all _ member with
              | bytes short => exact Nat.le_trans short own
          have first := part protectedBytes List.mem_cons_self
          have third := part payloadBytes
            (List.mem_cons_of_mem _ (List.mem_cons_of_mem _ List.mem_cons_self))
          split
          · exact alone
          · split
            · refine ⟨Nat.le_refl 3, fun d member => ?_⟩
              simp only [List.mem_cons, List.not_mem_nil, or_false] at member
              rcases member with rfl | rfl | rfl <;> assumption
            · refine ⟨Nat.le_succ 2, fun d member => ?_⟩
              simp only [List.mem_cons, List.not_mem_nil, or_false] at member
              rcases member with rfl | rfl <;> assumption
        next => exact alone

theorem sum_le_of_forall (l : List α) (f : α → Nat) {bound : Nat} (each : ∀ x ∈ l, f x ≤ bound) :
    (l.map f).sum ≤ l.length * bound := by
  have below := List.sum_le_card_nsmul (l.map f) bound fun y member => by
    obtain ⟨x, inside, rfl⟩ := List.mem_map.mp member
    exact each x inside
  rwa [List.length_map, smul_eq_mul] at below

/-- The calls of `decodeCbor` that `parseQingTianEvidence` makes. -/
def parseCalls (attestation : Bytes) : Nat :=
  ((decodedParts attestation).map fun d => (work d (d.length + 1) (some 0)).calls).sum

theorem parseCalls_le (attestation : Bytes) (whole : ∀ d ∈ decodedParts attestation, ¬CutOff d 0) :
    parseCalls attestation ≤ 3 * (maxAttestationBytes + 2) := by
  obtain ⟨few, short⟩ := decodedParts_short attestation
  have each : ∀ d ∈ decodedParts attestation, (work d (d.length + 1) (some 0)).calls ≤ maxAttestationBytes + 2 := by
    intro d member
    have calls := (not_cutOff_cheap (whole d member) (Nat.zero_le _)).1
    have := short d member
    omega
  exact Nat.le_trans (sum_le_of_forall _ _ each) (Nat.mul_le_mul_right _ few)

theorem staysInside_iff_not_cutOff (b : Bytes) (o : Nat) (attestation : Bytes) :
    (StaysInside b o ↔ ¬CutOff b o) ∧
    ((∀ d ∈ decodedParts attestation, ¬CutOff d 0) → parseCalls attestation ≤ 3 * (maxAttestationBytes + 2)) :=
  ⟨⟨StaysInside.not_cutOff, staysInside_of_not_cutOff⟩, parseCalls_le attestation⟩

/-- A lone `null`. -/
theorem staysInside_iff_not_cutOff_sample : ¬CutOff [0xF6] 0 ∧ parseCalls [0xF6] ≤ 3 * (maxAttestationBytes + 2) := by
  have stays : StaysInside [0xF6] 0 := by
    refine ⟨?_, nofun⟩
    rintro v r ⟨rfl⟩
    exact ⟨.null, 1, rfl, Nat.one_pos, Nat.le_refl 1⟩
  obtain ⟨exact, bounded⟩ := staysInside_iff_not_cutOff [0xF6] 0 [0xF6]
  have whole := exact.mp stays
  refine ⟨whole, bounded fun d member => ?_⟩
  obtain rfl : d = [0xF6] := List.mem_singleton.mp member
  exact whole

/-- A number that announces one octet at the end of the buffer is read as `undefined`, and
the offset returned lies behind the end. -/
theorem staysInside_fails : ¬StaysInside [0x18] 0 := by
  intro stays
  obtain ⟨_, q, eq, _, within⟩ := stays.result .undefined (some 2) rfl
  cases eq
  exact absurd within (by decide)

end TeeProof.Verifier.QingTian
