import TeeProof.CborGrammar

/-! Whatever the bounded decoder returns is an item of the format. -/
namespace TeeProof.Verifier

theorem not_cborError {message : JStr} {r : α} : ¬cborError message = .ok r := nofun

theorem requireAvailable_ok (run : requireAvailable b p n = .ok r) : p + n ≤ b.length := by
  rw [requireAvailable] at run
  split at run
  · cases run
  · omega

theorem requireAvailable_pos {n : Nat} (run : requireAvailable b p n = .ok r) (pos : 0 < n) : p < b.length := by
  have := requireAvailable_ok run
  omega

theorem readWide_ok (run : readWide b p n = .ok (v, q)) : p + n ≤ b.length ∧ v = beNat (slice b p n) ∧ q = p + n := by
  rw [readWide] at run
  obtain ⟨_, fits, run⟩ := Throws.bind_ok run
  cases run
  exact ⟨requireAvailable_ok fits, rfl, rfl⟩

theorem readAdditional_ok (run : readAdditional b p ai = .ok (n, q)) : Argument b p ai n q := by
  rw [readAdditional] at run
  split at run
  next small =>
    cases run
    exact .short small
  split at run
  next eq =>
    subst eq
    obtain ⟨fits, rfl, rfl⟩ := readWide_ok run
    exact .wide (k := 0) (by omega) fits (beNat_slice_safe b p (by omega))
  split at run
  next eq =>
    subst eq
    obtain ⟨fits, rfl, rfl⟩ := readWide_ok run
    exact .wide (k := 1) (by omega) fits (beNat_slice_safe b p (by omega))
  split at run
  next eq =>
    subst eq
    obtain ⟨fits, rfl, rfl⟩ := readWide_ok run
    exact .wide (k := 2) (by omega) fits (beNat_slice_safe b p (by omega))
  split at run
  next eq =>
    subst eq
    obtain ⟨⟨v, next⟩, read, run⟩ := Throws.bind_ok run
    dsimp only at run
    split at run
    · cases run
    · cases run
      obtain ⟨fits, rfl, rfl⟩ := readWide_ok read
      exact .wide (k := 3) (by omega) fits (Nat.le_of_not_lt ‹_›)
  split at run <;> exact absurd run not_cborError

theorem boundedSlice_ok (run : boundedSlice b p n kind = .ok s) :
    n ≤ maxCborStringBytes ∧ p + n ≤ b.length ∧ s = slice b p n := by
  rw [boundedSlice] at run
  split at run
  · exact absurd run not_cborError
  · obtain ⟨_, fits, run⟩ := Throws.bind_ok run
    cases run
    exact ⟨by omega, requireAvailable_ok fits, rfl⟩

/-- The decoder returns items of the format, and the break only where it may stand. -/
structure Sound (b : Bytes) (dec : Decoder) (item : Grammar Cbor) : Prop where
  returns : ∀ p allowBreak v q, dec p allowBreak = .ok (some v, q) → item p v q
  ends : ∀ p allowBreak q, dec p allowBreak = .ok (none, q) → allowBreak = true ∧ Break b p ∧ q = p + 1

section

variable {b : Bytes} {dec : Decoder} {item : Grammar Cbor}

theorem Sound.decItem (sound : Sound b dec item) (run : decItem dec p = .ok (v, q)) : item p v q := by
  rw [Verifier.decItem] at run
  obtain ⟨⟨one, next⟩, read, run⟩ := Throws.bind_ok run
  cases one with
  | none => exact absurd run not_cborError
  | some one =>
    cases run
    exact sound.returns _ _ _ _ read

/-! The loops over a known number of items -/

theorem Sound.decArray (sound : Sound b dec item) {n p : Nat} {done : List Cbor}
    (run : decArray dec n done p = .ok (v, q)) :
    ∃ vs, vs.length = n ∧ Items item p vs q ∧ v = .array (done ++ vs) := by
  induction n generalizing done p with
  | zero =>
    cases run
    exact ⟨[], rfl, .nil _, by rw [List.append_nil]⟩
  | succ n ih =>
    rw [Verifier.decArray] at run
    obtain ⟨⟨one, next⟩, read, run⟩ := Throws.bind_ok run
    obtain ⟨vs, size, all, eq⟩ := ih run
    refine ⟨one :: vs, by rw [List.length_cons, size], .cons (sound.decItem read) all, ?_⟩
    rw [eq, List.append_assoc]
    rfl

theorem Sound.decMap (sound : Sound b dec item) {n p : Nat} {done : List (JStr × Cbor)}
    (run : decMap dec n (mapOf done) p = .ok (v, q)) :
    ∃ es, es.length = n ∧ Items (Entry item) p es q ∧ v = .map (mapOf (done ++ es)) := by
  induction n generalizing done p with
  | zero =>
    cases run
    exact ⟨[], rfl, .nil _, by rw [List.append_nil]⟩
  | succ n ih =>
    rw [Verifier.decMap] at run
    obtain ⟨⟨k, mid⟩, readKey, run⟩ := Throws.bind_ok run
    obtain ⟨⟨value, next⟩, readValue, run⟩ := Throws.bind_ok run
    obtain ⟨key, named, run⟩ := Throws.bind_ok run
    rw [← mapOf_concat done (key, value)] at run
    obtain ⟨es, size, all, eq⟩ := ih run
    have entry : Entry item p (key, value) next := .mk (sound.decItem readKey) (sound.decItem readValue) named
    refine ⟨(key, value) :: es, by rw [List.length_cons, size], .cons entry all, ?_⟩
    rw [eq, List.append_assoc]
    rfl

/-! The loops up to a break -/

/-- What one round of such a loop does: it stands at the break, or it takes one more item. -/
def Rounds (dec : Decoder) (grammar : Grammar α) (add : σ → α → σ) (fits : σ → Prop) (value : σ → Cbor)
    (loop : σ → Nat → Nat → Throws (Cbor × Nat)) : Prop :=
  ∀ s p room v q, loop s p room = .ok (v, q) →
    (dec p true = .ok (none, q) ∧ v = value s) ∨
    ∃ a next left, grammar p a next ∧ room = left + 1 ∧ fits (add s a) ∧ loop (add s a) next left = .ok (v, q)

theorem Rounds.run {grammar : Grammar α} {add : σ → α → σ} {fits : σ → Prop} {value : σ → Cbor}
    {loop : σ → Nat → Nat → Throws (Cbor × Nat)} (rounds : Rounds dec grammar add fits value loop)
    (sound : Sound b dec item) {s : σ} {p room : Nat} (start : fits s) (run : loop s p room = .ok (v, q)) :
    ∃ vs r, Items grammar p vs r ∧ Break b r ∧ q = r + 1 ∧ vs.length ≤ room ∧ fits (vs.foldl add s) ∧
      v = value (vs.foldl add s) := by
  induction room generalizing s p with
  | zero =>
    rcases rounds s p 0 v q run with ⟨read, eq⟩ | ⟨_, _, left, _, more, _⟩
    · obtain ⟨_, ends, at_end⟩ := sound.ends _ _ _ read
      exact ⟨[], p, .nil p, ends, at_end, Nat.le_refl _, start, eq⟩
    · exact absurd more.symm (Nat.succ_ne_zero left)
  | succ room ih =>
    rcases rounds s p (room + 1) v q run with ⟨read, eq⟩ | ⟨a, next, left, one, more, fine, later⟩
    · obtain ⟨_, ends, at_end⟩ := sound.ends _ _ _ read
      exact ⟨[], p, .nil p, ends, at_end, Nat.zero_le _, start, eq⟩
    · obtain rfl := Nat.succ.inj more
      obtain ⟨vs, r, all, ends, at_end, size, total, eq⟩ := ih fine later
      exact ⟨a :: vs, r, .cons one all, ends, at_end, Nat.succ_le_succ size, total, eq⟩

theorem Sound.bytesRounds (sound : Sound b dec item) :
    Rounds dec (fun p c q => item p (.bytes c) q) (fun (s c : Bytes) => s ++ c)
      (fun s => s.length ≤ maxCborStringBytes) .bytes (decBytesChunks dec) := by
  intro s p room v q run
  rw [decBytesChunks.eq_def] at run
  obtain ⟨⟨one, next⟩, read, run⟩ := Throws.bind_ok run
  dsimp only at run
  split at run
  next =>
    cases run
    exact .inl ⟨read, rfl⟩
  next chunk =>
    split at run
    · exact absurd run not_cborError
    · split at run
      · exact absurd run not_cborError
      · refine .inr ⟨chunk, next, _, sound.returns _ _ _ _ read, rfl, ?_, run⟩
        have size : (s ++ chunk).length ≤ maxCborStringBytes := by
          rw [List.length_append]
          omega
        exact size
  next => exact absurd run not_cborError

theorem Sound.textRounds (sound : Sound b dec item) :
    Rounds dec (fun p c q => item p (.text c) q) (fun (s : JStr × Nat) c => (s.1 ++ c, s.2 + c.utf8.length))
      (fun s => s.2 ≤ maxCborStringBytes) (fun s => .text s.1) (fun s => decTextChunks dec s.1 s.2) := by
  intro s p room v q run
  dsimp only at run
  rw [decTextChunks.eq_def] at run
  obtain ⟨⟨one, next⟩, read, run⟩ := Throws.bind_ok run
  dsimp only at run
  split at run
  next =>
    cases run
    exact .inl ⟨read, rfl⟩
  next chunk =>
    split at run
    · exact absurd run not_cborError
    · split at run
      · exact absurd run not_cborError
      · exact .inr ⟨chunk, next, _, sound.returns _ _ _ _ read, rfl, Nat.le_of_not_lt ‹_›, run⟩
  next => exact absurd run not_cborError

theorem Sound.arrayRounds (sound : Sound b dec item) :
    Rounds dec item (fun (s : List Cbor) v => s ++ [v]) (fun _ => True) .array (decArrayItems dec) := by
  intro s p room v q run
  rw [decArrayItems.eq_def] at run
  obtain ⟨⟨one, next⟩, read, run⟩ := Throws.bind_ok run
  dsimp only at run
  split at run
  next =>
    cases run
    exact .inl ⟨read, rfl⟩
  next one =>
    split at run
    · exact absurd run not_cborError
    · exact .inr ⟨one, next, _, sound.returns _ _ _ _ read, rfl, trivial, run⟩

theorem Sound.mapRounds (sound : Sound b dec item) :
    Rounds dec (Entry item) (fun m e => setKey e.1 e.2 m) (fun _ => True) .map (decMapEntries dec) := by
  intro s p room v q run
  rw [decMapEntries.eq_def] at run
  obtain ⟨⟨one, next⟩, read, run⟩ := Throws.bind_ok run
  dsimp only at run
  split at run
  next =>
    cases run
    exact .inl ⟨read, rfl⟩
  next k =>
    obtain ⟨⟨value, behind⟩, readValue, run⟩ := Throws.bind_ok run
    dsimp only at run
    split at run
    · exact absurd run not_cborError
    · obtain ⟨key, named, run⟩ := Throws.bind_ok run
      exact .inr ⟨(key, value), behind, _, .mk (sound.returns _ _ _ _ read) (sound.decItem readValue) named, rfl,
        trivial, run⟩

theorem foldl_append (s : List α) (cs : List (List α)) : cs.foldl (fun s c => s ++ c) s = s ++ cs.flatten := by
  induction cs generalizing s with
  | nil => exact (List.append_nil s).symm
  | cons c cs ih => rw [List.foldl_cons, ih, List.flatten_cons, List.append_assoc]

theorem foldl_text (cs : List JStr) (s : JStr × Nat) :
    cs.foldl (fun (s : JStr × Nat) c => (s.1 ++ c, s.2 + c.utf8.length)) s =
      (s.1 ++ cs.flatten, s.2 + (cs.map fun c => c.utf8.length).sum) := by
  induction cs generalizing s with
  | nil => exact Prod.ext (List.append_nil s.1).symm rfl
  | cons c cs ih =>
    rw [List.foldl_cons, ih, List.flatten_cons, List.append_assoc, List.map_cons, List.sum_cons, Nat.add_assoc]

theorem foldl_snoc (s vs : List α) : vs.foldl (fun s v => s ++ [v]) s = s ++ vs := by
  induction vs generalizing s with
  | nil => exact (List.append_nil s).symm
  | cons v vs ih => rw [List.foldl_cons, ih, List.append_assoc, List.singleton_append]

theorem Sound.decodeIndefinite (sound : Sound b dec item) (opens : Opens b p major)
    (run : decodeIndefiniteCbor dec major (p + 1) = .ok (v, q)) : Level b item p v q := by
  rw [decodeIndefiniteCbor.eq_def] at run
  split at run
  next =>
    obtain ⟨cs, r, all, ends, eq, count, size, rfl⟩ := sound.bytesRounds.run sound (Nat.zero_le _) run
    rw [foldl_append, List.nil_append] at size ⊢
    exact .bytesChunks (.mk opens all ends eq) count size
  next =>
    obtain ⟨cs, r, all, ends, eq, count, size, rfl⟩ :=
      sound.textRounds.run sound (s := ([], 0)) (Nat.zero_le _) run
    rw [foldl_text, Nat.zero_add] at size
    rw [foldl_text, List.nil_append]
    exact .textChunks (.mk opens all ends eq) count size
  next =>
    obtain ⟨vs, r, all, ends, eq, count, _, rfl⟩ := sound.arrayRounds.run sound trivial run
    rw [foldl_snoc, List.nil_append]
    exact .arrayItems (.mk opens all ends eq) count
  next =>
    obtain ⟨es, r, all, ends, eq, count, _, rfl⟩ := sound.mapRounds.run sound trivial run
    exact .mapEntries (.mk opens all ends eq) count
  next => exact absurd run not_cborError

theorem Sound.decodeDefinite (sound : Sound b dec item) (head : Head b p major n next)
    (run : decodeDefiniteCbor dec b major (byteAt b p % 32) n next = .ok (v, q)) : Level b item p v q := by
  rw [decodeDefiniteCbor.eq_def] at run
  split at run
  next =>
    cases run
    exact .unsigned head
  next =>
    cases run
    exact .negative head
  next =>
    obtain ⟨s, bounded, run⟩ := Throws.bind_ok run
    obtain ⟨size, fits, rfl⟩ := boundedSlice_ok bounded
    cases run
    exact .bytes head size fits
  next =>
    obtain ⟨s, bounded, run⟩ := Throws.bind_ok run
    obtain ⟨size, fits, rfl⟩ := boundedSlice_ok bounded
    cases run
    exact .text head size fits
  next =>
    split at run
    · exact absurd run not_cborError
    next size =>
      obtain ⟨vs, rfl, all, rfl⟩ := sound.decArray run
      exact .array head (Nat.le_of_not_lt size) all
  next =>
    split at run
    · exact absurd run not_cborError
    next size =>
      have start : Verifier.decMap dec n (mapOf []) next = .ok (v, q) := run
      obtain ⟨es, rfl, all, rfl⟩ := sound.decMap start
      exact .map head (Nat.le_of_not_lt size) all
  next => exact .tag head (sound.decItem run)
  next =>
    cases run
    exact .simple head
  next => exact absurd run not_cborError

end

/-- What a call may return where some nesting is left. -/
theorem dec_cases (run : dec b (left + 1) p allowBreak = .ok (item, q)) :
    (item = none ∧ allowBreak = true ∧ Break b p ∧ q = p + 1) ∨
    ∃ v, item = some v ∧
      ((Opens b p (byteAt b p / 32) ∧
          decodeIndefiniteCbor (dec b left) (byteAt b p / 32) (p + 1) = .ok (v, q)) ∨
        ∃ n next, Head b p (byteAt b p / 32) n next ∧
          decodeDefiniteCbor (dec b left) b (byteAt b p / 32) (byteAt b p % 32) n next = .ok (v, q)) := by
  rw [dec] at run
  obtain ⟨_, available, run⟩ := Throws.bind_ok run
  have inside := requireAvailable_pos available Nat.one_pos
  dsimp only at run
  split at run
  next marker =>
    split at run
    next allowed =>
      cases run
      exact .inl ⟨rfl, allowed, ⟨inside, marker⟩, rfl⟩
    next => exact absurd run not_cborError
  next =>
    split at run
    next indefinite =>
      obtain ⟨⟨v, _⟩, decoded, eq⟩ := Throws.bind_ok run
      cases eq
      refine .inr ⟨v, rfl, .inl ⟨⟨inside, ?_⟩, decoded⟩⟩
      rw [← indefinite]
      omega
    next =>
      obtain ⟨⟨n, next⟩, read, run⟩ := Throws.bind_ok run
      obtain ⟨⟨v, _⟩, decoded, eq⟩ := Throws.bind_ok run
      cases eq
      exact .inr ⟨v, rfl, .inr ⟨n, next, .mk inside rfl (readAdditional_ok read), decoded⟩⟩

/-- Each level of nesting takes one off what is left; at none the decoder throws. -/
theorem dec_sound (b : Bytes) (left : Nat) : Sound b (dec b left) (CborItem b left) := by
  induction left with
  | zero =>
    constructor
    · exact fun _ _ _ _ run => absurd run not_cborError
    · exact fun _ _ _ run => absurd run not_cborError
  | succ left ih =>
    constructor
    · intro p allowBreak v q run
      rcases dec_cases run with ⟨none, _⟩ | ⟨_, ⟨rfl⟩, ⟨opens, run⟩ | ⟨n, next, head, run⟩⟩
      · cases none
      · exact ih.decodeIndefinite opens run
      · exact ih.decodeDefinite head run
    · intro p allowBreak q run
      rcases dec_cases run with ⟨_, ends⟩ | ⟨_, some, _⟩
      · exact ends
      · cases some

theorem decodeComplete_ok (run : decodeComplete b = .ok v) : CborItem b (maxCborDepth + 1) 0 v b.length := by
  rw [decodeComplete] at run
  obtain ⟨⟨value, q⟩, read, run⟩ := Throws.bind_ok run
  dsimp only at run
  split at run
  · exact absurd run not_cborError
  next whole =>
    cases run
    have item := (dec_sound b _).decItem read
    rwa [of_not_not whole] at item

/-- At `depth` a call may still nest `maxCborDepth + 1 - depth` levels. -/
theorem dec_bounded (b : Bytes) :
    (∀ p depth allowBreak item q, dec b (maxCborDepth + 1 - depth) p allowBreak = .ok (item, q) →
      depth ≤ maxCborDepth ∧ p < q ∧ q ≤ b.length ∧
      (∀ v, item = some v → CborItem b (maxCborDepth + 1 - depth) p v q ∧ Bounded v) ∧
      (item = none → allowBreak = true ∧ Break b p ∧ q = p + 1)) ∧
    ∀ v, decodeComplete b = .ok v → CborItem b (maxCborDepth + 1) 0 v b.length ∧ Bounded v := by
  constructor
  · intro p depth allowBreak item q run
    have sound := dec_sound b (maxCborDepth + 1 - depth)
    have shallow : depth ≤ maxCborDepth := by
      by_contra deep
      have none_left : maxCborDepth + 1 - depth = 0 := by omega
      rw [none_left] at run
      exact absurd run not_cborError
    cases item with
    | none =>
      obtain ⟨allowed, ends, rfl⟩ := sound.ends p allowBreak q run
      exact ⟨shallow, Nat.lt_succ_self p, ends.1, nofun, fun _ => ⟨allowed, ends, rfl⟩⟩
    | some v =>
      have value := sound.returns p allowBreak v q run
      obtain ⟨forward, inside⟩ := cborItem_inside b _ p v q value
      refine ⟨shallow, forward, inside, ?_, nofun⟩
      rintro _ ⟨rfl⟩
      exact ⟨value, cborItem_bounded b _ p v q value⟩
  · intro v run
    have value := decodeComplete_ok run
    exact ⟨value, cborItem_bounded b _ 0 v _ value⟩

/-- An array of a tagged number and a byte string. -/
theorem dec_bounded_sample :
    CborItem [0x82, 0xC1, 0x18, 0x2A, 0x41, 0x61] (maxCborDepth + 1) 0 (.array [.int 42, .bytes [0x61]]) 6 ∧
      Bounded (.array [.int 42, .bytes [0x61]]) :=
  (dec_bounded [0x82, 0xC1, 0x18, 0x2A, 0x41, 0x61]).2 _ rfl

end TeeProof.Verifier
