import TeeProof.BigEndian

/-! Readers that walk a buffer with a cursor. An access outside the buffer is an outcome
of its own, as are the errors a reader reports. `Reads` ties a reader to the writer it
undoes; `Contained` says that it stays inside the buffer and pays for every round of a
loop with what it consumes. -/
namespace TeeProof

/-- `rounds` counts the loop rounds begun so far; no reader looks at it. -/
structure Cursor (β : Type) where
  buf : List β
  offset : Nat
  rounds : Nat

inductive Fault (ε : Type) where
  | error (e : ε)
  | outside
  deriving DecidableEq

/-- A reader: the cursor it leaves behind is kept on failure too. -/
abbrev Scan (β ε : Type) := EStateM (Fault ε) (Cursor β)

namespace Cursor

def start (buf : List β) : Cursor β := ⟨buf, 0, 0⟩

/-- What the cursor has not passed yet. -/
def rest (c : Cursor β) : List β := c.buf.drop c.offset

def Inside (c : Cursor β) : Prop := c.offset ≤ c.buf.length

theorem rest_start (buf : List β) : (start buf).rest = buf := rfl

theorem rest_length (c : Cursor β) : c.rest.length = c.buf.length - c.offset := List.length_drop

end Cursor

namespace Scan

variable {β ε α γ : Type}

/-- `buf[offset .. offset + n]`, an access that is only defined inside the buffer. -/
def slice (n : Nat) : Scan β ε (List β) := fun c =>
  if c.offset + n ≤ c.buf.length then .ok (c.rest.take n) c else .error .outside c

def advance (n : Nat) : Scan β ε Unit := fun c => .ok () { c with offset := c.offset + n }

def fail (e : ε) : Scan β ε α := fun c => .error (.error e) c

/-- The next `n` elements, or the error `short` where fewer are left. -/
def take (short : ε) (n : Nat) : Scan β ε (List β) := do
  let c ← get
  if c.buf.length < c.offset + n then fail short
  else do
    let s ← slice n
    advance n
    pure s

/-- The number in `s[0] .. s[width - 1]`, which are only defined up to the length of `s`. -/
def digits (width : Nat) (s : Bytes) : Scan UInt8 ε Nat :=
  if width ≤ s.length then pure (beNat (s.take width)) else throw .outside

/-- A big-endian number of `width` bytes. -/
def uint (short : ε) (width : Nat) : Scan UInt8 ε Nat := do
  let s ← take short width
  digits width s

/-- `n` rounds of a loop that collects what `r` reads. -/
def times (r : Scan β ε α) : Nat → Scan β ε (List α)
  | 0 => pure []
  | n + 1 => do
    modify fun c => { c with rounds := c.rounds + 1 }
    let a ← r
    let more ← times r n
    pure (a :: more)

/-- Nothing may be left; `trailing` reports how much is. -/
def atEnd (trailing : Nat → ε) : Scan β ε Unit := do
  let c ← get
  if c.offset ≠ c.buf.length then fail (trailing (c.buf.length - c.offset)) else pure ()

/-- A reader that has to consume the whole buffer. -/
def whole (r : Scan β ε α) (trailing : Nat → ε) : Scan β ε α := do
  let a ← r
  atEnd trailing
  pure a

/-- The value of a run. -/
def value (r : Scan β ε α) (c : Cursor β) : Except (Fault ε) α :=
  match r c with
  | .ok a _ => .ok a
  | .error e _ => .error e

/-- The cursor a run leaves behind. -/
def after (r : Scan β ε α) (c : Cursor β) : Cursor β :=
  match r c with
  | .ok _ c' => c'
  | .error _ c' => c'

theorem bind_apply (r : Scan β ε α) (f : α → Scan β ε γ) (c : Cursor β) :
    (r >>= f) c = match r c with
      | .ok a c' => f a c'
      | .error e c' => .error e c' := by
  change EStateM.bind r f c = _
  unfold EStateM.bind
  cases r c <;> rfl

theorem times_succ (r : Scan β ε α) (n : Nat) (c : Cursor β) :
    times r (n + 1) c =
      (r >>= fun a => times r n >>= fun more => pure (a :: more)) { c with rounds := c.rounds + 1 } := rfl

theorem bind_ok {r : Scan β ε α} {f : α → Scan β ε γ} {c c' : Cursor β} {b : γ} (h : (r >>= f) c = .ok b c') :
    ∃ a mid, r c = .ok a mid ∧ f a mid = .ok b c' := by
  rw [bind_apply] at h
  cases run : r c with
  | ok a mid =>
    rw [run] at h
    exact ⟨a, mid, rfl, h⟩
  | error e mid =>
    rw [run] at h
    cases h

theorem bind_of_ok {r : Scan β ε α} {c mid : Cursor β} {a : α} (run : r c = .ok a mid) (f : α → Scan β ε γ) :
    (r >>= f) c = f a mid := by
  rw [bind_apply, run]

theorem take_apply (short : ε) (n : Nat) (c : Cursor β) :
    take short n c = if c.buf.length < c.offset + n then .error (.error short) c
      else .ok (c.rest.take n) { c with offset := c.offset + n } := by
  have unfolded : take short n c =
    (if c.buf.length < c.offset + n then (fail short : Scan β ε (List β)) else do
      let s ← slice n
      advance n
      pure s) c := rfl
  rw [unfolded]
  by_cases few : c.buf.length < c.offset + n
  · rw [if_pos few, if_pos few]
    rfl
  · have defined : (slice n : Scan β ε (List β)) c = .ok (c.rest.take n) c := if_pos (Nat.not_lt.mp few)
    rw [if_neg few, if_neg few, bind_of_ok defined]
    rfl

/-- The digits of what was just taken are all there. -/
theorem uint_apply (short : ε) (width : Nat) (c : Cursor UInt8) :
    uint short width c = (do
      let s ← take short width
      pure (beNat s) : Scan UInt8 ε Nat) c := by
  rw [uint, bind_apply, bind_apply, take_apply]
  by_cases few : c.buf.length < c.offset + width
  · rw [if_pos few]
  · have size : (c.rest.take width).length = width := by
      rw [List.length_take, c.rest_length]
      omega
    rw [if_neg few]
    simp only [digits, size, le_refl, if_true, List.take_take, min_self]

theorem rest_advanced (c : Cursor β) (n : Nat) : { c with offset := c.offset + n }.rest = c.rest.drop n := by
  rw [Cursor.rest, Cursor.rest, List.drop_drop]

theorem atEnd_apply (trailing : Nat → ε) (c : Cursor β) :
    atEnd trailing c = if c.offset ≠ c.buf.length then .error (.error (trailing (c.buf.length - c.offset))) c
      else .ok () c := by
  have unfolded : atEnd trailing c =
    (if c.offset ≠ c.buf.length then fail (trailing (c.buf.length - c.offset)) else pure () : Scan β ε Unit) c := rfl
  rw [unfolded]
  split <;> rfl

theorem value_ok {r : Scan β ε α} {c : Cursor β} {a : α} : r.value c = .ok a ↔ ∃ c', r c = .ok a c' := by
  unfold value
  cases r c with
  | ok b c' => simp
  | error e c' => simp

/-! Readers and writers -/

/-- On values in `P` the reader `r` undoes the writer `put`, and it accepts nothing else. -/
structure Reads (r : Scan β ε α) (put : α → List β) (P : α → Prop) : Prop where
  complete : ∀ c a tail, c.Inside → P a → c.rest = put a ++ tail →
    ∃ c', r c = .ok a c' ∧ c'.Inside ∧ c'.rest = tail
  sound : ∀ c a c', r c = .ok a c' → P a ∧ c.rest = put a ++ c'.rest

namespace Reads

variable {r : Scan β ε α} {put : α → List β} {P : α → Prop}

theorem congr {put' : α → List β} {P' : α → Prop} (reads : Reads r put P) (same : ∀ a, P' a ↔ P a)
    (writes : ∀ a, P a → put a = put' a) : Reads r put' P' where
  complete c a tail inside holds eq :=
    reads.complete c a tail inside ((same a).mp holds) (eq.trans (by rw [writes a ((same a).mp holds)]))
  sound c a c' run := by
    obtain ⟨holds, eq⟩ := reads.sound c a c' run
    exact ⟨(same a).mpr holds, eq.trans (by rw [writes a holds])⟩

/-- Nothing is read for a value that is already determined. -/
theorem pure (a : α) (only : ∀ b, P b ↔ b = a) : Reads (Pure.pure a : Scan β ε α) (fun _ => []) P where
  complete c b tail inside holds eq := by
    obtain rfl := (only b).mp holds
    exact ⟨c, rfl, inside, eq⟩
  sound c b c' run := by
    cases run
    exact ⟨(only a).mpr rfl, rfl⟩

theorem fail (e : ε) (none : ∀ b, ¬P b) : Reads (Scan.fail e : Scan β ε α) put P where
  complete _ b _ _ holds := absurd holds (none b)
  sound _ _ _ run := nomatch run

/-- The next part of a value is read, then what follows given that part. -/
theorem field {f : α → Scan β ε γ} {more : γ → List β} {Q : γ → Prop} (part : γ → α) (reads : Reads r put P)
    (fits : ∀ b, Q b → P (part b)) (next : ∀ a, P a → Reads (f a) more fun b => Q b ∧ part b = a) :
    Reads (r >>= f) (fun b => put (part b) ++ more b) Q where
  complete c b tail inside holds eq := by
    rw [List.append_assoc] at eq
    obtain ⟨mid, first, inside, left⟩ := reads.complete c (part b) _ inside (fits b holds) eq
    obtain ⟨c', second, done⟩ := (next (part b) (fits b holds)).complete mid b tail inside ⟨holds, rfl⟩ left
    exact ⟨c', (bind_of_ok first f).trans second, done⟩
  sound c b c' run := by
    obtain ⟨a, mid, first, second⟩ := bind_ok run
    obtain ⟨holds, eq⟩ := reads.sound c a mid first
    obtain ⟨⟨whole, rfl⟩, rest⟩ := (next a holds).sound mid b c' second
    refine ⟨whole, ?_⟩
    rw [eq, rest, List.append_assoc]

/-- A part that has to be the constant `v`. -/
theorem expect [DecidableEq α] {k : Scan β ε γ} {more : γ → List β} {Q : γ → Prop} (v : α) (error : α → ε)
    (reads : Reads r put P) (fits : P v) (next : Reads k more Q) :
    Reads (do let a ← r; if a ≠ v then Scan.fail (error a) else k) (fun b => put v ++ more b) Q := by
  refine reads.field (fun _ => v) (fun _ _ => fits) fun a _ => ?_
  by_cases same : a = v
  · rw [if_neg (not_not.mpr same)]
    exact next.congr (fun _ => and_iff_left same.symm) fun _ _ => rfl
  · rw [if_pos same]
    exact Reads.fail (error a) fun _ holds => same holds.2.symm

/-- A value is read through a representation that is in bijection with it. -/
theorem map {Q : γ → Prop} (f : α → γ) (g : γ → α) (reads : Reads r put P)
    (back : ∀ b, Q b → P (g b) ∧ f (g b) = b) (there : ∀ a, P a → Q (f a) ∧ g (f a) = a) :
    Reads (do let a ← r; Pure.pure (f a)) (fun b => put (g b)) Q := by
  refine (reads.field g (fun b holds => (back b holds).1) fun a holds => Reads.pure (f a) fun b => ?_).congr
    (fun _ => Iff.rfl) fun _ _ => List.append_nil _
  constructor
  · rintro ⟨whole, rfl⟩
    exact (back b whole).2.symm
  · rintro rfl
    exact there a holds

theorem take (short : ε) (n : Nat) :
    Reads (Scan.take short n : Scan β ε (List β)) (fun s => s) fun s => s.length = n where
  complete c s tail inside size eq := by
    have enough : ¬c.buf.length < c.offset + n := by
      have length := congrArg List.length eq
      rw [c.rest_length, List.length_append, size] at length
      unfold Cursor.Inside at inside
      omega
    refine ⟨{ c with offset := c.offset + n }, ?_, Nat.not_lt.mp enough, ?_⟩
    · rw [take_apply, if_neg enough, eq, ← size, List.take_left]
    · rw [rest_advanced, eq, ← size, List.drop_left]
  sound c s c' run := by
    rw [take_apply] at run
    split at run
    · cases run
    next enough =>
      cases run
      refine ⟨?_, ?_⟩
      · rw [List.length_take, c.rest_length]
        omega
      · rw [rest_advanced, List.take_append_drop]

theorem uint (short : ε) (width : Nat) :
    Reads (Scan.uint short width) (beBytes width) fun n => n < 256 ^ width := by
  rw [funext (uint_apply short width)]
  refine (Reads.take short width).map beNat (beBytes width) (fun n small => ?_) fun b size => ?_
  · exact ⟨beBytes_length width n, beNat_beBytes width n small⟩
  · subst size
    exact ⟨beNat_lt b, beBytes_beNat b⟩

theorem times (reads : Reads r put P) (n : Nat) :
    Reads (Scan.times r n) (fun as => as.flatMap put) fun as => as.length = n ∧ ∀ a ∈ as, P a where
  complete c as tail inside holds eq := by
    induction n generalizing c as with
    | zero =>
      obtain rfl := List.length_eq_zero_iff.mp holds.1
      exact ⟨c, rfl, inside, eq⟩
    | succ n ih =>
      obtain ⟨length, each⟩ := holds
      cases as with
      | nil => cases length
      | cons a as =>
        rw [List.flatMap_cons, List.append_assoc] at eq
        obtain ⟨mid, first, inside, left⟩ :=
          reads.complete { c with rounds := c.rounds + 1 } a _ inside (each a List.mem_cons_self) eq
        obtain ⟨c', later, done⟩ := ih mid as inside
          ⟨Nat.succ.inj length, fun b member => each b (List.mem_cons_of_mem a member)⟩ left
        refine ⟨c', ?_, done⟩
        rw [times_succ, bind_of_ok first, bind_of_ok later]
        rfl
  sound c as c' run := by
    induction n generalizing c as with
    | zero =>
      cases run
      exact ⟨⟨rfl, by simp⟩, rfl⟩
    | succ n ih =>
      rw [times_succ] at run
      obtain ⟨a, mid, first, run⟩ := bind_ok run
      obtain ⟨more, mid', later, run⟩ := bind_ok run
      cases run
      obtain ⟨holds, eq⟩ := reads.sound _ a mid first
      obtain ⟨⟨length, each⟩, rest⟩ := ih mid more later
      refine ⟨⟨by rw [List.length_cons, length], List.forall_mem_cons.mpr ⟨holds, each⟩⟩, ?_⟩
      have same : c.rest = put a ++ mid.rest := eq
      rw [same, rest, List.flatMap_cons, List.append_assoc]

end Reads

/-! Staying inside -/

/-- A run that ends with `c'` keeps the buffer, stays inside it and has consumed `gain`
more than it began rounds, up to `slack`. -/
structure Paid (gain slack : Nat) (c c' : Cursor β) : Prop where
  buf : c'.buf = c.buf
  inside : c'.Inside
  rounds : c'.rounds + c.offset + gain ≤ c.rounds + c'.offset + slack

theorem Paid.trans {gain gain' slack : Nat} {c mid c' : Cursor β} (first : Paid gain 0 c mid)
    (second : Paid gain' slack mid c') : Paid (gain + gain') slack c c' where
  buf := second.buf.trans first.buf
  inside := second.inside
  rounds := by
    have := first.rounds
    have := second.rounds
    omega

theorem Paid.weaken {gain gain' slack slack' : Nat} {c c' : Cursor β} (paid : Paid gain slack c c')
    (enough : gain' + slack ≤ gain + slack') : Paid gain' slack' c c' where
  buf := paid.buf
  inside := paid.inside
  rounds := by
    have := paid.rounds
    omega

/-- No run of `r` leaves the buffer; a run that succeeds pays `gain` more than its
rounds, and one that fails may owe `slack` of them. -/
structure Contained (gain slack : Nat) (r : Scan β ε α) : Prop where
  ok : ∀ c a c', c.Inside → r c = .ok a c' → Paid gain 0 c c'
  error : ∀ c f c', c.Inside → r c = .error f c' → f ≠ .outside ∧ Paid 0 slack c c'

namespace Contained

variable {r : Scan β ε α} {f : α → Scan β ε γ} {gain gain' slack slack' : Nat}

theorem weaken (contained : Contained gain slack r) (less : gain' ≤ gain) (more : slack ≤ slack') :
    Contained gain' slack' r where
  ok c a c' inside run := (contained.ok c a c' inside run).weaken (by omega)
  error c e c' inside run := by
    obtain ⟨proper, paid⟩ := contained.error c e c' inside run
    exact ⟨proper, paid.weaken (by omega)⟩

theorem pure (a : α) : Contained 0 0 (Pure.pure a : Scan β ε α) where
  ok c b c' inside run := by
    cases run
    exact ⟨rfl, inside, le_rfl⟩
  error _ _ _ _ run := nomatch run

/-- A failing reader owes nothing, and there is no success that would have to pay. -/
theorem fail (e : ε) : Contained gain 0 (Scan.fail e : Scan β ε α) where
  ok _ _ _ _ run := nomatch run
  error c f c' inside run := by
    cases run
    exact ⟨nofun, rfl, inside, le_rfl⟩

theorem take (short : ε) (n : Nat) : Contained n 0 (Scan.take short n : Scan β ε (List β)) where
  ok c s c' inside run := by
    rw [take_apply] at run
    split at run
    · cases run
    next enough =>
      cases run
      exact ⟨rfl, Nat.not_lt.mp enough, by simp only; omega⟩
  error c f c' inside run := by
    rw [take_apply] at run
    split at run
    · cases run
      exact ⟨nofun, rfl, inside, le_rfl⟩
    · cases run

theorem bind (first : Contained gain slack r) (next : ∀ a, Contained gain' (gain + slack) (f a)) :
    Contained (gain + gain') slack (r >>= f) where
  ok c b c' inside run := by
    obtain ⟨a, mid, read, later⟩ := bind_ok run
    have paid := first.ok c a mid inside read
    exact paid.trans ((next a).ok mid b c' paid.inside later)
  error c e c' inside run := by
    rw [bind_apply] at run
    cases read : r c with
    | ok a mid =>
      rw [read] at run
      have paid := first.ok c a mid inside read
      obtain ⟨proper, later⟩ := (next a).error mid e c' paid.inside run
      exact ⟨proper, (paid.trans later).weaken (by omega)⟩
    | error e' mid =>
      rw [read] at run
      cases run
      exact first.error c e c' inside read

/-- Nothing is owed at the end of either part. -/
theorem seq (first : Contained gain 0 r) (next : ∀ a, Contained gain' 0 (f a)) : Contained gain 0 (r >>= f) :=
  (first.bind fun a => (next a).weaken le_rfl (Nat.zero_le _)).weaken (Nat.le_add_right _ _) le_rfl

theorem uint (short : ε) (width : Nat) : Contained width 0 (Scan.uint short width) := by
  rw [funext (uint_apply short width)]
  exact (take short width).seq fun _ => pure _

/-- Every round of a loop pays for itself; only the last one, cut short, is owed. -/
theorem times (item : Contained 1 0 r) (n : Nat) : Contained 0 1 (Scan.times r n) := by
  induction n with
  | zero => exact (Contained.pure []).weaken le_rfl (by omega)
  | succ n ih =>
    have round : Contained 1 0 (r >>= fun a => Scan.times r n >>= fun more => Pure.pure (a :: more)) :=
      item.bind fun _ => (ih.bind fun _ => (Contained.pure _).weaken le_rfl (by omega)).weaken le_rfl le_rfl
    constructor
    · intro c as c' inside run
      have paid := round.ok { c with rounds := c.rounds + 1 } as c' inside run
      refine ⟨paid.buf, paid.inside, ?_⟩
      have := paid.rounds
      simp only at this
      omega
    · intro c e c' inside run
      obtain ⟨proper, paid⟩ := round.error { c with rounds := c.rounds + 1 } e c' inside run
      refine ⟨proper, paid.buf, paid.inside, ?_⟩
      have := paid.rounds
      simp only at this
      omega

theorem atEnd (trailing : Nat → ε) : Contained 0 0 (Scan.atEnd trailing : Scan β ε Unit) where
  ok c _ c' inside run := by
    rw [atEnd_apply] at run
    split at run
    · cases run
    · cases run
      exact ⟨rfl, inside, le_rfl⟩
  error c f c' inside run := by
    rw [atEnd_apply] at run
    split at run
    · cases run
      exact ⟨nofun, rfl, inside, le_rfl⟩
    · cases run

theorem whole (contained : Contained gain 0 r) (trailing : Nat → ε) : Contained gain 0 (Scan.whole r trailing) :=
  contained.seq fun _ => (atEnd trailing).seq fun _ => pure _

/-- From the start of a buffer: no access outside it, and no more rounds than elements. -/
theorem start (contained : Contained gain 0 r) (buf : List β) :
    r.value (.start buf) ≠ .error .outside ∧ (r.after (.start buf)).rounds ≤ buf.length := by
  unfold value after
  cases run : r (.start buf) with
  | ok a c =>
    obtain ⟨kept, inside, rounds⟩ := contained.ok _ a c (Nat.zero_le _) run
    rw [Cursor.Inside, kept] at inside
    simp only [Cursor.start] at inside rounds
    exact ⟨nofun, by simp only; omega⟩
  | error e c =>
    obtain ⟨proper, kept, inside, rounds⟩ := contained.error _ e c (Nat.zero_le _) run
    rw [Cursor.Inside, kept] at inside
    simp only [Cursor.start] at inside rounds
    exact ⟨fun h => proper (Except.error.inj h), by simp only; omega⟩

end Contained

/-! Whole buffers -/

section Whole

variable {r : Scan β ε α} {put : α → List β} {P : α → Prop} {gain : Nat}

theorem whole_of_ok (contained : Contained gain 0 r) (trailing : Nat → ε) {buf : List β} {a : α} {c : Cursor β}
    (run : r (.start buf) = .ok a c) :
    whole r trailing (.start buf) =
      if c.offset ≠ buf.length then .error (.error (trailing (buf.length - c.offset))) c else .ok a c := by
  have kept : c.buf = buf := (contained.ok _ a c (Nat.zero_le _) run).buf
  rw [whole, bind_of_ok run, bind_apply, atEnd_apply, kept]
  by_cases all : c.offset = buf.length
  · rw [if_neg (not_not.mpr all), if_neg (not_not.mpr all)]
    rfl
  · rw [if_pos all, if_pos all]

/-- Whatever follows what was written is left over. -/
theorem Reads.whole_append (reads : Reads r put P) (contained : Contained gain 0 r) (trailing : Nat → ε) (a : α)
    (holds : P a) (more : List β) :
    (whole r trailing).value (.start (put a ++ more)) =
      if more = [] then .ok a else .error (.error (trailing more.length)) := by
  obtain ⟨c, run, inside, left⟩ := reads.complete (.start (put a ++ more)) a more (Nat.zero_le _) holds rfl
  have kept : c.buf = put a ++ more := (contained.ok _ a c (Nat.zero_le _) run).buf
  have size : (put a ++ more).length - c.offset = more.length := by rw [← kept, ← c.rest_length, left]
  rw [Cursor.Inside, kept] at inside
  rw [value, whole_of_ok contained trailing run, size]
  by_cases none : more = []
  · subst none
    rw [List.length_nil] at size
    rw [if_neg (by omega), if_pos rfl]
  · have := List.length_pos_iff.mpr none
    rw [if_pos (by omega), if_neg none]

theorem Reads.whole_complete (reads : Reads r put P) (contained : Contained gain 0 r) (trailing : Nat → ε) (a : α)
    (holds : P a) : (whole r trailing).value (.start (put a)) = .ok a := by
  have all := reads.whole_append contained trailing a holds []
  rwa [List.append_nil, if_pos rfl] at all

theorem Reads.whole_sound (reads : Reads r put P) (contained : Contained gain 0 r) (trailing : Nat → ε) {buf : List β}
    {a : α} (run : (whole r trailing).value (.start buf) = .ok a) : P a ∧ put a = buf := by
  obtain ⟨c, run⟩ := value_ok.mp run
  obtain ⟨a', c', first, _⟩ := bind_ok run
  rw [whole_of_ok contained trailing first] at run
  split at run
  · cases run
  next all =>
    cases run
    obtain ⟨holds, eq⟩ := reads.sound _ a c first
    have kept : c.buf = buf := (contained.ok _ a c (Nat.zero_le _) first).buf
    have done : c.rest = [] := by rw [Cursor.rest, kept, not_not.mp all, List.drop_length]
    rw [done, List.append_nil] at eq
    exact ⟨holds, eq.symm⟩

/-- A truncation that was accepted would leave the rest of the writing over. -/
theorem Reads.whole_truncated (reads : Reads r put P) (contained : Contained gain 0 r) (trailing : Nat → ε) (a : α)
    (holds : P a) (t : List β) (before : t <+: put a) (proper : t ≠ put a) :
    ∃ e, (whole r trailing).value (.start t) = .error (.error e) := by
  cases run : (whole r trailing).value (.start t) with
  | ok b =>
    obtain ⟨holds', rfl⟩ := reads.whole_sound contained trailing run
    obtain ⟨more, eq⟩ := before
    have left : more ≠ [] := by
      rintro rfl
      exact proper (by rw [← eq, List.append_nil])
    have all := reads.whole_complete contained trailing a holds
    rw [← eq, reads.whole_append contained trailing b holds' more, if_neg left] at all
    cases all
  | error e =>
    cases e with
    | error e => exact ⟨e, rfl⟩
    | outside => exact absurd run (contained.whole trailing |>.start t).1

end Whole

end Scan

end TeeProof
