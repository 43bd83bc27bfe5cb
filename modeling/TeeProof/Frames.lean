import TeeProof.BigEndian
import TeeProof.Relay

/-! Frames on a byte stream: a header of fixed width says how many bytes follow. What
`read_exact` takes off the reads of a connection, what `write_all` puts on it, and the frames
of the control connection and of the proof helper over the two. -/
namespace TeeProof.Enclave

/-! Reading -/

/-- What `read_exact` reports when the reads end too early. -/
def Ending.exact : Ending → Str
  | .eof => "failed to fill whole buffer".toList
  | .error _ message => message

/-- `n` bytes more, and the reads to come. -/
def readExact (ending : Ending) (n : Nat) (got : Bytes) (pieces : List Piece) : Except Str (Bytes × List Piece) :=
  if _more : 0 < n then
    match pieces with
    | [] => .error ending.exact
    | piece :: rest => readExact ending (n - piece.val.length) (got ++ piece.val.take n) (remainder n piece rest)
  else .ok (got, pieces)
  termination_by n
  decreasing_by
    have some : 0 < piece.val.length := List.length_pos_iff.mpr piece.property
    omega

/-- However the bytes are cut, the first `n` of them are read. -/
theorem readExact_enough (ending : Ending) (n : Nat) (got : Bytes) (pieces : List Piece)
    (enough : n ≤ (unread pieces).length) :
    ∃ rest, readExact ending n got pieces = .ok (got ++ (unread pieces).take n, rest) ∧
      unread rest = (unread pieces).drop n := by
  induction n using Nat.strong_induction_on generalizing got pieces with
  | _ n ih =>
    rw [readExact.eq_def]
    split
    next more =>
      cases pieces with
      | nil =>
        rw [unread, List.flatMap_nil, List.length_nil] at enough
        omega
      | cons piece rest =>
        have some : 0 < piece.val.length := List.length_pos_iff.mpr piece.property
        have all : unread (piece :: rest) = piece.val ++ unread rest := rfl
        have left : unread (remainder n piece rest) = piece.val.drop n ++ unread rest := unread_remainder n piece rest
        have inside : n - piece.val.length ≤ (unread (remainder n piece rest)).length := by
          rw [all, List.length_append] at enough
          rw [left, List.length_append, List.length_drop]
          omega
        obtain ⟨last, run, behind⟩ := ih (n - piece.val.length) (by omega) (got ++ piece.val.take n) _ inside
        refine ⟨last, ?_, ?_⟩
        · dsimp only
          rw [run, all, List.take_append, left, List.append_assoc]
          rcases Nat.le_total n piece.val.length with short | long
          · rw [Nat.sub_eq_zero_of_le short, List.take_zero, List.take_zero]
          · rw [List.drop_of_length_le long, List.nil_append]
        · rw [behind, left, all]
          rcases Nat.le_total n piece.val.length with short | long
          · rw [Nat.sub_eq_zero_of_le short, List.drop_zero, List.drop_append_of_le_length short]
          · rw [List.drop_of_length_le long, List.nil_append, List.drop_append, List.drop_of_length_le long,
              List.nil_append]
    next none =>
      obtain rfl : n = 0 := by omega
      exact ⟨pieces, by rw [List.take_zero, List.append_nil], rfl⟩

theorem readExact_short (ending : Ending) (n : Nat) (got : Bytes) (pieces : List Piece)
    (short : (unread pieces).length < n) : readExact ending n got pieces = .error ending.exact := by
  induction n using Nat.strong_induction_on generalizing got pieces with
  | _ n ih =>
    rw [readExact.eq_def, dif_pos (by omega)]
    cases pieces with
    | nil => rfl
    | cons piece rest =>
      have some : 0 < piece.val.length := List.length_pos_iff.mpr piece.property
      have all : unread (piece :: rest) = piece.val ++ unread rest := rfl
      rw [all, List.length_append] at short
      apply ih _ (by omega)
      rw [unread_remainder, List.length_append, List.length_drop]
      omega

/-- What was read is the front of the stream. -/
theorem readExact_ok {ending : Ending} {n : Nat} {pieces rest : List Piece} {data : Bytes}
    (read : readExact ending n [] pieces = .ok (data, rest)) : data.length = n ∧ unread pieces = data ++ unread rest := by
  rcases Nat.lt_or_ge (unread pieces).length n with short | enough
  · rw [readExact_short ending n [] pieces short] at read
    cases read
  · obtain ⟨last, run, left⟩ := readExact_enough ending n [] pieces enough
    rw [read] at run
    obtain ⟨rfl, rfl⟩ := Prod.mk.inj (Except.ok.inj run)
    rw [left, List.nil_append, List.take_append_drop, List.length_take, Nat.min_eq_left enough]
    exact ⟨rfl, rfl⟩

/-- A stream that arrives byte by byte. -/
def bytewise (b : Bytes) : List Piece := b.map fun x => ⟨[x], List.cons_ne_nil x []⟩

theorem unread_bytewise (b : Bytes) : unread (bytewise b) = b := by
  rw [unread, bytewise, List.flatMap_map]
  exact List.flatMap_singleton' b

/-! A format of frames -/

/-- A frame carries a tag and its data. -/
structure FrameFormat (τ : Type) where
  width : Nat
  header : τ → Nat → Bytes
  announced : Bytes → τ × Nat

namespace FrameFormat

variable {τ : Type} (f : FrameFormat τ)

def bytes (frame : τ × Bytes) : Bytes := f.header frame.1 frame.2.length ++ frame.2

/-- One frame of at most `max` bytes of data. -/
def read (tooLarge : Nat → Str) (max : Nat) (ending : Ending) (pieces : List Piece) :
    Except Str ((τ × Bytes) × List Piece) := do
  let (hdr, pieces) ← readExact ending f.width [] pieces
  let (t, n) := f.announced hdr
  if max < n then .error (tooLarge n)
  else do
    let (buf, pieces) ← readExact ending n [] pieces
    .ok ((t, buf), pieces)

/-- One frame after the other. -/
def readMany (tooLarge : Nat → Str) (max : Nat) (ending : Ending) : Nat → List Piece →
    Except Str (List (τ × Bytes) × List Piece)
  | 0, pieces => .ok ([], pieces)
  | count + 1, pieces => do
    let (frame, pieces) ← f.read tooLarge max ending pieces
    let (frames, pieces) ← readMany tooLarge max ending count pieces
    .ok (frame :: frames, pieces)

/-- A header is read back while the length stays below `limit`. -/
structure Lawful (limit : Nat) : Prop where
  positive : 0 < f.width
  length_header : ∀ t n, (f.header t n).length = f.width
  announced_header : ∀ t n, n < limit → f.announced (f.header t n) = (t, n)
  header_announced : ∀ hdr, hdr.length = f.width → f.header (f.announced hdr).1 (f.announced hdr).2 = hdr

variable {f} {limit : Nat} (lawful : f.Lawful limit) (tooLarge : Nat → Str) {max : Nat} (ending : Ending)

include lawful

/-- A frame is read back from the front of a stream. -/
theorem read_bytes {frame : τ × Bytes} (fits : frame.2.length < limit) (small : frame.2.length ≤ max) {pieces : List Piece}
    {more : Bytes} (arrives : unread pieces = f.bytes frame ++ more) :
    ∃ rest, f.read tooLarge max ending pieces = .ok (frame, rest) ∧ unread rest = more := by
  have size := lawful.length_header frame.1 frame.2.length
  rw [bytes, List.append_assoc] at arrives
  have enough : f.width ≤ (unread pieces).length := by
    rw [arrives, List.length_append]
    omega
  obtain ⟨behind, head, left⟩ := readExact_enough ending f.width [] pieces enough
  rw [arrives, ← size, List.take_left, List.nil_append, size] at head
  rw [arrives, ← size, List.drop_left] at left
  have data : frame.2.length ≤ (unread behind).length := by
    rw [left, List.length_append]
    omega
  obtain ⟨rest, body, last⟩ := readExact_enough ending frame.2.length [] behind data
  rw [left, List.take_left, List.nil_append] at body
  rw [left, List.drop_left] at last
  refine ⟨rest, ?_, last⟩
  rw [read, head]
  simp only [bind, Except.bind, lawful.announced_header _ _ fits, if_neg (Nat.not_lt.mpr small), body]

/-- What is read is a frame of the format, within the limit. -/
theorem read_ok {frame : τ × Bytes} {pieces rest : List Piece} (read : f.read tooLarge max ending pieces = .ok (frame, rest)) :
    unread pieces = f.bytes frame ++ unread rest ∧ frame.2.length ≤ max := by
  rw [FrameFormat.read] at read
  cases head : readExact ending f.width [] pieces with
  | error e =>
    rw [head] at read
    cases read
  | ok parts =>
    obtain ⟨hdr, behind⟩ := parts
    obtain ⟨width, front⟩ := readExact_ok head
    rw [head] at read
    simp only [bind, Except.bind] at read
    split at read
    · cases read
    next small =>
      cases body : readExact ending (f.announced hdr).2 [] behind with
      | error e =>
        rw [body] at read
        cases read
      | ok parts =>
        obtain ⟨buf, last⟩ := parts
        obtain ⟨length, back⟩ := readExact_ok body
        rw [body] at read
        obtain ⟨rfl, rfl⟩ := Prod.mk.inj (Except.ok.inj read)
        refine ⟨?_, by rw [length]; exact not_lt.mp small⟩
        rw [front, back, bytes, length, lawful.header_announced hdr width, List.append_assoc]

/-- Frames written one behind the other are read back in their order. -/
theorem readMany_bytes (frames : List (τ × Bytes)) (fits : ∀ x ∈ frames, x.2.length < limit ∧ x.2.length ≤ max)
    {pieces : List Piece} {more : Bytes} (arrives : unread pieces = frames.flatMap f.bytes ++ more) :
    ∃ rest, f.readMany tooLarge max ending frames.length pieces = .ok (frames, rest) ∧ unread rest = more := by
  induction frames generalizing pieces with
  | nil => exact ⟨pieces, rfl, arrives⟩
  | cons frame frames ih =>
    obtain ⟨short, small⟩ := fits frame List.mem_cons_self
    rw [List.flatMap_cons, List.append_assoc] at arrives
    obtain ⟨behind, head, left⟩ := read_bytes lawful tooLarge ending short small arrives
    obtain ⟨rest, tail, last⟩ := ih (fun x member => fits x (List.mem_cons_of_mem frame member)) left
    refine ⟨rest, ?_, last⟩
    rw [List.length_cons, readMany, head]
    simp only [bind, Except.bind, tail]

/-- A frame that is cut off is not read. -/
theorem read_cut {frame : τ × Bytes} (fits : frame.2.length < limit) (small : frame.2.length ≤ max) {pieces : List Piece}
    (cut : unread pieces <+: f.bytes frame) (short : (unread pieces).length < (f.bytes frame).length) :
    f.read tooLarge max ending pieces = .error ending.exact := by
  have size := lawful.length_header frame.1 frame.2.length
  rw [bytes, List.length_append, size] at short
  rw [read]
  rcases Nat.lt_or_ge (unread pieces).length f.width with early | enough
  · rw [readExact_short ending f.width [] pieces early]
    rfl
  · obtain ⟨behind, head, left⟩ := readExact_enough ending f.width [] pieces enough
    obtain ⟨missing, whole⟩ := cut
    have front : (unread pieces).take f.width = f.header frame.1 frame.2.length := by
      have more : (unread pieces ++ missing).take f.width = (unread pieces).take f.width := List.take_append_of_le_length enough
      rw [← more, whole, bytes, ← size, List.take_left]
    rw [front, List.nil_append] at head
    have rest : (unread behind).length < frame.2.length := by
      rw [left, List.length_drop]
      omega
    rw [head]
    simp only [bind, Except.bind, lawful.announced_header _ _ fits, if_neg (Nat.not_lt.mpr small),
      readExact_short ending frame.2.length [] behind rest]

/-- From the front of a stream of frames some of them are read; what comes then is the next one
cut off, or there is none left. -/
theorem readMany_prefix (frames : List (τ × Bytes)) (fits : ∀ x ∈ frames, x.2.length < limit ∧ x.2.length ≤ max)
    {pieces : List Piece} (cut : unread pieces <+: frames.flatMap f.bytes) :
    ∃ got rest, got <+: frames ∧ f.readMany tooLarge max ending got.length pieces = .ok (got, rest) ∧
      f.read tooLarge max ending rest = .error ending.exact := by
  induction frames generalizing pieces with
  | nil =>
    have none : unread pieces = [] := List.prefix_nil.mp cut
    refine ⟨[], pieces, List.prefix_refl [], rfl, ?_⟩
    rw [read, readExact_short ending f.width [] pieces (by rw [none]; exact lawful.positive)]
    rfl
  | cons frame frames ih =>
    obtain ⟨short, small⟩ := fits frame List.mem_cons_self
    rw [List.flatMap_cons] at cut
    rcases Nat.lt_or_ge (unread pieces).length (f.bytes frame).length with early | whole
    · refine ⟨[], pieces, List.nil_prefix, rfl, ?_⟩
      exact read_cut lawful tooLarge ending short small (List.prefix_of_prefix_length_le cut (List.prefix_append _ _) early.le) early
    · obtain ⟨more, eq⟩ := List.prefix_of_prefix_length_le (List.prefix_append _ _) cut whole
      rw [← eq, List.prefix_append_right_inj] at cut
      obtain ⟨behind, head, left⟩ := read_bytes lawful tooLarge ending short small eq.symm
      obtain ⟨got, rest, inside, tail, last⟩ := ih (fun x member => fits x (List.mem_cons_of_mem frame member)) (left ▸ cut)
      refine ⟨frame :: got, rest, (List.prefix_cons_inj frame).mpr inside, ?_, last⟩
      rw [List.length_cons, readMany, head]
      simp only [bind, Except.bind, tail]

end FrameFormat

/-! Writing -/

/-- How a connection takes a write after all that was sent before it: whole, or so many bytes and
then an error. -/
structure Outlet where
  refuses : Bytes → Bytes → Option (Nat × Str)

namespace Outlet

variable (o : Outlet)

/-- `write_all`: all that was sent, and the error. -/
def writeAll (sent data : Bytes) : Bytes × Option Str :=
  if data = [] then (sent, none)
  else
    match o.refuses sent data with
    | none => (sent ++ data, none)
    | some (k, message) => (sent ++ data.take k, some message)

/-- The header, then the data. -/
def writeFrame (f : FrameFormat τ) (sent : Bytes) (frame : τ × Bytes) : Bytes × Option Str :=
  match o.writeAll sent (f.header frame.1 frame.2.length) with
  | (sent, some message) => (sent, some message)
  | (sent, none) => o.writeAll sent frame.2

/-- The connection takes no byte more. -/
def Final (sent : Bytes) : Prop := ∀ data, data ≠ [] → ∃ message, o.refuses sent data = some (0, message)

/-- After a write that failed every later one fails. -/
def Sticky : Prop := ∀ sent data k message, o.refuses sent data = some (k, message) → o.Final (sent ++ data.take k)

/-- Takes everything up to a number of bytes. -/
def upTo (capacity : Nat) : Outlet where
  refuses sent data := if sent.length + data.length ≤ capacity then none else some (capacity - sent.length, "Broken pipe".toList)

theorem upTo_sticky (capacity : Nat) : (upTo capacity).Sticky := by
  intro sent data k message refused more nonempty
  have some := List.length_pos_iff.mpr nonempty
  simp only [upTo] at refused ⊢
  split at refused
  · cases refused
  next full =>
    obtain ⟨rfl, -⟩ := Prod.mk.inj (Option.some.inj refused)
    rw [List.length_append, List.length_take, if_neg (by omega)]
    exact ⟨_, congrArg Option.some (Prod.ext (by dsimp only; omega) rfl)⟩

/-- Takes everything. -/
def accepting : Outlet where
  refuses _ _ := none

theorem accepting_sticky : accepting.Sticky := by
  intro sent data k message refused
  cases refused

theorem writeAll_accepting (sent data : Bytes) : accepting.writeAll sent data = (sent ++ data, none) := by
  rw [writeAll]
  split
  next none => rw [none, List.append_nil]
  · rfl

theorem writeFrame_accepting (f : FrameFormat τ) (sent : Bytes) (frame : τ × Bytes) :
    accepting.writeFrame f sent frame = (sent ++ f.bytes frame, none) := by
  rw [writeFrame, writeAll_accepting]
  dsimp only
  rw [writeAll_accepting, List.append_assoc]
  rfl

section

variable {o} (sticky : o.Sticky)

include sticky

/-- All of the data went out, or the connection broke within it. -/
theorem writeAll_cases (sent data : Bytes) :
    o.writeAll sent data = (sent ++ data, none) ∨
      ∃ front message, front <+: data ∧ o.writeAll sent data = (sent ++ front, some message) ∧ o.Final (sent ++ front) := by
  rw [writeAll]
  split
  next none =>
    rw [none, List.append_nil]
    exact .inl rfl
  · cases refused : o.refuses sent data with
    | none => exact .inl rfl
    | some refusal => exact .inr ⟨_, refusal.2, List.take_prefix refusal.1 data, rfl, sticky sent data _ _ refused⟩

theorem writeFrame_cases (f : FrameFormat τ) (sent : Bytes) (frame : τ × Bytes) :
    o.writeFrame f sent frame = (sent ++ f.bytes frame, none) ∨
      ∃ front message, front <+: f.bytes frame ∧ o.writeFrame f sent frame = (sent ++ front, some message) ∧
        o.Final (sent ++ front) := by
  rw [writeFrame, FrameFormat.bytes]
  rcases writeAll_cases sticky sent (f.header frame.1 frame.2.length) with whole | ⟨front, message, part, broken, final⟩
  · rw [whole]
    dsimp only
    rcases writeAll_cases sticky (sent ++ f.header frame.1 frame.2.length) frame.2 with all | ⟨front, message, part, broken, final⟩
    · rw [all, List.append_assoc]
      exact .inl rfl
    · rw [broken]
      rw [List.append_assoc] at final ⊢
      exact .inr ⟨_, message, (List.prefix_append_right_inj _).mpr part, rfl, final⟩
  · rw [broken]
    exact .inr ⟨front, message, part.trans (List.prefix_append _ _), rfl, final⟩

end

/-- Nothing is added to a broken connection. -/
theorem writeFrame_final {o : Outlet} {f : FrameFormat τ} (headed : ∀ t n, f.header t n ≠ []) {sent : Bytes} (final : o.Final sent)
    (frame : τ × Bytes) : ∃ message, o.writeFrame f sent frame = (sent, some message) := by
  have header := headed frame.1 frame.2.length
  obtain ⟨message, refused⟩ := final _ header
  refine ⟨message, ?_⟩
  rw [writeFrame, writeAll, if_neg header, refused]
  simp only [List.take_zero, List.append_nil]

end Outlet

/-- Frames that were written: they all went out, or the connection broke in the middle. -/
inductive Wrote (o : Outlet) (f : FrameFormat τ) (frames : List (τ × Bytes)) (sent : Bytes) : Prop
  | whole : sent = frames.flatMap f.bytes → Wrote o f frames sent
  | broken : sent <+: frames.flatMap f.bytes → o.Final sent → Wrote o f frames sent

namespace Wrote

variable {o : Outlet} {f : FrameFormat τ} {frames : List (τ × Bytes)} {sent : Bytes}

theorem start : Wrote o f [] [] := .whole rfl

theorem isPrefix (wrote : Wrote o f frames sent) : sent <+: frames.flatMap f.bytes := by
  cases wrote with
  | whole eq => exact eq ▸ List.prefix_refl _
  | broken part _ => exact part

/-- One frame more. Where it is not refused, everything has gone out. -/
theorem write (sticky : o.Sticky) (wrote : Wrote o f frames sent) (headed : ∀ t n, f.header t n ≠ []) (frame : τ × Bytes) :
    Wrote o f (frames ++ [frame]) (o.writeFrame f sent frame).1 ∧
      ((o.writeFrame f sent frame).2 = none → (o.writeFrame f sent frame).1 = (frames ++ [frame]).flatMap f.bytes) ∧
      (∀ message, (o.writeFrame f sent frame).2 = some message → o.Final (o.writeFrame f sent frame).1) := by
  have more : (frames ++ [frame]).flatMap f.bytes = frames.flatMap f.bytes ++ f.bytes frame := by simp
  cases wrote with
  | whole eq =>
    rcases Outlet.writeFrame_cases sticky f sent frame with all | ⟨front, message, part, run, final⟩
    · rw [all, more, ← eq]
      exact ⟨.whole (by rw [more, ← eq]), fun _ => rfl, by simp⟩
    · rw [run, more, ← eq]
      refine ⟨.broken ?_ final, by simp, fun _ _ => final⟩
      rw [more, ← eq]
      exact (List.prefix_append_right_inj sent).mpr part
  | broken part final =>
    obtain ⟨message, run⟩ := Outlet.writeFrame_final headed final frame
    rw [run]
    refine ⟨.broken ?_ final, by simp, fun _ _ => final⟩
    rw [more]
    exact part.trans (List.prefix_append _ _)

end Wrote

/-! The two formats -/

/-- A length of four octets is not cut. -/
theorem beBytes_four {b : Bytes} (four : b.length = 4) : beBytes 4 (beNat b % 2 ^ 32) = b := by
  have small := beNat_lt b
  rw [four] at small
  have same : beNat b % 2 ^ 32 = beNat b := Nat.mod_eq_of_lt small
  have back := beBytes_beNat b
  rwa [four, ← same] at back

/-- Frames of the control connection: a type and four octets of length. -/
def control : FrameFormat UInt8 where
  width := 5
  header t n := t :: beBytes 4 (n % 2 ^ 32)
  announced hdr := (hdr.headD 0, beNat (hdr.drop 1))

theorem control_lawful : control.Lawful (2 ^ 32) where
  positive := by decide
  length_header t n := by rw [control, List.length_cons, beBytes_length]
  announced_header t n small := by
    simp only [control, List.headD_cons, List.drop_one, List.tail_cons, Nat.mod_eq_of_lt small, beNat_beBytes 4 n small]
  header_announced hdr width := by
    obtain ⟨t, rest, rfl⟩ := List.exists_cons_of_ne_nil (List.ne_nil_of_length_pos (width ▸ by decide : 0 < hdr.length))
    simp only [control, List.headD_cons, List.drop_one, List.tail_cons, beBytes_four (Nat.succ.inj width)]

theorem control_headed (t : UInt8) (n : Nat) : control.header t n ≠ [] := List.cons_ne_nil _ _

/-- Frames of the proof helper: four octets of length. -/
def helperFormat : FrameFormat Unit where
  width := 4
  header _ n := beBytes 4 (n % 2 ^ 32)
  announced hdr := ((), beNat hdr)

theorem helperFormat_lawful : helperFormat.Lawful (2 ^ 32) where
  positive := by decide
  length_header _ n := beBytes_length 4 (n % 2 ^ 32)
  announced_header _ n small := by
    simp only [helperFormat, Nat.mod_eq_of_lt small, beNat_beBytes 4 n small]
  header_announced _ width := beBytes_four width

end TeeProof.Enclave
