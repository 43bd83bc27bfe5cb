import TeeProof.EventStream

/-! The messages of an AWS EventStream: the decoder accepts exactly their concatenations and
emits their payloads, and none of its indices leaves its slice. -/
namespace TeeProof.Enclave

variable (rust : Rust) {σ : Type}

namespace AwsEventStreamParser

/-! One turn of the loop of `push`, every index checked. -/

/-- `u32::from_be_bytes` of the four octets at an index. -/
def be32At (bytes : Bytes) (i : Nat) : Option Nat := do
  let a ← bytes[i]?
  let b ← bytes[i + 1]?
  let c ← bytes[i + 2]?
  let d ← bytes[i + 3]?
  some (be32 [a, b, c, d])

/-- `&bytes[start..stop]`. -/
def slice (bytes : Bytes) (start stop : Nat) : Option Bytes :=
  if start ≤ stop ∧ stop ≤ bytes.length then some ((bytes.take stop).drop start) else none

/-- `bytes.drain(..n)`: what is drained and what stays. -/
def drainTo (bytes : Bytes) (n : Nat) : Option (Bytes × Bytes) :=
  if n ≤ bytes.length then some (bytes.take n, bytes.drop n) else none

inductive Turn where
  | waits
  | refuses
  | skips (after : Bytes)
  | emits (parsed : Value) (after : Bytes)

/-- A turn, or nothing where an index is out of range or a difference below zero. -/
def turn (pending : Bytes) : Option Turn :=
  if pending.length < 12 then some .waits
  else do
    let totalLen ← be32At pending 0
    let headersLen ← be32At pending 4
    if admissible totalLen headersLen then
      if pending.length < totalLen then some .waits
      else do
        let (message, after) ← drainTo pending totalLen
        let payloadStart := 12 + headersLen
        let payloadEnd ← if 4 ≤ totalLen then some (totalLen - 4) else none
        if payloadEnd < payloadStart then some (.skips after)
        else do
          let payload ← slice message payloadStart payloadEnd
          let trimmed := Str.trim (Utf8.decode payload)
          if trimmed.isEmpty then some (.skips after)
          else
            match rust.fromStr trimmed with
            | some parsed => some (.emits parsed after)
            | none => some .refuses
    else some .refuses

variable (onEvent : σ → Value → σ)

/-- What the loop makes of a turn. -/
def afterTurn (pending : Bytes) (s : σ) : Turn → AwsEventStreamParser × σ
  | .waits => ({ pending }, s)
  | .refuses => (refused, s)
  | .skips after => drain rust onEvent after s
  | .emits parsed after => drain rust onEvent after (onEvent s parsed)

theorem be32At_eq (bytes : Bytes) (i : Nat) (enough : i + 4 ≤ bytes.length) :
    be32At bytes i = some (be32 (bytes.drop i)) := by
  have octet (j : Nat) (lt : j < 4) : bytes[i + j]? = (bytes.drop i)[j]? := by rw [List.getElem?_drop]
  have first := octet 0 (by omega)
  rw [Nat.add_zero] at first
  rw [be32At, first, octet 1 (by omega), octet 2 (by omega), octet 3 (by omega)]
  obtain ⟨a, b, c, d, rest, eq⟩ : ∃ a b c d rest, bytes.drop i = a :: b :: c :: d :: rest := by
    have size : 4 ≤ (bytes.drop i).length := by
      rw [List.length_drop]
      omega
    match h : bytes.drop i, size with
    | a :: b :: c :: d :: rest, _ => exact ⟨a, b, c, d, rest, rfl⟩
  rw [eq]
  rfl

/-- No turn leaves its slices, and the loop goes on as the turn says. -/
theorem turn_drain (pending : Bytes) (s : σ) :
    ∃ t, turn rust pending = some t ∧ drain rust onEvent pending s = afterTurn rust onEvent pending s t := by
  unfold turn
  by_cases short : pending.length < 12
  · rw [if_pos short]
    exact ⟨_, rfl, drain_waits rust onEvent pending s (.inl short)⟩
  · rw [if_neg short, be32At_eq pending 0 (by omega), be32At_eq pending 4 (by omega), List.drop_zero]
    simp only [Option.bind_eq_bind, Option.bind_some]
    by_cases sized : admissible (be32 pending) (be32 (pending.drop 4)) = true
    · rw [if_pos sized]
      by_cases partly : pending.length < be32 pending
      · rw [if_pos partly]
        exact ⟨_, rfl, drain_waits rust onEvent pending s (.inr ⟨sized, partly⟩)⟩
      · have limits := sized
        simp only [admissible, Bool.and_eq_true, decide_eq_true_eq] at limits
        have message : slice (pending.take (be32 pending)) (12 + be32 (pending.drop 4)) (be32 pending - 4) =
            some (((pending.take (be32 pending)).take (be32 pending - 4)).drop (12 + be32 (pending.drop 4))) := by
          refine if_pos ⟨by omega, ?_⟩
          rw [List.length_take]
          omega
        have drained : drainTo pending (be32 pending) = some (pending.take (be32 pending), pending.drop (be32 pending)) :=
          if_pos (Nat.not_lt.mp partly)
        rw [if_neg partly, drained, drain_takes rust onEvent pending s short sized partly]
        have forward : ¬be32 pending - 4 < 12 + be32 (pending.drop 4) := by omega
        have text : Str.trim (Utf8.decode (((pending.take (be32 pending)).take (be32 pending - 4)).drop
            (12 + be32 (pending.drop 4)))) =
            payloadText (be32 pending) (be32 (pending.drop 4)) (pending.take (be32 pending)) := rfl
        simp only [Option.bind_some, if_pos (show 4 ≤ be32 pending by omega), message, text, if_neg forward]
        generalize payloadText (be32 pending) (be32 (pending.drop 4)) (pending.take (be32 pending)) = trimmed
        by_cases blank : trimmed.isEmpty = true
        · rw [if_pos blank, if_pos blank]
          exact ⟨_, rfl, rfl⟩
        · rw [if_neg blank, if_neg blank]
          cases rust.fromStr trimmed with
          | some parsed => exact ⟨_, rfl, rfl⟩
          | none => exact ⟨_, rfl, rfl⟩
    · rw [if_neg sized]
      exact ⟨_, rfl, drain_refuses rust onEvent pending s short sized⟩

/-! What is accepted. -/

/-- A message: its lengths are admissible and it is as long as it says. -/
structure IsMessage (message : Bytes) : Prop where
  sized : admissible (be32 message) (be32 (message.drop 4)) = true
  length : message.length = be32 message

/-- The trimmed text of a message's payload. -/
def payloadOf (message : Bytes) : Str := payloadText (be32 message) (be32 (message.drop 4)) message

/-- The payload is blank or JSON. -/
def Readable (message : Bytes) : Prop := payloadOf message = [] ∨ (rust.fromStr (payloadOf message)).isSome = true

/-- The event of a message, if its payload is not blank. -/
def eventOf (message : Bytes) : Option Value :=
  if (payloadOf message).isEmpty then none else rust.fromStr (payloadOf message)

section Message

variable {message : Bytes} (valid : IsMessage message) (rest : Bytes)

include valid

theorem IsMessage.long : 16 ≤ message.length := by
  rw [valid.length]
  exact admissible_size valid.sized

theorem IsMessage.total : be32 (message ++ rest) = be32 message :=
  be32_append message rest (by have := valid.long; omega)

theorem IsMessage.headers : be32 ((message ++ rest).drop 4) = be32 (message.drop 4) := by
  have long := valid.long
  rw [List.drop_append_of_le_length (by omega)]
  exact be32_append _ rest (by simp; omega)

/-- A message in front is judged by its payload. -/
theorem drain_front (s : σ) :
    drain rust onEvent (message ++ rest) s =
      if (payloadOf message).isEmpty then drain rust onEvent rest s
      else
        match rust.fromStr (payloadOf message) with
        | some parsed => drain rust onEvent rest (onEvent s parsed)
        | none => (refused, s) := by
  have long := valid.long
  have size := valid.length
  have limits := valid.sized
  simp only [admissible, Bool.and_eq_true, decide_eq_true_eq] at limits
  rw [drain_takes rust onEvent (message ++ rest) s (by simp; omega) (by rw [valid.total, valid.headers]; exact valid.sized)
    (by rw [valid.total]; simp; omega)]
  simp only [valid.total, valid.headers, List.take_left' size, List.drop_left' size]
  exact if_neg (by omega)

theorem drain_message (s : σ) (readable : Readable rust message) :
    drain rust onEvent (message ++ rest) s =
      drain rust onEvent rest ((eventOf rust message).toList.foldl onEvent s) := by
  rw [drain_front rust onEvent valid, eventOf]
  by_cases blank : (payloadOf message).isEmpty = true
  · rw [if_pos blank, if_pos blank]
    rfl
  · rw [if_neg blank, if_neg blank]
    have parses := readable.resolve_left fun empty => blank (by rw [empty]; rfl)
    obtain ⟨parsed, eq⟩ := Option.isSome_iff_exists.mp parses
    rw [eq]
    rfl

theorem drain_unreadable (s : σ) (unreadable : ¬Readable rust message) :
    drain rust onEvent (message ++ rest) s = (refused, s) := by
  rw [drain_front rust onEvent valid, if_neg]
  · have none : rust.fromStr (payloadOf message) = none := by
      rw [← Option.not_isSome_iff_eq_none]
      exact fun parses => unreadable (.inr parses)
    rw [none]
  · intro blank
    exact unreadable (.inl (List.isEmpty_iff.mp blank))

end Message

theorem drain_nil (s : σ) : drain rust onEvent [] s = ({}, s) := drain_waits rust onEvent [] s (.inl (by simp))

theorem drain_messages (messages : List Bytes) (valid : ∀ m ∈ messages, IsMessage m)
    (readable : ∀ m ∈ messages, Readable rust m) (s : σ) :
    drain rust onEvent messages.flatten s = ({}, (messages.filterMap (eventOf rust)).foldl onEvent s) := by
  induction messages generalizing s with
  | nil => exact drain_nil rust onEvent s
  | cons message rest ih =>
    rw [List.forall_mem_cons] at valid readable
    rw [List.flatten_cons, drain_message rust onEvent valid.1 _ s readable.1, ih valid.2 readable.2]
    cases event : eventOf rust message with
    | none => rw [List.filterMap_cons_none event]; rfl
    | some value => rw [List.filterMap_cons_some event]; rfl

/-- Octets that are all there begin with a message. -/
theorem isMessage_take {pending : Bytes}
    (sized : admissible (be32 pending) (be32 (pending.drop 4)) = true) (whole : ¬pending.length < be32 pending) :
    IsMessage (pending.take (be32 pending)) := by
  have limit := admissible_size sized
  have size : (pending.take (be32 pending)).length = be32 pending := by
    rw [List.length_take]
    omega
  have total : be32 pending = be32 (pending.take (be32 pending)) := by
    conv_lhs => rw [← List.take_append_drop (be32 pending) pending]
    exact be32_append _ _ (by omega)
  have headers : be32 (pending.drop 4) = be32 ((pending.take (be32 pending)).drop 4) := by
    conv_lhs => rw [← List.take_append_drop (be32 pending) pending, List.drop_append_of_le_length (by omega)]
    exact be32_append _ _ (by simp; omega)
  exact ⟨by rw [← total, ← headers]; exact sized, by rw [← total]; exact size⟩

/-- A stream that leaves nothing over and does not fail is made of messages. -/
theorem messages_of_drain (pending : Bytes) (s : σ) (ended : (drain rust onEvent pending s).1.finish.failed = false) :
    ∃ messages : List Bytes, pending = messages.flatten ∧ (∀ m ∈ messages, IsMessage m) ∧
      ∀ m ∈ messages, Readable rust m := by
  induction h : pending.length using Nat.strong_induction_on generalizing pending s with
  | _ n ih =>
    by_cases empty : pending = []
    · exact ⟨[], empty, by simp, by simp⟩
    · have left : (finish { pending }).failed = true := by simp [finish, empty, refused]
      by_cases short : pending.length < 12
      · rw [drain_waits rust onEvent pending s (.inl short), left] at ended
        cases ended
      · by_cases sized : admissible (be32 pending) (be32 (pending.drop 4)) = true
        · by_cases partly : pending.length < be32 pending
          · rw [drain_waits rust onEvent pending s (.inr ⟨sized, partly⟩), left] at ended
            cases ended
          · have valid := isMessage_take sized partly
            have limit := admissible_size sized
            rw [← List.take_append_drop (be32 pending) pending] at ended
            by_cases readable : Readable rust (pending.take (be32 pending))
            · rw [drain_message rust onEvent valid _ s readable] at ended
              obtain ⟨messages, split, all, texts⟩ := ih (pending.drop (be32 pending)).length
                (by rw [List.length_drop]; omega) _ _ ended rfl
              refine ⟨_ :: messages, ?_, List.forall_mem_cons.mpr ⟨valid, all⟩,
                List.forall_mem_cons.mpr ⟨readable, texts⟩⟩
              rw [List.flatten_cons, ← split, List.take_append_drop]
            · rw [drain_unreadable rust onEvent valid _ s readable] at ended
              cases ended
        · rw [drain_refuses rust onEvent pending s short sized] at ended
          cases ended

/-- The events of a stream that arrives in chunks, and whether it failed. -/
def decodeEvents (chunks : List Bytes) : List Value × Bool :=
  let r := chunks.foldl (fun state chunk => state.1.push rust (fun events value => events ++ [value]) state.2 chunk)
    (({} : AwsEventStreamParser), [])
  (r.2, r.1.finish.failed)

theorem decodeEvents_eq (chunks : List Bytes) :
    decodeEvents rust chunks =
      ((drain rust (fun events value => events ++ [value]) chunks.flatten []).2,
        (drain rust (fun events value => events ++ [value]) chunks.flatten []).1.finish.failed) := by
  rw [decodeEvents, eventStream_chunks]
  simp only [push, Bool.false_eq_true, if_false, List.nil_append]

theorem foldl_concat (events values : List Value) :
    values.foldl (fun events value => events ++ [value]) events = events ++ values := by
  induction values generalizing events with
  | nil => simp
  | cons value rest ih => simp [ih]

end AwsEventStreamParser

open AwsEventStreamParser

/-- The decoder is exact and does not see the cut into chunks; no index of a turn is out of range. -/
theorem awsEventStream_exact (chunks : List Bytes) :
    ((decodeEvents rust chunks).2 = false ↔ ∃ messages : List Bytes, chunks.flatten = messages.flatten ∧
      (∀ m ∈ messages, IsMessage m) ∧ ∀ m ∈ messages, Readable rust m) ∧
    (∀ messages : List Bytes, chunks.flatten = messages.flatten → (∀ m ∈ messages, IsMessage m) →
      (∀ m ∈ messages, Readable rust m) → (decodeEvents rust chunks).1 = messages.filterMap (eventOf rust)) ∧
    (∀ other : List Bytes, other.flatten = chunks.flatten → decodeEvents rust other = decodeEvents rust chunks) ∧
    ∀ pending (events : List Value), ∃ t, turn rust pending = some t ∧
      drain rust (fun events value => events ++ [value]) pending events =
        afterTurn rust (fun events value => events ++ [value]) pending events t := by
  have decoded (messages : List Bytes) (split : chunks.flatten = messages.flatten) (valid : ∀ m ∈ messages, IsMessage m)
      (readable : ∀ m ∈ messages, Readable rust m) :
      decodeEvents rust chunks = (messages.filterMap (eventOf rust), false) := by
    rw [decodeEvents_eq, split, drain_messages rust _ messages valid readable, foldl_concat]
    rfl
  refine ⟨⟨fun ended => ?_, ?_⟩, ?_, ?_, ?_⟩
  · rw [decodeEvents_eq] at ended
    exact messages_of_drain rust _ _ _ ended
  · rintro ⟨messages, split, valid, readable⟩
    rw [decoded messages split valid readable]
  · intro messages split valid readable
    rw [decoded messages split valid readable]
  · intro other same
    rw [decodeEvents_eq, decodeEvents_eq, same]
  · intro pending events
    exact turn_drain rust _ pending events

end TeeProof.Enclave
