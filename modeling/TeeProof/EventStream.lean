import TeeProof.Serde

/-! The incremental decoder of AWS EventStream messages. -/
namespace TeeProof.Enclave

variable (rust : Rust) {σ : Type}

def maxAwsEventstreamMessage : Nat := 1024 * 1024

/-- `u32::from_be_bytes`. -/
def be32 (bytes : Bytes) : Nat := (bytes.take 4).foldl (fun n b => n * 256 + b.toNat) 0

structure AwsEventStreamParser where
  pending : Bytes := []
  failed : Bool := false

namespace AwsEventStreamParser

def refused : AwsEventStreamParser := { pending := [], failed := true }

/-- The prelude is one the decoder goes on with. -/
def admissible (totalLen headersLen : Nat) : Bool :=
  16 ≤ totalLen && totalLen ≤ maxAwsEventstreamMessage && headersLen ≤ totalLen - 16

theorem admissible_size (h : admissible totalLen headersLen = true) : 16 ≤ totalLen := by
  simp only [admissible, Bool.and_eq_true, decide_eq_true_eq] at h
  exact h.1.1

/-- The text of a message's payload, the headers and the checksum cut off. -/
def payloadText (totalLen headersLen : Nat) (message : Bytes) : Str :=
  Str.trim (Utf8.decode ((message.take (totalLen - 4)).drop (12 + headersLen)))

/-- The loop of `push`. -/
def drain (onEvent : σ → Value → σ) (pending : Bytes) (s : σ) : AwsEventStreamParser × σ :=
  if pending.length < 12 then ({ pending }, s)
  else
    let totalLen := be32 pending
    let headersLen := be32 (pending.drop 4)
    if _sized : admissible totalLen headersLen then
      if _waits : pending.length < totalLen then ({ pending }, s)
      else
        let message := pending.take totalLen
        let after := pending.drop totalLen
        if totalLen - 4 < 12 + headersLen then drain onEvent after s
        else
          let trimmed := payloadText totalLen headersLen message
          if trimmed.isEmpty then drain onEvent after s
          else
            match rust.fromStr trimmed with
            | some parsed => drain onEvent after (onEvent s parsed)
            | none => (refused, s)
    else (refused, s)
  termination_by pending.length
  decreasing_by
    all_goals
      have := admissible_size _sized
      simp only [List.length_drop]
      omega

def push (onEvent : σ → Value → σ) (self : AwsEventStreamParser) (s : σ) (chunk : Bytes) :
    AwsEventStreamParser × σ :=
  if self.failed then (self, s) else drain rust onEvent (self.pending ++ chunk) s

def finish (self : AwsEventStreamParser) : AwsEventStreamParser :=
  if !self.pending.isEmpty then refused else self

end AwsEventStreamParser

/-! The cut into chunks does not show: a message is judged by its first twelve octets
and taken only when it is whole. -/

section Chunks

variable (onEvent : σ → Value → σ)

open AwsEventStreamParser

theorem be32_append (a b : Bytes) (enough : 4 ≤ a.length) : be32 (a ++ b) = be32 a := by
  rw [be32, be32, List.take_append_of_le_length enough]

theorem drain_waits (pending : Bytes) (s : σ)
    (waits : pending.length < 12 ∨
      admissible (be32 pending) (be32 (pending.drop 4)) = true ∧ pending.length < be32 pending) :
    drain rust onEvent pending s = ({ pending }, s) := by
  rw [drain]
  rcases waits with short | ⟨sized, partly⟩
  · rw [if_pos short]
  · rw [dif_pos sized, dif_pos partly, ite_self]

theorem drain_refuses (pending : Bytes) (s : σ) (long : ¬pending.length < 12)
    (sized : ¬admissible (be32 pending) (be32 (pending.drop 4)) = true) :
    drain rust onEvent pending s = (refused, s) := by
  rw [drain, if_neg long, dif_neg sized]

theorem drain_takes (pending : Bytes) (s : σ) (long : ¬pending.length < 12)
    (sized : admissible (be32 pending) (be32 (pending.drop 4)) = true)
    (whole : ¬pending.length < be32 pending) :
    drain rust onEvent pending s =
      let totalLen := be32 pending
      let headersLen := be32 (pending.drop 4)
      let after := pending.drop totalLen
      let trimmed := payloadText totalLen headersLen (pending.take totalLen)
      if totalLen - 4 < 12 + headersLen then drain rust onEvent after s
      else if trimmed.isEmpty then drain rust onEvent after s
      else
        match rust.fromStr trimmed with
        | some parsed => drain rust onEvent after (onEvent s parsed)
        | none => (refused, s) := by
  rw [drain, if_neg long, dif_pos sized, dif_neg whole]

theorem drain_append (pending more : Bytes) (s : σ) :
    drain rust onEvent (pending ++ more) s =
      (drain rust onEvent pending s).1.push rust onEvent (drain rust onEvent pending s).2 more := by
  induction h : pending.length using Nat.strong_induction_on generalizing pending s with
  | _ n ih =>
    by_cases short : pending.length < 12
    · rw [drain_waits rust onEvent pending s (.inl short)]
      simp [push]
    · have longer : ¬(pending ++ more).length < 12 := by simp; omega
      have total : be32 (pending ++ more) = be32 pending := be32_append _ _ (by omega)
      have headers : be32 ((pending ++ more).drop 4) = be32 (pending.drop 4) := by
        rw [List.drop_append_of_le_length (by omega)]
        exact be32_append _ _ (by simp; omega)
      by_cases sized : admissible (be32 pending) (be32 (pending.drop 4)) = true
      · by_cases partly : pending.length < be32 pending
        · rw [drain_waits rust onEvent pending s (.inr ⟨sized, partly⟩)]
          simp [push]
        · have size := admissible_size sized
          have message : (pending ++ more).take (be32 pending) = pending.take (be32 pending) :=
            List.take_append_of_le_length (by omega)
          have after : (pending ++ more).drop (be32 pending) = pending.drop (be32 pending) ++ more :=
            List.drop_append_of_le_length (by omega)
          have next (s : σ) := ih (pending.drop (be32 pending)).length (by simp; omega)
            (pending.drop (be32 pending)) s rfl
          rw [drain_takes rust onEvent pending s short sized partly,
            drain_takes rust onEvent (pending ++ more) s longer (by rwa [total, headers])
              (by rw [total]; simp; omega)]
          simp only [total, headers, message, after]
          split
          · exact next s
          · split
            · exact next s
            · split
              · exact next _
              · simp [push, refused]
      · rw [drain_refuses rust onEvent pending s short sized,
          drain_refuses rust onEvent _ s longer (by rwa [total, headers])]
        simp [push, refused]

theorem push_push (self : AwsEventStreamParser) (s : σ) (a b : Bytes) :
    (self.push rust onEvent s a).1.push rust onEvent (self.push rust onEvent s a).2 b =
      self.push rust onEvent s (a ++ b) := by
  by_cases failed : self.failed
  · simp [push, failed]
  · have pushed (chunk : Bytes) : self.push rust onEvent s chunk = drain rust onEvent (self.pending ++ chunk) s := by
      simp [push, failed]
    rw [pushed, pushed, ← List.append_assoc, drain_append rust onEvent (self.pending ++ a) b s]

theorem eventStream_chunks (s : σ) (chunks : List Bytes) :
    chunks.foldl (fun state chunk => state.1.push rust onEvent state.2 chunk)
        (({} : AwsEventStreamParser), s) =
      ({} : AwsEventStreamParser).push rust onEvent s chunks.flatten := by
  have fed (before : Bytes) : chunks.foldl (fun state chunk => state.1.push rust onEvent state.2 chunk)
      (({} : AwsEventStreamParser).push rust onEvent s before) =
      ({} : AwsEventStreamParser).push rust onEvent s (before ++ chunks.flatten) := by
    induction chunks generalizing before with
    | nil => simp
    | cons chunk rest ih =>
      rw [List.foldl_cons, push_push, ih, List.flatten_cons, List.append_assoc]
  have empty : ({} : AwsEventStreamParser).push rust onEvent s [] = ({}, s) := by
    rw [push, if_neg (by simp), List.append_nil, drain, if_pos (by simp)]
  simpa [empty] using fed []

end Chunks

end TeeProof.Enclave
