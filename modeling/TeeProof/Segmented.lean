import Mathlib.Data.List.Basic

/-! A buffer filled from a stream that arrives in pieces: what the buffer and the pieces not yet
read hold together never changes, and waiting for a property of the whole ends with it. -/
namespace TeeProof.Segmented

variable {α β : Type} (content : β → List α)

/-- Read until the buffer is enough or the stream has ended. -/
def readUntil (enough : List α → Bool) (buf : List α) : List β → List α × List β
  | [] => (buf, [])
  | piece :: rest => if enough buf then (buf, piece :: rest) else readUntil enough (buf ++ content piece) rest

def stream (buf : List α) (pieces : List β) : List α := buf ++ pieces.flatMap content

theorem stream_readUntil (enough : List α → Bool) (buf : List α) (pieces : List β) :
    stream content (readUntil content enough buf pieces).1 (readUntil content enough buf pieces).2 =
      stream content buf pieces := by
  induction pieces generalizing buf with
  | nil => rfl
  | cons piece rest ih =>
    rw [readUntil]
    split
    · rfl
    · rw [ih]
      simp [stream]

theorem readUntil_stops (enough : List α → Bool) (buf : List α) (pieces : List β) :
    enough (readUntil content enough buf pieces).1 = true ∨ (readUntil content enough buf pieces).2 = [] := by
  induction pieces generalizing buf with
  | nil => exact .inr rfl
  | cons piece rest ih =>
    rw [readUntil]
    split
    next done => exact .inl done
    next => exact ih _

/-- What the whole stream is enough for is reached. -/
theorem readUntil_enough {enough : List α → Bool} (buf : List α) (pieces : List β)
    (whole : enough (stream content buf pieces) = true) : enough (readUntil content enough buf pieces).1 = true := by
  rcases readUntil_stops content enough buf pieces with done | ended
  · exact done
  · rw [← stream_readUntil content enough, ended] at whole
    simpa [stream] using whole

theorem readUntil_length (enough : List α → Bool) (buf : List α) (pieces : List β) :
    (readUntil content enough buf pieces).1.length + ((readUntil content enough buf pieces).2.flatMap content).length =
      buf.length + (pieces.flatMap content).length := by
  have same := congrArg List.length (stream_readUntil content enough buf pieces)
  simpa [stream] using same

end TeeProof.Segmented
