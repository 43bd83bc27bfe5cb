import Mathlib.Logic.Function.Basic

/-! A place inside a larger value. What is written there last is what is read, or the value
has no such place and every write leaves it as it is. -/
namespace TeeProof

variable {σ α β ε : Type*}

structure Cell (σ α : Type*) where
  read : σ → α
  write : α → σ → σ
  /-- The contents that are read back as they were written. -/
  keeps : α → Prop
  write_write : ∀ a b s, write b (write a s) = write b s
  read_write : ∀ a s, keeps a → read (write a s) = a ∨ ∀ b, write b s = s

namespace Cell

variable (c : Cell σ α)

def update (f : α → α) (s : σ) : σ := c.write (f (c.read s)) s

/-- The operation neither reads nor writes the place: run before or after a write, it does the
same. The first write only makes sure that the place exists. -/
def Frames (F : σ → σ) : Prop := ∀ a b s, F (c.write b s) = c.write b (F (c.write a s))

variable {c}

theorem Frames.of_comm {F : σ → σ} (comm : ∀ a b s, F (c.write b (c.write a s)) = c.write b (F (c.write a s))) :
    c.Frames F := fun a b s => by
  rw [← comm a b s, c.write_write]

theorem Frames.comm {F : σ → σ} (frames : c.Frames F) (a b : α) (s : σ) :
    F (c.write b (c.write a s)) = c.write b (F (c.write a s)) := by
  rw [c.write_write]
  exact frames a b s

theorem Frames.id : c.Frames fun s => s := fun a b s => (c.write_write a b s).symm

theorem Frames.comp {F G : σ → σ} (outer : c.Frames G) (inner : c.Frames F) : c.Frames fun s => G (F s) := fun a b s => by
  have placed : F (c.write a s) = c.write a (F (c.write a s)) := inner a a s
  calc G (F (c.write b s)) = G (c.write b (F (c.write a s))) := by rw [inner a b s]
    _ = c.write b (G (c.write a (F (c.write a s)))) := outer a b _
    _ = c.write b (G (F (c.write a s))) := by rw [← placed]

theorem Frames.foldl {step : σ → ε → σ} {events : List ε}
    (each : ∀ e ∈ events, c.Frames fun s => step s e) : c.Frames fun s => events.foldl step s := by
  induction events with
  | nil => exact .id
  | cons e rest ih =>
    have later := ih fun e' member => each e' (List.mem_cons_of_mem _ member)
    exact later.comp (each e List.mem_cons_self)

/-- Two changes with an operation between them that leaves the place alone are one change. -/
theorem update_frame {F : σ → σ} (frames : c.Frames F) (f g : α → α) (s : σ) (keeps : c.keeps (f (c.read s))) :
    c.update g (F (c.update f s)) = F (c.update (fun a => g (f a)) s) := by
  unfold update
  dsimp only
  generalize f (c.read s) = a at keeps ⊢
  have placed : F (c.write a s) = c.write a (F (c.write a s)) := frames a a s
  rw [frames a (g a) s]
  rcases c.read_write a (F (c.write a s)) keeps with same | without
  · rw [← placed] at same
    rw [same]
  · rw [without, without]

theorem update_update (f g : α → α) (s : σ) (keeps : c.keeps (f (c.read s))) :
    c.update g (c.update f s) = c.update (fun a => g (f a)) s :=
  update_frame .id f g s keeps

variable (c)

/-- The same place read and written as another type. -/
def through (view : α → β) (make : β → α) : Cell σ β where
  read s := view (c.read s)
  write b := c.write (make b)
  keeps b := c.keeps (make b) ∧ view (make b) = b
  write_write a b s := c.write_write _ _ s
  read_write a s kept := by
    rcases c.read_write (make a) s kept.1 with same | without
    · exact .inl (by rw [same, kept.2])
    · exact .inr fun b => without (make b)

variable {c}

theorem Frames.through {F : σ → σ} (frames : c.Frames F) (view : α → β) (make : β → α) :
    (c.through view make).Frames F := fun a b s => frames (make a) (make b) s

end Cell

end TeeProof
