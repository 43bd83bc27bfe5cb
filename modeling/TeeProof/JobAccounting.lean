import TeeProof.Population
import Mathlib.Algebra.Order.Group.Multiset
import Mathlib.Data.Multiset.AddSub

/-! The accept loop and the workers of the enclave: a bounded queue between them and the
counters that all of them update. Each atomic operation, `try_send` and `recv` is one step. -/
namespace TeeProof.Enclave.Jobs

open Population

variable {Conn : Type}

def nWorkers : Nat := 64
def queueCap : Nat := 256

/-- `fetch_add(1)` and `fetch_sub(1)` on 64-bit counters, which wrap. -/
def fetchAdd (n : Nat) : Nat := (n + 1) % 2 ^ 64
def fetchSub (n : Nat) : Nat := (n + (2 ^ 64 - 1)) % 2 ^ 64

inductive Outcome where
  | completed
  | failed
  | panicked
  deriving DecidableEq

/-- The channel and the metrics. -/
structure Shared (Conn : Type) where
  queue : List Conn
  queueDepth : Nat
  queueDepthMax : Nat
  inFlight : Nat
  inFlightMax : Nat
  accepted : Nat
  shed : Nat
  completed : Nat
  failed : Nat
  panicked : Nat

/-- Where a call of `bump_max` stands: before the load, or in the loop with the value read. -/
inductive Bump where
  | load (cur : Nat)
  | loop (cur m : Nat)

def Bump.cur : Bump → Nat
  | .load cur => cur
  | .loop cur _ => cur

/-- A step of `bump_max` on the maximum; `none` is its return. The weak exchange may fail
although the value is still the one read. -/
inductive BumpStep : Nat → Bump → Nat → Option Bump → Prop
  | load (max cur : Nat) : BumpStep max (.load cur) max (some (.loop cur max))
  | enough {max cur m : Nat} : cur ≤ m → BumpStep max (.loop cur m) max none
  | exchange {max cur m : Nat} : m < cur → max = m → BumpStep max (.loop cur m) cur none
  | retry {max cur m : Nat} : m < cur → BumpStep max (.loop cur m) max (some (.loop cur max))

/-- What the outside sees of a step. -/
inductive Event (Conn : Type) where
  | incoming (c : Conn)
  | sent (c : Conn)
  | accepted (c : Conn)
  | shed (c : Conn)
  | finished (c : Conn) (o : Outcome)
  | bumpedQueue (n : Nat)
  | bumpedFlight (n : Nat)
  | silent

/-- The accept loop, between its steps. -/
inductive Acceptor (Conn : Type) where
  | listening
  | arrived (c : Conn)
  | bumping (c : Conn) (b : Bump)
  | sending (c : Conn)
  | sent (c : Conn)
  | full (c : Conn)
  | shedding (c : Conn)
  | refusing
  | disconnected (c : Conn)
  | stopped

/-- The step may find the receiver gone only when nothing owns it any more. -/
inductive AcceptorStep (alive : Prop) : Shared Conn → Acceptor Conn → Event Conn → Shared Conn → Acceptor Conn → Prop
  | incoming (s : Shared Conn) (c : Conn) : AcceptorStep alive s .listening (.incoming c) s (.arrived c)
  | add (s : Shared Conn) (c : Conn) :
      AcceptorStep alive s (.arrived c) .silent { s with queueDepth := fetchAdd s.queueDepth }
        (.bumping c (.load (fetchAdd s.queueDepth)))
  | bump {s : Shared Conn} {c : Conn} {b b' : Bump} {m : Nat} : BumpStep s.queueDepthMax b m (some b') →
      AcceptorStep alive s (.bumping c b) .silent { s with queueDepthMax := m } (.bumping c b')
  | bumped {s : Shared Conn} {c : Conn} {b : Bump} {m : Nat} : BumpStep s.queueDepthMax b m none →
      AcceptorStep alive s (.bumping c b) (.bumpedQueue b.cur) { s with queueDepthMax := m } (.sending c)
  | trySend {s : Shared Conn} {c : Conn} : alive → s.queue.length < queueCap →
      AcceptorStep alive s (.sending c) (.sent c) { s with queue := s.queue ++ [c] } (.sent c)
  | full {s : Shared Conn} {c : Conn} : alive → queueCap ≤ s.queue.length →
      AcceptorStep alive s (.sending c) .silent s (.full c)
  | disconnected {s : Shared Conn} {c : Conn} : ¬alive → AcceptorStep alive s (.sending c) .silent s (.disconnected c)
  | accepted (s : Shared Conn) (c : Conn) :
      AcceptorStep alive s (.sent c) (.accepted c) { s with accepted := fetchAdd s.accepted } .listening
  | subtract (s : Shared Conn) (c : Conn) :
      AcceptorStep alive s (.full c) .silent { s with queueDepth := fetchSub s.queueDepth } (.shedding c)
  | shed (s : Shared Conn) (c : Conn) :
      AcceptorStep alive s (.shedding c) (.shed c) { s with shed := fetchAdd s.shed } .refusing
  | refused (s : Shared Conn) : AcceptorStep alive s .refusing .silent s .listening
  | stop (s : Shared Conn) (c : Conn) :
      AcceptorStep alive s (.disconnected c) .silent { s with queueDepth := fetchSub s.queueDepth } .stopped

/-- A worker, between its steps. `absent` is a thread that never started or has returned. -/
inductive Worker (Conn : Type) where
  | absent
  | waiting
  | holding
  | received (c : Conn)
  | subtracted (c : Conn)
  | bumping (c : Conn) (b : Bump)
  | handling (c : Conn)
  | handled (c : Conn) (o : Outcome)
  | left (c : Conn) (o : Outcome)
  | replying

/-- The counter of the outcome. -/
def Shared.count (s : Shared Conn) : Outcome → Shared Conn
  | .completed => { s with completed := fetchAdd s.completed }
  | .failed => { s with failed := fetchAdd s.failed }
  | .panicked => { s with panicked := fetchAdd s.panicked }

/-- A failed job is answered once it has been counted. -/
def afterwards : Outcome → Worker Conn
  | .failed => .replying
  | _ => .waiting

/-- `free`: no worker holds the lock. `closed`: the sender is gone. -/
inductive WorkerStep (free closed : Prop) : Shared Conn → Worker Conn → Event Conn → Shared Conn → Worker Conn → Prop
  | lock (s : Shared Conn) : free → WorkerStep free closed s .waiting .silent s .holding
  | recv {s : Shared Conn} {c : Conn} {rest : List Conn} : s.queue = c :: rest →
      WorkerStep free closed s .holding .silent { s with queue := rest } (.received c)
  | hangUp {s : Shared Conn} : closed → s.queue = [] → WorkerStep free closed s .holding .silent s .absent
  | subtract (s : Shared Conn) (c : Conn) :
      WorkerStep free closed s (.received c) .silent { s with queueDepth := fetchSub s.queueDepth } (.subtracted c)
  | add (s : Shared Conn) (c : Conn) :
      WorkerStep free closed s (.subtracted c) .silent { s with inFlight := fetchAdd s.inFlight }
        (.bumping c (.load (fetchAdd s.inFlight)))
  | bump {s : Shared Conn} {c : Conn} {b b' : Bump} {m : Nat} : BumpStep s.inFlightMax b m (some b') →
      WorkerStep free closed s (.bumping c b) .silent { s with inFlightMax := m } (.bumping c b')
  | bumped {s : Shared Conn} {c : Conn} {b : Bump} {m : Nat} : BumpStep s.inFlightMax b m none →
      WorkerStep free closed s (.bumping c b) (.bumpedFlight b.cur) { s with inFlightMax := m } (.handling c)
  | handle (s : Shared Conn) (c : Conn) (o : Outcome) :
      WorkerStep free closed s (.handling c) .silent s (.handled c o)
  | leave (s : Shared Conn) (c : Conn) (o : Outcome) :
      WorkerStep free closed s (.handled c o) .silent { s with inFlight := fetchSub s.inFlight } (.left c o)
  | finish (s : Shared Conn) (c : Conn) (o : Outcome) :
      WorkerStep free closed s (.left c o) (.finished c o) (s.count o) (afterwards o)
  | replied (s : Shared Conn) : WorkerStep free closed s .replying .silent s .waiting

/-- `main` owns a handle of the receiver too, and keeps it while it accepts. -/
structure State (Conn : Type) where
  shared : Shared Conn
  acceptor : Acceptor Conn
  workers : Fin nWorkers → Worker Conn
  mainHolds : Bool

def State.alive (s : State Conn) : Prop := s.mainHolds = true ∨ ∃ i, s.workers i ≠ .absent
def State.free (s : State Conn) : Prop := ∀ i, s.workers i ≠ .holding
def State.closed (s : State Conn) : Prop := s.acceptor = .stopped

inductive Step : State Conn → Event Conn → State Conn → Prop
  | acceptor {s : State Conn} {e : Event Conn} {shared : Shared Conn} {a : Acceptor Conn} :
      AcceptorStep s.alive s.shared s.acceptor e shared a → Step s e { s with shared := shared, acceptor := a }
  | worker {s : State Conn} {e : Event Conn} {shared : Shared Conn} {w : Worker Conn} (i : Fin nWorkers) :
      WorkerStep s.free s.closed s.shared (s.workers i) e shared w →
      Step s e { s with shared := shared, workers := Function.update s.workers i w }

/-- The threads that could be started wait for work. -/
structure Initial (s : State Conn) : Prop where
  shared : s.shared = ⟨[], 0, 0, 0, 0, 0, 0, 0, 0, 0⟩
  acceptor : s.acceptor = .listening
  workers : ∀ i, s.workers i = .waiting ∨ s.workers i = .absent
  holds : s.mainHolds = true

/-- Any interleaving, with its events in order. -/
inductive Run : List (Event Conn) → State Conn → Prop
  | start {s : State Conn} : Initial s → Run [] s
  | step {s t : State Conn} {e : Event Conn} {events : List (Event Conn)} : Run events s → Step s e t →
      Run (events ++ [e]) t

/-! What one step does -/

/-- The value the loop compares with has been the maximum at some time. -/
def Bump.Fresh (max : Nat) : Bump → Prop
  | .load _ => True
  | .loop _ m => m ≤ max

theorem Bump.Fresh.mono {b : Bump} (fresh : b.Fresh m) (le : m ≤ m') : b.Fresh m' := by
  cases b with
  | load cur => exact trivial
  | loop cur seen => exact Nat.le_trans fresh le

namespace BumpStep

theorem mono (step : BumpStep m b m' r) : m ≤ m' := by
  cases step with
  | load => exact Nat.le_refl m
  | enough _ => exact Nat.le_refl m
  | exchange lt eq =>
    rw [eq]
    exact Nat.le_of_lt lt
  | retry _ => exact Nat.le_refl m

theorem fresh (step : BumpStep m b m' (some b')) : b'.Fresh m' := by
  cases step with
  | load => exact Nat.le_refl _
  | retry _ => exact Nat.le_refl _

/-- On return the maximum is at least the value. -/
theorem reaches (step : BumpStep m b m' none) (fresh : b.Fresh m) : b.cur ≤ m' := by
  cases step with
  | enough le => exact Nat.le_trans le fresh
  | exchange _ _ => exact Nat.le_refl _

end BumpStep

theorem fetchAdd_small (small : n + 1 < 2 ^ 64) : fetchAdd n = n + 1 := Nat.mod_eq_of_lt small

theorem fetchSub_pos (pos : 0 < n) (small : n < 2 ^ 64) : fetchSub n = n - 1 := by
  rw [fetchSub]
  omega

theorem fetchAdd_count (n : Nat) : fetchAdd (n % 2 ^ 64) = (n + 1) % 2 ^ 64 := by
  rw [fetchAdd]
  omega

/-- Whether the connection in hand is in `queue_depth` but not in the queue. -/
def Acceptor.depth : Acceptor Conn → Nat
  | .bumping _ _ | .sending _ | .full _ | .disconnected _ => 1
  | _ => 0

/-- A connection that has arrived and is not counted yet. -/
def Acceptor.inHand : Acceptor Conn → List Conn
  | .arrived c | .bumping c _ | .sending c | .sent c | .full c | .shedding c | .disconnected c => [c]
  | _ => []

/-- A job that is queued and not counted yet. -/
def Acceptor.unlisted : Acceptor Conn → List Conn
  | .sent c => [c]
  | _ => []

def Acceptor.Fresh (max : Nat) : Acceptor Conn → Prop
  | .bumping _ b => b.Fresh max
  | _ => True

/-- The loop has not been left. -/
def Acceptor.Running : Acceptor Conn → Prop
  | .disconnected _ | .stopped => False
  | _ => True

/-- A job that has left the queue and is still in `queue_depth`. -/
def Worker.depth : Worker Conn → Nat
  | .received _ => 1
  | _ => 0

def Worker.flight : Worker Conn → Nat
  | .bumping _ _ | .handling _ | .handled _ _ => 1
  | _ => 0

/-- The job that is not finished yet. -/
def Worker.job : Worker Conn → Multiset Conn
  | .received c | .subtracted c | .bumping c _ | .handling c | .handled c _ | .left c _ => {c}
  | _ => 0

def Worker.Fresh (max : Nat) : Worker Conn → Prop
  | .bumping _ b => b.Fresh max
  | _ => True

namespace Event

def arrivals : Event Conn → List Conn
  | .incoming c => [c]
  | _ => []

def sends : Event Conn → List Conn
  | .sent c => [c]
  | _ => []

def accepts : Event Conn → List Conn
  | .accepted c => [c]
  | _ => []

def sheds : Event Conn → List Conn
  | .shed c => [c]
  | _ => []

/-- Counted as accepted or as shed. -/
def counts : Event Conn → List Conn
  | .accepted c | .shed c => [c]
  | _ => []

def finishes : Event Conn → List Conn
  | .finished c _ => [c]
  | _ => []

def finishesAs (o : Outcome) : Event Conn → List Conn
  | .finished c o' => if o' = o then [c] else []
  | _ => []

end Event

def Shared.tally (s : Shared Conn) : Outcome → Nat
  | .completed => s.completed
  | .failed => s.failed
  | .panicked => s.panicked

section
variable {alive : Prop} {s s' : Shared Conn} {a a' : Acceptor Conn} {e : Event Conn}

theorem AcceptorStep.depth (step : AcceptorStep alive s a e s' a') (small : s.queueDepth + 1 < 2 ^ 64)
    (pos : a.depth ≤ s.queueDepth) :
    s'.queueDepth + (s.queue.length + a.depth) = s.queueDepth + (s'.queue.length + a'.depth) := by
  cases step with
  | add c =>
    rw [fetchAdd_small small]
    simp only [Acceptor.depth]
    omega
  | subtract c =>
    rw [fetchSub_pos pos (by omega)]
    simp only [Acceptor.depth] at pos ⊢
    omega
  | stop c =>
    rw [fetchSub_pos pos (by omega)]
    simp only [Acceptor.depth] at pos ⊢
    omega
  | trySend _ _ =>
    simp only [Acceptor.depth, List.length_append, List.length_singleton]
  | _ => rfl

theorem AcceptorStep.cap (step : AcceptorStep alive s a e s' a') (short : s.queue.length ≤ queueCap) :
    s'.queue.length ≤ queueCap := by
  cases step with
  | trySend _ room =>
    rw [List.length_append, List.length_singleton]
    exact room
  | _ => exact short

/-- The accept loop leaves the workers' counters alone. -/
theorem AcceptorStep.frame (step : AcceptorStep alive s a e s' a') :
    s'.inFlight = s.inFlight ∧ s'.inFlightMax = s.inFlightMax ∧ ∀ o, s'.tally o = s.tally o := by
  cases step <;> exact ⟨rfl, rfl, fun o => by cases o <;> simp only [Shared.tally]⟩

theorem AcceptorStep.mono (step : AcceptorStep alive s a e s' a') : s.queueDepthMax ≤ s'.queueDepthMax := by
  cases step with
  | bump inner => exact inner.mono
  | bumped inner => exact inner.mono
  | _ => exact Nat.le_of_eq rfl

theorem AcceptorStep.fresh (step : AcceptorStep alive s a e s' a') : a'.Fresh s'.queueDepthMax := by
  cases step with
  | bump inner => exact inner.fresh
  | _ => exact trivial

theorem AcceptorStep.bumped_le (step : AcceptorStep alive s a (.bumpedQueue n) s' a') (fresh : a.Fresh s.queueDepthMax) :
    n ≤ s'.queueDepthMax := by
  cases step with
  | bumped inner => exact inner.reaches fresh

theorem AcceptorStep.running (step : AcceptorStep alive s a e s' a') (holds : alive) (running : a.Running) : a'.Running := by
  cases step with
  | disconnected gone => exact gone holds
  | stop c => exact running
  | _ => exact trivial

/-- A connection stays in hand until it is counted. -/
theorem AcceptorStep.arrivals (step : AcceptorStep alive s a e s' a') (running : a.Running) :
    a.inHand ++ e.arrivals = e.counts ++ a'.inHand := by
  cases step with
  | stop c => exact running.elim
  | _ => rfl

theorem AcceptorStep.sends (step : AcceptorStep alive s a e s' a') : a.unlisted ++ e.sends = e.accepts ++ a'.unlisted := by
  cases step <;> rfl

theorem AcceptorStep.jobs (step : AcceptorStep alive s a e s' a') : s'.queue = s.queue ++ e.sends ∧ e.finishes = [] := by
  cases step with
  | trySend _ _ => exact ⟨rfl, rfl⟩
  | _ => exact ⟨(List.append_nil _).symm, rfl⟩

theorem AcceptorStep.outside (step : AcceptorStep alive s a e s' a') :
    (∀ o, e.finishesAs o = []) ∧ ∀ n, Event.bumpedFlight n ≠ e := by
  cases step <;> exact ⟨fun _ => rfl, nofun⟩

theorem AcceptorStep.counts (step : AcceptorStep alive s a e s' a') :
    (s'.accepted = s.accepted ∧ e.accepts = [] ∨ s'.accepted = fetchAdd s.accepted ∧ e.accepts.length = 1) ∧
    (s'.shed = s.shed ∧ e.sheds = [] ∨ s'.shed = fetchAdd s.shed ∧ e.sheds.length = 1) := by
  cases step with
  | accepted c => exact ⟨.inr ⟨rfl, rfl⟩, .inl ⟨rfl, rfl⟩⟩
  | shed c => exact ⟨.inl ⟨rfl, rfl⟩, .inr ⟨rfl, rfl⟩⟩
  | _ => exact ⟨.inl ⟨rfl, rfl⟩, .inl ⟨rfl, rfl⟩⟩

end

section
variable {free closed : Prop} {s s' : Shared Conn} {w w' : Worker Conn} {e : Event Conn}

theorem Shared.count_frame (s : Shared Conn) (o : Outcome) :
    (s.count o).queue = s.queue ∧ (s.count o).queueDepth = s.queueDepth ∧ (s.count o).queueDepthMax = s.queueDepthMax ∧
      (s.count o).inFlight = s.inFlight ∧ (s.count o).inFlightMax = s.inFlightMax ∧
      (s.count o).accepted = s.accepted ∧ (s.count o).shed = s.shed := by
  cases o <;> exact ⟨rfl, rfl, rfl, rfl, rfl, rfl, rfl⟩

theorem afterwards_idle (o : Outcome) : (afterwards o : Worker Conn).depth = 0 ∧ (afterwards o : Worker Conn).flight = 0 ∧
    (afterwards o : Worker Conn).job = 0 ∧ ∀ max, (afterwards o : Worker Conn).Fresh max := by
  cases o <;> exact ⟨rfl, rfl, rfl, fun _ => trivial⟩

theorem WorkerStep.depth (step : WorkerStep free closed s w e s' w') (small : s.queueDepth < 2 ^ 64)
    (pos : w.depth ≤ s.queueDepth) :
    s'.queueDepth + (s.queue.length + w.depth) = s.queueDepth + (s'.queue.length + w'.depth) := by
  cases step with
  | recv eq =>
    rw [eq]
    simp only [Worker.depth, List.length_cons]
  | subtract c =>
    rw [fetchSub_pos pos small]
    simp only [Worker.depth] at pos ⊢
    omega
  | finish c o =>
    obtain ⟨queue, depth, _⟩ := s.count_frame o
    rw [queue, depth, (afterwards_idle o).1]
    rfl
  | _ => rfl

theorem WorkerStep.flight (step : WorkerStep free closed s w e s' w') (small : s.inFlight + 1 < 2 ^ 64)
    (pos : w.flight ≤ s.inFlight) : s'.inFlight + w.flight = s.inFlight + w'.flight := by
  cases step with
  | add c =>
    rw [fetchAdd_small small]
    rfl
  | leave c o =>
    rw [fetchSub_pos pos (by omega)]
    simp only [Worker.flight] at pos ⊢
    omega
  | finish c o =>
    obtain ⟨_, _, _, flight, _⟩ := s.count_frame o
    rw [flight, (afterwards_idle o).2.1]
    rfl
  | _ => rfl

theorem WorkerStep.cap (step : WorkerStep free closed s w e s' w') : s'.queue.length ≤ s.queue.length := by
  cases step with
  | recv eq =>
    rw [eq]
    exact Nat.le_succ _
  | finish c o => rw [(s.count_frame o).1]
  | _ => exact Nat.le_refl _

/-- A worker leaves the accept loop's counters alone, the depth apart. -/
theorem WorkerStep.frame (step : WorkerStep free closed s w e s' w') :
    s'.queueDepthMax = s.queueDepthMax ∧ s'.accepted = s.accepted ∧ s'.shed = s.shed := by
  cases step with
  | finish c o =>
    obtain ⟨_, _, max, _, _, accepted, shed⟩ := s.count_frame o
    exact ⟨max, accepted, shed⟩
  | _ => exact ⟨rfl, rfl, rfl⟩

theorem WorkerStep.mono (step : WorkerStep free closed s w e s' w') : s.inFlightMax ≤ s'.inFlightMax := by
  cases step with
  | bump inner => exact inner.mono
  | bumped inner => exact inner.mono
  | finish c o => rw [(s.count_frame o).2.2.2.2.1]
  | _ => exact Nat.le_refl _

theorem WorkerStep.fresh (step : WorkerStep free closed s w e s' w') : w'.Fresh s'.inFlightMax := by
  cases step with
  | bump inner => exact inner.fresh
  | finish c o => exact (afterwards_idle o).2.2.2 _
  | _ => exact trivial

theorem WorkerStep.bumped_le (step : WorkerStep free closed s w (.bumpedFlight n) s' w') (fresh : w.Fresh s.inFlightMax) :
    n ≤ s'.inFlightMax := by
  cases step with
  | bumped inner => exact inner.reaches fresh

/-- A job stays with the worker from the queue to the counter of its outcome. -/
theorem WorkerStep.jobs (step : WorkerStep free closed s w e s' w') :
    (s.queue : Multiset Conn) + w.job = s'.queue + w'.job + (e.finishes : Multiset Conn) := by
  cases step with
  | recv eq =>
    rw [eq]
    simp only [Worker.job, Event.finishes, Multiset.coe_nil, add_zero]
    rw [← Multiset.cons_coe, ← Multiset.singleton_add, add_comm]
  | finish c o =>
    rw [(s.count_frame o).1, (afterwards_idle o).2.2.1, add_zero]
    rfl
  | _ => exact (add_zero _).symm

theorem WorkerStep.outside (step : WorkerStep free closed s w e s' w') :
    e.arrivals = [] ∧ e.counts = [] ∧ e.sends = [] ∧ e.accepts = [] ∧ e.sheds = [] ∧ ∀ n, Event.bumpedQueue n ≠ e := by
  cases step <;> exact ⟨rfl, rfl, rfl, rfl, rfl, nofun⟩

theorem WorkerStep.counts (step : WorkerStep free closed s w e s' w') (o : Outcome) :
    s'.tally o = s.tally o ∧ e.finishesAs o = [] ∨
      s'.tally o = fetchAdd (s.tally o) ∧ (e.finishesAs o).length = 1 := by
  cases step with
  | finish c o' =>
    by_cases same : o' = o
    · subst same
      refine .inr ⟨?_, by rw [Event.finishesAs, if_pos rfl]; rfl⟩
      cases o' <;> simp only [Shared.tally, Shared.count]
    · refine .inl ⟨?_, if_neg same⟩
      cases o' <;> cases o <;> first | exact absurd rfl same | simp only [Shared.tally, Shared.count]
  | _ => exact .inl ⟨by cases o <;> simp only [Shared.tally], rfl⟩

end

end TeeProof.Enclave.Jobs
