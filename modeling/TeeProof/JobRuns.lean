import TeeProof.JobAccounting

/-! Every interleaving of the accept loop and the workers keeps the counters in step with
the queue and the jobs under way. -/
namespace TeeProof.Enclave.Jobs

open Population

variable {Conn : Type} {s t : State Conn} {e : Event Conn} {events : List (Event Conn)}

/-- The counters against the queue and the places of all threads. -/
structure Counting (s : State Conn) : Prop where
  holds : s.mainHolds = true
  running : s.acceptor.Running
  cap : s.shared.queue.length ≤ queueCap
  depth : s.shared.queueDepth = s.shared.queue.length + s.acceptor.depth + total Worker.depth s.workers
  flight : s.shared.inFlight = total Worker.flight s.workers
  acceptorFresh : s.acceptor.Fresh s.shared.queueDepthMax
  workerFresh : ∀ i, (s.workers i).Fresh s.shared.inFlightMax

theorem Acceptor.depth_le (a : Acceptor Conn) : a.depth ≤ 1 := by
  cases a <;> simp only [Acceptor.depth] <;> omega

theorem Worker.depth_le (w : Worker Conn) : w.depth ≤ 1 := by
  cases w <;> simp only [Worker.depth] <;> omega

theorem Worker.flight_le (w : Worker Conn) : w.flight ≤ 1 := by
  cases w <;> simp only [Worker.flight] <;> omega

theorem Worker.Fresh.mono {w : Worker Conn} (fresh : w.Fresh m) (le : m ≤ m') : w.Fresh m' := by
  cases w with
  | bumping c b => exact Bump.Fresh.mono fresh le
  | _ => exact trivial

theorem total_le_workers {w : Worker Conn → Nat} (light : ∀ x, w x ≤ 1) (f : Fin nWorkers → Worker Conn) :
    total w f ≤ nWorkers := by
  have bound := total_le_card (f := f) fun i => light (f i)
  rwa [Fintype.card_fin] at bound

theorem Counting.depth_le (inv : Counting s) : s.shared.queueDepth ≤ queueCap + 1 + nWorkers := by
  have := inv.depth
  have := inv.cap
  have := s.acceptor.depth_le
  have := total_le_workers Worker.depth_le s.workers
  omega

theorem Counting.flight_le (inv : Counting s) : s.shared.inFlight ≤ nWorkers := by
  rw [inv.flight]
  exact total_le_workers Worker.flight_le s.workers

theorem Initial.counting (init : Initial s) : Counting s := by
  have idle : ∀ i, (s.workers i).depth = 0 ∧ (s.workers i).flight = 0 ∧ ∀ max, (s.workers i).Fresh max := by
    intro i
    rcases init.workers i with eq | eq <;>
      (rw [eq]
       exact ⟨rfl, rfl, fun _ => trivial⟩)
  constructor
  · exact init.holds
  · rw [init.acceptor]
    exact trivial
  · rw [init.shared]
    exact Nat.zero_le _
  · rw [init.shared, init.acceptor, total_eq_zero fun i => (idle i).1]
    rfl
  · rw [init.shared, total_eq_zero fun i => (idle i).2.1]
  · rw [init.acceptor]
    exact trivial
  · exact fun i => (idle i).2.2 _

theorem Counting.step (inv : Counting s) (step : Step s e t) : Counting t := by
  have small : s.shared.queueDepth + 1 < 2 ^ 64 := Nat.lt_of_le_of_lt (Nat.succ_le_succ inv.depth_le) (by decide)
  have smallFlight : s.shared.inFlight + 1 < 2 ^ 64 :=
    Nat.lt_of_le_of_lt (Nat.succ_le_succ inv.flight_le) (by decide)
  have depth := inv.depth
  cases step with
  | acceptor step =>
    obtain ⟨flight, flightMax, _⟩ := step.frame
    constructor
    · exact inv.holds
    · exact step.running (.inl inv.holds) inv.running
    · exact step.cap inv.cap
    · have moved := step.depth small (by omega)
      dsimp only
      omega
    · exact flight.trans inv.flight
    · exact step.fresh
    · intro i
      dsimp only
      rw [flightMax]
      exact inv.workerFresh i
  | @worker shared w i step =>
    obtain ⟨queueMax, _⟩ := step.frame
    have weightDepth := total_update Worker.depth s.workers i w
    have weightFlight := total_update Worker.flight s.workers i w
    have inDepth := le_total Worker.depth s.workers i
    have inFlight := le_total Worker.flight s.workers i
    have flight := inv.flight
    constructor
    · exact inv.holds
    · exact inv.running
    · exact Nat.le_trans step.cap inv.cap
    · have moved := step.depth (by omega) (by omega)
      dsimp only
      omega
    · have moved := step.flight smallFlight (by omega)
      dsimp only
      omega
    · dsimp only
      rw [queueMax]
      exact inv.acceptorFresh
    · intro j
      by_cases same : j = i
      · subst same
        dsimp only
        rw [Function.update_self]
        exact step.fresh
      · dsimp only
        rw [Function.update_of_ne same]
        exact (inv.workerFresh j).mono step.mono

/-! What has happened so far -/

/-- The connections and counters against the events. -/
structure History (events : List (Event Conn)) (s : State Conn) : Prop where
  arrivals : events.flatMap Event.arrivals = events.flatMap Event.counts ++ s.acceptor.inHand
  sends : events.flatMap Event.sends = events.flatMap Event.accepts ++ s.acceptor.unlisted
  jobs : (events.flatMap Event.sends : Multiset Conn) =
    s.shared.queue + total Worker.job s.workers + (events.flatMap Event.finishes : Multiset Conn)
  accepted : s.shared.accepted = (events.flatMap Event.accepts).length % 2 ^ 64
  shed : s.shared.shed = (events.flatMap Event.sheds).length % 2 ^ 64
  tally : ∀ o, s.shared.tally o = (events.flatMap (Event.finishesAs o)).length % 2 ^ 64
  bumpedQueue : ∀ n, .bumpedQueue n ∈ events → n ≤ s.shared.queueDepthMax
  bumpedFlight : ∀ n, .bumpedFlight n ∈ events → n ≤ s.shared.inFlightMax

theorem flatMap_snoc (f : α → List β) (l : List α) (x : α) : (l ++ [x]).flatMap f = l.flatMap f ++ f x := by
  rw [List.flatMap_append, List.flatMap_singleton]

theorem Initial.history (init : Initial s) : History [] s := by
  have idle : total Worker.job s.workers = 0 := by
    apply total_eq_zero
    intro i
    rcases init.workers i with eq | eq <;>
      (rw [eq]
       rfl)
  constructor
  · rw [init.acceptor]
    rfl
  · rw [init.acceptor]
    rfl
  · rw [init.shared, idle]
    rfl
  · rw [init.shared]
    rfl
  · rw [init.shared]
    rfl
  · intro o
    rw [init.shared]
    cases o <;> rfl
  · exact nofun
  · exact nofun

/-- A counter that moves with its events. -/
theorem counter_step {before after : Nat} {past new : List Conn} (counted : before = past.length % 2 ^ 64)
    (moved : after = before ∧ new = [] ∨ after = fetchAdd before ∧ new.length = 1) :
    after = (past ++ new).length % 2 ^ 64 := by
  rw [List.length_append]
  rcases moved with ⟨same, none⟩ | ⟨up, one⟩
  · rw [same, none]
    exact counted
  · rw [up, one, counted, fetchAdd_count]

theorem mem_snoc_bump {n max max' : Nat} {f : Nat → Event Conn} (past : ∀ n, f n ∈ events → n ≤ max) (mono : max ≤ max')
    (last : f n = e → n ≤ max') (member : f n ∈ events ++ [e]) : n ≤ max' := by
  rcases List.mem_append.mp member with old | new
  · exact Nat.le_trans (past n old) mono
  · exact last (List.mem_singleton.mp new)

theorem History.acceptor {shared : Shared Conn} {a : Acceptor Conn} (hist : History events s) (inv : Counting s)
    (step : AcceptorStep s.alive s.shared s.acceptor e shared a) :
    History (events ++ [e]) { s with shared := shared, acceptor := a } := by
  obtain ⟨_, flightMax, tally⟩ := step.frame
  obtain ⟨queue, finishes⟩ := step.jobs
  obtain ⟨accepted, shed⟩ := step.counts
  obtain ⟨unfinished, noFlight⟩ := step.outside
  constructor
  · rw [flatMap_snoc, flatMap_snoc, hist.arrivals, List.append_assoc, step.arrivals inv.running, List.append_assoc]
  · rw [flatMap_snoc, flatMap_snoc, hist.sends, List.append_assoc, step.sends, List.append_assoc]
  · rw [flatMap_snoc, flatMap_snoc, finishes, List.append_nil, ← Multiset.coe_add, hist.jobs]
    dsimp only
    rw [queue, ← Multiset.coe_add]
    ac_rfl
  · rw [flatMap_snoc]
    exact counter_step hist.accepted accepted
  · rw [flatMap_snoc]
    exact counter_step hist.shed shed
  · intro o
    rw [flatMap_snoc, unfinished, List.append_nil]
    exact (tally o).trans (hist.tally o)
  · intro n
    refine mem_snoc_bump hist.bumpedQueue step.mono ?_
    rintro rfl
    exact step.bumped_le inv.acceptorFresh
  · exact fun n => mem_snoc_bump hist.bumpedFlight (Nat.le_of_eq flightMax.symm) fun eq => absurd eq (noFlight n)

theorem History.worker {shared : Shared Conn} {w : Worker Conn} {i : Fin nWorkers} (hist : History events s)
    (inv : Counting s) (step : WorkerStep s.free s.closed s.shared (s.workers i) e shared w) :
    History (events ++ [e]) { s with shared := shared, workers := Function.update s.workers i w } := by
  obtain ⟨queueMax, accepted, shed⟩ := step.frame
  obtain ⟨arrives, counts, sends, accepts, sheds, noQueue⟩ := step.outside
  constructor
  · rw [flatMap_snoc, flatMap_snoc, arrives, counts, List.append_nil, List.append_nil]
    exact hist.arrivals
  · rw [flatMap_snoc, flatMap_snoc, sends, accepts, List.append_nil, List.append_nil]
    exact hist.sends
  · rw [flatMap_snoc, flatMap_snoc, sends, List.append_nil, hist.jobs, ← Multiset.coe_add]
    dsimp only
    have moved : (s.shared.queue : Multiset Conn) + total Worker.job s.workers =
        shared.queue + total Worker.job (Function.update s.workers i w) + e.finishes := by
      apply add_right_cancel (b := w.job)
      calc (s.shared.queue : Multiset Conn) + total Worker.job s.workers + w.job
          = s.shared.queue + (s.workers i).job + total Worker.job (Function.update s.workers i w) := by
            rw [add_assoc, ← total_update Worker.job s.workers i w]
            ac_rfl
        _ = shared.queue + total Worker.job (Function.update s.workers i w) + e.finishes + w.job := by
            rw [step.jobs]
            ac_rfl
    rw [moved]
    ac_rfl
  · rw [flatMap_snoc, accepts, List.append_nil]
    exact accepted.trans hist.accepted
  · rw [flatMap_snoc, sheds, List.append_nil]
    exact shed.trans hist.shed
  · intro o
    rw [flatMap_snoc]
    exact counter_step (hist.tally o) (step.counts o)
  · exact fun n => mem_snoc_bump hist.bumpedQueue (Nat.le_of_eq queueMax.symm) fun eq => absurd eq (noQueue n)
  · intro n
    refine mem_snoc_bump hist.bumpedFlight step.mono ?_
    rintro rfl
    exact step.bumped_le (inv.workerFresh i)

theorem Run.invariant (run : Run events s) : Counting s ∧ History events s := by
  induction run with
  | start init => exact ⟨init.counting, init.history⟩
  | step _ step ih =>
    obtain ⟨inv, hist⟩ := ih
    refine ⟨inv.step step, ?_⟩
    cases step with
    | acceptor step => exact hist.acceptor inv step
    | worker i step => exact hist.worker inv step

/-- No step is under way and nothing is queued. -/
structure Quiescent (s : State Conn) : Prop where
  acceptor : s.acceptor = .listening
  workers : ∀ i, s.workers i = .waiting ∨ s.workers i = .holding ∨ s.workers i = .absent
  queue : s.shared.queue = []

theorem Quiescent.idle (quiet : Quiescent s) : total Worker.depth s.workers = 0 ∧ total Worker.flight s.workers = 0 ∧
    total Worker.job s.workers = 0 := by
  have idle : ∀ i, (s.workers i).depth = 0 ∧ (s.workers i).flight = 0 ∧ (s.workers i).job = 0 := by
    intro i
    rcases quiet.workers i with eq | eq | eq <;>
      (rw [eq]
       exact ⟨rfl, rfl, rfl⟩)
  exact ⟨total_eq_zero fun i => (idle i).1, total_eq_zero fun i => (idle i).2.1, total_eq_zero fun i => (idle i).2.2⟩

theorem finishes_length (events : List (Event Conn)) : (events.flatMap Event.finishes).length =
    (events.flatMap (Event.finishesAs .completed)).length + (events.flatMap (Event.finishesAs .failed)).length +
      (events.flatMap (Event.finishesAs .panicked)).length := by
  induction events with
  | nil => rfl
  | cons e rest ih =>
    have one : e.finishes.length =
        (e.finishesAs .completed).length + (e.finishesAs .failed).length + (e.finishesAs .panicked).length := by
      cases e with
      | finished c o => cases o <;> rfl
      | _ => rfl
    simp only [List.flatMap_cons, List.length_append]
    omega

/-- Every job that was accepted has been finished once. -/
theorem Quiescent.finished (quiet : Quiescent s) (hist : History events s) :
    (events.flatMap Event.accepts : Multiset Conn) = (events.flatMap Event.finishes : Multiset Conn) := by
  have sends := hist.sends
  have jobs := hist.jobs
  rw [quiet.acceptor] at sends
  replace sends : _ = events.flatMap Event.accepts := sends.trans (List.append_nil _)
  rwa [quiet.queue, quiet.idle.2.2, Multiset.coe_nil, add_zero, zero_add, sends] at jobs

theorem Step.mono (step : Step s e t) :
    s.shared.queueDepthMax ≤ t.shared.queueDepthMax ∧ s.shared.inFlightMax ≤ t.shared.inFlightMax := by
  cases step with
  | acceptor step => exact ⟨step.mono, Nat.le_of_eq step.frame.2.1.symm⟩
  | worker i step => exact ⟨Nat.le_of_eq step.frame.1.symm, step.mono⟩

theorem Quiescent.totals (quiet : Quiescent s) (hist : History events s) :
    s.shared.accepted = (s.shared.completed + s.shared.failed + s.shared.panicked) % 2 ^ 64 := by
  have completed := hist.tally .completed
  have failed := hist.tally .failed
  have panicked := hist.tally .panicked
  have jobs := congrArg Multiset.card (quiet.finished hist)
  rw [Multiset.coe_card, Multiset.coe_card, finishes_length] at jobs
  rw [hist.accepted, jobs]
  simp only [Shared.tally] at completed failed panicked
  omega

/-- `queue_depth` is exact at every moment, so that it never wraps. -/
theorem jobs_accounted (run : Run events s) :
    s.shared.queueDepth = s.shared.queue.length + s.acceptor.depth + total Worker.depth s.workers ∧
    s.shared.queueDepth ≤ queueCap + 1 + nWorkers ∧ s.shared.inFlight ≤ nWorkers ∧
    (∀ n, .bumpedQueue n ∈ events → n ≤ s.shared.queueDepthMax) ∧
    (∀ n, .bumpedFlight n ∈ events → n ≤ s.shared.inFlightMax) ∧
    (∀ e t, Step s e t →
      s.shared.queueDepthMax ≤ t.shared.queueDepthMax ∧ s.shared.inFlightMax ≤ t.shared.inFlightMax) ∧
    (Quiescent s →
      s.shared.queueDepth = 0 ∧ s.shared.inFlight = 0 ∧
      s.shared.accepted = (s.shared.completed + s.shared.failed + s.shared.panicked) % 2 ^ 64 ∧
      (events.flatMap Event.accepts).Perm (events.flatMap Event.finishes) ∧
      events.flatMap Event.arrivals = events.flatMap Event.counts ∧
      s.shared.accepted = (events.flatMap Event.accepts).length % 2 ^ 64 ∧
      s.shared.shed = (events.flatMap Event.sheds).length % 2 ^ 64) := by
  obtain ⟨inv, hist⟩ := run.invariant
  refine ⟨inv.depth, inv.depth_le, inv.flight_le, hist.bumpedQueue, hist.bumpedFlight, fun e t step => step.mono, ?_⟩
  intro quiet
  obtain ⟨depth, flight, _⟩ := quiet.idle
  have arrivals := hist.arrivals
  rw [quiet.acceptor] at arrivals
  refine ⟨?_, inv.flight.trans flight, quiet.totals hist, Multiset.coe_eq_coe.mp (quiet.finished hist),
    arrivals.trans (List.append_nil _), hist.accepted, hist.shed⟩
  rw [inv.depth, depth, quiet.queue, quiet.acceptor]
  rfl

/-- All threads wait. -/
def idle : State Nat := ⟨⟨[], 0, 0, 0, 0, 0, 0, 0, 0, 0⟩, .listening, fun _ => .waiting, true⟩

/-- One connection from its arrival to the counter of its outcome. -/
theorem run_one : ∃ (events : List (Event Nat)) (s : State Nat), Run events s ∧ Quiescent s ∧
    s.shared.completed = 1 := by
  let first : Fin nWorkers := ⟨0, by decide⟩
  have run : Run [] idle := .start ⟨rfl, rfl, fun _ => .inl rfl, rfl⟩
  have run := run.step (.acceptor (.incoming _ 7))
  have run := run.step (.acceptor (.add _ _))
  have run := run.step (.acceptor (.bump (.load _ _)))
  have run := run.step (.acceptor (.bumped (.exchange (by decide) rfl)))
  have run := run.step (.acceptor (.trySend (.inl rfl) (by decide)))
  have run := run.step (.acceptor (.accepted _ _))
  have run := run.step (.worker first (.lock _ fun _ => nofun))
  have run := run.step (.worker first (.recv rfl))
  have run := run.step (.worker first (.subtract _ _))
  have run := run.step (.worker first (.add _ _))
  have run := run.step (.worker first (.bump (.load _ _)))
  have run := run.step (.worker first (.bumped (.exchange (by decide) rfl)))
  have run := run.step (.worker first (.handle _ _ .completed))
  have run := run.step (.worker first (.leave _ _ _))
  have run := run.step (.worker first (.finish _ _ _))
  refine ⟨_, _, run, ⟨rfl, fun i => ?_, rfl⟩, rfl⟩
  by_cases same : i = first
  · subst same
    exact .inl rfl
  · refine .inl ?_
    simp only [Function.update_of_ne same]
    rfl

theorem jobs_accounted_sample : ∃ s : State Nat, s.shared.completed = 1 ∧ s.shared.queueDepth = 0 ∧
    s.shared.accepted = (s.shared.completed + s.shared.failed + s.shared.panicked) % 2 ^ 64 := by
  obtain ⟨_, s, run, quiet, completed⟩ := run_one
  obtain ⟨_, _, _, _, _, _, settled⟩ := jobs_accounted run
  exact ⟨s, completed, (settled quiet).1, (settled quiet).2.2.1⟩

end TeeProof.Enclave.Jobs
