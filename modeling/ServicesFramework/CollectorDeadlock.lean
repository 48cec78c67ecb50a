import ServicesFramework.CollectorWaiting

namespace ServicesFramework

namespace CollectorService

variable {η : Type*} [DecidableEq η] {s : CollectorService η} {acts : List (ServiceAct η)}

/-- The step of the manager that a step of the ticker is. -/
def ticks : ServiceAct η → TimerAct η
  | .increment => .increment
  | .beginPass => .beginPass
  | .visit => .visit
  | .enqueue => .enqueue
  | .sweep => .sweep
  | .endPass => .endPass
  | _ => .dequeue

/-- One round of the ticker, with the only timer not due. -/
def idleTick : List (ServiceAct η) := [.increment, .beginPass, .visit, .sweep, .endPass]

def firingTick : List (ServiceAct η) := [.increment, .beginPass, .visit, .enqueue, .sweep, .endPass]

/-- The beginning of a round in which the timer is due and the queue is full. -/
def stallingTick : List (ServiceAct η) := [.increment, .beginPass, .visit]

theorem idleTick_managed : ∀ act ∈ (idleTick : List (ServiceAct η)), ∀ s, step s act = s.managed (ticks act) := by
  simp [idleTick, step, ticks]

theorem firingTick_managed : ∀ act ∈ (firingTick : List (ServiceAct η)), ∀ s, step s act = s.managed (ticks act) := by
  simp [firingTick, step, ticks]

theorem stallingTick_managed : ∀ act ∈ (stallingTick : List (ServiceAct η)), ∀ s, step s act = s.managed (ticks act) := by
  simp [stallingTick, step, ticks]

/-- The ticker sleeps, one uncancelled timer of period 15 is listed, and `n` expiries wait. -/
structure Lone (h : η) (start tick : UInt64) (n : Nat) (m : TimerManager η) : Prop where
  asleep : m.ticker = .sleeping
  listed : m.timers = [h]
  timer : m.timer h = ⟨1, false, false, 15, start⟩
  clock : m.tick = tick
  waiting : m.timeout.pool.length = n
  capacity : m.timeout.poolSize = 10

variable {h : η} {start tick : UInt64} {n : Nat} {m : TimerManager η}

theorem Lone.idle (lone : Lone h start tick n m) (early : 15 + start ≠ tick + 5) :
    ∃ m', Machine.run TimerManager.step m (idleTick.map ticks) = some m' ∧
      Lone h start (tick + 5) n m' ∧ m'.worker = m.worker := by
  obtain ⟨asleep, listed, timer, clock, waiting, capacity⟩ := lone
  refine ⟨{ m with tick := m.tick + 5, ticker := .sleeping }, ?_, ⟨rfl, listed, timer, ?_, waiting, capacity⟩, rfl⟩
  · simp [Machine.run, idleTick, ticks, TimerManager.step, TimerManager.visit, TimerManager.sweep,
      TimerManager.resolution, asleep, listed, timer, clock, early]
  · simp [clock]

theorem Lone.fire (lone : Lone h start tick n m) (due : 15 + start = tick + 5) (room : n < 10) :
    ∃ m', Machine.run TimerManager.step m (firingTick.map ticks) = some m' ∧
      Lone h (tick + 5) (tick + 5) (n + 1) m' ∧ m'.worker = m.worker := by
  obtain ⟨asleep, listed, timer, clock, waiting, capacity⟩ := lone
  refine ⟨{ m with
    timer := Function.update m.timer h ⟨1, false, false, 15, tick + 5⟩, tick := tick + 5, ticker := .sleeping
    timeout := { m.timeout with pool := m.timeout.pool ++ [h] }, enqueued := m.enqueued ++ [(h, tick + 5)] }, ?_,
    ⟨rfl, listed, by simp, rfl, by simp [waiting], capacity⟩, rfl⟩
  have accepted : ¬(m.timeout.pool.length ≥ m.timeout.poolSize) := by omega
  simp [Machine.run, firingTick, ticks, TimerManager.step, TimerManager.visit, TimerManager.enqueue, TimerManager.sweep,
    TimerManager.resolution, TimerManager.setTimer, Timer.expire, Queue.enqueue, asleep, listed, timer, clock, due,
    accepted]

theorem Lone.block (lone : Lone h start tick 10 m) (due : 15 + start = tick + 5) :
    ∃ m', Machine.run TimerManager.step m (stallingTick.map ticks) = some m' ∧
      m'.ticker = .enqueuing 0 ∧ m'.timeout.poolSize ≤ m'.timeout.pool.length := by
  obtain ⟨asleep, listed, timer, clock, waiting, capacity⟩ := lone
  refine ⟨{ m with
    timer := Function.update m.timer h ⟨1, false, false, 15, tick + 5⟩, tick := tick + 5, ticker := .enqueuing 0 },
    ?_, rfl, by rw [capacity, waiting]⟩
  simp [Machine.run, stallingTick, ticks, TimerManager.step, TimerManager.visit, TimerManager.resolution,
    TimerManager.setTimer, Timer.expire, asleep, listed, timer, clock, due]

def Reaches (s s' : CollectorService η) : Prop := ∃ acts, Machine.run step s acts = some s'

theorem Reaches.trans {s₁ s₂ s₃ : CollectorService η} (first : Reaches s₁ s₂) (second : Reaches s₂ s₃) : Reaches s₁ s₃ := by
  obtain ⟨acts, run⟩ := first
  obtain ⟨rest, run'⟩ := second
  exact ⟨acts ++ rest, Machine.run_append.mpr ⟨s₂, run, run'⟩⟩

theorem reaches_managed {m' : TimerManager η} (ticker : ∀ act ∈ acts, ∀ s, step s act = s.managed (ticks act))
    (run : Machine.run TimerManager.step s.manager (acts.map ticks) = some m') :
    Reaches s { s with manager := m' } := by
  refine ⟨acts, ?_⟩
  induction acts generalizing s with
  | nil =>
    cases run
    rfl
  | cons act acts ih =>
    obtain ⟨m₁, first, rest⟩ := Machine.run_cons.mp run
    refine Machine.run_cons.mpr ⟨{ s with manager := m₁ }, ?_, ?_⟩
    · rw [ticker act List.mem_cons_self s, managed, first]
      rfl
    · exact ih (fun other member => ticker other (List.mem_cons_of_mem act member)) rest

/-- Three ticks put one more expiry into the queue. -/
theorem reaches_period {x : UInt64} (lone : Lone h x x n s.manager) (room : n < 10) :
    ∃ m' y, Reaches s { s with manager := m' } ∧ Lone h y y (n + 1) m' ∧ m'.worker = s.manager.worker := by
  obtain ⟨m₁, first, lone₁, worker₁⟩ := lone.idle (by grind)
  obtain ⟨m₂, second, lone₂, worker₂⟩ := lone₁.idle (by grind)
  obtain ⟨m₃, third, lone₃, worker₃⟩ := lone₂.fire (by grind) room
  have reach₁ := reaches_managed idleTick_managed first
  have reach₂ := reaches_managed (s := { s with manager := m₁ }) idleTick_managed second
  have reach₃ := reaches_managed (s := { s with manager := m₂ }) firingTick_managed third
  exact ⟨m₃, _, reach₁.trans (reach₂.trans reach₃), lone₃, worker₃.trans (worker₂.trans worker₁)⟩

/-- With the worker held up, the queue fills one expiry at a time. -/
theorem reaches_periods {x : UInt64} (lone : Lone h x x n s.manager) (j : Nat) (room : n + j ≤ 10) :
    ∃ m' y, Reaches s { s with manager := m' } ∧ Lone h y y (n + j) m' ∧ m'.worker = s.manager.worker := by
  induction j with
  | zero => exact ⟨s.manager, x, ⟨[], rfl⟩, lone, rfl⟩
  | succ j ih =>
    obtain ⟨m₁, y, reach, lone₁, worker₁⟩ := ih (by omega)
    obtain ⟨m₂, z, more, lone₂, worker₂⟩ := reaches_period (s := { s with manager := m₁ }) lone₁ (by omega)
    exact ⟨m₂, z, reach.trans more, lone₂, worker₂.trans worker₁⟩

/-- Three more ticks, on a full queue, leave the ticker waiting in `WaitEnqueue`. -/
theorem reaches_stall {x : UInt64} (lone : Lone h x x 10 s.manager) :
    ∃ m', Reaches s { s with manager := m' } ∧ m'.ticker = .enqueuing 0 ∧
      m'.timeout.poolSize ≤ m'.timeout.pool.length := by
  obtain ⟨m₁, first, lone₁, -⟩ := lone.idle (by grind)
  obtain ⟨m₂, second, lone₂, -⟩ := lone₁.idle (by grind)
  obtain ⟨m₃, third, pc, full⟩ := lone₂.block (by grind)
  have reach₁ := reaches_managed idleTick_managed first
  have reach₂ := reaches_managed (s := { s with manager := m₁ }) idleTick_managed second
  have reach₃ := reaches_managed (s := { s with manager := m₂ }) stallingTick_managed third
  exact ⟨m₃, reach₁.trans (reach₂.trans reach₃), pc, full⟩

/-- The first message makes the timer of its next hop. -/
theorem reaches_lone (uninit : η → UInt64) (h : η) :
    ∃ m, Reaches (init uninit) ⟨m, [h], .idle, .outside⟩ ∧ Lone h 0 0 0 m ∧ m.worker = .waiting := by
  have tested : (15 : UInt64) % TimerManager.resolution = 0 := by decide
  refine ⟨(TimerManager.init (fun _ => 15) uninit).addTimer h,
    ⟨[.handleMsg h, .collectorLock, .find, .addTimer, .collectorUnlock], ?_⟩, ?_, ?_⟩
  · simp [Machine.run, step, init, managed, TimerManager.step, TimerManager.mutexHeld, TimerManager.init]
  · constructor <;>
      simp [TimerManager.addTimer, TimerManager.init, TimerManager.setTimer, Timer.init, tested, Queue.init]
  · simp [TimerManager.addTimer, TimerManager.init, TimerManager.setTimer, Timer.init, tested]

/-- The worker takes an expiry and calls the handler, which has yet to lock the mutex. -/
theorem reaches_handler {x : UInt64} (lone : Lone h x x (n + 1) s.manager) (idle : s.manager.worker = .waiting) :
    ∃ m', Reaches s { s with manager := m', handler := .entering } ∧ Lone h x x n m' := by
  obtain ⟨asleep, listed, timer, clock, waiting, capacity⟩ := lone
  obtain ⟨t, rest, pool⟩ := List.exists_cons_of_length_eq_add_one waiting
  rw [pool, List.length_cons] at waiting
  refine ⟨{ s.manager with
    timeout := { s.manager.timeout with pool := rest }, worker := .handling t, called := s.manager.called ++ [t] },
    ⟨[.dequeue, .callHandler], ?_⟩, ⟨asleep, listed, timer, clock, by simpa using waiting, capacity⟩⟩
  simp [Machine.run, step, managed, TimerManager.step, TimerManager.dequeue, idle, pool]

/-- A message for a new next hop brings the collector thread to `AddTimer`. -/
theorem reaches_adding {h' : η} (idle : s.collector = .idle) (free : s.handler = .entering)
    (new : h' ∉ s.batsBufferMap) :
    Reaches s { s with collector := .adding h', batsBufferMap := h' :: s.batsBufferMap } := by
  refine ⟨[.handleMsg h', .collectorLock, .find], ?_⟩
  simp [Machine.run, step, idle, free, new]

/-- Two next hops are enough: the timer of the first fills the queue while the worker stands
before the mutex of the collector, and then the second next hop is looked up. -/
theorem exists_deadlock (uninit : η → UInt64) {h h' : η} (distinct : h' ≠ h) :
    ∃ acts s, Machine.run step (init uninit) acts = some s ∧ s.Deadlocked := by
  obtain ⟨m₁, reach₁, lone₁, idle₁⟩ := reaches_lone uninit h
  obtain ⟨m₂, x, reach₂, lone₂, worker₂⟩ := reaches_period (s := ⟨m₁, [h], .idle, .outside⟩) lone₁ (by decide)
  obtain ⟨m₃, reach₃, lone₃⟩ := reaches_handler (s := ⟨m₂, [h], .idle, .outside⟩) lone₂ (worker₂.trans idle₁)
  obtain ⟨m₄, y, reach₄, lone₄, -⟩ := reaches_periods (s := ⟨m₃, [h], .idle, .entering⟩) lone₃ 10 (by decide)
  obtain ⟨m₅, reach₅, pc, full⟩ := reaches_stall (s := ⟨m₄, [h], .idle, .entering⟩) lone₄
  have reach₆ := reaches_adding (s := ⟨m₅, [h], .idle, .entering⟩) rfl rfl (by simpa using distinct)
  obtain ⟨acts, run⟩ := reach₁.trans (reach₂.trans (reach₃.trans (reach₄.trans (reach₅.trans reach₆))))
  refine ⟨acts, _, run, .ticker, ?_⟩
  have ticker : WaitsFor ⟨m₅, [h', h], .adding h', .entering⟩ .ticker .worker := ⟨⟨0, pc⟩, full⟩
  have worker : WaitsFor ⟨m₅, [h', h], .adding h', .entering⟩ .worker .collector := ⟨rfl, rfl⟩
  have collector : WaitsFor ⟨m₅, [h', h], .adding h', .entering⟩ .collector .ticker :=
    ⟨⟨h', rfl⟩, by simp [TimerManager.mutexHeld, pc]⟩
  exact ((Relation.TransGen.single ticker).tail worker).tail collector

/-- The three threads never wait on one another in a cycle exactly when there is at most one
next hop. -/
theorem no_deadlock_iff (uninit : η → UInt64) :
    (∀ acts s, Machine.run step (init uninit) acts = some s → ¬s.Deadlocked) ↔ Subsingleton η := by
  constructor
  · intro safe
    refine ⟨fun h h' => ?_⟩
    by_contra distinct
    obtain ⟨acts, s, run, deadlocked⟩ := exists_deadlock uninit distinct
    exact safe acts s run deadlocked
  · intro single acts s run
    exact not_deadlocked_of_subsingleton run

/-- Two next hops. -/
theorem two_hops_deadlock :
    ¬∀ acts s, Machine.run step (init fun _ : Bool => 0) acts = some s → ¬s.Deadlocked := by
  intro safe
  obtain ⟨acts, s, run, deadlocked⟩ := exists_deadlock (fun _ => 0) (show true ≠ false by decide)
  exact safe acts s run deadlocked

end CollectorService

end ServicesFramework
