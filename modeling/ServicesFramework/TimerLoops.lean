import ServicesFramework.Lib.Loop
import ServicesFramework.Network
import ServicesFramework.TimerCancel

namespace ServicesFramework

theorem Delivery.Moves.breakAllWait_eq {ι : Type*} {d d' : Delivery ι} (moves : d.Moves d') :
    d'.timeout.breakAllWait = d.timeout.breakAllWait := by
  cases moves <;> rfl

/-- `TimerManager` with `stop_` and the loops of its two threads. The two `WaitPc` say where
the ticker stands in `WaitEnqueue` and the worker in `WaitDequeue`, while they are in there. -/
structure TimerService (ι : Type*) where
  manager : TimerManager ι
  stop : Bool
  tickerLoop : Loop.Pc
  workerLoop : Loop.Pc
  enqueuePc : WaitPc
  dequeuePc : WaitPc

/-- The calls of clients, one step of either thread, and the two assignments of `Stop`. -/
inductive TimerServiceAct (ι : Type*)
  | setOneshot (t : ι)
  | addTimer (t : ι)
  | cancelTimer (t : ι)
  | ticker
  | worker
  | setStop
  | breakAllWait
  deriving DecidableEq, Repr

def TimerServiceAct.adds {ι : Type*} : TimerServiceAct ι → Bool
  | .addTimer _ => true
  | .setOneshot _ | .cancelTimer _ | .ticker | .worker | .setStop | .breakAllWait => false

namespace TimerService

variable {ι : Type*} [DecidableEq ι]

/-- After `StartAsThread`, both threads before their first test. -/
def init (expires uninit : ι → UInt64) : TimerService ι :=
  ⟨.init expires uninit, false, .test, .test, .check, .check⟩

/-- One step of the manager, by the thread whose turn it is. -/
def manages (s : TimerService ι) (a : TimerAct ι) : Option (TimerService ι) :=
  (s.manager.step a).map fun m => { s with manager := m }

/-- The loop of the ticker. A `WaitEnqueue` that finds the queue broken returns without having
put the timer in, and `TimersTick` goes on. -/
def ticker (s : TimerService ι) : Option (TimerService ι) :=
  match s.tickerLoop with
  | .test => some { s with tickerLoop := if s.stop then .out else .body }
  | .out => none
  | .body =>
    match s.manager.ticker with
    | .sleeping => s.manages .increment
    | .ticked => s.manages .beginPass
    | .visiting it =>
      if it = s.manager.timers.length then manages { s with tickerLoop := .test } .endPass
      else manages { s with enqueuePc := .check } .visit
    | .enqueuing it =>
      match s.enqueuePc with
      | .check =>
        if s.manager.timeout.breakAllWait then some { s with manager := { s.manager with ticker := .sweeping it } }
        else some { s with enqueuePc := .attempt }
      | .attempt => manages { s with enqueuePc := .wait } .enqueue
      | .wait => some { s with enqueuePc := .check }
    | .sweeping _ => s.manages .sweep

/-- The loop of the worker. A `WaitDequeue` that finds the queue broken leaves its timer null,
so no handler is called. -/
def worker (s : TimerService ι) : Option (TimerService ι) :=
  match s.workerLoop with
  | .test => some { s with workerLoop := if s.stop then .out else .body, dequeuePc := .check }
  | .out => none
  | .body =>
    match s.manager.worker with
    | .waiting =>
      match s.dequeuePc with
      | .check => some (if s.manager.timeout.breakAllWait then { s with workerLoop := .test } else { s with dequeuePc := .attempt })
      | .attempt => manages { s with dequeuePc := .wait } .dequeue
      | .wait => some { s with dequeuePc := .check }
    | .dequeued _ => s.manages .callHandler
    | .handling _ => manages { s with workerLoop := .test } .handlerReturns

def step (s : TimerService ι) : TimerServiceAct ι → Option (TimerService ι)
  | .setOneshot t => (s.manager.threadStep (.setOneshot t)).map fun m => { s with manager := m }
  | .addTimer t => s.manages (.addTimer t)
  | .cancelTimer t => s.manages (.cancelTimer t)
  | .ticker => s.ticker
  | .worker => s.worker
  | .setStop => some { s with stop := true }
  | .breakAllWait =>
    some { s with manager := { s.manager with timeout := { s.manager.timeout with breakAllWait := true } } }

variable {s u : TimerService ι}

theorem manages_stepped {a : TimerAct ι} (next : s.manages a = some u) :
    ∃ m, s.manager.Stepped a m ∧ u = { s with manager := m } := by
  obtain ⟨m, stepped, rfl⟩ := Option.map_eq_some_iff.mp next
  exact ⟨m, TimerManager.stepped stepped, rfl⟩

/-- The steps of the ticker, with their guards. -/
inductive Ticks (s : TimerService ι) : TimerService ι → Prop
  | test (loop : s.tickerLoop = .test) : Ticks s { s with tickerLoop := if s.stop then .out else .body }
  | increment (loop : s.tickerLoop = .body) (pc : s.manager.ticker = .sleeping) :
      Ticks s { s with manager := { s.manager with tick := s.manager.tick + TimerManager.resolution, ticker := .ticked } }
  | beginPass (loop : s.tickerLoop = .body) (pc : s.manager.ticker = .ticked) :
      Ticks s { s with manager := { s.manager with ticker := .visiting 0 } }
  | visit (it : Nat) (t : ι) (loop : s.tickerLoop = .body) (pc : s.manager.ticker = .visiting it)
      (found : s.manager.timers[it]? = some t) : Ticks s { s with manager := s.manager.visit it t, enqueuePc := .check }
  | unbroken (it : Nat) (loop : s.tickerLoop = .body) (pc : s.manager.ticker = .enqueuing it)
      (wait : s.enqueuePc = .check) (goes : s.manager.timeout.breakAllWait = false) :
      Ticks s { s with enqueuePc := .attempt }
  | broken (it : Nat) (loop : s.tickerLoop = .body) (pc : s.manager.ticker = .enqueuing it)
      (wait : s.enqueuePc = .check) (stops : s.manager.timeout.breakAllWait = true) :
      Ticks s { s with manager := { s.manager with ticker := .sweeping it } }
  | enqueue (it : Nat) (t : ι) (loop : s.tickerLoop = .body) (pc : s.manager.ticker = .enqueuing it)
      (wait : s.enqueuePc = .attempt) (found : s.manager.timers[it]? = some t) :
      Ticks s { s with manager := s.manager.enqueue it t, enqueuePc := .wait }
  | emptyWait (it : Nat) (loop : s.tickerLoop = .body) (pc : s.manager.ticker = .enqueuing it)
      (wait : s.enqueuePc = .wait) : Ticks s { s with enqueuePc := .check }
  | sweep (it : Nat) (t : ι) (loop : s.tickerLoop = .body) (pc : s.manager.ticker = .sweeping it)
      (found : s.manager.timers[it]? = some t) : Ticks s { s with manager := s.manager.sweep it t }
  | endPass (loop : s.tickerLoop = .body) (pc : s.manager.ticker = .visiting s.manager.timers.length) :
      Ticks s { s with manager := { s.manager with ticker := .sleeping }, tickerLoop := .test }

theorem ticks (next : s.ticker = some u) : s.Ticks u := by
  unfold ticker at next
  split at next
  · rename_i loop
    cases next
    exact .test loop
  · cases next
  · rename_i loop
    split at next
    · rename_i pc
      obtain ⟨m, stepped, rfl⟩ := manages_stepped next
      cases stepped
      exact .increment loop pc
    · rename_i pc
      obtain ⟨m, stepped, rfl⟩ := manages_stepped next
      cases stepped
      exact .beginPass loop pc
    · rename_i it pc
      split_ifs at next with finished
      · obtain ⟨m, stepped, rfl⟩ := manages_stepped next
        cases stepped
        exact .endPass loop (finished ▸ pc)
      · obtain ⟨m, stepped, rfl⟩ := manages_stepped next
        cases stepped with
        | visit it t pc found => exact .visit it t loop pc found
    · rename_i it pc
      split at next
      · rename_i wait
        split_ifs at next with flag
        · cases next
          exact .broken it loop pc wait flag
        · cases next
          exact .unbroken it loop pc wait (by simpa using flag)
      · rename_i wait
        obtain ⟨m, stepped, rfl⟩ := manages_stepped next
        cases stepped with
        | enqueue it t pc found => exact .enqueue it t loop pc wait found
      · rename_i wait
        cases next
        exact .emptyWait it loop pc wait
    · obtain ⟨m, stepped, rfl⟩ := manages_stepped next
      cases stepped with
      | sweep it t pc found => exact .sweep it t loop pc found

/-- The steps of the worker, with their guards. -/
inductive Works (s : TimerService ι) : TimerService ι → Prop
  | test (loop : s.workerLoop = .test) :
      Works s { s with workerLoop := if s.stop then .out else .body, dequeuePc := .check }
  | unbroken (loop : s.workerLoop = .body) (pc : s.manager.worker = .waiting) (wait : s.dequeuePc = .check)
      (goes : s.manager.timeout.breakAllWait = false) : Works s { s with dequeuePc := .attempt }
  | broken (loop : s.workerLoop = .body) (pc : s.manager.worker = .waiting) (wait : s.dequeuePc = .check)
      (stops : s.manager.timeout.breakAllWait = true) : Works s { s with workerLoop := .test }
  | dequeue (loop : s.workerLoop = .body) (pc : s.manager.worker = .waiting) (wait : s.dequeuePc = .attempt) :
      Works s { s with manager := s.manager.dequeue, dequeuePc := .wait }
  | emptyWait (loop : s.workerLoop = .body) (pc : s.manager.worker = .waiting) (wait : s.dequeuePc = .wait) :
      Works s { s with dequeuePc := .check }
  | callHandler (t : ι) (loop : s.workerLoop = .body) (pc : s.manager.worker = .dequeued t) :
      Works s { s with manager := { s.manager with worker := .handling t, called := s.manager.called ++ [t] } }
  | handlerReturns (t : ι) (loop : s.workerLoop = .body) (pc : s.manager.worker = .handling t) :
      Works s { s with manager := { s.manager with worker := .waiting }, workerLoop := .test }

theorem works (next : s.worker = some u) : s.Works u := by
  unfold worker at next
  split at next
  · rename_i loop
    cases next
    exact .test loop
  · cases next
  · rename_i loop
    split at next
    · rename_i pc
      split at next
      · rename_i wait
        split_ifs at next with flag
        · cases next
          exact .broken loop pc wait flag
        · cases next
          exact .unbroken loop pc wait (by simpa using flag)
      · rename_i wait
        obtain ⟨m, stepped, rfl⟩ := manages_stepped next
        cases stepped
        exact .dequeue loop pc wait
      · rename_i wait
        cases next
        exact .emptyWait loop pc wait
    · obtain ⟨m, stepped, rfl⟩ := manages_stepped next
      cases stepped with
      | callHandler t pc => exact .callHandler t loop pc
    · obtain ⟨m, stepped, rfl⟩ := manages_stepped next
      cases stepped with
      | handlerReturns t pc => exact .handlerReturns t loop pc

/-- Everything that a step can do. -/
inductive Effect (s : TimerService ι) : TimerServiceAct ι → TimerService ι → Prop
  | setOneshot (t : ι) : Effect s (.setOneshot t)
      { s with manager := s.manager.setTimer t { s.manager.timer t with oneshot := true } }
  | addTimer (t : ι) (free : s.manager.mutexHeld = false) :
      Effect s (.addTimer t) { s with manager := s.manager.addTimer t }
  | cancelTimer (t : ι) (free : s.manager.lockedTimer ≠ some t) :
      Effect s (.cancelTimer t) { s with manager := s.manager.cancelTimer t }
  | ticker {u : TimerService ι} (ticks : s.Ticks u) : Effect s .ticker u
  | worker {u : TimerService ι} (works : s.Works u) : Effect s .worker u
  | setStop : Effect s .setStop { s with stop := true }
  | breakAllWait : Effect s .breakAllWait
      { s with manager := { s.manager with timeout := { s.manager.timeout with breakAllWait := true } } }

theorem step_effect {a : TimerServiceAct ι} (next : s.step a = some u) : s.Effect a u := by
  cases a with
  | setOneshot t =>
    cases next
    exact .setOneshot t
  | addTimer t =>
    obtain ⟨m, stepped, rfl⟩ := manages_stepped next
    cases stepped with
    | addTimer t free => exact .addTimer t free
  | cancelTimer t =>
    obtain ⟨m, stepped, rfl⟩ := manages_stepped next
    cases stepped with
    | cancelTimer t free => exact .cancelTimer t free
  | ticker => exact .ticker (ticks next)
  | worker => exact .worker (works next)
  | setStop =>
    cases next
    exact .setStop
  | breakAllWait =>
    cases next
    exact .breakAllWait

/-- What a step can do to the manager: nothing, a step of the manager itself, or what only the
break flag brings about. -/
inductive Moves (m : TimerManager ι) : TimerManager ι → Prop
  | same : Moves m m
  | act {m' : TimerManager ι} (a : TimerThreadAct ι) (next : m.threadStep a = some m') : Moves m m'
  | drop (it : Nat) (broken : m.timeout.breakAllWait = true) : Moves m { m with ticker := .sweeping it }
  | breaks : Moves m { m with timeout := { m.timeout with breakAllWait := true } }

theorem Ticks.moves (ticks : s.Ticks u) : Moves s.manager u.manager := by
  cases ticks with
  | test | unbroken | emptyWait => exact .same
  | increment loop pc => exact .act (.act .increment) (by simp [TimerManager.threadStep, TimerManager.step, pc])
  | beginPass loop pc => exact .act (.act .beginPass) (by simp [TimerManager.threadStep, TimerManager.step, pc])
  | visit it t loop pc found =>
    exact .act (.act .visit) (by simp [TimerManager.threadStep, TimerManager.step, pc, found])
  | broken it loop pc wait stops => exact .drop it stops
  | enqueue it t loop pc wait found =>
    exact .act (.act .enqueue) (by simp [TimerManager.threadStep, TimerManager.step, pc, found])
  | sweep it t loop pc found =>
    exact .act (.act .sweep) (by simp [TimerManager.threadStep, TimerManager.step, pc, found])
  | endPass loop pc => exact .act (.act .endPass) (by simp [TimerManager.threadStep, TimerManager.step, pc])

theorem Works.moves (works : s.Works u) : Moves s.manager u.manager := by
  cases works with
  | test | unbroken | broken | emptyWait => exact .same
  | dequeue loop pc wait => exact .act (.act .dequeue) (by simp [TimerManager.threadStep, TimerManager.step, pc])
  | callHandler t loop pc =>
    exact .act (.act .callHandler) (by simp [TimerManager.threadStep, TimerManager.step, pc])
  | handlerReturns t loop pc =>
    exact .act (.act .handlerReturns) (by simp [TimerManager.threadStep, TimerManager.step, pc])

theorem Effect.moves {a : TimerServiceAct ι} (effect : s.Effect a u) : Moves s.manager u.manager := by
  cases effect with
  | setOneshot t => exact .act (.setOneshot t) rfl
  | addTimer t free => exact .act (.act (.addTimer t)) (by simp [TimerManager.threadStep, TimerManager.step, free])
  | cancelTimer t free =>
    exact .act (.act (.cancelTimer t)) (by simp [TimerManager.threadStep, TimerManager.step, free])
  | ticker ticks => exact ticks.moves
  | worker works => exact works.moves
  | setStop => exact .same
  | breakAllWait => exact .breaks

variable {m m' : TimerManager ι}

theorem threadStep_delivery {a : TimerThreadAct ι} (next : m.threadStep a = some m') :
    m.delivery.Moves m'.delivery := by
  cases a with
  | setOneshot t =>
    cases next
    exact .same
  | act a => exact TimerManager.step_delivery next

theorem Moves.balanced (moves : Moves m m') (balanced : m.delivery.Balanced) : m'.delivery.Balanced := by
  cases moves with
  | same | drop it broken | breaks => exact balanced
  | act a next => exact balanced.moves (threadStep_delivery next)

theorem Moves.unbroken (moves : Moves m m') (unbroken : m'.timeout.breakAllWait = false) :
    m.timeout.breakAllWait = false ∧ (m' = m ∨ ∃ a, m.threadStep a = some m') := by
  cases moves with
  | same => exact ⟨unbroken, .inl rfl⟩
  | act a next =>
    refine ⟨?_, .inr ⟨a, next⟩⟩
    exact (threadStep_delivery next).breakAllWait_eq.symm.trans unbroken
  | drop it broken =>
    rw [show m.timeout.breakAllWait = false from unbroken] at broken
    cases broken
  | breaks => cases unbroken

/-- The threads as they are before `BreakAllWait` are the ticker and the worker of the manager. -/
theorem manager_run {expires uninit : ι → UInt64} {acts : List (TimerServiceAct ι)}
    (reach : Machine.run step (init expires uninit) acts = some s) (unbroken : s.manager.timeout.breakAllWait = false) :
    ∃ managed, Machine.run TimerManager.threadStep (.init expires uninit) managed = some s.manager := by
  have simulated : s.manager.timeout.breakAllWait = false →
      ∃ managed, Machine.run TimerManager.threadStep (.init expires uninit) managed = some s.manager := by
    refine Machine.run_invariant (I := fun s => s.manager.timeout.breakAllWait = false →
      ∃ managed, Machine.run TimerManager.threadStep (.init expires uninit) managed = some s.manager) ?_ ?_ reach
    · intro v a w old next goes
      obtain ⟨before, same | ⟨managing, moved⟩⟩ := (step_effect next).moves.unbroken goes
      · rw [same]
        exact old before
      · obtain ⟨managed, ran⟩ := old before
        exact ⟨managed ++ [managing], Machine.run_snoc.mpr ⟨v.manager, ran, moved⟩⟩
    · exact fun _ => ⟨[], rfl⟩
  exact simulated unbroken

end TimerService

end ServicesFramework
