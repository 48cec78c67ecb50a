import ServicesFramework.Lib.Potential
import ServicesFramework.TimerLoops

namespace ServicesFramework

/-- What the ticker works on: its loop, the length of its list and the expiries it has put into
the queue. -/
structure TickerSide (ι : Type*) where
  loop : Loop.Pc
  wait : WaitPc
  pc : TickerPc
  length : Nat
  enqueued : List (ι × UInt64)

namespace TickerSide

variable {ι : Type*}

/-- The iterator is inside the list. -/
def Placed (side : TickerSide ι) : Prop :=
  match side.pc with
  | .sleeping | .ticked => True
  | .visiting it => it ≤ side.length
  | .enqueuing it | .sweeping it => it < side.length

/-- How many steps the ticker still has once both flags are set: three for each timer that the
pass has not come to. -/
def left (side : TickerSide ι) : Nat :=
  match side.loop with
  | .out => 0
  | .test => 1
  | .body =>
    match side.pc with
    | .sleeping => 3 * side.length + 4
    | .ticked => 3 * side.length + 3
    | .visiting it => 3 * (side.length - it) + 2
    | .sweeping it => 3 * (side.length - it)
    | .enqueuing it =>
      match side.wait with
      | .check => 3 * (side.length - it) + 1
      | .wait => 3 * (side.length - it) + 2
      | .attempt => 3 * (side.length - it) + 3

/-- Whether it is past the test of the break flag, with an expiry. -/
def chances (side : TickerSide ι) : Nat :=
  match side.loop, side.pc, side.wait with
  | .body, .enqueuing _, .attempt => 1
  | _, _, _ => 0

theorem left_le (side : TickerSide ι) : side.left ≤ 3 * side.length + 4 := by
  unfold left
  split
  · omega
  · omega
  · split
    · omega
    · omega
    · omega
    · omega
    · split <;> omega

theorem chances_le (side : TickerSide ι) : side.chances ≤ 1 := by
  unfold chances
  split <;> omega

end TickerSide

/-- What the worker works on: its loop and the handlers it has called. -/
structure WorkerSide (ι : Type*) where
  loop : Loop.Pc
  wait : WaitPc
  pc : WorkerPc ι
  called : List ι

namespace WorkerSide

variable {ι : Type*}

/-- How many steps the worker still has once both flags are set. -/
def left (side : WorkerSide ι) : Nat :=
  match side.loop, side.pc, side.wait with
  | .out, _, _ => 0
  | .test, _, _ => 1
  | .body, .handling _, _ => 2
  | .body, .dequeued _, _ => 3
  | .body, .waiting, .check => 2
  | .body, .waiting, .wait => 3
  | .body, .waiting, .attempt => 4

/-- Whether it has a timer, or is past the test of the break flag. -/
def chances (side : WorkerSide ι) : Nat :=
  match side.loop, side.pc, side.wait with
  | .body, .dequeued _, _ => 1
  | .body, .waiting, .attempt => 1
  | _, _, _ => 0

theorem left_le (side : WorkerSide ι) : side.left ≤ 4 := by
  unfold left
  split <;> omega

theorem chances_le (side : WorkerSide ι) : side.chances ≤ 1 := by
  unfold chances
  split <;> omega

end WorkerSide

namespace TimerService

variable {ι : Type*} [DecidableEq ι] {s u : TimerService ι}

omit [DecidableEq ι] in
theorem dequeue_cases (m : TimerManager ι) :
    (m.timeout.pool = [] ∧ m.dequeue = m) ∨ ∃ t rest, m.timeout.pool = t :: rest ∧
      m.dequeue = { m with timeout := { m.timeout with pool := rest }, worker := .dequeued t } := by
  unfold TimerManager.dequeue
  cases m.timeout.pool with
  | nil => exact .inl ⟨rfl, rfl⟩
  | cons t rest => exact .inr ⟨t, rest, rfl, rfl⟩

omit [DecidableEq ι] in
theorem enqueue_cases (m : TimerManager ι) (it : Nat) (t : ι) :
    m.enqueue it t = m ∨ m.enqueue it t =
      { m with
        timeout := { m.timeout with pool := m.timeout.pool ++ [t] }
        ticker := .sweeping it
        enqueued := m.enqueued ++ [(t, m.tick)] } := by
  unfold TimerManager.enqueue
  rcases m.timeout.enqueue_cases t with ⟨_, full⟩ | ⟨_, room⟩
  · rw [full]
    exact .inl rfl
  · rw [room]
    exact .inr rfl

def tickerSide (s : TimerService ι) : TickerSide ι :=
  ⟨s.tickerLoop, s.enqueuePc, s.manager.ticker, s.manager.timers.length, s.manager.enqueued⟩

def workerSide (s : TimerService ι) : WorkerSide ι := ⟨s.workerLoop, s.dequeuePc, s.manager.worker, s.manager.called⟩

/-- `Stop` has made both of its assignments. -/
structure Stopped (s : TimerService ι) : Prop where
  stop : s.stop = true
  broken : s.manager.timeout.breakAllWait = true

theorem Ticks.workerSide (ticks : s.Ticks u) : u.workerSide = s.workerSide := by
  cases ticks with
  | test | increment | beginPass | unbroken | broken | emptyWait | endPass => rfl
  | visit it t loop pc found =>
    unfold TimerManager.visit
    split <;> rfl
  | enqueue it t loop pc wait found =>
    rcases enqueue_cases s.manager it t with same | put
    · rw [same]
      rfl
    · rw [put]
      rfl
  | sweep it t loop pc found =>
    unfold TimerManager.sweep
    split <;> rfl

omit [DecidableEq ι] in
theorem Works.tickerSide (works : s.Works u) : u.tickerSide = s.tickerSide := by
  cases works with
  | test | unbroken | broken | emptyWait | callHandler | handlerReturns => rfl
  | dequeue loop pc wait =>
    rcases dequeue_cases s.manager with ⟨_, same⟩ | ⟨t, rest, _, taken⟩
    · rw [same]
      rfl
    · rw [taken]
      rfl

theorem Ticks.placed (ticks : s.Ticks u) (placed : s.tickerSide.Placed) : u.tickerSide.Placed := by
  cases ticks with
  | test | unbroken | emptyWait => exact placed
  | increment | endPass => trivial
  | beginPass loop pc => exact Nat.zero_le _
  | visit it t loop pc found =>
    have bound : it < s.manager.timers.length := (List.getElem?_eq_some_iff.mp found).1
    unfold TimerManager.visit
    split <;> exact bound
  | broken it loop pc wait stops =>
    rw [TickerSide.Placed, show s.tickerSide.pc = _ from pc] at placed
    exact placed
  | enqueue it t loop pc wait found =>
    have bound : it < s.manager.timers.length := (List.getElem?_eq_some_iff.mp found).1
    rcases enqueue_cases s.manager it t with same | put
    · rw [same]
      exact placed
    · rw [put]
      exact bound
  | sweep it t loop pc found =>
    have bound : it < s.manager.timers.length := (List.getElem?_eq_some_iff.mp found).1
    unfold TimerManager.sweep
    split
    · show it ≤ (s.manager.timers.eraseIdx it).length
      rw [List.length_eraseIdx_of_lt bound]
      omega
    · exact bound

/-- With both flags set, each step of the ticker brings it closer to its exit. -/
theorem Ticks.lowers (ticks : s.Ticks u) (stopped : s.Stopped) : u.tickerSide.left + 1 ≤ s.tickerSide.left := by
  cases ticks with
  | test loop => simp [tickerSide, TickerSide.left, loop, stopped.stop]
  | increment loop pc => simp [tickerSide, TickerSide.left, loop, pc]
  | beginPass loop pc => simp [tickerSide, TickerSide.left, loop, pc]
  | visit it t loop pc found =>
    unfold TimerManager.visit
    split <;> simp [tickerSide, TickerSide.left, loop, pc, TimerManager.setTimer]
  | unbroken it loop pc wait goes =>
    rw [stopped.broken] at goes
    cases goes
  | broken it loop pc wait stops => simp [tickerSide, TickerSide.left, loop, pc, wait]
  | enqueue it t loop pc wait found =>
    rcases enqueue_cases s.manager it t with same | put
    · simp [tickerSide, TickerSide.left, loop, pc, wait, same]
    · simp [tickerSide, TickerSide.left, loop, pc, wait, put]
  | emptyWait it loop pc wait => simp [tickerSide, TickerSide.left, loop, pc, wait]
  | sweep it t loop pc found =>
    have bound : it < s.manager.timers.length := (List.getElem?_eq_some_iff.mp found).1
    unfold TimerManager.sweep
    split
    · simp [tickerSide, TickerSide.left, loop, pc, List.length_eraseIdx_of_lt bound]
      omega
    · simp [tickerSide, TickerSide.left, loop, pc]
      omega
  | endPass loop pc => simp [tickerSide, TickerSide.left, loop, pc]

/-- With both flags set, the ticker puts an expiry into the queue only from behind the test. -/
theorem Ticks.enqueued (ticks : s.Ticks u) (stopped : s.Stopped) :
    ∃ new, u.manager.enqueued = s.manager.enqueued ++ new ∧ new.length + u.tickerSide.chances ≤ s.tickerSide.chances := by
  cases ticks with
  | test loop => exact ⟨[], by simp, by simp [tickerSide, TickerSide.chances, loop, stopped.stop]⟩
  | increment loop pc | beginPass loop pc | broken it loop pc wait stops | emptyWait it loop pc wait
  | endPass loop pc => exact ⟨[], by simp, by simp [tickerSide, TickerSide.chances]⟩
  | visit it t loop pc found =>
    refine ⟨[], ?_, ?_⟩ <;> unfold TimerManager.visit <;>
      split <;> simp [tickerSide, TickerSide.chances, TimerManager.setTimer]
  | unbroken it loop pc wait goes =>
    rw [stopped.broken] at goes
    cases goes
  | enqueue it t loop pc wait found =>
    rcases enqueue_cases s.manager it t with same | put
    · exact ⟨[], by simp [same], by simp [tickerSide, TickerSide.chances]⟩
    · exact ⟨[(t, s.manager.tick)], by simp [put], by simp [tickerSide, TickerSide.chances, loop, pc, wait, put]⟩
  | sweep it t loop pc found =>
    refine ⟨[], ?_, ?_⟩ <;> unfold TimerManager.sweep <;> split <;> simp [tickerSide, TickerSide.chances]

omit [DecidableEq ι] in
/-- With both flags set, each step of the worker brings it closer to its exit. -/
theorem Works.lowers (works : s.Works u) (stopped : s.Stopped) : u.workerSide.left + 1 ≤ s.workerSide.left := by
  cases works with
  | test loop => simp [workerSide, WorkerSide.left, loop, stopped.stop]
  | unbroken loop pc wait goes =>
    rw [stopped.broken] at goes
    cases goes
  | broken loop pc wait stops => simp [workerSide, WorkerSide.left, loop, pc, wait]
  | dequeue loop pc wait =>
    rcases dequeue_cases s.manager with ⟨_, same⟩ | ⟨t, rest, _, taken⟩
    · simp [workerSide, WorkerSide.left, loop, pc, wait, same]
    · simp [workerSide, WorkerSide.left, loop, pc, wait, taken]
  | emptyWait loop pc wait => simp [workerSide, WorkerSide.left, loop, pc, wait]
  | callHandler t loop pc => simp [workerSide, WorkerSide.left, loop, pc]
  | handlerReturns t loop pc => simp [workerSide, WorkerSide.left, loop, pc]

omit [DecidableEq ι] in
/-- With both flags set, the worker calls the handler of a timer that it has, or takes one from
behind the test. -/
theorem Works.called (works : s.Works u) (stopped : s.Stopped) :
    ∃ new, u.manager.called = s.manager.called ++ new ∧ new.length + u.workerSide.chances ≤ s.workerSide.chances := by
  cases works with
  | test loop => exact ⟨[], by simp, by simp [workerSide, WorkerSide.chances, stopped.stop]⟩
  | unbroken loop pc wait goes =>
    rw [stopped.broken] at goes
    cases goes
  | broken loop pc wait stops | emptyWait loop pc wait | handlerReturns t loop pc =>
    exact ⟨[], by simp, by simp [workerSide, WorkerSide.chances, pc]⟩
  | dequeue loop pc wait =>
    rcases dequeue_cases s.manager with ⟨_, same⟩ | ⟨t, rest, _, taken⟩
    · exact ⟨[], by simp [same], by simp [workerSide, WorkerSide.chances, pc, same]⟩
    · exact ⟨[], by simp [taken], by simp [workerSide, WorkerSide.chances, loop, pc, wait, taken]⟩
  | callHandler t loop pc => exact ⟨[t], rfl, by simp [workerSide, WorkerSide.chances, loop, pc]⟩

theorem Effect.stopped {a : TimerServiceAct ι} (effect : s.Effect a u) (stopped : s.Stopped) : u.Stopped := by
  have broken : u.manager.timeout.breakAllWait = true := by
    by_contra goes
    have unbroken := (effect.moves.unbroken (by simpa using goes)).1
    rw [stopped.broken] at unbroken
    cases unbroken
  refine ⟨?_, broken⟩
  cases effect with
  | setOneshot | addTimer | cancelTimer | breakAllWait => exact stopped.stop
  | ticker ticks => cases ticks <;> exact stopped.stop
  | worker works => cases works <;> exact stopped.stop
  | setStop => rfl

theorem Effect.placed {a : TimerServiceAct ι} (effect : s.Effect a u) (placed : s.tickerSide.Placed) :
    u.tickerSide.Placed := by
  cases effect with
  | setOneshot | cancelTimer | setStop | breakAllWait => exact placed
  | addTimer t free =>
    have asleep : (s.manager.addTimer t).ticker = s.manager.ticker := by
      unfold TimerManager.addTimer
      split_ifs <;> rfl
    rcases TimerManager.mutexHeld_eq_false free with pc | pc <;> simp [tickerSide, TickerSide.Placed, asleep, pc]
  | ticker ticks => exact ticks.placed placed
  | worker works =>
    rw [works.tickerSide]
    exact placed

theorem Effect.tickerSide {a : TimerServiceAct ι} (effect : s.Effect a u) (other : a ≠ .ticker)
    (adds : a.adds = false) : u.tickerSide = s.tickerSide := by
  cases effect with
  | setOneshot | cancelTimer | setStop | breakAllWait => rfl
  | addTimer t free => cases adds
  | ticker ticks => exact absurd rfl other
  | worker works => exact works.tickerSide

/-- A timer that is added is a timer more for the next pass. -/
theorem addTimer_left (t : ι) (free : s.manager.mutexHeld = false) :
    (TimerService.tickerSide { s with manager := s.manager.addTimer t }).left ≤ s.tickerSide.left + 3 := by
  rcases TimerManager.addTimer_cases s.manager t with same | ⟨_, _, done⟩
  · rw [same]
    exact Nat.le_add_right _ _
  · rw [done]
    cases loop : s.tickerLoop with
    | test | out => simp [tickerSide, TickerSide.left, loop]
    | body =>
      rcases TimerManager.mutexHeld_eq_false free with pc | pc
      · simp [tickerSide, TickerSide.left, loop, pc, TimerManager.setTimer]
        omega
      · simp [tickerSide, TickerSide.left, loop, pc, TimerManager.setTimer]
        omega

/-- What the ticker still has to do grows only by the timers that are added. -/
theorem Effect.ticker_pays {a : TimerServiceAct ι} (effect : s.Effect a u) (stopped : s.Stopped) :
    u.tickerSide.left + (if a == .ticker then 1 else 0) ≤ s.tickerSide.left + if a.adds then 3 else 0 := by
  by_cases mine : a = .ticker
  · subst mine
    cases effect with
    | ticker ticks => exact ticks.lowers stopped
  · rw [if_neg (by simpa using mine)]
    cases adds : a.adds with
    | true =>
      cases effect with
      | addTimer t free => exact addTimer_left t free
      | setOneshot | cancelTimer | ticker | worker | setStop | breakAllWait => cases adds
    | false => simp [effect.tickerSide mine adds]

theorem Effect.workerSide {a : TimerServiceAct ι} (effect : s.Effect a u) (other : a ≠ .worker) :
    u.workerSide = s.workerSide := by
  cases effect with
  | setOneshot | cancelTimer | setStop | breakAllWait => rfl
  | addTimer t free =>
    rcases TimerManager.addTimer_cases s.manager t with same | ⟨_, _, done⟩
    · rw [same]
    · rw [done]
      rfl
  | ticker ticks => exact ticks.workerSide
  | worker works => exact absurd rfl other

theorem Effect.worker_pays {a : TimerServiceAct ι} (effect : s.Effect a u) (stopped : s.Stopped) :
    u.workerSide.left + (if a == .worker then 1 else 0) ≤ s.workerSide.left := by
  by_cases mine : a = .worker
  · subst mine
    cases effect with
    | worker works => exact works.lowers stopped
  · rw [if_neg (by simpa using mine), effect.workerSide mine]
    exact le_rfl

theorem Effect.called {a : TimerServiceAct ι} (effect : s.Effect a u) (stopped : s.Stopped) :
    ∃ new, u.manager.called = s.manager.called ++ new ∧ new.length + u.workerSide.chances ≤ s.workerSide.chances := by
  by_cases mine : a = .worker
  · subst mine
    cases effect with
    | worker works => exact works.called stopped
  · have side := effect.workerSide mine
    refine ⟨[], ?_, by simp [side]⟩
    rw [List.append_nil]
    exact congrArg WorkerSide.called side

theorem Effect.enqueued {a : TimerServiceAct ι} (effect : s.Effect a u) (stopped : s.Stopped) :
    ∃ new, u.manager.enqueued = s.manager.enqueued ++ new ∧ new.length + u.tickerSide.chances ≤ s.tickerSide.chances := by
  by_cases mine : a = .ticker
  · subst mine
    cases effect with
    | ticker ticks => exact ticks.enqueued stopped
  · cases adds : a.adds with
    | true =>
      cases effect with
      | addTimer t free =>
        rcases TimerManager.addTimer_cases s.manager t with same | ⟨_, _, done⟩
        · exact ⟨[], by simp [same], by simp [TimerService.tickerSide, TickerSide.chances, same]⟩
        · refine ⟨[], by simp [done, TimerManager.setTimer], ?_⟩
          simp [TimerService.tickerSide, TickerSide.chances, done, TimerManager.setTimer]
      | setOneshot | cancelTimer | ticker | worker | setStop | breakAllWait => cases adds
    | false =>
      have side := effect.tickerSide mine adds
      refine ⟨[], ?_, by simp [side]⟩
      rw [List.append_nil]
      exact congrArg TickerSide.enqueued side

/-- The ticker is never held up: it has a next step until it is out of its loop. -/
theorem ticker_enabled (placed : s.tickerSide.Placed) : s.tickerLoop = .out ∨ (s.step .ticker).isSome := by
  cases loop : s.tickerLoop with
  | out => exact .inl rfl
  | test => exact .inr (by simp [step, ticker, loop])
  | body =>
    refine .inr ?_
    cases pc : s.manager.ticker with
    | sleeping => simp [step, ticker, loop, pc, manages, TimerManager.step]
    | ticked => simp [step, ticker, loop, pc, manages, TimerManager.step]
    | visiting it =>
      rw [TickerSide.Placed, show s.tickerSide.pc = _ from pc] at placed
      rcases Nat.lt_or_eq_of_le placed with inside | finished
      · have inside : it < s.manager.timers.length := inside
        simp [step, ticker, loop, pc, manages, TimerManager.step, inside, Nat.ne_of_lt inside]
      · have finished : it = s.manager.timers.length := finished
        simp [step, ticker, loop, pc, manages, TimerManager.step, finished]
    | enqueuing it =>
      rw [TickerSide.Placed, show s.tickerSide.pc = _ from pc] at placed
      have inside : it < s.manager.timers.length := placed
      cases wait : s.enqueuePc with
      | check =>
        cases flag : s.manager.timeout.breakAllWait <;> simp [step, ticker, loop, pc, wait, flag]
      | attempt => simp [step, ticker, loop, pc, wait, manages, TimerManager.step, inside]
      | wait => simp [step, ticker, loop, pc, wait]
    | sweeping it =>
      rw [TickerSide.Placed, show s.tickerSide.pc = _ from pc] at placed
      have inside : it < s.manager.timers.length := placed
      simp [step, ticker, loop, pc, manages, TimerManager.step, inside]

theorem worker_enabled (s : TimerService ι) : s.workerLoop = .out ∨ (s.step .worker).isSome := by
  cases loop : s.workerLoop with
  | out => exact .inl rfl
  | test => exact .inr (by simp [step, worker, loop])
  | body =>
    refine .inr ?_
    cases pc : s.manager.worker with
    | waiting =>
      cases wait : s.dequeuePc <;> simp [step, worker, loop, pc, wait, manages, TimerManager.step]
    | dequeued t => simp [step, worker, loop, pc, manages, TimerManager.step]
    | handling t => simp [step, worker, loop, pc, manages, TimerManager.step]

/-- What every state keeps, stopped or not. -/
structure Kept (s : TimerService ι) : Prop where
  placed : s.tickerSide.Placed
  balanced : s.manager.delivery.Balanced

theorem Kept.step {a : TimerServiceAct ι} (kept : s.Kept) (next : s.step a = some u) : u.Kept :=
  ⟨(step_effect next).placed kept.placed, (step_effect next).moves.balanced kept.balanced⟩

omit [DecidableEq ι] in
theorem sum_adds (acts : List (TimerServiceAct ι)) :
    (acts.map fun a => if a.adds then 3 else 0).sum = 3 * acts.countP TimerServiceAct.adds := by
  induction acts with
  | nil => rfl
  | cons a acts ih =>
    rw [List.map_cons, List.sum_cons, List.countP_cons, ih]
    split <;> omega

/-- `Stop` gets both threads to their end: in every run after its two assignments the ticker
makes at most three steps for each timer of the list, and four, the worker at most four, and
neither is ever held up. A call of a handler is one step of the worker, so this is about handlers
that return. At most one more expiry goes into the queue and at most one more handler is called;
all other expiries of the queue stay there. -/
theorem stop_ends_threads (expires uninit : ι → UInt64) (before after : List (TimerServiceAct ι))
    (s u : TimerService ι) (reach : Machine.run step (init expires uninit) before = some s) (stopped : s.Stopped)
    (later : Machine.run step s after = some u) :
    after.count .ticker ≤ 3 * (s.manager.timers.length + after.countP TimerServiceAct.adds) + 4 ∧
      after.count .worker ≤ 4 ∧
      (u.tickerLoop = .out ∨ (u.step .ticker).isSome) ∧ (u.workerLoop = .out ∨ (u.step .worker).isSome) ∧
      (∃ new, u.manager.called = s.manager.called ++ new ∧ new.length ≤ 1) ∧
      (∃ new, u.manager.enqueued = s.manager.enqueued ++ new ∧ new.length ≤ 1) ∧
      u.manager.enqueued.map Prod.fst = u.manager.called ++ u.manager.delivery.held ++ u.manager.timeout.pool := by
  have start : (init expires uninit : TimerService ι).Kept := ⟨trivial, rfl⟩
  have kept : u.Kept := by
    refine Machine.run_invariant (fun _ _ _ old next => old.step next) ?_ later
    exact Machine.run_invariant (fun _ _ _ old next => old.step next) start reach
  have keep : ∀ (v : TimerService ι) a w, v.Stopped → v.step a = some w → w.Stopped :=
    fun _ _ _ old next => (step_effect next).stopped old
  have ticker := Machine.run_budget keep (fun v => v.tickerSide.left) (· == .ticker) (fun a => if a.adds then 3 else 0)
    (fun _ _ _ old next => (step_effect next).ticker_pays old) stopped later
  have worker := Machine.run_budget keep (fun v => v.workerSide.left) (· == .worker) (fun _ => 0)
    (fun _ _ _ old next => (step_effect next).worker_pays old) stopped later
  obtain ⟨called, calls, fewCalls⟩ := Machine.run_log_budget keep (fun v => v.manager.called)
    (fun v => v.workerSide.chances) (fun _ _ _ old next => (step_effect next).called old) stopped later
  obtain ⟨enqueued, puts, fewPuts⟩ := Machine.run_log_budget keep (fun v => v.manager.enqueued)
    (fun v => v.tickerSide.chances) (fun _ _ _ old next => (step_effect next).enqueued old) stopped later
  have tickerBound : s.tickerSide.left ≤ 3 * s.manager.timers.length + 4 := s.tickerSide.left_le
  have workerBound := s.workerSide.left_le
  have callBound := s.workerSide.chances_le
  have putBound := s.tickerSide.chances_le
  rw [sum_adds] at ticker
  refine ⟨?_, ?_, ticker_enabled kept.placed, worker_enabled u, ⟨called, calls, by omega⟩, ⟨enqueued, puts, by omega⟩,
    kept.balanced⟩
  · have counted : after.count .ticker = after.countP (· == .ticker) := rfl
    omega
  · have counted : after.count .worker = after.countP (· == .worker) := rfl
    simp only [List.map_const', List.sum_replicate, smul_zero] at worker
    omega

/-- A timer of 5 ms; the worker has dequeued its expiry when `Stop` comes. -/
def stopDuringCall : List (TimerServiceAct Nat) :=
  [.addTimer 0] ++ List.replicate 8 .ticker ++ List.replicate 3 .worker ++ [.setStop, .breakAllWait]

theorem stop_ends_threads_during_call :
    ∃ s u, Machine.run step (init (fun _ => 5) fun _ => 0) stopDuringCall = some s ∧
      Machine.run step s (List.replicate 3 .worker ++ [.ticker]) = some u ∧
      u.tickerLoop = .out ∧ u.workerLoop = .out ∧ s.manager.called = [] ∧ u.manager.called = [0] ∧
      (u.tickerLoop = .out ∨ (u.step .ticker).isSome) := by
  obtain ⟨s, u, reach, later, stop, broken, ends⟩ : ∃ s u,
      Machine.run step (init (fun _ => 5) fun _ => 0) stopDuringCall = some s ∧
      Machine.run step s (List.replicate 3 .worker ++ [.ticker]) = some u ∧ s.stop = true ∧
      s.manager.timeout.breakAllWait = true ∧ u.tickerLoop = .out ∧ u.workerLoop = .out ∧ s.manager.called = [] ∧
      u.manager.called = [0] := ⟨_, _, rfl, rfl, rfl, rfl, rfl, rfl, rfl, rfl⟩
  have result := stop_ends_threads (fun _ => 5) (fun _ => 0) stopDuringCall _ s u reach ⟨stop, broken⟩ later
  exact ⟨s, u, reach, later, ends.1, ends.2.1, ends.2.2.1, ends.2.2.2, result.2.2.1⟩

end TimerService

end ServicesFramework
