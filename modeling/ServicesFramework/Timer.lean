import Mathlib.Data.List.Nodup
import ServicesFramework.Queue

namespace ServicesFramework

/-- `Timer`. Its handler is named by the timer itself, its mutex by the states of the ticker
in which it is held. -/
structure Timer where
  refcnt : Int
  cancelled : Bool
  oneshot : Bool
  expires : UInt64
  start : UInt64
  deriving DecidableEq, Repr

/-- `Timer(expire, hldr)`, which leaves `start` uninitialised. -/
def Timer.init (expire uninit : UInt64) : Timer := ⟨1, false, false, expire, uninit⟩

/-- The assignments of `TimersTick` to a timer that has expired. -/
def Timer.expire (timer : Timer) (tick : UInt64) : Timer :=
  let timer := if timer.oneshot then { timer with cancelled := true, refcnt := timer.refcnt - 1 } else timer
  { timer with start := tick }

/-- Where the ticker thread stands: asleep, between the two sections of its loop body, or in
`TimersTick` with the iterator of its loop. From `visiting` on it holds `mutex_`; in
`enqueuing`, inside `WaitEnqueue`, and in `sweeping` it holds the mutex of the timer at the
iterator as well. -/
inductive TickerPc
  | sleeping
  | ticked
  | visiting (it : Nat)
  | enqueuing (it : Nat)
  | sweeping (it : Nat)
  deriving DecidableEq, Repr

/-- Where the worker stands: in `WaitDequeue`, or with a timer before or inside the call of
its handler. -/
inductive WorkerPc (ι : Type*)
  | waiting
  | dequeued (t : ι)
  | handling (t : ι)
  deriving DecidableEq, Repr

/-- `TimerManager` with its ticker and its one worker; `ι` is the type of timer pointers. The
last four fields are history: the tick at which a timer was added, the calls of
`CancelTimer`, the expiries put into `timeout_` with their tick, and the handler calls. -/
structure TimerManager (ι : Type*) where
  timer : ι → Timer
  timers : List ι
  tick : UInt64
  timeout : Queue ι
  ticker : TickerPc
  worker : WorkerPc ι
  added : ι → Option UInt64
  cancels : List ι
  enqueued : List (ι × UInt64)
  called : List ι

/-- The calls of clients, which may be made from any thread, the steps of the ticker and
those of the worker. -/
inductive TimerAct (ι : Type*)
  | addTimer (t : ι)
  | addOneshotTimer (t : ι)
  | cancelTimer (t : ι)
  | increment
  | beginPass
  | visit
  | enqueue
  | sweep
  | endPass
  | dequeue
  | callHandler
  | handlerReturns
  deriving DecidableEq, Repr

namespace TimerManager

variable {ι : Type*} [DecidableEq ι]

def resolution : UInt64 := 5

/-- After `InitThreadPool`, with fresh timers. -/
def init (expires uninit : ι → UInt64) : TimerManager ι where
  timer := fun t => .init (expires t) (uninit t)
  timers := []
  tick := 0
  timeout := .init 10
  ticker := .sleeping
  worker := .waiting
  added := fun _ => none
  cancels := []
  enqueued := []
  called := []

def setTimer (m : TimerManager ι) (t : ι) (timer : Timer) : TimerManager ι :=
  { m with timer := Function.update m.timer t timer }

/-- The ticker holds `mutex_` during the whole of `TimersTick`. -/
def mutexHeld (m : TimerManager ι) : Bool :=
  match m.ticker with
  | .sleeping | .ticked => false
  | .visiting _ | .enqueuing _ | .sweeping _ => true

/-- The timer whose mutex the ticker holds. -/
def lockedTimer (m : TimerManager ι) : Option ι :=
  match m.ticker with
  | .sleeping | .ticked | .visiting _ => none
  | .enqueuing it | .sweeping it => m.timers[it]?

/-- The locked section of `AddTimer`, after its two tests; a failed test throws or returns
and changes nothing. -/
def addTimer (m : TimerManager ι) (t : ι) : TimerManager ι :=
  if (m.timer t).expires % resolution ≠ 0 then m
  else if (m.timer t).expires ≤ 0 then m
  else
    { m.setTimer t { m.timer t with start := m.tick } with
      timers := m.timers ++ [t]
      added := Function.update m.added t (some m.tick) }

/-- `AddOneshotTimer`; nobody else looks at a fresh timer before it is in the list, so the
flag is set in the same step. -/
def addOneshotTimer (m : TimerManager ι) (t : ι) : TimerManager ι :=
  (m.setTimer t { m.timer t with oneshot := true }).addTimer t

/-- `CancelTimer`. -/
def cancelTimer (m : TimerManager ι) (t : ι) : TimerManager ι :=
  { m.setTimer t { m.timer t with refcnt := (m.timer t).refcnt - 1, cancelled := true } with
    cancels := m.cancels ++ [t] }

/-- The test of `TimersTick`, and what it does up to `WaitEnqueue`. -/
def visit (m : TimerManager ι) (it : Nat) (t : ι) : TimerManager ι :=
  if (m.timer t).cancelled = false ∧ (m.timer t).expires + (m.timer t).start = m.tick then
    { m.setTimer t ((m.timer t).expire m.tick) with ticker := .enqueuing it }
  else { m with ticker := .sweeping it }

/-- One attempt of `WaitEnqueue`; without `Stop` it is repeated until it succeeds. -/
def enqueue (m : TimerManager ι) (it : Nat) (t : ι) : TimerManager ι :=
  match m.timeout.enqueue t with
  | (true, timeout) =>
    { m with timeout := timeout, ticker := .sweeping it, enqueued := m.enqueued ++ [(t, m.tick)] }
  | (false, timeout) => { m with timeout := timeout }

/-- The end of the loop body: erase the timer or go on to the next. -/
def sweep (m : TimerManager ι) (it : Nat) (t : ι) : TimerManager ι :=
  if (m.timer t).cancelled ∧ (m.timer t).refcnt ≤ 0 then
    { m with timers := m.timers.eraseIdx it, ticker := .visiting it }
  else { m with ticker := .visiting (it + 1) }

/-- One attempt of `WaitDequeue`. -/
def dequeue (m : TimerManager ι) : TimerManager ι :=
  match m.timeout.pool with
  | [] => m
  | t :: rest => { m with timeout := { m.timeout with pool := rest }, worker := .dequeued t }

def step (m : TimerManager ι) : TimerAct ι → Option (TimerManager ι)
  | .addTimer t => if m.mutexHeld then none else some (m.addTimer t)
  | .addOneshotTimer t => if m.mutexHeld then none else some (m.addOneshotTimer t)
  | .cancelTimer t => if m.lockedTimer = some t then none else some (m.cancelTimer t)
  | .increment =>
    match m.ticker with
    | .sleeping => some { m with tick := m.tick + resolution, ticker := .ticked }
    | _ => none
  | .beginPass =>
    match m.ticker with
    | .ticked => some { m with ticker := .visiting 0 }
    | _ => none
  | .visit =>
    match m.ticker with
    | .visiting it => m.timers[it]?.map (m.visit it)
    | _ => none
  | .enqueue =>
    match m.ticker with
    | .enqueuing it => m.timers[it]?.map (m.enqueue it)
    | _ => none
  | .sweep =>
    match m.ticker with
    | .sweeping it => m.timers[it]?.map (m.sweep it)
    | _ => none
  | .endPass =>
    match m.ticker with
    | .visiting it => if it = m.timers.length then some { m with ticker := .sleeping } else none
    | _ => none
  | .dequeue =>
    match m.worker with
    | .waiting => some m.dequeue
    | _ => none
  | .callHandler =>
    match m.worker with
    | .dequeued t => some { m with worker := .handling t, called := m.called ++ [t] }
    | _ => none
  | .handlerReturns =>
    match m.worker with
    | .handling _ => some { m with worker := .waiting }
    | _ => none

variable {m m' : TimerManager ι}

/-- The steps that are enabled, with their guards. -/
inductive Stepped (m : TimerManager ι) : TimerAct ι → TimerManager ι → Prop
  | addTimer (t : ι) (free : m.mutexHeld = false) : Stepped m (.addTimer t) (m.addTimer t)
  | addOneshotTimer (t : ι) (free : m.mutexHeld = false) : Stepped m (.addOneshotTimer t) (m.addOneshotTimer t)
  | cancelTimer (t : ι) (free : m.lockedTimer ≠ some t) : Stepped m (.cancelTimer t) (m.cancelTimer t)
  | increment (pc : m.ticker = .sleeping) :
      Stepped m .increment { m with tick := m.tick + resolution, ticker := .ticked }
  | beginPass (pc : m.ticker = .ticked) : Stepped m .beginPass { m with ticker := .visiting 0 }
  | visit (it : Nat) (t : ι) (pc : m.ticker = .visiting it) (found : m.timers[it]? = some t) :
      Stepped m .visit (m.visit it t)
  | enqueue (it : Nat) (t : ι) (pc : m.ticker = .enqueuing it) (found : m.timers[it]? = some t) :
      Stepped m .enqueue (m.enqueue it t)
  | sweep (it : Nat) (t : ι) (pc : m.ticker = .sweeping it) (found : m.timers[it]? = some t) :
      Stepped m .sweep (m.sweep it t)
  | endPass (pc : m.ticker = .visiting m.timers.length) : Stepped m .endPass { m with ticker := .sleeping }
  | dequeue (pc : m.worker = .waiting) : Stepped m .dequeue m.dequeue
  | callHandler (t : ι) (pc : m.worker = .dequeued t) :
      Stepped m .callHandler { m with worker := .handling t, called := m.called ++ [t] }
  | handlerReturns (t : ι) (pc : m.worker = .handling t) : Stepped m .handlerReturns { m with worker := .waiting }

theorem stepped {a : TimerAct ι} (next : m.step a = some m') : m.Stepped a m' := by
  cases a with
  | addTimer t | addOneshotTimer t =>
    simp only [step] at next
    split_ifs at next with held
    cases next
    constructor
    simpa using held
  | cancelTimer t =>
    simp only [step] at next
    split_ifs at next with held
    cases next
    exact .cancelTimer t held
  | visit | enqueue | sweep =>
    simp only [step] at next
    split at next
    · rename_i it pc
      obtain ⟨t, found, rfl⟩ := Option.map_eq_some_iff.mp next
      constructor
      · exact pc
      · exact found
    · cases next
  | endPass =>
    simp only [step] at next
    split at next
    · rename_i it pc
      split_ifs at next with finished
      cases next
      exact .endPass (finished ▸ pc)
    · cases next
  | increment | beginPass | dequeue | callHandler | handlerReturns =>
    simp only [step] at next
    split at next
    · rename_i pc
      cases next
      constructor
      exact pc
    · cases next

end TimerManager

end ServicesFramework
