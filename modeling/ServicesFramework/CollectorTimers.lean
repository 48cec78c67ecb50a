import Mathlib.Logic.Relation
import ServicesFramework.Timer

namespace ServicesFramework

/-- Where the collector thread stands in `BufferingData` or `ForceRelayData`, whose locking is
the same: at `lg.lock()`, before the lookup in `GetBatsBuffer`, at its call of `AddTimer`, or
filling the buffer. From `locked` on it holds the mutex of the collector. -/
inductive CollectorPc (η : Type*)
  | idle
  | entering (nexthop : η)
  | locked (nexthop : η)
  | adding (nexthop : η)
  | filling
  deriving DecidableEq, Repr

/-- Where the worker stands in `HandleTimeoutBuffer`: outside, at `lg.lock()`, holding the
mutex of the collector, or after `lg.unlock()`. -/
inductive HandlerPc
  | outside
  | entering
  | locked
  | unlocked
  deriving DecidableEq, Repr

/-- The timer service with its client; `η` is the type of next hops, and the timer of a
buffer is named by the next hop of the buffer. -/
structure CollectorService (η : Type*) where
  manager : TimerManager η
  batsBufferMap : List η
  collector : CollectorPc η
  handler : HandlerPc

inductive ServiceAct (η : Type*)
  | increment
  | beginPass
  | visit
  | enqueue
  | sweep
  | endPass
  | dequeue
  | callHandler
  | handlerLock
  | handlerUnlock
  | handlerReturns
  | handleMsg (nexthop : η)
  | collectorLock
  | find
  | addTimer
  | collectorUnlock
  deriving DecidableEq, Repr

/-- The three threads of the service. -/
inductive ServiceThread
  | ticker
  | worker
  | collector
  deriving DecidableEq, Repr

namespace CollectorService

variable {η : Type*} [DecidableEq η]

/-- No next hop has been seen; the timers that `GetBatsBuffer` makes expire after 15. -/
def init (uninit : η → UInt64) : CollectorService η := ⟨.init (fun _ => 15) uninit, [], .idle, .outside⟩

def collectorHolds (s : CollectorService η) : Bool :=
  match s.collector with
  | .idle | .entering _ => false
  | .locked _ | .adding _ | .filling => true

/-- A step of the timer manager. -/
def managed (s : CollectorService η) (act : TimerAct η) : Option (CollectorService η) :=
  (s.manager.step act).map fun manager => { s with manager := manager }

def step (s : CollectorService η) : ServiceAct η → Option (CollectorService η)
  | .increment => s.managed .increment
  | .beginPass => s.managed .beginPass
  | .visit => s.managed .visit
  | .enqueue => s.managed .enqueue
  | .sweep => s.managed .sweep
  | .endPass => s.managed .endPass
  | .dequeue => s.managed .dequeue
  | .callHandler => (s.managed .callHandler).map fun s => { s with handler := .entering }
  | .handlerLock =>
    if s.handler = .entering ∧ s.collectorHolds = false then some { s with handler := .locked } else none
  | .handlerUnlock => if s.handler = .locked then some { s with handler := .unlocked } else none
  | .handlerReturns =>
    if s.handler = .unlocked then (s.managed .handlerReturns).map fun s => { s with handler := .outside } else none
  | .handleMsg nexthop =>
    if s.collector = .idle then some { s with collector := .entering nexthop } else none
  | .collectorLock =>
    match s.collector with
    | .entering nexthop =>
      if s.handler = .locked then none else some { s with collector := .locked nexthop }
    | _ => none
  | .find =>
    match s.collector with
    | .locked nexthop =>
      if nexthop ∈ s.batsBufferMap then some { s with collector := .filling }
      else some { s with batsBufferMap := nexthop :: s.batsBufferMap, collector := .adding nexthop }
    | _ => none
  | .addTimer =>
    match s.collector with
    | .adding nexthop => (s.managed (.addTimer nexthop)).map fun s => { s with collector := .filling }
    | _ => none
  | .collectorUnlock => if s.collector = .filling then some { s with collector := .idle } else none

/-- One thread can only go on when another does: the ticker, inside `WaitEnqueue` on a full
queue, needs the worker; the worker needs whoever holds the mutex of the collector, or an
expiry when the queue is empty; the collector thread needs that mutex, or that of the
manager. -/
def WaitsFor (s : CollectorService η) : ServiceThread → ServiceThread → Prop
  | .ticker, .worker =>
    (∃ it, s.manager.ticker = .enqueuing it) ∧ s.manager.timeout.poolSize ≤ s.manager.timeout.pool.length
  | .worker, .collector => s.handler = .entering ∧ s.collectorHolds = true
  | .worker, .ticker => s.handler = .outside ∧ s.manager.worker = .waiting ∧ s.manager.timeout.pool = []
  | .collector, .worker => (∃ nexthop, s.collector = .entering nexthop) ∧ s.handler = .locked
  | .collector, .ticker => (∃ nexthop, s.collector = .adding nexthop) ∧ s.manager.mutexHeld = true
  | _, _ => False

/-- The threads wait on one another in a cycle. -/
def Deadlocked (s : CollectorService η) : Prop := ∃ thread, Relation.TransGen s.WaitsFor thread thread

end CollectorService

end ServicesFramework
