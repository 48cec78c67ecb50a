import Mathlib.Logic.Function.Basic
import ServicesFramework.Lib.Machine

namespace ServicesFramework

/-- `Queue<T>` between two locked sections: the pool, its bound and the break flag.
The name, the uuid and the condition variable do not decide any result. -/
structure Queue (α : Type*) where
  pool : List α
  poolSize : Nat
  breakAllWait : Bool
  deriving DecidableEq, Repr

namespace Queue

variable {α : Type*}

/-- `Queue(name, size)`. -/
def init (size : Nat) : Queue α := ⟨[], size, false⟩

/-- `Enqueue`: one attempt under `mutex_`. -/
def enqueue (q : Queue α) (element : α) : Bool × Queue α :=
  if q.pool.length ≥ q.poolSize then (false, q)
  else (true, { q with pool := q.pool ++ [element] })

/-- `Dequeue`: one attempt under `mutex_`, with the value its reference argument has
afterwards. -/
def dequeue (q : Queue α) (element : α) : Bool × α × Queue α :=
  match q.pool with
  | [] => (false, element, q)
  | front :: rest => (true, front, { q with pool := rest })

/-- `BlockWaitStrategy::EmptyWait`: a timed wait, reported as successful however it ends. -/
def emptyWait : Bool := true

theorem enqueue_cases (q : Queue α) (element : α) :
    (q.poolSize ≤ q.pool.length ∧ q.enqueue element = (false, q)) ∨
      (q.pool.length < q.poolSize ∧ q.enqueue element = (true, { q with pool := q.pool ++ [element] })) := by
  unfold enqueue
  split
  · exact Or.inl ⟨by omega, rfl⟩
  · exact Or.inr ⟨by omega, rfl⟩

theorem dequeue_cases (q : Queue α) (element : α) :
    (q.pool = [] ∧ q.dequeue element = (false, element, q)) ∨
      ∃ front rest, q.pool = front :: rest ∧ q.dequeue element = (true, front, { q with pool := rest }) := by
  unfold dequeue
  cases q.pool with
  | nil => exact Or.inl ⟨rfl, rfl⟩
  | cons front rest => exact Or.inr ⟨front, rest, rfl, rfl⟩

end Queue

/-- Which of the two waiting loops a call runs. -/
inductive QueueOp
  | waitEnqueue
  | waitDequeue
  deriving DecidableEq, Repr

/-- Where a call stands: at the flag test that heads the loop, before its locked attempt,
inside `EmptyWait`, or returned. -/
inductive QueuePc
  | check
  | attempt
  | wait
  | ret (result : Bool)
  deriving DecidableEq, Repr

/-- One call of `WaitEnqueue` or `WaitDequeue`. `argument` is the caller's element when
the call is made, `element` the value behind the reference now. -/
structure QueueCall (α : Type*) where
  op : QueueOp
  argument : α
  element : α
  pc : QueuePc
  deriving DecidableEq, Repr

/-- One queue shared by any number of threads. A thread is the sequence of its calls, and
`ι` names the calls of all of them. The two logs list what the locked attempts did, in lock
order, with the call that did it. -/
structure QueueSystem (ι α : Type*) where
  queue : Queue α
  calls : ι → Option (QueueCall α)
  enqueued : List (ι × α)
  dequeued : List (ι × α)

inductive QueueAct (ι α : Type*)
  | call (c : ι) (op : QueueOp) (element : α)
  | step (c : ι)
  | breakAllWait
  deriving DecidableEq, Repr

namespace QueueSystem

variable {ι α : Type*} [DecidableEq ι]

def init (size : Nat) : QueueSystem ι α := ⟨.init size, fun _ => none, [], []⟩

def setCall (s : QueueSystem ι α) (c : ι) (call : QueueCall α) : QueueSystem ι α :=
  { s with calls := Function.update s.calls c (some call) }

/-- The body of the loop up to the wait. -/
def attempt (s : QueueSystem ι α) (c : ι) (call : QueueCall α) : QueueSystem ι α :=
  match call.op with
  | .waitEnqueue =>
    match s.queue.enqueue call.element with
    | (true, q) =>
      setCall { s with queue := q, enqueued := s.enqueued ++ [(c, call.element)] } c
        { call with pc := .ret true }
    | (false, q) => setCall { s with queue := q } c { call with pc := .wait }
  | .waitDequeue =>
    match s.queue.dequeue call.element with
    | (true, element, q) =>
      setCall { s with queue := q, dequeued := s.dequeued ++ [(c, element)] } c
        { call with element := element, pc := .ret true }
    | (false, element, q) => setCall { s with queue := q } c { call with element := element, pc := .wait }

def advance (s : QueueSystem ι α) (c : ι) (call : QueueCall α) : Option (QueueSystem ι α) :=
  match call.pc with
  | .check => some (s.setCall c { call with pc := if s.queue.breakAllWait then .ret false else .attempt })
  | .attempt => some (s.attempt c call)
  | .wait => some (s.setCall c { call with pc := if Queue.emptyWait then .check else .ret false })
  | .ret _ => none

/-- Each action is one atomic step: a call begins, a call goes on to its next test, locked
attempt or wait, or `BreakAllWait` sets the flag. -/
def step (s : QueueSystem ι α) : QueueAct ι α → Option (QueueSystem ι α)
  | .call c op element =>
    if (s.calls c).isNone then some (s.setCall c ⟨op, element, element, .check⟩) else none
  | .step c => (s.calls c).bind (s.advance c)
  | .breakAllWait => some { s with queue := { s.queue with breakAllWait := true } }

/-- The elements that call `c` contributed to a log. -/
def entriesOf (c : ι) (log : List (ι × α)) : List α :=
  log.filterMap fun entry => if entry.1 = c then some entry.2 else none

end QueueSystem

end ServicesFramework
