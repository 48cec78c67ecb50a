import ServicesFramework.NodeManager

namespace ServicesFramework

/-- The test of `StopSignal`. -/
def BaseMsg.stopSignal (msg : BaseMsg) : Bool := msg.type == .signal && msg.signal == .stop

/-- What a thread is for: it runs `DoWork` of a node, bound to a channel, or it is a thread
from outside (the poller, a timer, the application) that calls `Dispatch` of a node. -/
inductive Role (ν : Type*)
  | worker (n : ν) (channel : Nat)
  | producer (n : ν)
  deriving DecidableEq, Repr

def Role.node {ν : Type*} : Role ν → ν
  | .worker n _ => n
  | .producer n => n

/-- The nodes as they are connected, their threads (`none` names no thread), and the virtual
functions of the nodes: which messages `HandleMsg` may dispatch for the one it is given, and
which of the node's channels `Dispatch` writes a message to, if any. `Node` has a `Dispatch`,
and a class may override it. -/
structure Services (ν ι : Type*) where
  nodes : ν → Node
  role : ι → Option (Role ν)
  handleMsg : ν → BaseMsg → List BaseMsg → Bool
  dispatch : ν → BaseMsg → Option Nat := fun n => (nodes n).dispatch
  dispatch_mem : ∀ n msg channel, dispatch n msg = some channel → channel ∈ (nodes n).channels .chnOut := by
    exact fun _ _ _ => Node.dispatch_mem

/-- Inside `WaitEnqueue` or `WaitDequeue`: at the flag test, before the locked attempt, in
`EmptyWait`. -/
inductive WaitPc
  | check
  | attempt
  | wait
  deriving DecidableEq, Repr

/-- Where a thread stands. `top` is the loop of `DoWork`, and for a thread from outside the
time between two calls. `dispatch` has the messages that are still to be dispatched. -/
inductive ThreadPc
  | top
  | read (pc : WaitPc)
  | handle (msg : BaseMsg)
  | dispatch (msgs : List BaseMsg)
  | write (channel : Nat) (msg : BaseMsg) (rest : List BaseMsg) (pc : WaitPc)
  | exit
  deriving DecidableEq, Repr

/-- The messages that a thread holds. -/
def ThreadPc.held : ThreadPc → List BaseMsg
  | .handle msg => [msg]
  | .dispatch msgs => msgs
  | .write _ msg rest _ => msg :: rest
  | .top | .read _ | .exit => []

/-- A locked attempt that put a message into a channel, or took one out. -/
structure Transfer (ι : Type*) where
  thread : ι
  channel : Nat
  msg : BaseMsg
  deriving DecidableEq, Repr

/-- The running services. The last three fields only record. -/
structure Network (ν ι : Type*) where
  queues : Nat → Queue BaseMsg
  isStop : ν → Bool
  pcs : ι → ThreadPc
  enqueued : List (Transfer ι)
  dequeued : List (Transfer ι)
  written : List (ν × BaseMsg)

/-- A thread from outside calls `Dispatch`, `HandleMsg` of a worker decides what to
dispatch, or a thread goes on. -/
inductive NetworkAct (ι : Type*)
  | produce (t : ι) (msg : BaseMsg)
  | handleMsg (t : ι) (msgs : List BaseMsg)
  | step (t : ι)
  deriving DecidableEq, Repr

/-- The message that a thread from outside begins to dispatch. -/
def NetworkAct.produced {ι : Type*} : NetworkAct ι → Option BaseMsg
  | .produce _ msg => some msg
  | .handleMsg _ _ | .step _ => none

namespace Network

variable {ν ι : Type*}

/-- All threads at their start, all queues empty. -/
def init (isStop : ν → Bool) (capacity : Nat → Nat) : Network ν ι where
  queues c := .init (capacity c)
  isStop := isStop
  pcs _ := .top
  enqueued := []
  dequeued := []
  written := []

variable [DecidableEq ν] [DecidableEq ι]

def setPc (s : Network ν ι) (t : ι) (pc : ThreadPc) : Network ν ι :=
  { s with pcs := Function.update s.pcs t pc }

/-- `ReadMessage` of a worker: the loop of `WaitDequeue`, then what `HandlerRelaying` and
`HandleWritting` do when it returns without a message. -/
def read (s : Network ν ι) (t : ι) (channel : Nat) : WaitPc → Network ν ι
  | .check => s.setPc t (if (s.queues channel).breakAllWait then .top else .read .attempt)
  | .attempt =>
    match (s.queues channel).pool with
    | [] => s.setPc t (.read .wait)
    | front :: rest =>
      setPc { s with
        queues := Function.update s.queues channel { s.queues channel with pool := rest }
        dequeued := s.dequeued ++ [⟨t, channel, front⟩] } t (.handle front)
  | .wait => s.setPc t (.read .check)

/-- `WriteMessage`: the loop of `WaitEnqueue`. A message that finds the queue broken is
dropped. -/
def write (s : Network ν ι) (t : ι) (channel : Nat) (msg : BaseMsg) (rest : List BaseMsg) : WaitPc → Network ν ι
  | .check =>
    s.setPc t (if (s.queues channel).breakAllWait then .dispatch rest else .write channel msg rest .attempt)
  | .attempt =>
    match (s.queues channel).enqueue msg with
    | (true, q) =>
      setPc { s with
        queues := Function.update s.queues channel q
        enqueued := s.enqueued ++ [⟨t, channel, msg⟩] } t (.dispatch rest)
    | (false, _) => s.setPc t (.write channel msg rest .wait)
  | .wait => s.setPc t (.write channel msg rest .check)

/-- `Dispatch` of the messages in turn. -/
def dispatch (sv : Services ν ι) (s : Network ν ι) (t : ι) (n : ν) : List BaseMsg → Network ν ι
  | [] => s.setPc t .top
  | msg :: rest =>
    match sv.dispatch n msg with
    | none => s.setPc t (.dispatch rest)
    | some channel => s.setPc t (.write channel msg rest .check)

/-- What a thread does next by itself. A duplex node writes what it reads to its descriptor,
every other node forwards a stop signal. -/
def advance (sv : Services ν ι) (s : Network ν ι) (t : ι) (role : Role ν) : Option (Network ν ι) :=
  match s.pcs t, role with
  | .top, .worker n _ => some (s.setPc t (if s.isStop n then .exit else .read .check))
  | .read pc, .worker _ channel => some (s.read t channel pc)
  | .handle msg, .worker n _ =>
    if (sv.nodes n).type = .fullDuplex then
      some (setPc { s with written := s.written ++ [(n, msg)] } t .top)
    else if msg.stopSignal then
      some (setPc { s with isStop := Function.update s.isStop n true } t (.dispatch [msg]))
    else none
  | .dispatch msgs, role => some (s.dispatch sv t role.node msgs)
  | .write channel msg rest pc, _ => some (s.write t channel msg rest pc)
  | _, _ => none

def step (sv : Services ν ι) (s : Network ν ι) : NetworkAct ι → Option (Network ν ι)
  | .produce t msg =>
    match sv.role t, s.pcs t with
    | some (.producer _), .top => some (s.setPc t (.dispatch [msg]))
    | _, _ => none
  | .handleMsg t msgs =>
    match sv.role t, s.pcs t with
    | some (.worker n _), .handle msg =>
      if (sv.nodes n).type ≠ .fullDuplex ∧ msg.stopSignal = false ∧ sv.handleMsg n msg msgs then
        some (s.setPc t (.dispatch msgs))
      else none
    | _, _ => none
  | .step t => (sv.role t).bind (s.advance sv t)

/-- What went through a channel, or was moved by a thread, in order. -/
def via (channel : Nat) (log : List (Transfer ι)) : List BaseMsg :=
  (log.filter fun e => e.channel = channel).map Transfer.msg

def moved (t : ι) (log : List (Transfer ι)) : List BaseMsg := (log.filter fun e => e.thread = t).map Transfer.msg

end Network

end ServicesFramework
