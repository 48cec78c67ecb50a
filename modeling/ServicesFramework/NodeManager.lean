import ServicesFramework.Lib.Machine
import ServicesFramework.Node

namespace ServicesFramework

/-- A thread that runs `DoWork` of a node, and the channel it is bound to once it has
called `IncThreads`. -/
structure Worker (ν : Type*) where
  node : ν
  channel : Option Nat
  deriving DecidableEq, Repr

/-- What happens to a node as a whole. -/
inductive NodeEvent (ν : Type*)
  | started (node : ν)
  | stopped (node : ν)
  deriving DecidableEq, Repr

def NodeEvent.node {ν : Type*} : NodeEvent ν → ν
  | .started n => n
  | .stopped n => n

/-- `NodeManager`, with the node objects that it is given by reference (named by `ν`), and
the channel objects made so far, by number. `log` only records. -/
structure NodeManager (ν : Type*) where
  nodes : ν → Node
  channels : Nat → Channel
  made : Nat
  nodeList : List (String × NodeType × ν)
  channelList : List Nat
  workerList : List (Worker ν)
  stop : Bool
  log : List (NodeEvent ν)

namespace NodeManager

variable {ν : Type*}

def init (nodes : ν → Node) : NodeManager ν := ⟨nodes, fun _ => .init "", 0, [], [], [], false, []⟩

variable [DecidableEq ν]

def setNode (m : NodeManager ν) (n : ν) (node : Node) : NodeManager ν :=
  { m with nodes := Function.update m.nodes n node }

def addChannel (m : NodeManager ν) (n : ν) (channel : Nat) (ct : ChnType) : NodeManager ν :=
  m.setNode n ((m.nodes n).addChannel channel ct)

/-- The channels of a node, under the names that `Connect` uses. -/
def chns (m : NodeManager ν) (n : ν) (ct : ChnType) : List Nat := (m.nodes n).channels ct

/-- The block of `Connect` that runs with `reuse_chn`. -/
def reuse (m : NodeManager ν) (up down : ν) : NodeManager ν :=
  match m.chns up .chnOut with
  | selected :: _ => m.addChannel down selected .chnIn
  | [] =>
    match m.chns down .chnIn with
    | selected :: _ => m.addChannel up selected .chnOut
    | [] => m

/-- The block of `Connect` that makes a channel. -/
def create (m : NodeManager ν) (up down : ν) : NodeManager ν :=
  let qname := (m.nodes up).name ++ ":" ++ (m.nodes down).name
  let selected := m.made
  let m := { m with channels := Function.update m.channels selected (.init qname), made := m.made + 1 }
  let m := (m.addChannel up selected .chnOut).addChannel down selected .chnIn
  { m with channelList := m.channelList ++ [selected] }

/-- `NodeManager::Connect`. The second test reads the lists as the first block left them. -/
def connect (m : NodeManager ν) (up down : ν) (reuseChn : Bool) : Except String Bool × NodeManager ν :=
  if (m.nodes up).type = .sink then
    (.error "A sink service can't be a upstream service! ref: source --> sink", m)
  else if (m.nodes down).type = .source then
    (.error "A source service can't be a downstream service! ref: source --> sink", m)
  else
    let m := if reuseChn then m.reuse up down else m
    if !reuseChn || (m.nodes up).getChannelNum .chnOut + (m.nodes down).getChannelNum .chnIn == 0 then
      (.ok true, m.create up down)
    else (.ok true, m)

/-- `NodeManager::RunAsThreads`. The node is entered in `node_list_` before its channels
are looked at. -/
def runAsThreads (m : NodeManager ν) (n : ν) (num : Int) : Except String Bool × NodeManager ν :=
  let node := m.nodes n
  if node.type = .fullDuplex ∧ num > 1 then (.error "Duplex node can only bind one thread.", m)
  else if (m.nodeList.lookup node.name).isSome then (.error "Duplicate node!", m)
  else
    let m := { m with nodeList := m.nodeList ++ [(node.name, node.type, n)] }
    if node.getChannelNum .chnIn + node.getChannelNum .chnOut ≤ 0 then
      (.error "node has no available channels.", m)
    else
      (.ok true, { m with
        workerList := m.workerList ++ List.replicate num.toNat ⟨n, none⟩
        log := m.log ++ [.started n] })

/-- The head of `DoWork`: the worker takes its channel, once. `none` where `IncThreads`
fails its assertion. -/
def pickChannel (m : NodeManager ν) (i : Nat) : Option (NodeManager ν) :=
  (m.workerList[i]?).bind fun worker =>
    if worker.channel.isSome then none
    else
      (m.nodes worker.node).incThreads.bind fun (chnIndex, node) =>
        (node.getChannel chnIndex .chnIn).map fun channel =>
          { m.setNode worker.node node with
            workerList := m.workerList.set i { worker with channel := some channel } }

/-- `Node::Stop`. -/
def stopNode (m : NodeManager ν) (n : ν) : NodeManager ν :=
  let node := m.nodes n
  { m.setNode n { node with isStop := true } with
    channels := fun c =>
      if c ∈ node.upChannels ++ node.downChannels then (m.channels c).breakAllWait else m.channels c
    log := m.log ++ [.stopped n] }

/-- One round of the stop pass of `Shutdown`; its `switch` has a `default` for the types
that are left. -/
def stopItem (m : NodeManager ν) (item : String × NodeType × ν) : NodeManager ν :=
  match item.2.1 with
  | .relay => m.stopNode item.2.2
  | .fullDuplex => m.stopNode item.2.2
  | .source | .sink => m

/-- `Shutdown` of a manager that was not shut down before, up to its join loop. -/
def stopAll (m : NodeManager ν) : NodeManager ν := m.nodeList.foldl stopItem { m with stop := true }

/-- `NodeManager::Shutdown`, for workers that can be joined. -/
def shutdown (m : NodeManager ν) : NodeManager ν :=
  if m.stop then m else { m.stopAll with channelList := [], workerList := [] }

end NodeManager

/-- A call on the manager or on a node, or a step of a worker. A worker that receives a stop
signal sets `is_stop_` of its node and nothing else here. -/
inductive ManagerAct (ν : Type*)
  | connect (up down : ν) (reuseChn : Bool)
  | runAsThreads (n : ν) (num : Int)
  | pickChannel (worker : Nat)
  | stopSignal (n : ν)
  | stopNode (n : ν)
  | shutdown
  deriving DecidableEq, Repr

namespace NodeManager

variable {ν : Type*} [DecidableEq ν]

def step (m : NodeManager ν) : ManagerAct ν → Option (NodeManager ν)
  | .connect up down reuseChn => some (m.connect up down reuseChn).2
  | .runAsThreads n num => some (m.runAsThreads n num).2
  | .pickChannel worker => m.pickChannel worker
  | .stopSignal n => some (m.setNode n { m.nodes n with isStop := true })
  | .stopNode n => some (m.stopNode n)
  | .shutdown => some m.shutdown

end NodeManager

/-- The arguments of one call of `Connect`. -/
structure Connection (ν : Type*) where
  up : ν
  down : ν
  reuseChn : Bool
  deriving DecidableEq, Repr

namespace NodeManager

variable {ν : Type*} [DecidableEq ν]

/-- The topology that a sequence of `Connect` calls builds. -/
def connectAll (m : NodeManager ν) (calls : List (Connection ν)) : NodeManager ν :=
  calls.foldl (fun m call => (m.connect call.up call.down call.reuseChn).2) m

/-- `Connect` does not throw. -/
def Accepts (m : NodeManager ν) (up down : ν) : Prop :=
  (m.nodes up).type ≠ .sink ∧ (m.nodes down).type ≠ .source

/-- The channel that a call of `Connect` makes, if it makes one. -/
def creates (m : NodeManager ν) (call : Connection ν) : Option Nat :=
  if (m.connect call.up call.down call.reuseChn).2.made = m.made then none else some m.made

end NodeManager

end ServicesFramework
