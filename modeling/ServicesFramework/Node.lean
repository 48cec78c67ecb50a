import Mathlib.Logic.Function.Basic
import ServicesFramework.Msg
import ServicesFramework.Queue

namespace ServicesFramework

/-- `NodeType`. -/
inductive NodeType
  | source
  | sink
  | fullDuplex
  | relay
  deriving DecidableEq, Repr

/-- `ChnType`. -/
inductive ChnType
  | chnIn
  | chnOut
  deriving DecidableEq, Repr

/-- `QueueBasedChannel`: a queue for a hundred messages. -/
structure Channel where
  name : String
  queue : Queue BaseMsg
  deriving DecidableEq, Repr

namespace Channel

def init (name : String) : Channel := ⟨name, .init 100⟩

/-- `GetQueue().BreakAllWait()`. -/
def breakAllWait (chn : Channel) : Channel := { chn with queue := { chn.queue with breakAllWait := true } }

end Channel

/-- `Node`. A channel pointer is the number of the channel object; channel lists are far
shorter than `2 ^ 31`, so the `int` that counts them is their length. -/
structure Node where
  name : String
  type : NodeType
  isStop : Bool
  workerCnt : Nat
  upChannels : List Nat
  downChannels : List Nat
  deriving DecidableEq, Repr

namespace Node

/-- A new node. `is_stop_` starts as `true`; the services set it to `false` in their `Init`. -/
def init (name : String) (type : NodeType) (isStop : Bool) : Node := ⟨name, type, isStop, 0, [], []⟩

/-- The list that the channel operations work on. `NodeDuplex` overrides all of them with
the two lists exchanged: it writes to its descriptor what comes in. -/
def channels (node : Node) (ct : ChnType) : List Nat :=
  match node.type, ct with
  | .fullDuplex, .chnIn => node.downChannels
  | .fullDuplex, .chnOut => node.upChannels
  | _, .chnOut => node.downChannels
  | _, .chnIn => node.upChannels

def addChannel (node : Node) (channel : Nat) (ct : ChnType) : Node :=
  match node.type, ct with
  | .fullDuplex, .chnIn => { node with downChannels := node.downChannels ++ [channel] }
  | .fullDuplex, .chnOut => { node with upChannels := node.upChannels ++ [channel] }
  | _, .chnOut => { node with downChannels := node.downChannels ++ [channel] }
  | _, .chnIn => { node with upChannels := node.upChannels ++ [channel] }

/-- `GetChannel`, or `none` where `at` throws. -/
def getChannel (node : Node) (i : Nat) (ct : ChnType) : Option Nat := (node.channels ct)[i]?

def getChannelNum (node : Node) (ct : ChnType) : Nat := (node.channels ct).length

/-- `Dispatch`: the channel that the message is written to. The modulus is that of the
unsigned id, and nothing is written where there is no channel. -/
def dispatch (node : Node) (msg : BaseMsg) : Option Nat :=
  if node.getChannelNum .chnOut = 0 then none
  else node.getChannel (msg.id.toNat % node.getChannelNum .chnOut) .chnOut

/-- `IncThreads`: the index of the channel that the calling worker reads, or `none` where
its assertion fails. -/
def incThreads (node : Node) : Option (Nat × Node) :=
  if node.getChannelNum .chnIn = 0 then none
  else some (node.workerCnt % node.getChannelNum .chnIn, { node with workerCnt := node.workerCnt + 1 })

@[simp] theorem addChannel_type (node : Node) (channel : Nat) (ct : ChnType) :
    (node.addChannel channel ct).type = node.type := by
  unfold addChannel
  split <;> rfl

@[simp] theorem addChannel_name (node : Node) (channel : Nat) (ct : ChnType) :
    (node.addChannel channel ct).name = node.name := by
  unfold addChannel
  split <;> rfl

@[simp] theorem addChannel_isStop (node : Node) (channel : Nat) (ct : ChnType) :
    (node.addChannel channel ct).isStop = node.isStop := by
  unfold addChannel
  split <;> rfl

@[simp] theorem addChannel_workerCnt (node : Node) (channel : Nat) (ct : ChnType) :
    (node.addChannel channel ct).workerCnt = node.workerCnt := by
  unfold addChannel
  split <;> rfl

theorem channels_addChannel (node : Node) (channel : Nat) (added ct : ChnType) :
    (node.addChannel channel added).channels ct =
      if ct = added then node.channels ct ++ [channel] else node.channels ct := by
  cases kind : node.type <;> cases added <;> cases ct <;> simp [addChannel, channels, kind]

theorem dispatch_mem {node : Node} {msg : BaseMsg} {channel : Nat} (target : node.dispatch msg = some channel) :
    channel ∈ node.channels .chnOut := by
  unfold dispatch at target
  split at target
  · cases target
  · exact List.mem_of_getElem? target

end Node

end ServicesFramework
