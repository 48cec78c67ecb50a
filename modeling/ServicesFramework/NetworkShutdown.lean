import Mathlib.Tactic
import ServicesFramework.Lib.Potential
import ServicesFramework.NetworkStops
import ServicesFramework.NodeStart

namespace ServicesFramework

/-- One write of `Node::Stop`. -/
inductive StopOp (ν : Type*)
  | isStop (n : ν)
  | breakAllWait (channel : Nat)
  deriving DecidableEq, Repr

namespace NodeManager

variable {ν : Type*}

/-- `Node::Stop`, write by write: the flag of the node, then each of its channels. -/
def stopOps (m : NodeManager ν) (n : ν) : List (StopOp ν) :=
  .isStop n :: ((m.nodes n).upChannels ++ (m.nodes n).downChannels).map .breakAllWait

/-- The stop pass of `Shutdown`, write by write. -/
def shutdownOps (m : NodeManager ν) : List (StopOp ν) :=
  m.nodeList.flatMap fun item =>
    match item.2.1 with
    | .relay => m.stopOps item.2.2
    | .fullDuplex => m.stopOps item.2.2
    | .source | .sink => []

end NodeManager

/-- The running services while a thread is in `Shutdown`, with the writes that it has still to
make before its join loop. -/
structure Closing (ν ι : Type*) where
  network : Network ν ι
  todo : List (StopOp ν)

/-- A step of the services, or the next write of `Shutdown`. -/
inductive ClosingAct (ι : Type*)
  | network (a : NetworkAct ι)
  | stop
  deriving DecidableEq, Repr

/-- The thread that an action belongs to. -/
def NetworkAct.thread {ι : Type*} : NetworkAct ι → ι
  | .produce t _ => t
  | .handleMsg t _ => t
  | .step t => t

namespace ClosingAct

variable {ι : Type*} [DecidableEq ι]

/-- The action is one of the thread's. -/
def isBy (t : ι) : ClosingAct ι → Bool
  | .network a => a.thread = t
  | .stop => false

/-- The thread calls `HandleMsg`. -/
def handles (t : ι) : ClosingAct ι → Bool
  | .network (.handleMsg other _) => other = t
  | .network (.produce _ _) | .network (.step _) | .stop => false

/-- How many messages `HandleMsg` of the thread dispatches. -/
def handed (t : ι) : ClosingAct ι → Nat
  | .network (.handleMsg other msgs) => if other = t then msgs.length else 0
  | .network (.produce _ _) | .network (.step _) | .stop => 0

end ClosingAct

namespace Closing

variable {ν ι : Type*} [DecidableEq ν] [DecidableEq ι]

/-- One write of `Shutdown`. -/
def write (network : Network ν ι) : StopOp ν → Network ν ι
  | .isStop n => { network with isStop := Function.update network.isStop n true }
  | .breakAllWait channel =>
    { network with
      queues := Function.update network.queues channel { network.queues channel with breakAllWait := true } }

def step (sv : Services ν ι) (s : Closing ν ι) : ClosingAct ι → Option (Closing ν ι)
  | .network a => (s.network.step sv a).map fun network => { s with network := network }
  | .stop =>
    match s.todo with
    | [] => none
    | op :: rest => some ⟨write s.network op, rest⟩

end Closing

namespace StopOp

variable {ν ι : Type*} {s u : Network ν ι} {t : ι} {sv : Services ν ι} {op : StopOp ν}

/-- The write has been made, and not undone. -/
def Made (s : Network ν ι) : StopOp ν → Prop
  | .isStop n => s.isStop n = true
  | .breakAllWait channel => (s.queues channel).breakAllWait = true

theorem Made.of_flags (made : op.Made s) (isStop : ∀ n, s.isStop n = true → u.isStop n = true)
    (broken : ∀ c, (s.queues c).breakAllWait = true → (u.queues c).breakAllWait = true) : op.Made u := by
  cases op with
  | isStop n => exact isStop n made
  | breakAllWait channel => exact broken channel made

variable [DecidableEq ν] [DecidableEq ι]

/-- No step of the services takes a flag back. -/
theorem Made.step {a : NetworkAct ι} (made : op.Made s) (next : s.step sv a = some u) : op.Made u := by
  rcases Network.step_cases next with ⟨t, n, msg, _, _, _, rfl⟩ | ⟨_, t, role, _, effect⟩
  · exact made
  · obtain ⟨_, isStop, _, flags, _⟩ := effect.frame
    exact made.of_flags isStop fun c broken => (flags c).trans broken

omit [DecidableEq ι] in
theorem Made.write (made : op.Made s) (other : StopOp ν) : op.Made (Closing.write s other) := by
  cases other with
  | isStop n =>
    refine made.of_flags (fun k stopped => ?_) fun c broken => broken
    by_cases same : k = n
    · subst k
      simp [Closing.write]
    · simpa [Closing.write, same] using stopped
  | breakAllWait channel =>
    refine made.of_flags (fun k stopped => stopped) fun c broken => ?_
    by_cases same : c = channel
    · subst c
      simp [Closing.write]
    · simpa [Closing.write, same] using broken

omit [DecidableEq ι] in
theorem made_write (s : Network ν ι) (op : StopOp ν) : op.Made (Closing.write s op) := by
  cases op <;> simp [Made, Closing.write]

end StopOp

namespace Closing

open Machine

variable {ν ι : Type*} [DecidableEq ν] [DecidableEq ι] {sv : Services ν ι} {ops : List (StopOp ν)} {s u : Closing ν ι}
  {t : ι} {n : ν} {c : Nat}

omit [DecidableEq ι] in
/-- `Shutdown` moves no message and no thread. -/
theorem write_logged {network : Network ν ι} (logged : Network.Logged sv network) (op : StopOp ν) :
    Network.Logged sv (write network op) := by
  cases op with
  | isStop n => exact ⟨logged.fifo, logged.routed, logged.taken, logged.pending⟩
  | breakAllWait channel =>
    refine ⟨fun d => ?_, logged.routed, logged.taken, logged.pending⟩
    have fifo := logged.fifo d
    by_cases same : d = channel
    · subst d
      simpa [write] using fifo
    · simpa [write, same] using fifo

/-- The stop pass so far. -/
structure Passing (sv : Services ν ι) (ops : List (StopOp ν)) (s : Closing ν ι) : Prop where
  logged : Network.Logged sv s.network
  made : ∃ done, ops = done ++ s.todo ∧ ∀ op ∈ done, op.Made s.network

theorem Passing.step {a : ClosingAct ι} (old : Passing sv ops s) (next : s.step sv a = some u) : Passing sv ops u := by
  obtain ⟨done, split, made⟩ := old.made
  cases a with
  | network a =>
    obtain ⟨network, moves, rfl⟩ := Option.map_eq_some_iff.mp next
    refine ⟨?_, done, split, fun op member => (made op member).step moves⟩
    rcases Network.step_cases moves with ⟨t, n, msg, _, atRole, _, rfl⟩ | ⟨_, t, role, atRole, effect⟩
    · exact old.logged.of_setPc atRole rfl rfl rfl rfl (by simp)
    · exact old.logged.effect atRole effect
  | stop =>
    simp only [Closing.step] at next
    split at next
    · cases next
    · rename_i op rest left
      cases Option.some.inj next
      refine ⟨write_logged old.logged op, done ++ [op], by simp [split, left], ?_⟩
      intro other member
      rcases List.mem_append.mp member with earlier | now
      · exact (made other earlier).write op
      · cases List.mem_singleton.mp now
        exact StopOp.made_write s.network op

end Closing

namespace Network

variable {ν ι : Type*} {sv : Services ν ι} {s u : Network ν ι} {t : ι} {n : ν} {c : Nat}

/-- Nothing keeps a worker of the node that is bound to this channel. -/
structure Freed (sv : Services ν ι) (n : ν) (c : Nat) (s : Network ν ι) : Prop where
  isStop : s.isStop n = true
  input : (s.queues c).breakAllWait = true
  output : ∀ msg channel, sv.dispatch n msg = some channel → (s.queues channel).breakAllWait = true

/-- The steps that a freed worker has left, up to what `HandleMsg` gives it. -/
def budget : ThreadPc → Nat
  | .exit => 0
  | .top => 1
  | .read .check => 2
  | .read .wait => 3
  | .read .attempt => 6
  | .handle _ => 5
  | .dispatch msgs => 2 + 2 * msgs.length
  | .write _ _ rest .check => 3 + 2 * rest.length
  | .write _ _ rest .wait => 4 + 2 * rest.length
  | .write _ _ rest .attempt => 5 + 2 * rest.length

/-- The messages that a freed worker may still look at. -/
def chances : ThreadPc → Nat
  | .read .attempt | .handle _ => 1
  | .exit | .top | .read .check | .read .wait | .dispatch _ | .write _ _ _ _ => 0

theorem chances_le (pc : ThreadPc) : chances pc ≤ 1 := by
  unfold chances
  split <;> omega

variable [DecidableEq ν] [DecidableEq ι]

/-- Where a freed worker goes by itself, it comes closer to its exit. -/
theorem Freed.advance (freed : Freed sv n c s) (logged : Logged sv s) (atRole : sv.role t = some (.worker n c))
    (next : s.advance sv t (.worker n c) = some u) :
    budget (u.pcs t) + 1 ≤ budget (s.pcs t) ∧ chances (u.pcs t) ≤ chances (s.pcs t) := by
  cases atPc : s.pcs t with
  | exit => simp [Network.advance, atPc] at next
  | top =>
    simp only [Network.advance, atPc, freed.isStop, if_true, Option.some.injEq] at next
    subst next
    simp [budget, chances]
  | read pc =>
    simp only [Network.advance, atPc, Option.some.injEq] at next
    subst next
    cases pc with
    | check => simp [read, freed.input, budget, chances]
    | wait => simp [read, budget, chances]
    | attempt =>
      cases pool : (s.queues c).pool with
      | nil => simp [read, pool, budget, chances]
      | cons front rest => simp [read, pool, budget, chances]
  | handle msg =>
    simp only [Network.advance, atPc] at next
    split at next
    · cases Option.some.inj next
      simp [budget, chances]
    · split at next
      · cases Option.some.inj next
        simp [budget, chances]
      · cases next
  | dispatch msgs =>
    simp only [Network.advance, atPc, Option.some.injEq] at next
    subst next
    cases msgs with
    | nil => simp [dispatch, budget, chances]
    | cons msg rest =>
      simp only [dispatch]
      split
      · simp [budget, chances]
      · simp only [setPc_self, budget, chances, List.length_cons]
        omega
  | write channel msg rest pc =>
    obtain ⟨role, same, target⟩ := logged.pending t channel msg rest pc atPc
    cases Option.some.inj (atRole.symm.trans same)
    have broken := freed.output msg channel target
    simp only [Network.advance, atPc, Option.some.injEq] at next
    subst next
    cases pc with
    | check => simp [write, broken, budget, chances]
    | wait => simp [write, budget, chances]
    | attempt =>
      simp only [write]
      split <;> simp [budget, chances]

end Network

namespace NodeManager

open Machine

variable {ν : Type*} [DecidableEq ν] {m u : NodeManager ν}

/-- The channel of a worker is one of the input channels of its node. -/
def Bound (m : NodeManager ν) : Prop := ∀ w ∈ m.workerList, ∀ c, w.channel = some c → c ∈ m.chns w.node .chnIn

theorem Bound.step {a : ManagerAct ν} (old : m.Bound) (next : m.step a = some u) : u.Bound := by
  have kept {w : Worker ν} {c : Nat} (listed : w ∈ m.workerList) (channel : w.channel = some c) :
      c ∈ u.chns w.node .chnIn := step_chns next (old w listed c channel)
  intro w member c channel
  cases a with
  | connect up down reuseChn =>
    cases Option.some.inj next
    rw [(connect_rest m up down reuseChn).2.1] at member
    exact kept member channel
  | runAsThreads n num =>
    cases Option.some.inj next
    rcases m.runAsThreads_cases n num with ⟨_, _, result⟩ | ⟨_, _, _, result⟩ | ⟨_, _, result⟩
    · rw [result] at member
      exact kept member channel
    · rw [result] at member
      exact kept member channel
    · rw [result] at member
      rcases List.mem_append.mp member with earlier | now
      · exact kept earlier channel
      · cases List.eq_of_mem_replicate now
        cases channel
  | pickChannel i =>
    obtain ⟨v, picked, atWorker, _, found, rfl⟩ := pickChannel_cases next
    rcases List.mem_or_eq_of_mem_set member with earlier | rfl
    · exact kept earlier channel
    · have same : picked = c := Option.some.inj channel
      have listed : c ∈ m.chns v.node .chnIn := same ▸ List.mem_of_getElem? found
      exact step_chns next listed
  | stopSignal n =>
    cases Option.some.inj next
    exact kept member channel
  | stopNode n =>
    cases Option.some.inj next
    exact kept member channel
  | shutdown =>
    cases Option.some.inj next
    exact kept (m.shutdown_rest.2.2.1 w member) channel

omit [DecidableEq ν] in
theorem mem_shutdownOps {op : StopOp ν} :
    op ∈ m.shutdownOps ↔ ∃ item ∈ m.nodeList, stoppable item.2.1 = true ∧ op ∈ m.stopOps item.2.2 := by
  have item (item : String × NodeType × ν) : (op ∈ match item.2.1 with
      | .relay => m.stopOps item.2.2
      | .fullDuplex => m.stopOps item.2.2
      | .source | .sink => []) ↔ stoppable item.2.1 = true ∧ op ∈ m.stopOps item.2.2 := by
    cases item.2.1 <;> simp [stoppable]
  simp only [shutdownOps, List.mem_flatMap, item]

/-- The writes of the stop pass are what `stopAll` does to the flags at once. -/
theorem stopAll_flags (m : NodeManager ν) :
    (∀ n, (m.stopAll.nodes n).isStop = true ↔ (m.nodes n).isStop = true ∨ .isStop n ∈ m.shutdownOps) ∧
      ∀ c, m.stopAll.Broken c ↔ m.Broken c ∨ .breakAllWait c ∈ m.shutdownOps := by
  have stops := m.stops_stopAll
  refine ⟨fun n => ?_, fun c => ?_⟩
  · rw [stops.isStop n, mem_shutdownOps]
    simp only [stopOps, List.mem_cons, StopOp.isStop.injEq, List.mem_map, reduceCtorEq, and_false, exists_false,
      or_false, eq_comm (a := n)]
  · rw [stops.broken c, mem_shutdownOps]
    simp [stopOps, Uses, Broken]

end NodeManager

namespace Closing

open Machine NodeManager Network

variable {ν ι : Type*} [DecidableEq ν] [DecidableEq ι] {m : NodeManager ν} {sv : Services ν ι} {s u : Closing ν ι}
  {t : ι} {n : ν} {c : Nat}

/-- What holds of the services from the join loop on, as far as one worker is concerned. -/
structure Joining (sv : Services ν ι) (n : ν) (c : Nat) (s : Closing ν ι) : Prop where
  logged : Logged sv s.network
  freed : Freed sv n c s.network
  todo : s.todo = []

theorem Joining.network {a : ClosingAct ι} (joining : Joining sv n c s) (next : s.step sv a = some u) :
    ∃ act, a = .network act ∧ s.network.step sv act = some u.network ∧ u.todo = [] := by
  cases a with
  | network act =>
    obtain ⟨network, moves, rfl⟩ := Option.map_eq_some_iff.mp next
    exact ⟨act, rfl, moves, joining.todo⟩
  | stop => simp [Closing.step, joining.todo] at next

theorem Joining.step {a : ClosingAct ι} (joining : Joining sv n c s) (next : s.step sv a = some u) :
    Joining sv n c u := by
  have passing : Passing sv [] s := ⟨joining.logged, [], by simp [joining.todo], fun _ none => by cases none⟩
  obtain ⟨act, rfl, moves, todo⟩ := joining.network next
  have kept (op : StopOp ν) (made : op.Made s.network) : op.Made u.network := made.step moves
  refine ⟨(passing.step next).logged, ⟨kept (.isStop n) joining.freed.isStop,
    kept (.breakAllWait c) joining.freed.input, ?_⟩, todo⟩
  intro msg channel target
  exact kept (.breakAllWait channel) (joining.freed.output msg channel target)

/-- One step of the services, as the worker sees it. -/
theorem Joining.pays {a : ClosingAct ι} (joining : Joining sv n c s) (atRole : sv.role t = some (.worker n c))
    (next : s.step sv a = some u) :
    budget (u.network.pcs t) + (if a.isBy t then 1 else 0) ≤ budget (s.network.pcs t) + 2 * a.handed t ∧
      chances (u.network.pcs t) + (if a.handles t then 1 else 0) ≤ chances (s.network.pcs t) := by
  obtain ⟨act, rfl, moves, _⟩ := joining.network next
  cases act with
  | produce other msg =>
    simp only [Network.step] at moves
    split at moves
    · rename_i atOther atPc
      have ne : t ≠ other := by
        rintro rfl
        rw [atRole] at atOther
        cases atOther
      rw [← Option.some.inj moves, setPc_other ne]
      simp [ClosingAct.isBy, ClosingAct.handles, NetworkAct.thread, Ne.symm ne]
    · cases moves
  | handleMsg other msgs =>
    simp only [Network.step] at moves
    split at moves
    · rename_i k channel msg atOther atPc
      split at moves
      · rw [← Option.some.inj moves]
        by_cases same : t = other
        · subst other
          rw [atPc]
          simp [ClosingAct.isBy, ClosingAct.handles, ClosingAct.handed, NetworkAct.thread, budget, chances]
        · rw [setPc_other same]
          simp [ClosingAct.isBy, ClosingAct.handles, NetworkAct.thread, Ne.symm same]
      · cases moves
    · cases moves
  | step other =>
    obtain ⟨role, atOther, moves⟩ := Option.bind_eq_some_iff.mp moves
    by_cases same : t = other
    · subst other
      cases Option.some.inj (atRole.symm.trans atOther)
      obtain ⟨cheaper, fewer⟩ := joining.freed.advance joining.logged atRole moves
      simp only [ClosingAct.isBy, ClosingAct.handles, NetworkAct.thread, decide_true, if_true]
      exact ⟨by omega, by simpa using fewer⟩
    · rw [(advance_effect moves).frame.1 t same]
      simp [ClosingAct.isBy, ClosingAct.handles, NetworkAct.thread, Ne.symm same]

/-- The worker of one relay, and a thread that writes to the channel it reads. -/
def relayServices (m : NodeManager Nat) : Services Nat Bool where
  nodes := m.nodes
  role t := if t then some (.worker 3 0) else some (.producer 2)
  handleMsg _ _ _ := true

end Closing

end ServicesFramework
