import Mathlib.Tactic
import ServicesFramework.NodeWorkers

namespace ServicesFramework.NodeManager

open Machine

variable {ν : Type*} [DecidableEq ν] {m u : NodeManager ν} {n : ν}

/-- The types that the `switch` of `Shutdown` has a case for. -/
def stoppable : NodeType → Bool
  | .relay | .fullDuplex => true
  | .source | .sink => false

/-- The node uses the channel, in either list. -/
def Uses (m : NodeManager ν) (n : ν) (c : Nat) : Prop := c ∈ (m.nodes n).upChannels ++ (m.nodes n).downChannels

def Broken (m : NodeManager ν) (c : Nat) : Prop := (m.channels c).queue.breakAllWait = true

/-- Nothing keeps a worker of the node: not the loop of `DoWork`, nor a wait on a channel. -/
def Halted (m : NodeManager ν) (n : ν) : Prop := (m.nodes n).isStop = true ∧ ∀ c, m.Uses n c → m.Broken c

theorem stopItem_eq (m : NodeManager ν) (item : String × NodeType × ν) :
    m.stopItem item = if stoppable item.2.1 then m.stopNode item.2.2 else m := by
  unfold stopItem stoppable
  cases item.2.1 <;> rfl

/-- What the stop pass does, for the items that are still to come. -/
structure Stops (items : List (String × NodeType × ν)) (m u : NodeManager ν) : Prop where
  isStop : ∀ n, (u.nodes n).isStop = true ↔
    (m.nodes n).isStop = true ∨ ∃ item ∈ items, stoppable item.2.1 = true ∧ item.2.2 = n
  broken : ∀ c, u.Broken c ↔ m.Broken c ∨ ∃ item ∈ items, stoppable item.2.1 = true ∧ m.Uses item.2.2 c
  node : ∀ n, u.nodes n = { m.nodes n with isStop := (u.nodes n).isStop }
  log : u.log = m.log ++ (items.filter fun item => stoppable item.2.1).map fun item => .stopped item.2.2
  nodeList : u.nodeList = m.nodeList
  workerList : u.workerList = m.workerList
  stop : u.stop = m.stop

omit [DecidableEq ν] in
theorem Stops.uses {items : List (String × NodeType × ν)} (stops : Stops items m u) (n : ν) (c : Nat) :
    u.Uses n c ↔ m.Uses n c := by
  unfold Uses
  rw [stops.node n]

omit [DecidableEq ν] in
theorem stops_nil : Stops [] m m where
  isStop n := by simp
  broken c := by simp
  node n := rfl
  log := by simp
  nodeList := rfl
  workerList := rfl
  stop := rfl

-- What `StopNode` does to the node itself, to the others and to the channels.

theorem stopNode_isStop (m : NodeManager ν) (k n : ν) :
    ((m.stopNode k).nodes n).isStop = true ↔ (m.nodes n).isStop = true ∨ k = n := by
  by_cases same : k = n
  · subst k
    simp [stopNode]
  · simp [stopNode, setNode, same, Ne.symm same]

theorem stopNode_node (m : NodeManager ν) (k n : ν) :
    (m.stopNode k).nodes n = { m.nodes n with isStop := ((m.stopNode k).nodes n).isStop } := by
  by_cases same : n = k
  · subst n
    simp [stopNode]
  · simp [stopNode, setNode, same]

theorem stopNode_uses (m : NodeManager ν) (k n : ν) (c : Nat) : (m.stopNode k).Uses n c ↔ m.Uses n c := by
  unfold Uses
  rw [stopNode_node]

theorem stopNode_broken (m : NodeManager ν) (k : ν) (c : Nat) :
    (m.stopNode k).Broken c ↔ m.Broken c ∨ m.Uses k c := by
  by_cases mine : m.Uses k c
  · have used : c ∈ (m.nodes k).upChannels ++ (m.nodes k).downChannels := mine
    refine iff_of_true ?_ (Or.inr mine)
    simp only [Broken, stopNode, used, if_true]
    rfl
  · have unused : c ∉ (m.nodes k).upChannels ++ (m.nodes k).downChannels := mine
    rw [or_iff_left mine]
    simp only [Broken, stopNode, unused, if_false]

theorem stops_cons {items : List (String × NodeType × ν)} {item : String × NodeType × ν}
    (rest : Stops items (m.stopItem item) u) : Stops (item :: items) m u := by
  cases kind : stoppable item.2.1 with
  | false =>
    rw [stopItem_eq, kind, if_neg (by simp)] at rest
    refine ⟨?_, ?_, rest.node, ?_, rest.nodeList, rest.workerList, rest.stop⟩
    · intro n
      rw [rest.isStop n]
      simp only [List.mem_cons, exists_eq_or_imp, kind, Bool.false_eq_true, false_and, false_or]
    · intro c
      rw [rest.broken c]
      simp only [List.mem_cons, exists_eq_or_imp, kind, Bool.false_eq_true, false_and, false_or]
    · rw [rest.log, List.filter_cons_of_neg (by simp [kind])]
  | true =>
    rw [stopItem_eq, kind, if_pos rfl] at rest
    refine ⟨?_, ?_, ?_, ?_, rest.nodeList, rest.workerList, rest.stop⟩
    · intro n
      rw [rest.isStop n, stopNode_isStop, or_assoc]
      simp only [List.mem_cons, exists_eq_or_imp, kind, true_and]
    · intro c
      rw [rest.broken c, stopNode_broken, or_assoc]
      simp only [List.mem_cons, exists_eq_or_imp, kind, true_and, stopNode_uses]
    · intro n
      rw [rest.node n, stopNode_node]
    · rw [rest.log, List.filter_cons_of_pos (by simp [kind])]
      simp only [stopNode, List.map_cons, List.append_assoc, List.singleton_append]

theorem stops_foldl (items : List (String × NodeType × ν)) (m : NodeManager ν) :
    Stops items m (items.foldl stopItem m) := by
  induction items generalizing m with
  | nil => exact stops_nil
  | cons item items ih => exact stops_cons (ih (m.stopItem item))

theorem stops_stopAll (m : NodeManager ν) : Stops m.nodeList { m with stop := true } m.stopAll :=
  stops_foldl m.nodeList { m with stop := true }

/-- What `Shutdown` leaves as it was: it enters and starts nothing, and of the nodes it only
sets the flags. -/
theorem shutdown_rest (m : NodeManager ν) :
    m.shutdown.nodeList = m.nodeList ∧
      (∀ n, m.shutdown.nodes n = { m.nodes n with isStop := (m.shutdown.nodes n).isStop }) ∧
      (∀ w ∈ m.shutdown.workerList, w ∈ m.workerList) ∧ ∀ n, .started n ∈ m.shutdown.log → .started n ∈ m.log := by
  have stops := m.stops_stopAll
  unfold shutdown
  split
  · exact ⟨rfl, fun _ => rfl, fun _ member => member, fun _ member => member⟩
  · refine ⟨stops.nodeList, stops.node, fun w member => (by cases member), ?_⟩
    intro n member
    dsimp only at member
    rw [stops.log] at member
    rcases List.mem_append.mp member with earlier | now
    · exact earlier
    · simp at now

/-- No step changes anything of a node but its flag, its counter and its channel lists. -/
theorem step_field {β : Type*} (f : Node → β) (flag : ∀ (node : Node) b, f { node with isStop := b } = f node)
    (count : ∀ (node : Node) k, f { node with workerCnt := k } = f node)
    (lists : ∀ (node : Node) (c : Nat) (ct : ChnType), f (node.addChannel c ct) = f node)
    {a : ManagerAct ν} (next : m.step a = some u) (n : ν) : f (u.nodes n) = f (m.nodes n) := by
  cases a with
  | connect up down reuseChn =>
    cases Option.some.inj next
    exact connect_field f lists m up down n reuseChn
  | runAsThreads _ _ | pickChannel _ | stopSignal _ | stopNode _ =>
    exact field_of_starts f (fun node => flag node true) count (by trivial) next n
  | shutdown =>
    cases Option.some.inj next
    rw [m.shutdown_rest.2.1, flag]

theorem step_type {a : ManagerAct ν} (next : m.step a = some u) (n : ν) : (u.nodes n).type = (m.nodes n).type :=
  step_field Node.type (fun _ _ => rfl) (fun _ _ => rfl) Node.addChannel_type next n

/-- A node with a worker is entered in `node_list_`, with its own type. -/
structure Entered (m : NodeManager ν) : Prop where
  item : ∀ w ∈ m.workerList, ∃ item ∈ m.nodeList, item.2.2 = w.node
  type : ∀ item ∈ m.nodeList, item.2.1 = (m.nodes item.2.2).type
  started : ∀ n, .started n ∈ m.log → ∃ item ∈ m.nodeList, item.2.2 = n

omit [DecidableEq ν] in
theorem Entered.init (nodes : ν → Node) : Entered (init nodes) where
  item w member := by cases member
  type item member := by cases member
  started n member := by cases member

omit [DecidableEq ν] in
theorem Entered.runAsThreads (old : Entered m) (n : ν) (num : Int) : Entered (m.runAsThreads n num).2 := by
  have types : ∀ item ∈ m.nodeList ++ [((m.nodes n).name, (m.nodes n).type, n)],
      item.2.1 = (m.nodes item.2.2).type := by
    intro item member
    rcases List.mem_append.mp member with earlier | now
    · exact old.type item earlier
    · cases List.mem_singleton.mp now
      rfl
  have kept {x : ν} (entered : ∃ item ∈ m.nodeList, item.2.2 = x) :
      ∃ item ∈ m.nodeList ++ [((m.nodes n).name, (m.nodes n).type, n)], item.2.2 = x := by
    obtain ⟨item, member, same⟩ := entered
    exact ⟨item, List.mem_append_left _ member, same⟩
  rcases m.runAsThreads_cases n num with ⟨_, _, result⟩ | ⟨_, _, _, result⟩ | ⟨_, _, result⟩
  · rw [result]
    exact old
  · rw [result]
    exact ⟨fun w member => kept (old.item w member), types, fun n started => kept (old.started n started)⟩
  · rw [result]
    refine ⟨?_, types, ?_⟩
    · intro w member
      rcases List.mem_append.mp member with earlier | now
      · exact kept (old.item w earlier)
      · cases List.eq_of_mem_replicate now
        exact ⟨_, List.mem_append_right _ (List.mem_singleton_self _), rfl⟩
    · intro x member
      rcases List.mem_append.mp member with earlier | now
      · exact kept (old.started x earlier)
      · cases List.mem_singleton.mp now
        exact ⟨_, List.mem_append_right _ (List.mem_singleton_self _), rfl⟩

theorem Entered.step {a : ManagerAct ν} (old : Entered m) (next : m.step a = some u) : Entered u := by
  have types : ∀ item ∈ m.nodeList, item.2.1 = (u.nodes item.2.2).type := by
    intro item member
    rw [step_type next]
    exact old.type item member
  cases a with
  | connect up down reuseChn =>
    cases Option.some.inj next
    obtain ⟨nodeList, workerList, _, log⟩ := connect_rest m up down reuseChn
    refine ⟨?_, ?_, ?_⟩
    · rw [nodeList, workerList]
      exact old.item
    · rw [nodeList]
      exact types
    · rw [nodeList, log]
      exact old.started
  | runAsThreads n num =>
    cases Option.some.inj next
    exact old.runAsThreads n num
  | pickChannel i =>
    obtain ⟨w, c, atWorker, _, _, rfl⟩ := pickChannel_cases next
    refine ⟨?_, types, old.started⟩
    intro v member
    rcases List.mem_or_eq_of_mem_set member with earlier | rfl
    · exact old.item v earlier
    · exact old.item w (List.mem_of_getElem? atWorker)
  | stopSignal n =>
    cases Option.some.inj next
    exact ⟨old.item, types, old.started⟩
  | stopNode n =>
    cases Option.some.inj next
    refine ⟨old.item, types, ?_⟩
    intro x member
    rcases List.mem_append.mp member with earlier | now
    · exact old.started x earlier
    · simp at now
  | shutdown =>
    cases Option.some.inj next
    obtain ⟨nodeList, -, workers, log⟩ := m.shutdown_rest
    refine ⟨?_, ?_, ?_⟩
    · intro w member
      rw [nodeList]
      exact old.item w (workers w member)
    · rw [nodeList]
      exact types
    · intro n member
      rw [nodeList]
      exact old.started n (log n member)

theorem entered_of_run {nodes : ν → Node} {acts : List (ManagerAct ν)}
    (reach : run step (init nodes) acts = some m) : Entered m :=
  run_invariant (fun _ _ _ old next => old.step next) (.init nodes) reach

/-- When the first `Shutdown` reaches its join loop, every node with a worker is halted,
except for the sources and sinks that nothing else has halted: for these the stop pass does
nothing, and only their relay and duplex neighbours break the channels they share. -/
theorem shutdown_halts_iff (nodes : ν → Node) (acts : List (ManagerAct ν)) (m : NodeManager ν)
    (reach : run step (init nodes) acts = some m) (first : m.stop = false) :
    m.shutdown = { m.stopAll with channelList := [], workerList := [] } ∧
    ((∀ w ∈ m.stopAll.workerList, m.stopAll.Halted w.node) ↔
      ∀ w ∈ m.workerList, stoppable (m.nodes w.node).type = false →
        (m.nodes w.node).isStop = true ∧ ∀ c, m.Uses w.node c →
          m.Broken c ∨ ∃ item ∈ m.nodeList, stoppable item.2.1 = true ∧ m.Uses item.2.2 c) := by
  have entered := entered_of_run reach
  have stops := m.stops_stopAll
  refine ⟨by simp [shutdown, first], ?_⟩
  rw [stops.workerList]
  constructor
  · intro halted w member kind
    obtain ⟨isStop, broken⟩ := halted w member
    constructor
    · rcases (stops.isStop w.node).mp isStop with already | ⟨item, listed, itemKind, same⟩
      · exact already
      · rw [entered.type item listed, same, kind] at itemKind
        cases itemKind
    · intro c uses
      exact (stops.broken c).mp (broken c ((stops.uses w.node c).mpr uses))
  · intro condition w member
    cases kind : stoppable (m.nodes w.node).type with
    | true =>
      obtain ⟨item, listed, same⟩ := entered.item w member
      have itemKind : stoppable item.2.1 = true := by rw [entered.type item listed, same, kind]
      refine ⟨(stops.isStop w.node).mpr (Or.inr ⟨item, listed, itemKind, same⟩), fun c uses => ?_⟩
      refine (stops.broken c).mpr (Or.inr ⟨item, listed, itemKind, ?_⟩)
      rw [same]
      exact (stops.uses w.node c).mp uses
    | false =>
      obtain ⟨isStop, broken⟩ := condition w member kind
      refine ⟨(stops.isStop w.node).mpr (Or.inl isStop), fun c uses => ?_⟩
      exact (stops.broken c).mpr (broken c ((stops.uses w.node c).mp uses))

/-- A relay and the sink that it feeds, both running. -/
def monitored : Nat → Node
  | 0 => .init "relay" .relay false
  | _ => .init "sink" .sink false

def monitor : List (ManagerAct Nat) :=
  [.connect 0 1 true, .runAsThreads 1 1, .pickChannel 0]

theorem shutdown_halts_relay :
    ∃ m, run step (init services) [.connect 2 3 true, .runAsThreads 3 2] = some m ∧ m.workerList.length = 2 ∧
      ∀ w ∈ m.stopAll.workerList, m.stopAll.Halted w.node := by
  obtain ⟨m, reach, first, workers⟩ : ∃ m,
      run step (init services) [.connect 2 3 true, .runAsThreads 3 2] = some m ∧
      m.stop = false ∧ m.workerList = [⟨3, none⟩, ⟨3, none⟩] := ⟨_, rfl, rfl, rfl⟩
  have relay : stoppable (m.nodes 3).type = true := by
    cases Option.some.inj reach
    rfl
  refine ⟨m, reach, by simp [workers], (shutdown_halts_iff services _ m reach first).2.mpr ?_⟩
  intro w member kind
  rw [workers] at member
  simp only [List.mem_cons, List.not_mem_nil, or_false, or_self] at member
  rw [member, relay] at kind
  cases kind

theorem sink_left_running :
    ¬ ∀ (nodes : Nat → Node) (acts : List (ManagerAct Nat)) (m : NodeManager Nat),
      (∀ n ct, (nodes n).channels ct = []) → run step (init nodes) acts = some m → m.stop = false →
      ∀ w ∈ m.stopAll.workerList, m.stopAll.Halted w.node := by
  intro claim
  obtain ⟨m, reach, first, worker, runs⟩ : ∃ m, run step (init monitored) monitor = some m ∧ m.stop = false ∧
      ⟨1, some 0⟩ ∈ m.stopAll.workerList ∧ (m.stopAll.nodes 1).isStop = false :=
    ⟨_, rfl, rfl, by decide, by decide⟩
  have fresh : ∀ n ct, (monitored n).channels ct = [] := by
    intro n ct
    unfold monitored
    split <;> cases ct <;> rfl
  have halted := claim monitored monitor m fresh reach first _ worker
  rw [halted.1] at runs
  cases runs

/-- The node was started and has not been stopped since. -/
def LeftRunning (log : List (NodeEvent ν)) (n : ν) : Prop :=
  (log.filter fun e => e.node = n).getLast? = some (.started n)

theorem leftRunning_started (log : List (NodeEvent ν)) (n : ν) : LeftRunning (log ++ [.started n]) n := by
  simp [LeftRunning, NodeEvent.node]

/-- Of a node that is among those being stopped, the last event is that it is. -/
theorem not_leftRunning_stopped {log : List (NodeEvent ν)} {stopped : List ν} (member : n ∈ stopped) :
    ¬ LeftRunning (log ++ stopped.map .stopped) n := by
  intro running
  have last := List.mem_of_getLast? running
  unfold LeftRunning at running
  rw [List.filter_append, List.getLast?_append] at running
  have mine : NodeEvent.stopped n ∈ (stopped.map NodeEvent.stopped).filter fun e => e.node = n :=
    List.mem_filter.mpr ⟨List.mem_map_of_mem member, by simp [NodeEvent.node]⟩
  cases final : ((stopped.map NodeEvent.stopped).filter fun e => e.node = n).getLast? with
  | none => simp [List.getLast?_eq_none_iff.mp final] at mine
  | some e =>
    rw [final, Option.some_or] at running
    cases Option.some.inj running
    have := (List.mem_filter.mp (List.mem_of_getLast? final)).1
    simp at this

theorem started_of_leftRunning {log : List (NodeEvent ν)} (running : LeftRunning log n) : .started n ∈ log :=
  (List.mem_filter.mp (List.mem_of_getLast? running)).1

/-- What a `Shutdown` is to leave. -/
def Released (m : NodeManager ν) : Prop :=
  m.workerList = [] ∧ m.channelList = [] ∧ ∀ item ∈ m.nodeList, ¬ LeftRunning m.log item.2.2

/-- `Connect` makes a channel: it is told to, or finds none at either end. -/
def Makes (m : NodeManager ν) (up down : ν) (reuseChn : Bool) : Prop :=
  m.Accepts up down ∧ (reuseChn = false ∨ m.chns up .chnOut = [] ∧ m.chns down .chnIn = [])

/-- The calls that a manager is used with and the steps of its workers. -/
def IsUse : ManagerAct ν → Prop
  | .stopNode _ => False
  | .connect _ _ _ | .runAsThreads _ _ | .pickChannel _ | .stopSignal _ | .shutdown => True

/-- After a first `Shutdown` nothing is made and nothing is started. -/
def OneCycle (m : NodeManager ν) : ManagerAct ν → Prop
  | .connect up down reuseChn => m.stop = true → ¬ m.Makes up down reuseChn
  | .runAsThreads n num => m.stop = true → ¬ m.Runs n num
  | .pickChannel _ | .stopSignal _ | .stopNode _ | .shutdown => True

instance (m : NodeManager ν) (up down : ν) (reuseChn : Bool) : Decidable (m.Makes up down reuseChn) :=
  inferInstanceAs (Decidable (((m.nodes up).type ≠ .sink ∧ (m.nodes down).type ≠ .source) ∧
    (reuseChn = false ∨ m.chns up .chnOut = [] ∧ m.chns down .chnIn = [])))

instance (m : NodeManager ν) : ∀ a, Decidable (m.OneCycle a)
  | .connect up down reuseChn => inferInstanceAs (Decidable (m.stop = true → ¬ m.Makes up down reuseChn))
  | .runAsThreads n num => inferInstanceAs (Decidable (m.stop = true → ¬ m.Runs n num))
  | .pickChannel _ | .stopSignal _ | .stopNode _ | .shutdown => isTrue trivial

theorem connect_channelList (m : NodeManager ν) (up down : ν) (reuseChn : Bool) :
    (m.Makes up down reuseChn → (m.connect up down reuseChn).2.channelList ≠ []) ∧
      (¬ m.Makes up down reuseChn → (m.connect up down reuseChn).2.channelList = m.channelList) := by
  rcases m.connect_cases up down reuseChn with ⟨rejects, result⟩ | ⟨_, c, member, reuse, result⟩ |
    ⟨_, c, member, reuse, _, result⟩ | ⟨accepts, empty, result⟩
  · exact ⟨fun makes => absurd makes.1 rejects, fun _ => by rw [result]⟩
  · refine ⟨fun makes => ?_, fun _ => by rw [result]; rfl⟩
    rcases makes.2 with no | ⟨none, _⟩
    · simp [reuse] at no
    · simp [none] at member
  · refine ⟨fun makes => ?_, fun _ => by rw [result]; rfl⟩
    rcases makes.2 with no | ⟨_, none⟩
    · simp [reuse] at no
    · simp [none] at member
  · refine ⟨fun _ => ?_, fun not => absurd ⟨accepts, empty⟩ not⟩
    rw [result]
    exact List.append_ne_nil_of_right_ne_nil _ (by simp)

/-- `Released`, said of all nodes and not only of those in `node_list_`. -/
def Idle (m : NodeManager ν) : Prop := m.workerList = [] ∧ m.channelList = [] ∧ ∀ n, ¬ LeftRunning m.log n

theorem Entered.idle_iff (entered : Entered m) : m.Idle ↔ m.Released := by
  refine ⟨fun idle => ⟨idle.1, idle.2.1, fun item _ => idle.2.2 item.2.2⟩, fun released => ?_⟩
  refine ⟨released.1, released.2.1, fun n running => ?_⟩
  obtain ⟨item, listed, rfl⟩ := entered.started n (started_of_leftRunning running)
  exact released.2.2 item listed running

/-- A step keeps the link between how the manager was used and what its last `Shutdown`
left. -/
theorem idle_step {a : ManagerAct ν} (use : IsUse a) (stopped : m.stop = true) (next : m.step a = some u) :
    u.stop = true ∧ (u.Idle ↔ m.Idle ∧ m.OneCycle a) := by
  cases a with
  | stopNode _ => exact False.elim use
  | connect up down reuseChn =>
    cases Option.some.inj next
    obtain ⟨_, workerList, stop, log⟩ := connect_rest m up down reuseChn
    obtain ⟨makes, keeps⟩ := connect_channelList m up down reuseChn
    refine ⟨stop.trans stopped, ?_⟩
    simp only [Idle, OneCycle, stopped, workerList, log, forall_true_left]
    by_cases now : m.Makes up down reuseChn
    · simp [makes now, now]
    · simp [keeps now, now]
  | runAsThreads n num =>
    cases Option.some.inj next
    simp only [Idle, OneCycle, stopped, forall_true_left]
    rcases m.runAsThreads_cases n num with ⟨fails, _, result⟩ | ⟨fails, _, _, result⟩ | ⟨runs, _, result⟩
    · simp [result, fails, stopped]
    · simp [result, fails, stopped]
    · refine ⟨by rw [result]; exact stopped, ?_⟩
      rw [result]
      refine ⟨fun idle => ?_, fun idle => absurd runs idle.2⟩
      exact absurd (leftRunning_started m.log n) (idle.2.2 n)
  | pickChannel i =>
    obtain ⟨w, c, _, _, _, rfl⟩ := pickChannel_cases next
    exact ⟨stopped, by simp [Idle, OneCycle, setNode]⟩
  | stopSignal n =>
    cases Option.some.inj next
    exact ⟨stopped, by simp [Idle, OneCycle, setNode]⟩
  | shutdown =>
    cases Option.some.inj next
    simp [shutdown, stopped, OneCycle]

theorem type_of_run {nodes : ν → Node} {acts : List (ManagerAct ν)} (reach : run step (init nodes) acts = some m)
    (n : ν) : (m.nodes n).type = (nodes n).type :=
  run_invariant (I := fun m => (m.nodes n).type = (nodes n).type) (fun _ _ _ old next => (step_type next n).trans old)
    rfl reach

theorem step_stop {a : ManagerAct ν} (next : m.step a = some u) (running : m.stop = false) :
    a = .shutdown ∨ u.stop = false := by
  cases a with
  | connect up down reuseChn =>
    cases Option.some.inj next
    exact Or.inr ((connect_rest m up down reuseChn).2.2.1.trans running)
  | runAsThreads n num =>
    cases Option.some.inj next
    rcases m.runAsThreads_cases n num with ⟨_, _, result⟩ | ⟨_, _, _, result⟩ | ⟨_, _, result⟩ <;>
      exact Or.inr (by rw [result]; exact running)
  | pickChannel i =>
    obtain ⟨w, c, _, _, _, rfl⟩ := pickChannel_cases next
    exact Or.inr running
  | stopSignal _ | stopNode _ =>
    cases Option.some.inj next
    exact Or.inr running
  | shutdown => exact Or.inl rfl

/-- The first `Shutdown` leaves nothing, where it has a case for every node. -/
theorem idle_first_shutdown (entered : Entered m) (kinds : ∀ n, stoppable (m.nodes n).type = true)
    (running : m.stop = false) : m.shutdown.stop = true ∧ m.shutdown.Idle := by
  have stops := m.stops_stopAll
  simp only [shutdown, running, Bool.false_eq_true, if_false]
  refine ⟨stops.stop, rfl, rfl, fun n left => ?_⟩
  dsimp only at left
  rw [stops.log, show (List.map (fun item : String × NodeType × ν => NodeEvent.stopped item.2.2)
    (m.nodeList.filter fun item => stoppable item.2.1)) =
      ((m.nodeList.filter fun item => stoppable item.2.1).map fun item => item.2.2).map .stopped by simp] at left
  by_cases listed : ∃ item ∈ m.nodeList, item.2.2 = n
  · obtain ⟨item, member, rfl⟩ := listed
    refine not_leftRunning_stopped (List.mem_map.mpr ⟨item, List.mem_filter.mpr ⟨member, ?_⟩, rfl⟩) left
    rw [entered.type item member]
    exact kinds item.2.2
  · rcases List.mem_append.mp (started_of_leftRunning left) with earlier | now
    · exact listed (entered.started n earlier)
    · simp at now

/-- After a `Shutdown` nothing is left exactly when nothing was made or started between an
earlier `Shutdown` and this one. -/
theorem shutdown_releases_iff (nodes : ν → Node) (kinds : ∀ n, stoppable (nodes n).type = true)
    (acts : List (ManagerAct ν)) (uses : ∀ a ∈ acts, IsUse a) (m : NodeManager ν)
    (reach : run step (init nodes) (acts ++ [.shutdown]) = some m) :
    m.Released ↔ Along step OneCycle (init nodes) acts := by
  obtain ⟨s, earlier, last⟩ := run_snoc.mp reach
  -- before the first `Shutdown` every use is fine; after it `idle_step` keeps the account
  have account : (s.stop = false ∧ Along step OneCycle (init nodes) acts) ∨
      (s.stop = true ∧ (s.Idle ↔ Along step OneCycle (init nodes) acts)) := by
    clear reach last
    induction acts using List.reverseRecOn generalizing s with
    | nil =>
      cases Option.some.inj earlier
      exact Or.inl ⟨rfl, trivial⟩
    | append_singleton acts a ih =>
      obtain ⟨r, before, next⟩ := run_snoc.mp earlier
      have usesA := uses a (by simp)
      have snoc : Along step OneCycle (init nodes) (acts ++ [a]) ↔
          Along step OneCycle (init nodes) acts ∧ r.OneCycle a := by
        rw [along_snoc]
        simp only [before, Option.some.injEq, forall_eq']
      rcases ih (fun b member => uses b (List.mem_append_left _ member)) r before with
        ⟨running, fits⟩ | ⟨stopped, iff⟩
      · have fine : r.OneCycle a := by
          cases a <;> simp [OneCycle, running]
        rcases step_stop next running with rfl | still
        · cases Option.some.inj next
          obtain ⟨stopped, idle⟩ := idle_first_shutdown (entered_of_run before)
            (fun n => by rw [type_of_run before]; exact kinds n) running
          exact Or.inr ⟨stopped, fun _ => snoc.mpr ⟨fits, fine⟩, fun _ => idle⟩
        · exact Or.inl ⟨still, snoc.mpr ⟨fits, fine⟩⟩
      · obtain ⟨stopped, step⟩ := idle_step usesA stopped next
        exact Or.inr ⟨stopped, by rw [step, iff, snoc]⟩
  rw [← (entered_of_run reach).idle_iff]
  cases Option.some.inj last
  rcases account with ⟨running, fits⟩ | ⟨stopped, iff⟩
  · exact ⟨fun _ => fits, fun _ => (idle_first_shutdown (entered_of_run earlier)
      (fun n => by rw [type_of_run earlier]; exact kinds n) running).2⟩
  · rw [← iff]
    simp [shutdown, stopped]

theorem services_stoppable (n : Nat) : stoppable (services n).type = true := by
  unfold services
  split <;> rfl

/-- The manager is shut down twice; nothing is connected or started in between. -/
def oneCycle : List (ManagerAct Nat) := [.connect 2 3 true, .runAsThreads 3 2, .shutdown]

/-- The encoder is connected and started after a `Shutdown`, then the manager is shut down
again. -/
def twoCycles : List (ManagerAct Nat) := [.shutdown, .connect 2 3 true, .runAsThreads 3 1]

theorem shutdown_releases_one_cycle :
    ∃ m, run step (init services) (oneCycle ++ [.shutdown]) = some m ∧ m.Released := by
  obtain ⟨m, reach⟩ : ∃ m, run step (init services) (oneCycle ++ [.shutdown]) = some m := ⟨_, rfl⟩
  refine ⟨m, reach, (shutdown_releases_iff services services_stoppable oneCycle ?_ m reach).mpr (by decide)⟩
  simp [oneCycle, IsUse]

theorem second_shutdown_leaves_encoder :
    ¬ ∀ (nodes : Nat → Node) (acts : List (ManagerAct Nat)) (m : NodeManager Nat),
      (∀ n, stoppable (nodes n).type = true) → (∀ a ∈ acts, IsUse a) →
      run step (init nodes) (acts ++ [.shutdown]) = some m → m.Released := by
  intro claim
  obtain ⟨m, reach, workers⟩ : ∃ m, run step (init services) (twoCycles ++ [.shutdown]) = some m ∧
      m.workerList = [⟨3, none⟩] := ⟨_, rfl, rfl⟩
  have released := claim services twoCycles m services_stoppable (by simp [twoCycles, IsUse]) reach
  rw [released.1] at workers
  cases workers

end ServicesFramework.NodeManager
