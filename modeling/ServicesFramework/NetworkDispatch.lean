import ServicesFramework.CollectorDispatch
import ServicesFramework.NetworkRuns

namespace ServicesFramework.NodeManager

open Machine

variable {ν ι : Type*}

/-- `chn->Name()`. -/
def chnName (m : NodeManager ν) (c : Nat) : String := (m.channels c).name

/-- `Dispatch` of the node objects, some of which are `Collector`s: `Collector` overrides it, on the
same channels, and looks at their names. A call for which the collector has no channel fails and
ends the process; here nothing is written, so a run of the services goes on from there. -/
def dispatch (m : NodeManager ν) (collector : ν → Bool) (n : ν) (msg : BaseMsg) : Option Nat :=
  if collector n then Collector.route m.chnName (m.nodes n).downChannels msg else (m.nodes n).dispatch msg

variable {m : NodeManager ν} {collector : ν → Bool} {n : ν} {msg : BaseMsg} {channel : Nat}

theorem dispatch_mem (relays : ∀ n, collector n = true → (m.nodes n).type = .relay)
    (target : m.dispatch collector n msg = some channel) : channel ∈ m.chns n .chnOut := by
  unfold dispatch at target
  split at target
  · rename_i here
    have listed := Collector.route_mem target
    simpa [chns, Node.channels, relays n here] using listed
  · exact Node.dispatch_mem target

/-- The nodes of the manager as they run, with collectors among the relays. -/
def runningServices (m : NodeManager ν) (collector : ν → Bool) (relays : ∀ n, collector n = true → (m.nodes n).type = .relay)
    (role : ι → Option (Role ν)) (handleMsg : ν → BaseMsg → List BaseMsg → Bool) : Services ν ι where
  nodes := m.nodes
  role := role
  handleMsg := handleMsg
  dispatch := m.dispatch collector
  dispatch_mem _ _ _ := dispatch_mem relays

/-- `Collector::Dispatch` after any calls that have returned: it writes to the channel above, and
fails where there is none though the collector has channels. -/
theorem dispatch_collector (here : collector n = true) {msgs : List BaseMsg} {c : Collector}
    (reach : run (Collector.dispatch m.chnName) (.init (m.nodes n).downChannels) msgs = some c)
    (any : (m.nodes n).downChannels ≠ []) (msg : BaseMsg) :
    c.dispatch m.chnName msg =
      (m.dispatch collector n msg).map fun chn => (c.prepare m.chnName).write chn msg := by
  rw [dispatch, if_pos here]
  exact (Collector.built_of_run any reach).dispatch_eq any msg

variable [DecidableEq ν] [DecidableEq ι]

/-- What the threads of the node have put into channels, in order. -/
def putBy (sv : Services ν ι) (n : ν) (log : List (Transfer ι)) : List (Nat × BaseMsg) :=
  (log.filter fun e => (sv.role e.thread).map Role.node = some n).map fun e => (e.channel, e.msg)

/-- The threads of a collector put their messages where its `Dispatch` writes them when it is called
for these messages in turn, which builds its tables on the way. -/
theorem collector_writes (here : collector n = true) {sv : Services ν ι} (dispatches : sv.dispatch = m.dispatch collector)
    {isStop : ν → Bool} {capacity : Nat → Nat} {acts : List (NetworkAct ι)} {s : Network ν ι}
    (reach : run (Network.step sv) (.init isStop capacity) acts = some s) :
    ∃ c, run (Collector.dispatch m.chnName) (.init (m.nodes n).downChannels)
        ((putBy sv n s.enqueued).map Prod.snd) = some c ∧ c.written = putBy sv n s.enqueued := by
  have routes : ∀ entry ∈ putBy sv n s.enqueued,
      Collector.route m.chnName (m.nodes n).downChannels entry.2 = some entry.1 := by
    intro entry member
    obtain ⟨e, selected, rfl⟩ := List.mem_map.mp member
    obtain ⟨listed, mine⟩ := List.mem_filter.mp selected
    obtain ⟨role, atRole, target⟩ := (Network.logged_of_run reach).routed e listed
    have same : role.node = n := by simpa [atRole] using mine
    rwa [same, dispatches, dispatch, if_pos here] at target
  obtain ⟨c, calls, _, written⟩ := Collector.run_of_routes routes
  exact ⟨c, calls, written⟩

end ServicesFramework.NodeManager
