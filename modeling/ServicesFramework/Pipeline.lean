import Mathlib.Data.List.GetD
import Mathlib.Tactic
import ServicesFramework.NetworkRuns

namespace ServicesFramework

/-- A source and the stages behind it. Node `i` writes to the down-channels of stage `i`; the
node behind the last stage has none, and what it reads has arrived. -/
structure Pipeline where
  depth : Nat
  channels : Nat → List Nat
  stage : Nat → Nat
  capacity : Nat → Nat
  deep : 0 < depth
  nonempty : ∀ i < depth, channels i ≠ []
  distinct : ∀ i < depth, (channels i).Nodup
  apart : ∀ i < depth, ∀ c ∈ channels i, stage c = i

namespace Pipeline

variable (p : Pipeline)

def node (i : Nat) : Node :=
  { Node.init (toString i) .relay false with
    upChannels := if 0 < i ∧ i ≤ p.depth then p.channels (i - 1) else []
    downChannels := if i < p.depth then p.channels i else [] }

/-- The nodes of a pipeline, one thread that feeds the source, and for each channel one
worker of the next stage. `HandleMsg` of every node is `Dispatch`. -/
def services : Services Nat (Option Nat) where
  nodes := p.node
  role
    | none => some (.producer 0)
    | some c =>
      if p.stage c < p.depth ∧ c ∈ p.channels (p.stage c) then some (.worker (p.stage c + 1) c) else none
  handleMsg _ msg msgs := msgs = [msg]

/-- The channel of stage `i` that messages with this id take. -/
def path (i : Nat) (id : UInt32) : Nat := (p.channels i).getD (id.toNat % (p.channels i).length) 0

/-- What the source has put into the pipeline, and what has arrived behind the last stage. -/
def sent (s : Network Nat (Option Nat)) : List BaseMsg := Network.moved none s.enqueued

def received (s : Network Nat (Option Nat)) : List BaseMsg :=
  (s.dequeued.filter fun e => p.stage e.channel + 1 = p.depth).map Transfer.msg

/-- What is in some queue, or held by some worker before the end. -/
def inFlight (s : Network Nat (Option Nat)) : List BaseMsg :=
  (List.range p.depth).flatMap fun i => (p.channels i).flatMap fun c =>
    (s.queues c).pool ++ if i + 1 < p.depth then (s.pcs (some c)).held else []

variable {p} {s u : Network Nat (Option Nat)} {t : Option Nat} {role : Role Nat} {i c : Nat} {id : UInt32}
  {msg : BaseMsg}

theorem path_mem (inside : i < p.depth) (id : UInt32) : p.path i id ∈ p.channels i := by
  have positive : 0 < (p.channels i).length := List.length_pos_iff.mpr (p.nonempty i inside)
  have below : id.toNat % (p.channels i).length < (p.channels i).length := Nat.mod_lt _ positive
  rw [path, List.getD_eq_getElem _ _ below]
  exact List.getElem_mem below

theorem stage_path (inside : i < p.depth) (id : UInt32) : p.stage (p.path i id) = i :=
  p.apart i inside _ (path_mem inside id)

/-- A node of the pipeline dispatches every message along the path of its id. -/
theorem node_dispatch (inside : i < p.depth) (msg : BaseMsg) :
    (p.node i).dispatch msg = some (p.path i msg.id) := by
  have positive : 0 < (p.channels i).length := List.length_pos_iff.mpr (p.nonempty i inside)
  have channels : (p.node i).channels .chnOut = p.channels i := if_pos inside
  have below : msg.id.toNat % (p.channels i).length < (p.channels i).length := Nat.mod_lt _ positive
  rw [Node.dispatch, Node.getChannelNum, channels, if_neg (by omega), Node.getChannel, channels, path,
    List.getD_eq_getElem _ _ below, List.getElem?_eq_getElem below]

theorem node_dispatch_end (beyond : p.depth ≤ i) (msg : BaseMsg) : (p.node i).dispatch msg = none := by
  have channels : (p.node i).channels .chnOut = [] := if_neg (by omega)
  rw [Node.dispatch, Node.getChannelNum, channels]
  rfl

theorem role_some {n : Nat} (atRole : p.services.role t = some (.worker n c)) :
    t = some c ∧ n = p.stage c + 1 ∧ p.stage c < p.depth ∧ c ∈ p.channels (p.stage c) := by
  cases t with
  | none => cases atRole
  | some d =>
    simp only [services] at atRole
    split at atRole
    · rename_i valid
      cases Option.some.inj atRole
      exact ⟨rfl, rfl, valid⟩
    · cases atRole

/-- While no stop signal is about and nothing is broken, every worker hands on what it reads,
one message after the other. -/
structure Relays (p : Pipeline) (s : Network Nat (Option Nat)) : Prop where
  unbroken : ∀ c, (s.queues c).breakAllWait = false
  plain : ∀ t, ∀ msg ∈ (s.pcs t).held, msg.stopSignal = false
  plainLog : ∀ e ∈ s.enqueued, e.msg.stopSignal = false
  relays : ∀ c, p.stage c + 1 < p.depth →
    Network.moved (some c) s.dequeued = Network.moved (some c) s.enqueued ++ (s.pcs (some c)).held

theorem Relays.init : Relays p (.init (fun _ => false) p.capacity) where
  unbroken c := rfl
  plain t msg member := by cases member
  plainLog e member := by cases member
  relays c _ := rfl

/-- A step that leaves queues and logs alone, where the thread goes on with what it held. -/
theorem Relays.of_setPc (old : Relays p s) {pc : ThreadPc} (queues : u.queues = s.queues)
    (enqueued : u.enqueued = s.enqueued) (dequeued : u.dequeued = s.dequeued)
    (pcs : u.pcs = Function.update s.pcs t pc) (plain : ∀ msg ∈ pc.held, msg.stopSignal = false)
    (held : ∀ c, t = some c → p.stage c + 1 < p.depth → pc.held = (s.pcs t).held) : Relays p u := by
  refine ⟨by rw [queues]; exact old.unbroken, ?_, by rw [enqueued]; exact old.plainLog, ?_⟩
  · intro other msg member
    rw [pcs] at member
    by_cases same : other = t
    · subst other
      rw [Function.update_self] at member
      exact plain msg member
    · rw [Function.update_of_ne same] at member
      exact old.plain other msg member
  · intro c inside
    rw [enqueued, dequeued, pcs, old.relays c inside]
    by_cases same : some c = t
    · subst t
      rw [Function.update_self, held c rfl inside]
    · rw [Function.update_of_ne same]

theorem Relays.take (old : Relays p s) (logged : Network.Logged p.services s) {front : BaseMsg}
    {rest : List BaseMsg} (atPc : s.pcs t = .read .attempt) (pool : (s.queues c).pool = front :: rest) :
    Relays p (Network.setPc { s with
      queues := Function.update s.queues c { s.queues c with pool := rest }
      dequeued := s.dequeued ++ [⟨t, c, front⟩] } t (.handle front)) := by
  refine ⟨?_, ?_, old.plainLog, ?_⟩
  · intro d
    by_cases same : d = c
    · subst d
      simpa using old.unbroken c
    · simpa [same] using old.unbroken d
  · have front_plain : front.stopSignal = false := by
      have written : front ∈ Network.via c s.enqueued := by
        rw [logged.fifo c, pool]
        simp
      obtain ⟨e, member, rfl⟩ := List.mem_map.mp written
      exact old.plainLog e (List.mem_filter.mp member).1
    intro other msg member
    by_cases same : other = t
    · subst other
      rw [Network.setPc_self] at member
      cases List.mem_singleton.mp member
      exact front_plain
    · rw [Network.setPc_other same] at member
      exact old.plain other msg member
  · intro d inside
    simp only [Network.setPc_enqueued, Network.setPc_dequeued, Network.moved_snoc, old.relays d inside]
    by_cases same : t = some d
    · subst t
      simp [atPc, ThreadPc.held]
    · rw [Network.setPc_other (Ne.symm same)]
      simp [same]

theorem Relays.put (old : Relays p s) {rest : List BaseMsg} (atPc : s.pcs t = .write c msg rest .attempt) :
    Relays p (Network.setPc { s with
      queues := Function.update s.queues c { s.queues c with pool := (s.queues c).pool ++ [msg] }
      enqueued := s.enqueued ++ [⟨t, c, msg⟩] } t (.dispatch rest)) := by
  have plain : ∀ m ∈ msg :: rest, m.stopSignal = false := by
    have held := old.plain t
    rwa [atPc] at held
  refine ⟨?_, ?_, ?_, ?_⟩
  · intro d
    by_cases same : d = c
    · subst d
      simpa using old.unbroken c
    · simpa [same] using old.unbroken d
  · intro other m member
    by_cases same : other = t
    · subst other
      rw [Network.setPc_self] at member
      exact plain m (List.mem_cons_of_mem _ member)
    · rw [Network.setPc_other same] at member
      exact old.plain other m member
  · intro e member
    rcases List.mem_append.mp member with earlier | now
    · exact old.plainLog e earlier
    · cases List.mem_singleton.mp now
      exact plain msg List.mem_cons_self
  · intro d inside
    simp only [Network.setPc_enqueued, Network.setPc_dequeued, Network.moved_snoc, old.relays d inside]
    by_cases same : t = some d
    · subst t
      simp [atPc, ThreadPc.held]
    · rw [Network.setPc_other (Ne.symm same)]
      simp [same]

theorem Relays.effect (old : Relays p s) (logged : Network.Logged p.services s)
    (atRole : p.services.role t = some role) (effect : Network.Effect p.services s t role u) : Relays p u := by
  have plain := old.plain t
  cases effect with
  | turn pc held _ _ _ =>
    refine old.of_setPc rfl rfl rfl rfl ?_ fun _ _ _ => held
    rwa [held]
  | take n channel front rest _ atPc pool => exact old.take logged atPc pool
  | put channel msg rest atPc _ => exact old.put atPc
  | unrouted msg rest atPc nowhere =>
    refine old.of_setPc rfl rfl rfl rfl ?_ ?_
    · rw [atPc] at plain
      exact fun m member => plain m (List.mem_cons_of_mem _ member)
    · rintro c rfl inside
      -- only a node behind the last stage has no channel
      cases role with
      | producer n =>
        simp only [services] at atRole
        split at atRole <;> cases atRole
      | worker n d =>
        obtain ⟨same, rfl, _⟩ := role_some atRole
        cases Option.some.inj same
        simp only [Role.node, services, node_dispatch inside] at nowhere
        cases nowhere
  | broken channel msg rest atPc flag =>
    rw [old.unbroken channel] at flag
    cases flag
  | stop msg atPc _ signal =>
    rw [atPc] at plain
    rw [plain msg List.mem_cons_self] at signal
    cases signal
  | fdWrite msg atPc duplex => cases duplex
  | handled msg msgs atPc _ _ allowed =>
    have same : msgs = [msg] := by simpa [services] using allowed
    subst msgs
    rw [atPc] at plain
    exact old.of_setPc rfl rfl rfl rfl plain fun _ _ _ => by rw [atPc]; rfl

/-- What the source has begun to dispatch is in the pipeline or in its hand. -/
theorem Relays.source (old : Relays p s) (atRole : p.services.role t = some role)
    (effect : Network.Effect p.services s t role u) :
    sent u ++ (u.pcs none).held = sent s ++ (s.pcs none).held := by
  have plain := old.plain t
  have turned {pc : ThreadPc} (held : pc.held = (s.pcs t).held) :
      (Function.update s.pcs t pc none).held = (s.pcs none).held := by
    by_cases same : none = t
    · subst t
      rw [Function.update_self, held]
    · rw [Function.update_of_ne same]
  cases effect with
  | turn pc held _ _ _ => exact congrArg _ (turned held)
  | take n channel front rest worker _ _ =>
    subst role
    obtain ⟨rfl, _⟩ := role_some atRole
    rfl
  | put channel msg rest atPc _ =>
    simp only [sent, Network.setPc_enqueued, Network.moved_snoc]
    by_cases same : t = none
    · subst t
      simp [atPc, ThreadPc.held]
    · rw [Network.setPc_other (Ne.symm same)]
      simp [same]
  | unrouted msg rest atPc nowhere =>
    cases t with
    | none =>
      cases Option.some.inj atRole
      simp only [Role.node, services, node_dispatch p.deep] at nowhere
      cases nowhere
    | some c => rfl
  | broken channel msg rest atPc flag =>
    rw [old.unbroken channel] at flag
    cases flag
  | stop msg atPc _ signal =>
    rw [atPc] at plain
    rw [plain msg List.mem_cons_self] at signal
    cases signal
  | fdWrite msg atPc duplex => cases duplex
  | handled msg msgs atPc _ _ allowed =>
    have same : msgs = [msg] := by simpa [services] using allowed
    subst msgs
    exact congrArg _ (turned (by rw [atPc]; rfl))

open Machine Network in
theorem facts_of_run (acts : List (NetworkAct (Option Nat)))
    (data : ∀ msg ∈ acts.filterMap NetworkAct.produced, msg.stopSignal = false) :
    ∀ s, run (step p.services) (init (fun _ => false) p.capacity) acts = some s →
      Relays p s ∧ acts.filterMap NetworkAct.produced = sent s ++ (s.pcs none).held := by
  induction acts using List.reverseRecOn with
  | nil =>
    intro s reach
    cases Option.some.inj reach
    exact ⟨.init, rfl⟩
  | append_singleton acts a ih =>
    intro u reach
    obtain ⟨s, earlier, next⟩ := run_snoc.mp reach
    rw [List.filterMap_append] at data
    obtain ⟨old, produced⟩ := ih (fun msg member => data msg (List.mem_append_left _ member)) s earlier
    rcases step_cases next with ⟨t, n, msg, rfl, atRole, atPc, rfl⟩ | ⟨other, t, role, atRole, effect⟩
    · have source : t = none := by
        cases t with
        | none => rfl
        | some c =>
          simp only [services] at atRole
          split at atRole <;> cases atRole
      subst t
      refine ⟨old.of_setPc rfl rfl rfl rfl ?_ (by simp), ?_⟩
      · intro m member
        cases List.mem_singleton.mp member
        exact data msg (by simp [NetworkAct.produced])
      · rw [List.filterMap_append, produced, atPc]
        simp [NetworkAct.produced, sent, ThreadPc.held]
    · have none : NetworkAct.produced a = none := by
        cases a with
        | produce t msg => exact absurd rfl (other t msg)
        | handleMsg _ _ | step _ => rfl
      refine ⟨old.effect (logged_of_run earlier) atRole effect, ?_⟩
      rw [List.filterMap_append, produced, old.source atRole effect]
      simp [none]

/-- The messages with this id. -/
def ofId (id : UInt32) (msgs : List BaseMsg) : List BaseMsg := msgs.filter fun msg => msg.id = id

/-- Two selections of a log that agree on the messages with an id. -/
theorem ofId_congr {log : List (Transfer (Option Nat))} {first second : Transfer (Option Nat) → Bool}
    (agree : ∀ e ∈ log, e.msg.id = id → first e = second e) :
    ofId id ((log.filter first).map Transfer.msg) = ofId id ((log.filter second).map Transfer.msg) := by
  simp only [ofId, List.filter_map, List.filter_filter]
  congr 1
  refine List.filter_congr fun e member => ?_
  by_cases same : e.msg.id = id
  · simp [same, agree e member same]
  · simp [same]

section Facts

variable (logged : Network.Logged p.services s)

include logged

theorem enqueued_origin {e : Transfer (Option Nat)} (member : e ∈ s.enqueued) :
    (e.thread = none ∧ e.channel = p.path 0 e.msg.id) ∨
      ∃ c, e.thread = some c ∧ p.stage c + 1 < p.depth ∧ e.channel = p.path (p.stage c + 1) e.msg.id := by
  obtain ⟨role, atRole, target⟩ := logged.routed e member
  cases role with
  | producer n =>
    cases thread : e.thread with
    | none =>
      rw [thread] at atRole
      cases Option.some.inj atRole
      simp only [Role.node, services, node_dispatch p.deep, Option.some.injEq] at target
      exact Or.inl ⟨rfl, target.symm⟩
    | some c =>
      rw [thread] at atRole
      simp only [services] at atRole
      split at atRole <;> cases atRole
  | worker n c =>
    obtain ⟨thread, rfl, _⟩ := role_some atRole
    refine Or.inr ⟨c, thread, ?_⟩
    by_cases inside : p.stage c + 1 < p.depth
    · simp only [Role.node, services, node_dispatch inside, Option.some.injEq] at target
      exact ⟨inside, target.symm⟩
    · simp only [Role.node, services, node_dispatch_end (Nat.le_of_not_lt inside)] at target
      cases target

/-- Every channel has only messages whose id leads there. -/
theorem via_enqueued_path (member : msg ∈ Network.via c s.enqueued) :
    p.stage c < p.depth ∧ p.path (p.stage c) msg.id = c := by
  obtain ⟨e, selected, rfl⟩ := List.mem_map.mp member
  obtain ⟨listed, same⟩ := List.mem_filter.mp selected
  rw [decide_eq_true_eq] at same
  subst c
  rcases enqueued_origin logged listed with ⟨_, target⟩ | ⟨d, _, inside, target⟩
  · rw [target, stage_path p.deep]
    exact ⟨p.deep, rfl⟩
  · rw [target, stage_path inside]
    exact ⟨inside, rfl⟩

theorem via_dequeued_path (member : msg ∈ Network.via c s.dequeued) :
    p.stage c < p.depth ∧ p.path (p.stage c) msg.id = c := by
  refine via_enqueued_path logged ?_
  rw [logged.fifo c]
  exact List.mem_append_left _ member

theorem dequeued_thread {e : Transfer (Option Nat)} (member : e ∈ s.dequeued) : e.thread = some e.channel := by
  obtain ⟨n, atRole⟩ := logged.taken e member
  exact (role_some atRole).1

/-- A channel is read by its own worker and by no other. -/
theorem via_dequeued_eq_moved (c : Nat) : Network.via c s.dequeued = Network.moved (some c) s.dequeued := by
  unfold Network.via Network.moved
  congr 1
  refine List.filter_congr fun e member => ?_
  rw [dequeued_thread logged member]
  simp

/-- The source feeds the first channel of every path. -/
theorem ofId_sent (id : UInt32) : ofId id (sent s) = ofId id (Network.via (p.path 0 id) s.enqueued) := by
  refine ofId_congr fun e member same => ?_
  rcases enqueued_origin logged member with ⟨thread, target⟩ | ⟨c, thread, inside, target⟩
  · simp [thread, target, same]
  · have apart : p.path (p.stage c + 1) id ≠ p.path 0 id := by
      intro equal
      have stages := congrArg p.stage equal
      rw [stage_path inside, stage_path p.deep] at stages
      omega
    simp [thread, target, same, apart]

variable (relays : Relays p s)

include relays

theorem moved_path (inside : p.stage c + 1 < p.depth)
    (member : msg ∈ Network.moved (some c) s.enqueued ∨ msg ∈ (s.pcs (some c)).held) :
    p.path (p.stage c) msg.id = c := by
  refine (via_dequeued_path logged ?_).2
  rw [via_dequeued_eq_moved logged, relays.relays c inside]
  exact List.mem_append.mpr member

/-- From stage to stage a path is fed by the worker of its own channel alone. -/
theorem ofId_hop (inside : i + 1 < p.depth) (id : UInt32) :
    ofId id (Network.via (p.path (i + 1) id) s.enqueued) =
      ofId id (Network.moved (some (p.path i id)) s.enqueued) := by
  refine ofId_congr fun e member same => ?_
  rcases enqueued_origin logged member with ⟨thread, target⟩ | ⟨c, thread, deeper, target⟩
  · have apart : p.path 0 id ≠ p.path (i + 1) id := by
      intro equal
      have stages := congrArg p.stage equal
      rw [stage_path p.deep, stage_path inside] at stages
      omega
    simp [thread, target, same, apart]
  · have own : p.path (p.stage c) id = c := by
      rw [← same]
      refine moved_path logged relays deeper (Or.inl (List.mem_map.mpr ⟨e, List.mem_filter.mpr ⟨member, ?_⟩, rfl⟩))
      simp [thread]
    rw [thread, target, same]
    by_cases here : p.stage c = i
    · subst i
      simp [own]
    · have apart : p.path (p.stage c + 1) id ≠ p.path (i + 1) id := by
        intro equal
        have stages := congrArg p.stage equal
        rw [stage_path deeper, stage_path inside] at stages
        omega
      have other : c ≠ p.path i id := by
        intro equal
        rw [equal, stage_path (by omega)] at here
        exact here rfl
      simp [apart, other]

/-- Wherever a path has got to, what was read there is an initial part of what was sent. -/
theorem ofId_via_sent (inside : i < p.depth) (id : UInt32) :
    ofId id (Network.via (p.path i id) s.dequeued) <+: ofId id (sent s) := by
  have reads (c : Nat) : ofId id (Network.via c s.dequeued) <+: ofId id (Network.via c s.enqueued) := by
    rw [logged.fifo c]
    exact (List.prefix_append _ _).filter _
  induction i with
  | zero =>
    rw [ofId_sent logged id]
    exact reads _
  | succ i ih =>
    have hands : ofId id (Network.moved (some (p.path i id)) s.enqueued) <+:
        ofId id (Network.via (p.path i id) s.dequeued) := by
      have deeper : p.stage (p.path i id) + 1 < p.depth := by rwa [stage_path (by omega)]
      rw [via_dequeued_eq_moved logged, relays.relays _ deeper]
      exact (List.prefix_append _ _).filter _
    calc ofId id (Network.via (p.path (i + 1) id) s.dequeued)
        <+: ofId id (Network.via (p.path (i + 1) id) s.enqueued) := reads _
      _ = ofId id (Network.moved (some (p.path i id)) s.enqueued) := ofId_hop logged relays inside id
      _ <+: ofId id (Network.via (p.path i id) s.dequeued) := hands
      _ <+: ofId id (sent s) := ih (by omega)

omit relays in
theorem ofId_received (id : UInt32) :
    ofId id (p.received s) = ofId id (Network.via (p.path (p.depth - 1) id) s.dequeued) := by
  have deep := p.deep
  refine ofId_congr fun e member same => ?_
  have own := (via_dequeued_path logged (List.mem_map.mpr
    ⟨e, List.mem_filter.mpr ⟨member, decide_eq_true rfl⟩, rfl⟩)).2
  rw [same] at own
  by_cases last : p.stage e.channel + 1 = p.depth
  · have stage : p.stage e.channel = p.depth - 1 := by omega
    rw [stage] at own
    simp [last, own]
  · have other : e.channel ≠ p.path (p.depth - 1) id := by
      intro equal
      rw [equal, stage_path (by omega)] at last
      omega
    simp [last, other]

/-- Every message that was sent is in a queue of its path, or held by a worker there, or was
read at stage `i`. -/
theorem count_sent_eq (msg : BaseMsg) (inside : i < p.depth) :
    (sent s).count msg = (Network.via (p.path i msg.id) s.dequeued).count msg +
      ((List.range i).map fun j => (s.queues (p.path j msg.id)).pool.count msg +
        (s.pcs (some (p.path j msg.id))).held.count msg).sum + (s.queues (p.path i msg.id)).pool.count msg := by
  have only (msgs : List BaseMsg) : (ofId msg.id msgs).count msg = msgs.count msg :=
    List.count_filter (by simp)
  have queue (c : Nat) : (Network.via c s.enqueued).count msg =
      (Network.via c s.dequeued).count msg + (s.queues c).pool.count msg := by
    rw [logged.fifo c, List.count_append]
  induction i with
  | zero =>
    rw [← only, ofId_sent logged, only, queue]
    simp
  | succ i ih =>
    have deeper : p.stage (p.path i msg.id) + 1 < p.depth := by rwa [stage_path (by omega)]
    have worker : (Network.via (p.path i msg.id) s.dequeued).count msg =
        (Network.via (p.path (i + 1) msg.id) s.enqueued).count msg +
          (s.pcs (some (p.path i msg.id))).held.count msg := by
      rw [via_dequeued_eq_moved logged, relays.relays _ deeper, List.count_append,
        ← only (Network.via _ _), ofId_hop logged relays inside, only]
    rw [ih (by omega), worker, queue, List.range_succ, List.map_append, List.sum_append]
    simp only [List.map_cons, List.map_nil, List.sum_cons, List.sum_nil]
    omega

/-- Of all channels of a stage, only the one of its path has a message. -/
theorem count_stage (msg : BaseMsg) (inside : i < p.depth) :
    ((p.channels i).flatMap fun c => (s.queues c).pool ++
        if i + 1 < p.depth then (s.pcs (some c)).held else []).count msg =
      (s.queues (p.path i msg.id)).pool.count msg +
        if i + 1 < p.depth then (s.pcs (some (p.path i msg.id))).held.count msg else 0 := by
  rw [List.count_flatMap, List.sum_map_eq_nsmul_single (p.path i msg.id),
    List.count_eq_one_of_mem (p.distinct i inside) (path_mem inside msg.id), one_smul]
  · simp only [Function.comp, List.count_append]
    split <;> simp
  · intro c other member
    have stage := p.apart i inside c member
    simp only [Function.comp, List.count_append]
    have queue : (s.queues c).pool.count msg = 0 := by
      refine List.count_eq_zero.mpr fun queued => other ?_
      have written : msg ∈ Network.via c s.enqueued := by
        rw [logged.fifo c]
        exact List.mem_append_right _ queued
      rw [← (via_enqueued_path logged written).2, stage]
    rw [queue, Nat.zero_add]
    split
    · rename_i deeper
      refine List.count_eq_zero.mpr fun held => other ?_
      rw [← moved_path logged relays (by rw [stage]; exact deeper) (Or.inr held), stage]
    · rfl

theorem count_inFlight (msg : BaseMsg) :
    (p.inFlight s).count msg =
      ((List.range (p.depth - 1)).map fun j => (s.queues (p.path j msg.id)).pool.count msg +
        (s.pcs (some (p.path j msg.id))).held.count msg).sum +
      (s.queues (p.path (p.depth - 1) msg.id)).pool.count msg := by
  have deep := p.deep
  have stages : (p.inFlight s).count msg = ((List.range p.depth).map fun i =>
      (s.queues (p.path i msg.id)).pool.count msg +
        if i + 1 < p.depth then (s.pcs (some (p.path i msg.id))).held.count msg else 0).sum := by
    rw [inFlight, List.count_flatMap]
    congr 1
    refine List.map_congr_left fun i member => ?_
    exact count_stage logged relays msg (List.mem_range.mp member)
  rw [stages, show p.depth = p.depth - 1 + 1 by omega, List.range_succ, List.map_append, List.sum_append]
  simp only [List.map_cons, List.map_nil, List.sum_cons, List.sum_nil, Nat.add_sub_cancel]
  rw [if_neg (by omega)]
  congr 2
  refine List.map_congr_left fun i member => ?_
  rw [if_pos (by have := List.mem_range.mp member; omega)]

end Facts

open Machine Network in
/-- In every run of a pipeline, the messages of each id arrive in the order in which they were
sent, and every message that was sent has arrived, waits in one queue or is held by one
worker. -/
theorem pipeline_keeps_order (p : Pipeline) (acts : List (NetworkAct (Option Nat))) (s : Network Nat (Option Nat))
    (data : ∀ msg ∈ acts.filterMap NetworkAct.produced, msg.stopSignal = false)
    (reach : run (step p.services) (init (fun _ => false) p.capacity) acts = some s) :
    acts.filterMap NetworkAct.produced = sent s ++ (s.pcs none).held ∧
    (∀ id, ofId id (p.received s) <+: ofId id (sent s)) ∧
    (sent s).Perm (p.received s ++ p.inFlight s) := by
  have logged := logged_of_run reach
  obtain ⟨relays, produced⟩ := facts_of_run acts data s reach
  have last : p.depth - 1 < p.depth := Nat.sub_lt p.deep Nat.one_pos
  refine ⟨produced, fun id => ?_, List.perm_iff_count.mpr fun msg => ?_⟩
  · rw [ofId_received logged id]
    exact ofId_via_sent logged relays last id
  · have received : (p.received s).count msg = (via (p.path (p.depth - 1) msg.id) s.dequeued).count msg := by
      have same := congrArg (List.count msg) (ofId_received logged msg.id)
      rwa [ofId, List.count_filter (by simp), ofId, List.count_filter (by simp)] at same
    rw [List.count_append, received, count_inFlight logged relays, count_sent_eq logged relays msg last, Nat.add_assoc]

/-- Two channels behind the source, one behind the relay, each with room for one message. -/
def twoStages : Pipeline where
  depth := 2
  channels i := if i = 0 then [0, 1] else [2]
  stage c := if c < 2 then 0 else 1
  capacity _ := 1
  deep := by decide
  nonempty := by decide
  distinct := by decide
  apart := by decide

/-- A message of two is overtaken by one with another id, and has not arrived yet. -/
def overtaking : List (NetworkAct (Option Nat)) :=
  let first : BaseMsg := { BaseMsg.init 0 with id := 0xfffffffe }
  let second : BaseMsg := { BaseMsg.init 0 with id := 0xffffffff }
  [.produce none first, .step none, .step none, .step none, .step none,
    .produce none second, .step none, .step none, .step none,
    .step (some 1), .step (some 1), .step (some 1), .handleMsg (some 1) [second],
    .step (some 1), .step (some 1), .step (some 1), .step (some 2), .step (some 2), .step (some 2)]

open Machine Network in
theorem pipeline_keeps_order_overtaking :
    ∃ s, run (step twoStages.services) (init (fun _ => false) twoStages.capacity) overtaking = some s ∧
      (twoStages.received s).map BaseMsg.id = [0xffffffff] ∧
      (sent s).Perm (twoStages.received s ++ twoStages.inFlight s) := by
  obtain ⟨s, reach, received⟩ : ∃ s,
      run (step twoStages.services) (init (fun _ => false) twoStages.capacity) overtaking = some s ∧
      (twoStages.received s).map BaseMsg.id = [0xffffffff] := ⟨_, rfl, by decide⟩
  exact ⟨s, reach, received, (pipeline_keeps_order twoStages overtaking s (by decide) reach).2.2⟩

end Pipeline

end ServicesFramework
