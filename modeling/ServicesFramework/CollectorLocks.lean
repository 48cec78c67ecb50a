import ServicesFramework.CollectorLatency

namespace ServicesFramework

open Machine

/-- Where a collector thread stands in `HandleMsg`: outside, at `lg.lock()`, and from `locked` on
with the mutex of the collector, before the lookup in `GetBatsBuffer`, at its call of `AddTimer`,
or before it puts the message into the buffer. -/
inductive SectionPc
  | idle
  | entering (msg : FlowMsg)
  | locked (msg : FlowMsg)
  | adding (msg : FlowMsg)
  | filling (msg : FlowMsg)
  deriving DecidableEq

def SectionPc.msg? : SectionPc → Option FlowMsg
  | .idle => none
  | .entering msg | .locked msg | .adding msg | .filling msg => some msg

def SectionPc.inside : SectionPc → Bool
  | .idle | .entering _ => false
  | .locked _ | .adding _ | .filling _ => true

/-- Who holds `mutex_` of the collector: a collector thread, or the worker of its timers. -/
inductive Holder (ι : Type*)
  | collector (t : ι)
  | worker
  deriving DecidableEq

/-- The collector as its threads see it, step by step; `ι` names the collector threads. `log` has
the messages whose sections are over. -/
structure LockedCollector (ι : Type*) where
  manager : TimerManager String
  map : CollectorMap
  handled : Bool
  mutex : Option (Holder ι)
  pcs : ι → SectionPc
  log : List FlowMsg

inductive LockedCollectorAct (ι : Type*)
  | handleMsg (t : ι) (msg : FlowMsg)
  | lock (t : ι)
  | find (t : ι)
  | addTimer (t : ι)
  | unlock (t : ι)
  | handlerLock
  | handlerUnlock
  | manager (a : TimerAct String)
  deriving DecidableEq

/-- The message of an atomic call, if it has a route. -/
def TimedCollectorAct.routed? (routeMatch : UInt32 → String) : TimedCollectorAct → Option FlowMsg
  | .handleMsg msg => if routeMatch msg.dstAddr = "" then none else some msg
  | .handleTimeoutBuffer | .manager _ => none

namespace LockedCollector

variable {ι : Type*}

def init (uninit : String → UInt64) : LockedCollector ι :=
  ⟨.init (fun _ => 15) uninit, .init, false, none, fun _ => .idle, []⟩

/-- The threads and locks left out. -/
def timed (s : LockedCollector ι) : TimedCollector := ⟨s.manager, s.map, s.handled⟩

/-- The last part of `BufferingData` and `ForceRelayData`, with the buffer that `GetBatsBuffer` has
returned. -/
def fill (cfg : CollectorConfig) (map : CollectorMap) (nexthop : String) (msg : FlowMsg) : Option CollectorMap :=
  (map.batsBufferMap nexthop).bind fun hop => (msg.relay.step cfg hop).map (map.setHop nexthop)

variable [DecidableEq ι] (cfg : CollectorConfig) (eager : Bool) (routeMatch : UInt32 → String)

def setPc (s : LockedCollector ι) (t : ι) (pc : SectionPc) : LockedCollector ι :=
  { s with pcs := Function.update s.pcs t pc }

def step (s : LockedCollector ι) : LockedCollectorAct ι → Option (LockedCollector ι)
  | .handleMsg t msg =>
    if s.pcs t = .idle then
      -- A message without a route is dropped before the mutex is taken.
      if routeMatch msg.dstAddr = "" then some { s with map := { s.map with dropped := s.map.dropped ++ [msg] } }
      else some (s.setPc t (.entering msg))
    else none
  | .lock t =>
    match s.pcs t with
    | .entering msg =>
      if s.mutex.isNone then some { s.setPc t (.locked msg) with mutex := some (.collector t) } else none
    | .idle | .locked _ | .adding _ | .filling _ => none
  | .find t =>
    match s.pcs t with
    | .locked msg =>
      let nexthop := routeMatch msg.dstAddr
      if (s.map.batsBufferMap nexthop).isSome then some (s.setPc t (.filling msg))
      else some { s.setPc t (.adding msg) with map := s.map.setHop nexthop (.init cfg eager) }
    | .idle | .entering _ | .adding _ | .filling _ => none
  | .addTimer t =>
    match s.pcs t with
    | .adding msg =>
      let nexthop := routeMatch msg.dstAddr
      (s.manager.step (.addTimer nexthop)).map fun manager =>
        { s.setPc t (.filling msg) with
          manager := manager, map := { s.map with timers := s.map.timers ++ [nexthop] } }
    | .idle | .entering _ | .locked _ | .filling _ => none
  | .unlock t =>
    match s.pcs t with
    | .filling msg =>
      (fill cfg s.map (routeMatch msg.dstAddr) msg).map fun map =>
        { s.setPc t .idle with map := map, mutex := none, log := s.log ++ [msg] }
    | .idle | .entering _ | .locked _ | .adding _ => none
  | .handlerLock =>
    match s.manager.worker with
    | .handling _ => if s.mutex.isNone ∧ s.handled = false then some { s with mutex := some .worker } else none
    | .waiting | .dequeued _ => none
  | .handlerUnlock =>
    match s.manager.worker with
    | .handling nexthop =>
      match s.mutex with
      | some .worker =>
        (s.map.handleTimeoutBuffer cfg nexthop).map fun map => { s with map := map, handled := true, mutex := none }
      | some (.collector _) | none => none
    | .waiting | .dequeued _ => none
  | .manager a =>
    if a.internal ∧ (a = .handlerReturns → s.handled) then
      (s.manager.step a).map fun manager =>
        { s with manager := manager, handled := if a = .callHandler then false else s.handled }
    else none

/-- The atomic calls lead to this state, and these messages are those with a route. -/
def Reaches (uninit : String → UInt64) (log : List FlowMsg) (s : TimedCollector) : Prop :=
  ∃ acts, run (TimedCollector.step cfg eager routeMatch) (.init uninit) acts = some s ∧
    acts.filterMap (TimedCollectorAct.routed? routeMatch) = log

variable {cfg eager routeMatch} {uninit : String → UInt64} {s u : LockedCollector ι} {log : List FlowMsg}

/-- The section of a call for a buffer that is there already. -/
theorem handleMsg_known {map : CollectorMap} {msg : FlowMsg} (routed : routeMatch msg.dstAddr ≠ "")
    (found : (map.batsBufferMap (routeMatch msg.dstAddr)).isSome) :
    map.handleMsg cfg eager routeMatch msg = fill cfg map (routeMatch msg.dstAddr) msg := by
  obtain ⟨hop, found⟩ := Option.isSome_iff_exists.mp found
  simp [CollectorMap.handleMsg, routed, CollectorMap.getBatsBuffer, found, fill]

theorem handleMsg_new {map : CollectorMap} {msg : FlowMsg} (routed : routeMatch msg.dstAddr ≠ "")
    (missing : map.batsBufferMap (routeMatch msg.dstAddr) = none) :
    map.handleMsg cfg eager routeMatch msg =
      fill cfg { map.setHop (routeMatch msg.dstAddr) (.init cfg eager) with
        timers := map.timers ++ [routeMatch msg.dstAddr] } (routeMatch msg.dstAddr) msg := by
  simp [CollectorMap.handleMsg, routed, CollectorMap.getBatsBuffer, missing, fill, CollectorMap.setHop]

/-- What a step can do. -/
inductive Effect (cfg : CollectorConfig) (eager : Bool) (routeMatch : UInt32 → String) (s : LockedCollector ι) :
    LockedCollectorAct ι → LockedCollector ι → Prop
  | dropped (t : ι) (msg : FlowMsg) (nowhere : routeMatch msg.dstAddr = "") :
    Effect cfg eager routeMatch s (.handleMsg t msg)
      { s with map := { s.map with dropped := s.map.dropped ++ [msg] } }
  | called (t : ι) (msg : FlowMsg) (pc : s.pcs t = .idle) (routed : routeMatch msg.dstAddr ≠ "") :
    Effect cfg eager routeMatch s (.handleMsg t msg) (s.setPc t (.entering msg))
  | lock (t : ι) (msg : FlowMsg) (pc : s.pcs t = .entering msg) (free : s.mutex = none) :
    Effect cfg eager routeMatch s (.lock t) { s.setPc t (.locked msg) with mutex := some (.collector t) }
  | found (t : ι) (msg : FlowMsg) (pc : s.pcs t = .locked msg)
      (found : (s.map.batsBufferMap (routeMatch msg.dstAddr)).isSome) :
    Effect cfg eager routeMatch s (.find t) (s.setPc t (.filling msg))
  | made (t : ι) (msg : FlowMsg) (pc : s.pcs t = .locked msg)
      (missing : s.map.batsBufferMap (routeMatch msg.dstAddr) = none) :
    Effect cfg eager routeMatch s (.find t)
      { s.setPc t (.adding msg) with map := s.map.setHop (routeMatch msg.dstAddr) (.init cfg eager) }
  | addTimer (t : ι) (msg : FlowMsg) (m : TimerManager String) (pc : s.pcs t = .adding msg)
      (added : s.manager.step (.addTimer (routeMatch msg.dstAddr)) = some m) :
    Effect cfg eager routeMatch s (.addTimer t)
      { s.setPc t (.filling msg) with
        manager := m, map := { s.map with timers := s.map.timers ++ [routeMatch msg.dstAddr] } }
  | unlock (t : ι) (msg : FlowMsg) (map : CollectorMap) (pc : s.pcs t = .filling msg)
      (filled : fill cfg s.map (routeMatch msg.dstAddr) msg = some map) :
    Effect cfg eager routeMatch s (.unlock t)
      { s.setPc t .idle with map := map, mutex := none, log := s.log ++ [msg] }
  | handlerLock (nexthop : String) (calls : s.manager.worker = .handling nexthop) (free : s.mutex = none)
      (unhandled : s.handled = false) :
    Effect cfg eager routeMatch s .handlerLock { s with mutex := some .worker }
  | handlerUnlock (nexthop : String) (map : CollectorMap) (calls : s.manager.worker = .handling nexthop)
      (held : s.mutex = some .worker) (flushed : s.map.handleTimeoutBuffer cfg nexthop = some map) :
    Effect cfg eager routeMatch s .handlerUnlock { s with map := map, handled := true, mutex := none }
  | manager {m : TimerManager String} (a : TimerAct String) (internal : a.internal = true)
      (returns : a = .handlerReturns → s.handled = true) (moved : s.manager.step a = some m) :
    Effect cfg eager routeMatch s (.manager a)
      { s with manager := m, handled := if a = .callHandler then false else s.handled }

theorem effect_of_step {a : LockedCollectorAct ι} (next : s.step cfg eager routeMatch a = some u) :
    Effect cfg eager routeMatch s a u := by
  cases a with
  | handleMsg t msg =>
    simp only [step] at next
    split_ifs at next with pc nowhere
    · cases Option.some.inj next
      exact .dropped t msg nowhere
    · cases Option.some.inj next
      exact .called t msg pc nowhere
  | lock t =>
    simp only [step] at next
    split at next
    · rename_i msg pc
      split_ifs at next with free
      cases Option.some.inj next
      exact .lock t msg pc (Option.isNone_iff_eq_none.mp free)
    all_goals cases next
  | find t =>
    simp only [step] at next
    split at next
    · rename_i msg pc
      split_ifs at next with found
      · cases Option.some.inj next
        exact .found t msg pc found
      · cases Option.some.inj next
        exact .made t msg pc (by simpa using found)
    all_goals cases next
  | addTimer t =>
    simp only [step] at next
    split at next
    · rename_i msg pc
      obtain ⟨m, added, rfl⟩ := Option.map_eq_some_iff.mp next
      exact .addTimer t msg m pc added
    all_goals cases next
  | unlock t =>
    simp only [step] at next
    split at next
    · rename_i msg pc
      obtain ⟨map, filled, rfl⟩ := Option.map_eq_some_iff.mp next
      exact .unlock t msg map pc filled
    all_goals cases next
  | handlerLock =>
    simp only [step] at next
    split at next
    · rename_i nexthop calls
      split_ifs at next with allowed
      cases Option.some.inj next
      exact .handlerLock nexthop calls (Option.isNone_iff_eq_none.mp allowed.1) allowed.2
    all_goals cases next
  | handlerUnlock =>
    simp only [step] at next
    split at next
    · rename_i nexthop calls
      split at next
      · rename_i held
        obtain ⟨map, flushed, rfl⟩ := Option.map_eq_some_iff.mp next
        exact .handlerUnlock nexthop map calls held flushed
      all_goals cases next
    all_goals cases next
  | manager a =>
    simp only [step, Option.ite_none_right_eq_some] at next
    obtain ⟨⟨internal, returns⟩, moves⟩ := next
    obtain ⟨m, moved, rfl⟩ := Option.map_eq_some_iff.mp moves
    exact .manager a internal returns moved

variable (routeMatch) in
/-- The mutex excludes: the thread between `lock` and `unlock` is the one that holds it. -/
structure Exclusive (s : LockedCollector ι) : Prop where
  sides : ∀ t, (s.pcs t).inside = true ↔ s.mutex = some (.collector t)
  routed : ∀ t msg, (s.pcs t).msg? = some msg → routeMatch msg.dstAddr ≠ ""
  worker : s.mutex = some .worker → s.handled = false

omit [DecidableEq ι] in
theorem Exclusive.init (uninit : String → UInt64) : Exclusive routeMatch (init uninit : LockedCollector ι) where
  sides t := by simp [LockedCollector.init, SectionPc.inside]
  routed t msg given := by cases given
  worker held := by cases held

omit [DecidableEq ι] in
theorem Exclusive.holds (exclusive : Exclusive routeMatch s) {t : ι} {pc : SectionPc} (stands : s.pcs t = pc)
    (inside : pc.inside = true) : s.mutex = some (.collector t) := by
  rw [← stands] at inside
  exact (exclusive.sides t).mp inside

/-- One thread goes on, with a message that has a route, and the mutex is its own or stays as it is. -/
theorem Exclusive.setPc (old : Exclusive routeMatch s) {t : ι} {pc : SectionPc} (pcs : u.pcs = Function.update s.pcs t pc)
    (routed : ∀ msg, pc.msg? = some msg → routeMatch msg.dstAddr ≠ "")
    (mine : pc.inside = true ↔ u.mutex = some (.collector t))
    (others : ∀ other, other ≠ t → (s.mutex = some (.collector other) ↔ u.mutex = some (.collector other)))
    (worker : u.mutex = some .worker → u.handled = false) : Exclusive routeMatch u := by
  refine ⟨?_, ?_, worker⟩
  · intro other
    rw [pcs]
    by_cases here : other = t
    · subst other
      rw [Function.update_self]
      exact mine
    · rw [Function.update_of_ne here, old.sides other]
      exact others other here
  · intro other msg given
    rw [pcs] at given
    by_cases here : other = t
    · subst other
      rw [Function.update_self] at given
      exact routed msg given
    · rw [Function.update_of_ne here] at given
      exact old.routed other msg given

/-- A thread that stays on its side of the mutex. -/
theorem Exclusive.stays (old : Exclusive routeMatch s) {t : ι} {pc : SectionPc} (pcs : u.pcs = Function.update s.pcs t pc)
    (routed : ∀ msg, pc.msg? = some msg → routeMatch msg.dstAddr ≠ "") (side : pc.inside = (s.pcs t).inside)
    (mutex : u.mutex = s.mutex) (handled : u.handled = s.handled) : Exclusive routeMatch u := by
  refine old.setPc pcs routed ?_ (fun _ _ => by rw [mutex]) ?_
  · rw [side, mutex]
    exact old.sides t
  · rw [mutex, handled]
    exact old.worker

theorem Exclusive.step (old : Exclusive routeMatch s) {a : LockedCollectorAct ι}
    (effect : Effect cfg eager routeMatch s a u) : Exclusive routeMatch u := by
  cases effect with
  | dropped t msg nowhere => exact ⟨old.sides, old.routed, old.worker⟩
  | called t msg pc routed =>
    exact old.stays rfl (fun _ given => Option.some.inj given ▸ routed) (by rw [pc]; rfl) rfl rfl
  | lock t msg pc free =>
    refine old.setPc rfl (fun _ given => old.routed t _ (by rw [pc]; exact given)) (by simp [SectionPc.inside]) ?_ (by simp)
    intro other ne
    simp [free, Ne.symm ne]
  | found t msg pc found =>
    exact old.stays rfl (fun _ given => old.routed t _ (by rw [pc]; exact given)) (by rw [pc]; rfl) rfl rfl
  | made t msg pc missing =>
    exact old.stays rfl (fun _ given => old.routed t _ (by rw [pc]; exact given)) (by rw [pc]; rfl) rfl rfl
  | addTimer t msg m pc added =>
    exact old.stays rfl (fun _ given => old.routed t _ (by rw [pc]; exact given)) (by rw [pc]; rfl) rfl rfl
  | unlock t msg map pc filled =>
    have held := old.holds pc rfl
    refine old.setPc rfl (fun _ given => by cases given) (by simp [SectionPc.inside]) ?_ (by simp)
    intro other ne
    simp [held, Ne.symm ne]
  | handlerLock nexthop calls free unhandled =>
    refine ⟨fun t => ?_, old.routed, fun _ => unhandled⟩
    rw [old.sides t, free]
    simp
  | handlerUnlock nexthop map calls held flushed =>
    refine ⟨fun t => ?_, old.routed, by simp⟩
    rw [old.sides t, held]
    simp
  | manager a internal returns moved =>
    refine ⟨old.sides, old.routed, fun held => ?_⟩
    rw [old.worker held]
    simp

section Atomic

variable (cfg eager routeMatch) in
/-- The state is one of the atomic calls, up to the call of the thread that holds the mutex: what
`GetBatsBuffer` has made is not there yet, and with the timer of the buffer in the manager the call
counts as made, provided that the message can be put into the buffer. -/
def Atomic (uninit : String → UInt64) (s : LockedCollector ι) : Prop :=
  match s.mutex with
  | none | some .worker => Reaches cfg eager routeMatch uninit s.log s.timed
  | some (.collector t) =>
    match s.pcs t with
    | .idle | .entering _ | .locked _ => Reaches cfg eager routeMatch uninit s.log s.timed
    | .adding msg => ∃ map, map.batsBufferMap (routeMatch msg.dstAddr) = none ∧
        s.map = map.setHop (routeMatch msg.dstAddr) (.init cfg eager) ∧
        Reaches cfg eager routeMatch uninit s.log ⟨s.manager, map, s.handled⟩
    | .filling msg => ∀ map, fill cfg s.map (routeMatch msg.dstAddr) msg = some map →
        Reaches cfg eager routeMatch uninit (s.log ++ [msg]) ⟨s.manager, map, s.handled⟩

theorem Reaches.snoc {v w : TimedCollector} {a : TimedCollectorAct} (old : Reaches cfg eager routeMatch uninit log v)
    (next : v.step cfg eager routeMatch a = some w) :
    Reaches cfg eager routeMatch uninit (log ++ (a.routed? routeMatch).toList) w := by
  obtain ⟨acts, reach, rfl⟩ := old
  refine ⟨acts ++ [a], run_snoc.mpr ⟨v, reach, next⟩, ?_⟩
  rw [List.filterMap_append]
  cases routed : a.routed? routeMatch <;> simp [routed]

theorem Reaches.manager {v : TimedCollector} {m : TimerManager String} {a : TimerAct String}
    (old : Reaches cfg eager routeMatch uninit log v) (internal : a.internal = true)
    (returns : a = .handlerReturns → v.handled = true) (moved : v.manager.step a = some m) :
    Reaches cfg eager routeMatch uninit log
      { v with manager := m, handled := if a = .callHandler then false else v.handled } := by
  have next : v.step cfg eager routeMatch (.manager a) =
      some { v with manager := m, handled := if a = .callHandler then false else v.handled } := by
    simp only [TimedCollector.step, moved, Option.map_some]
    rw [if_pos ⟨internal, returns⟩]
  have later := old.snoc next
  rwa [TimedCollectorAct.routed?, Option.toList_none, List.append_nil] at later

theorem Reaches.dropped {v : TimedCollector} {msg : FlowMsg} (old : Reaches cfg eager routeMatch uninit log v)
    (nowhere : routeMatch msg.dstAddr = "") :
    Reaches cfg eager routeMatch uninit log { v with map := { v.map with dropped := v.map.dropped ++ [msg] } } := by
  have next : v.step cfg eager routeMatch (.handleMsg msg) =
      some { v with map := { v.map with dropped := v.map.dropped ++ [msg] } } := by
    simp [TimedCollector.step, TimedCollector.handleMsg, CollectorMap.handleMsg, nowhere]
  have later := old.snoc next
  rwa [TimedCollectorAct.routed?, if_pos nowhere, Option.toList_none, List.append_nil] at later

/-- The call of a thread whose buffer is there, or comes with its timer. -/
theorem Reaches.handleMsg {v : TimedCollector} {msg : FlowMsg} {map : CollectorMap} {m : TimerManager String}
    (old : Reaches cfg eager routeMatch uninit log v) (routed : routeMatch msg.dstAddr ≠ "")
    (filled : v.map.handleMsg cfg eager routeMatch msg = some map)
    (timer : if (v.map.batsBufferMap (routeMatch msg.dstAddr)).isSome then m = v.manager
      else v.manager.step (.addTimer (routeMatch msg.dstAddr)) = some m) :
    Reaches cfg eager routeMatch uninit (log ++ [msg]) ⟨m, map, v.handled⟩ := by
  have next : v.step cfg eager routeMatch (.handleMsg msg) = some ⟨m, map, v.handled⟩ := by
    simp only [TimedCollector.step, TimedCollector.handleMsg, filled, Option.bind_some]
    split_ifs at timer with found
    · rw [if_pos (.inr found), timer]
    · rw [if_neg (by simp [routed, found]), timer]
      rfl
  have later := old.snoc next
  rwa [TimedCollectorAct.routed?, if_neg routed] at later

theorem fill_dropped {map after : CollectorMap} {nexthop : String} {msg : FlowMsg} {dropped : List FlowMsg}
    (filled : fill cfg { map with dropped := dropped } nexthop msg = some after) :
    ∃ before, fill cfg map nexthop msg = some before ∧ before.dropped = map.dropped ∧
      after = { before with dropped := dropped } := by
  obtain ⟨hop, found, put⟩ := Option.bind_eq_some_iff.mp filled
  obtain ⟨next, ran, rfl⟩ := Option.map_eq_some_iff.mp put
  have same : map.batsBufferMap nexthop = some hop := found
  refine ⟨map.setHop nexthop next, ?_, rfl, rfl⟩
  rw [fill, same, Option.bind_some, ran, Option.map_some]

omit [DecidableEq ι] in
theorem Atomic.dropped {msg : FlowMsg} (old : Atomic cfg eager routeMatch uninit s)
    (nowhere : routeMatch msg.dstAddr = "") :
    Atomic cfg eager routeMatch uninit { s with map := { s.map with dropped := s.map.dropped ++ [msg] } } := by
  unfold Atomic at old ⊢
  dsimp only
  split at old
  · exact old.dropped nowhere
  · exact old.dropped nowhere
  · split at old
    · exact old.dropped nowhere
    · exact old.dropped nowhere
    · exact old.dropped nowhere
    · obtain ⟨map, missing, same, reach⟩ := old
      rw [same]
      exact ⟨{ map with dropped := map.dropped ++ [msg] }, missing, rfl, reach.dropped nowhere⟩
    · intro map filled
      obtain ⟨before, again, kept, rfl⟩ := fill_dropped filled
      rw [← kept]
      exact (old before again).dropped nowhere

omit [DecidableEq ι] in
theorem Atomic.manager {a : TimerAct String} {m : TimerManager String} (old : Atomic cfg eager routeMatch uninit s)
    (internal : a.internal = true) (returns : a = .handlerReturns → s.handled = true)
    (moved : s.manager.step a = some m) : Atomic cfg eager routeMatch uninit
      { s with manager := m, handled := if a = .callHandler then false else s.handled } := by
  unfold Atomic at old ⊢
  dsimp only
  split at old
  · exact old.manager internal returns moved
  · exact old.manager internal returns moved
  · split at old
    · exact old.manager internal returns moved
    · exact old.manager internal returns moved
    · exact old.manager internal returns moved
    · obtain ⟨map, missing, same, reach⟩ := old
      exact ⟨map, missing, same, reach.manager internal returns moved⟩
    · exact fun map filled => (old map filled).manager internal returns moved

/-- A thread that does not hold the mutex goes on. -/
theorem Atomic.setPc {t : ι} (old : Atomic cfg eager routeMatch uninit s) (outside : s.mutex ≠ some (.collector t))
    (pc : SectionPc) : Atomic cfg eager routeMatch uninit (s.setPc t pc) := by
  unfold Atomic at old ⊢
  split at old
  · rename_i free
    simp only [LockedCollector.setPc, free]
    exact old
  · rename_i held
    simp only [LockedCollector.setPc, held]
    exact old
  · rename_i other held
    have ne : other ≠ t := by
      rintro rfl
      exact outside held
    simp only [LockedCollector.setPc, held, Function.update_of_ne ne]
    exact old

theorem Atomic.step (old : Atomic cfg eager routeMatch uninit s) (exclusive : Exclusive routeMatch s)
    {a : LockedCollectorAct ι} (effect : Effect cfg eager routeMatch s a u) : Atomic cfg eager routeMatch uninit u := by
  cases effect with
  | dropped t msg nowhere => exact old.dropped nowhere
  | called t msg pc routed =>
    refine old.setPc (fun held => ?_) _
    have inside := (exclusive.sides t).mpr held
    rw [pc] at inside
    cases inside
  | lock t msg pc free =>
    simp only [Atomic, free] at old
    simp only [Atomic, LockedCollector.setPc, Function.update_self]
    exact old
  | found t msg pc found =>
    have held := exclusive.holds pc rfl
    have routed := exclusive.routed t msg (by rw [pc]; rfl)
    simp only [Atomic, held, pc] at old
    simp only [Atomic, LockedCollector.setPc, held, Function.update_self]
    intro map filled
    refine old.handleMsg routed ((handleMsg_known routed found).trans filled) ?_
    rw [if_pos (show (s.timed.map.batsBufferMap (routeMatch msg.dstAddr)).isSome from found)]
    rfl
  | made t msg pc missing =>
    have held := exclusive.holds pc rfl
    simp only [Atomic, held, pc] at old
    simp only [Atomic, LockedCollector.setPc, held, Function.update_self]
    exact ⟨s.map, missing, rfl, old⟩
  | addTimer t msg m pc added =>
    have held := exclusive.holds pc rfl
    have routed := exclusive.routed t msg (by rw [pc]; rfl)
    simp only [Atomic, held, pc] at old
    obtain ⟨before, missing, same, reach⟩ := old
    simp only [Atomic, LockedCollector.setPc, held, Function.update_self]
    intro map filled
    rw [same] at filled
    refine reach.handleMsg routed ((handleMsg_new routed missing).trans filled) ?_
    rw [if_neg (by simp [missing])]
    exact added
  | unlock t msg map pc filled =>
    have held := exclusive.holds pc rfl
    simp only [Atomic, held, pc] at old
    exact old map filled
  | handlerLock nexthop calls free unhandled =>
    simp only [Atomic, free] at old
    exact old
  | handlerUnlock nexthop map calls held flushed =>
    simp only [Atomic, held] at old
    have next : s.timed.step cfg eager routeMatch .handleTimeoutBuffer = some ⟨s.manager, map, true⟩ := by
      simp [TimedCollector.step, timed, calls, exclusive.worker held, flushed]
    have later := old.snoc next
    rwa [TimedCollectorAct.routed?, Option.toList_none, List.append_nil] at later
  | manager a internal returns moved => exact old.manager internal returns moved

omit [DecidableEq ι] in
/-- Between the sections of the collector threads. -/
theorem Atomic.outside (atomic : Atomic cfg eager routeMatch uninit s) (exclusive : Exclusive routeMatch s)
    (outside : ∀ t, (s.pcs t).inside = false) : Reaches cfg eager routeMatch uninit s.log s.timed := by
  unfold Atomic at atomic
  split at atomic
  · exact atomic
  · exact atomic
  · rename_i t held
    have inside := (exclusive.sides t).mpr held
    rw [outside t] at inside
    cases inside

end Atomic

/-- The locks make the calls atomic. However the steps of the collector threads, of the worker and
of the ticker are interleaved, at most one collector thread is between `lg.lock()` and `lg.unlock()`,
and whenever none is, the buffers, the timers and the manager are what they are after the same calls
one at a time, in the order in which their sections have ended: no message is lost or put twice, and
none finds a buffer half made. -/
theorem sections_are_atomic (cfg : CollectorConfig) (eager : Bool) (routeMatch : UInt32 → String)
    (uninit : String → UInt64) (acts : List (LockedCollectorAct ι)) (s : LockedCollector ι)
    (reach : run (step cfg eager routeMatch) (init uninit) acts = some s) :
    (∀ t other, (s.pcs t).inside = true → (s.pcs other).inside = true → t = other) ∧
      ((∀ t, (s.pcs t).inside = false) → ∃ calls,
        run (TimedCollector.step cfg eager routeMatch) (.init uninit) calls = some s.timed ∧
          calls.filterMap (TimedCollectorAct.routed? routeMatch) = s.log) := by
  have start : Atomic cfg eager routeMatch uninit (init uninit : LockedCollector ι) := ⟨[], rfl, rfl⟩
  -- The mutex first: a step of a section keeps `Atomic` only for the thread that holds it.
  obtain ⟨exclusive, atomic⟩ : Exclusive routeMatch s ∧ Atomic cfg eager routeMatch uninit s := by
    refine run_invariant (I := fun v => Exclusive routeMatch v ∧ Atomic cfg eager routeMatch uninit v)
      (fun _ _ _ old next => ?_) ⟨.init uninit, start⟩ reach
    exact ⟨old.1.step (effect_of_step next), old.2.step old.1 (effect_of_step next)⟩
  refine ⟨fun t other mine its => ?_, atomic.outside exclusive⟩
  have held := (exclusive.sides t).mp mine
  rw [(exclusive.sides other).mp its] at held
  cases held
  rfl

/-- Two threads with a message each for a new next hop, the second of them held up at the mutex while
the ticker goes on between `AddTimer` and the end of the first section. -/
def twoCallers : List (LockedCollectorAct Bool) :=
  [.handleMsg false ⟨[1, 2], 1, true⟩, .handleMsg true ⟨[3], 1, true⟩, .lock true, .find true, .addTimer true,
    .manager .increment, .unlock true, .handleMsg true ⟨[4], 3, true⟩, .lock false, .find false, .manager .beginPass,
    .unlock false]

theorem sections_are_atomic_two_callers :
    ∃ s : LockedCollector Bool,
      run (step ⟨8, 8, 4⟩ false CollectorMap.twoRoutes) (init fun _ => 0) twoCallers = some s ∧
        s.timed.filled "10.0.0.2" = [3, 1, 2] ∧ ∃ calls,
          run (TimedCollector.step ⟨8, 8, 4⟩ false CollectorMap.twoRoutes) (.init fun _ => 0) calls = some s.timed ∧
            calls.filterMap (TimedCollectorAct.routed? CollectorMap.twoRoutes) = [⟨[3], 1, true⟩, ⟨[1, 2], 1, true⟩] := by
  obtain ⟨s, reach, log, filled, outside⟩ : ∃ s : LockedCollector Bool,
      run (step ⟨8, 8, 4⟩ false CollectorMap.twoRoutes) (init fun _ => 0) twoCallers = some s ∧
        s.log = [⟨[3], 1, true⟩, ⟨[1, 2], 1, true⟩] ∧ s.timed.filled "10.0.0.2" = [3, 1, 2] ∧
          ∀ t, (s.pcs t).inside = false := by
    refine ⟨_, rfl, rfl, rfl, ?_⟩
    decide
  have facts := sections_are_atomic ⟨8, 8, 4⟩ false CollectorMap.twoRoutes (fun _ => 0) twoCallers s reach
  rw [← log]
  exact ⟨s, reach, filled, facts.2 outside⟩

end LockedCollector

end ServicesFramework
