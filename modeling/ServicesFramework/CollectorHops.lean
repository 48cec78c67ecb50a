import ServicesFramework.CollectorPackets

namespace ServicesFramework

/-- A message as `Collector::HandleMsg` sees it: its bytes, its destination, and the flag
`NeedCoded` as `FlowUpdate` has left it. -/
structure FlowMsg where
  bytes : List Octet
  dstAddr : UInt32
  needCoded : Bool
  deriving DecidableEq, Repr

/-- `bats_buffer_map_` of the collector, the timers that it has given to its timer manager, each
named by the next hop of its buffer, and the messages that it has dropped. -/
structure CollectorMap where
  batsBufferMap : String → Option Hop
  timers : List String
  dropped : List FlowMsg

/-- `HandleMsg` of a collector thread, or `HandleTimeoutBuffer` for the timer of a buffer. -/
inductive CollectorCall
  | handleMsg (msg : FlowMsg)
  | handleTimeoutBuffer (nexthop : String)
  deriving DecidableEq, Repr

namespace FlowMsg

/-- The last branch of `HandleMsg`. -/
def relay (msg : FlowMsg) : CollectorAct :=
  if msg.needCoded then .bufferingData msg.bytes else .forceRelayData msg.bytes

@[simp] theorem relay_msg (msg : FlowMsg) : msg.relay.msg? = some msg.bytes := by
  unfold relay
  split <;> rfl

end FlowMsg

namespace CollectorMap

variable (cfg : CollectorConfig) (eager : Bool)

def init : CollectorMap := ⟨fun _ => none, [], []⟩

def setHop (s : CollectorMap) (nexthop : String) (hop : Hop) : CollectorMap :=
  { s with batsBufferMap := Function.update s.batsBufferMap nexthop (some hop) }

/-- `Collector::GetBatsBuffer`: a new buffer comes with its timer. -/
def getBatsBuffer (s : CollectorMap) (nexthop : String) : CollectorMap × Hop :=
  match s.batsBufferMap nexthop with
  | some hop => (s, hop)
  | none =>
    let hop := Hop.init cfg eager
    ({ s.setHop nexthop hop with timers := s.timers ++ [nexthop] }, hop)

/-- `Collector::HandleMsg`. `routeMatch` is `RouteTable::RouteMatch`, which is not part of the
repository: the address of a decoder, or the empty text. -/
def handleMsg (routeMatch : UInt32 → String) (s : CollectorMap) (msg : FlowMsg) : Option CollectorMap :=
  let nexthop := routeMatch msg.dstAddr
  if nexthop = "" then some { s with dropped := s.dropped ++ [msg] }
  else
    let (s, hop) := s.getBatsBuffer cfg eager nexthop
    (msg.relay.step cfg hop).map (s.setHop nexthop)

/-- `Collector::HandleTimeoutBuffer`. The timer shares the buffer with the map. -/
def handleTimeoutBuffer (s : CollectorMap) (nexthop : String) : Option CollectorMap :=
  if nexthop ∈ s.timers then
    (s.batsBufferMap nexthop).map fun hop => s.setHop nexthop (hop.handleTimeoutBuffer cfg)
  else none

def step (routeMatch : UInt32 → String) (s : CollectorMap) : CollectorCall → Option CollectorMap
  | .handleMsg msg => s.handleMsg cfg eager routeMatch msg
  | .handleTimeoutBuffer nexthop => s.handleTimeoutBuffer cfg nexthop

end CollectorMap

namespace CollectorCall

variable (routeMatch : UInt32 → String)

/-- The locked section that a call runs for this next hop, if it does. -/
def act? (nexthop : String) : CollectorCall → Option CollectorAct
  | .handleMsg msg => if nexthop ≠ "" ∧ routeMatch msg.dstAddr = nexthop then some msg.relay else none
  | .handleTimeoutBuffer other => if other = nexthop then some .handleTimeoutBuffer else none

/-- The message that has no route. -/
def unrouted? : CollectorCall → Option FlowMsg
  | .handleMsg msg => if routeMatch msg.dstAddr = "" then some msg else none
  | .handleTimeoutBuffer _ => none

/-- The bytes that the calls give to this next hop, message by message. -/
def sentTo (nexthop : String) (calls : List CollectorCall) : List (List Octet) :=
  (calls.filterMap (act? routeMatch nexthop)).filterMap CollectorAct.msg?

end CollectorCall

namespace CollectorMap

open Machine CollectorCall

variable {cfg : CollectorConfig} {eager : Bool} {routeMatch : UInt32 → String} {calls : List CollectorCall}
  {s u : CollectorMap} {nexthop : String}

/-- Next to the others, each next hop has gone through its own sections and nothing else, and
has one timer from its first message on. -/
structure Apart (cfg : CollectorConfig) (eager : Bool) (routeMatch : UInt32 → String) (calls : List CollectorCall)
    (s : CollectorMap) : Prop where
  known : ∀ nexthop hop, s.batsBufferMap nexthop = some hop →
    run (CollectorAct.step cfg) (Hop.init cfg eager) (calls.filterMap (act? routeMatch nexthop)) = some hop ∧
      s.timers.count nexthop = 1
  unknown : ∀ nexthop, s.batsBufferMap nexthop = none →
    calls.filterMap (act? routeMatch nexthop) = [] ∧ nexthop ∉ s.timers
  dropped : s.dropped = calls.filterMap (unrouted? routeMatch)

theorem Apart.init : Apart cfg eager routeMatch [] .init where
  known nexthop hop found := by cases found
  unknown nexthop _ := ⟨rfl, List.not_mem_nil⟩
  dropped := rfl

/-- What a call does to the map: one hop takes one section, or a message is dropped. -/
theorem step_cases {call : CollectorCall} (next : s.step cfg eager routeMatch call = some u) :
    (∃ msg, call = .handleMsg msg ∧ routeMatch msg.dstAddr = "" ∧ u = { s with dropped := s.dropped ++ [msg] }) ∨
      ∃ nexthop act hop after, act? routeMatch nexthop call = some act ∧
        (∀ other, other ≠ nexthop → act? routeMatch other call = none) ∧ unrouted? routeMatch call = none ∧
        act.step cfg hop = some after ∧
        ((s.batsBufferMap nexthop = some hop ∧ u = s.setHop nexthop after) ∨
          (s.batsBufferMap nexthop = none ∧ hop = Hop.init cfg eager ∧
            u = { s.setHop nexthop after with timers := s.timers ++ [nexthop] })) := by
  cases call with
  | handleMsg msg =>
    simp only [step, handleMsg] at next
    split at next
    · rename_i nowhere
      exact .inl ⟨msg, rfl, nowhere, (Option.some.inj next).symm⟩
    · rename_i routed
      refine .inr ⟨routeMatch msg.dstAddr, msg.relay, ?_⟩
      have mine : act? routeMatch (routeMatch msg.dstAddr) (.handleMsg msg) = some msg.relay := by
        simp [act?, routed]
      have others (other : String) (ne : other ≠ routeMatch msg.dstAddr) :
          act? routeMatch other (.handleMsg msg) = none := by
        simp [act?, Ne.symm ne]
      have kept : unrouted? routeMatch (.handleMsg msg) = none := by simp [unrouted?, routed]
      unfold getBatsBuffer at next
      split at next
      · rename_i hop found
        obtain ⟨after, ran, rfl⟩ := Option.map_eq_some_iff.mp next
        exact ⟨hop, after, mine, others, kept, ran, .inl ⟨found, rfl⟩⟩
      · rename_i missing
        obtain ⟨after, ran, rfl⟩ := Option.map_eq_some_iff.mp next
        refine ⟨Hop.init cfg eager, after, mine, others, kept, ran, .inr ⟨missing, rfl, ?_⟩⟩
        simp [setHop]
  | handleTimeoutBuffer nexthop =>
    simp only [step, handleTimeoutBuffer] at next
    split at next
    · obtain ⟨hop, found, rfl⟩ := Option.map_eq_some_iff.mp next
      refine .inr ⟨nexthop, .handleTimeoutBuffer, hop, hop.handleTimeoutBuffer cfg, by simp [act?], ?_, rfl, rfl,
        .inl ⟨found, rfl⟩⟩
      intro other ne
      simp [act?, Ne.symm ne]
    · cases next

/-- The hop that takes a section, and the hops that do not. -/
theorem Apart.section {call : CollectorCall} {act : CollectorAct} {after : Hop}
    (old : Apart cfg eager routeMatch calls s)
    (mine : act? routeMatch nexthop call = some act)
    (others : ∀ other, other ≠ nexthop → act? routeMatch other call = none)
    (kept : unrouted? routeMatch call = none)
    (ran : run (CollectorAct.step cfg) (Hop.init cfg eager)
      (calls.filterMap (act? routeMatch nexthop) ++ [act]) = some after)
    (map : u.batsBufferMap = Function.update s.batsBufferMap nexthop (some after)) (dropped : u.dropped = s.dropped)
    (timers : u.timers.count nexthop = 1)
    (same : ∀ other, other ≠ nexthop → u.timers.count other = s.timers.count other) :
    Apart cfg eager routeMatch (calls ++ [call]) u := by
  refine ⟨?_, ?_, ?_⟩
  · intro other hop found
    rw [map] at found
    by_cases here : other = nexthop
    · subst other
      rw [Function.update_self] at found
      cases Option.some.inj found
      rw [List.filterMap_append]
      exact ⟨by simpa [mine] using ran, timers⟩
    · rw [Function.update_of_ne here] at found
      obtain ⟨reach, once⟩ := old.known other hop found
      rw [List.filterMap_append, same other here]
      exact ⟨by simpa [others other here] using reach, once⟩
  · intro other missing
    rw [map] at missing
    by_cases here : other = nexthop
    · subst other
      rw [Function.update_self] at missing
      cases missing
    · rw [Function.update_of_ne here] at missing
      obtain ⟨none, absent⟩ := old.unknown other missing
      refine ⟨by simp [List.filterMap_append, none, others other here], ?_⟩
      rw [← List.count_eq_zero] at absent ⊢
      rw [same other here, absent]
  · rw [dropped, old.dropped, List.filterMap_append]
    simp [kept]

theorem Apart.step {call : CollectorCall} (old : Apart cfg eager routeMatch calls s)
    (next : s.step cfg eager routeMatch call = some u) : Apart cfg eager routeMatch (calls ++ [call]) u := by
  rcases step_cases next with ⟨msg, rfl, nowhere, rfl⟩ | ⟨nexthop, act, hop, after, mine, others, kept, ran, moved⟩
  · have none (nexthop : String) : act? routeMatch nexthop (.handleMsg msg) = none := by
      simp only [act?, nowhere, ite_eq_right_iff]
      rintro ⟨named, empty⟩
      exact absurd empty.symm named
    refine ⟨?_, ?_, ?_⟩
    · intro nexthop hop found
      rw [List.filterMap_append]
      simpa [none] using old.known nexthop hop found
    · intro nexthop missing
      rw [List.filterMap_append]
      simpa [none] using old.unknown nexthop missing
    · simp [old.dropped, unrouted?, nowhere]
  · rcases moved with ⟨found, rfl⟩ | ⟨missing, rfl, rfl⟩
    · obtain ⟨reach, once⟩ := old.known nexthop hop found
      exact old.section mine others kept (run_snoc.mpr ⟨hop, reach, ran⟩) rfl rfl once fun _ _ => rfl
    · obtain ⟨none, absent⟩ := old.unknown nexthop missing
      refine old.section mine others kept ?_ rfl rfl ?_ ?_
      · rw [none]
        exact run_snoc.mpr ⟨Hop.init cfg eager, rfl, ran⟩
      · rw [List.count_append, List.count_eq_zero.mpr absent]
        simp
      · intro other ne
        simp [List.count_append, Ne.symm ne]

theorem apart_of_run (reach : run (step cfg eager routeMatch) init calls = some s) :
    Apart cfg eager routeMatch calls s := by
  induction calls using List.reverseRecOn generalizing s with
  | nil =>
    cases Option.some.inj reach
    exact .init
  | append_singleton calls call ih =>
    obtain ⟨before, earlier, next⟩ := run_snoc.mp reach
    exact (ih earlier).step next

theorem mem_sentTo {msg : List Octet} (member : msg ∈ sentTo routeMatch nexthop calls) :
    ∃ flow, .handleMsg flow ∈ calls ∧ flow.bytes = msg := by
  obtain ⟨act, selected, given⟩ := List.mem_filterMap.mp member
  obtain ⟨call, listed, mine⟩ := List.mem_filterMap.mp selected
  cases call with
  | handleMsg flow =>
    refine ⟨flow, listed, ?_⟩
    simp only [act?, Option.ite_none_right_eq_some, Option.some.injEq] at mine
    rw [← mine.2, FlowMsg.relay_msg] at given
    exact Option.some.inj given
  | handleTimeoutBuffer other =>
    simp only [act?, Option.ite_none_right_eq_some, Option.some.injEq] at mine
    rw [← mine.2] at given
    cases given

/-- Every hop of the map holds whole messages, those that were routed to it. -/
theorem Apart.packed {L : Nat} {hop : Hop} (apart : Apart cfg eager routeMatch calls s)
    (room : cfg.codingThreshold + L ≤ cfg.maxBlockSize) (headerRoom : cfg.protocolOverhead + L ≤ cfg.maxBlockSize)
    (sized : ∀ msg, .handleMsg msg ∈ calls → 1 ≤ msg.bytes.length ∧ msg.bytes.length ≤ L)
    (found : s.batsBufferMap nexthop = some hop) :
    ∃ groups waiting, Hop.Packed cfg (sentTo routeMatch nexthop calls) groups waiting hop := by
  obtain ⟨ran, _⟩ := apart.known nexthop hop found
  obtain ⟨same, groups, waiting, again, pack⟩ := Hop.packed_of_run cfg L eager
    (calls.filterMap (act? routeMatch nexthop)) room headerRoom fun msg member => by
      obtain ⟨flow, listed, rfl⟩ := mem_sentTo member
      exact sized flow listed
  cases Option.some.inj (ran.symm.trans again)
  exact ⟨groups, waiting, pack⟩

/-- A hop that holds whole messages takes a further one. -/
theorem relay_goes {L : Nat} {hop : Hop} {msg : FlowMsg} {msgs waiting : List (List Octet)}
    {groups : List (List (List Octet))} (room : cfg.codingThreshold + L ≤ cfg.maxBlockSize)
    (headerRoom : cfg.protocolOverhead + L ≤ cfg.maxBlockSize) (short : msg.bytes.length ≤ L)
    (old : Hop.Packed cfg msgs groups waiting hop) (long : ∀ p ∈ msgs, 1 ≤ p.length) :
    ∃ after, msg.relay.step cfg hop = some after := by
  obtain ⟨after, _, _, ran, _⟩ := old.step long room headerRoom msg.relay fun bytes given => by
    rw [FlowMsg.relay_msg] at given
    exact Option.some.inj given ▸ short
  exact ⟨after, ran⟩

/-- The collector keeps its next hops apart. For messages of 1 to `L` bytes, and blocks with room
for `L` bytes beyond the coding threshold and beyond the header room, in every run each next hop
gets the messages routed to it, whole and in order, in its own buffers and under one timer; what has
no route is dropped and nothing else is, and no call fails an assertion. -/
theorem collector_keeps_hops_apart (cfg : CollectorConfig) (eager : Bool) (routeMatch : UInt32 → String) (L : Nat)
    (room : cfg.codingThreshold + L ≤ cfg.maxBlockSize) (headerRoom : cfg.protocolOverhead + L ≤ cfg.maxBlockSize)
    (calls : List CollectorCall)
    (sized : ∀ msg, .handleMsg msg ∈ calls → 1 ≤ msg.bytes.length ∧ msg.bytes.length ≤ L) (s : CollectorMap)
    (reach : run (step cfg eager routeMatch) init calls = some s) :
    (∀ nexthop hop, s.batsBufferMap nexthop = some hop → s.timers.count nexthop = 1 ∧
        ∃ groups waiting, groups.flatten ++ waiting = sentTo routeMatch nexthop calls ∧
          hop.filled = waiting.flatten ∧ List.Forall₂ (Hop.Carries cfg) hop.taken groups) ∧
      (∀ nexthop, s.batsBufferMap nexthop = none → sentTo routeMatch nexthop calls = [] ∧ nexthop ∉ s.timers) ∧
      s.dropped = calls.filterMap (unrouted? routeMatch) ∧
      ∀ msg, msg.bytes.length ≤ L → ∃ u, s.step cfg eager routeMatch (.handleMsg msg) = some u := by
  have apart := apart_of_run reach
  refine ⟨?_, ?_, apart.dropped, ?_⟩
  · intro nexthop hop found
    obtain ⟨groups, waiting, pack⟩ := apart.packed room headerRoom sized found
    exact ⟨(apart.known nexthop hop found).2, groups, waiting, pack.order, pack.stores.filled_eq, pack.carries⟩
  · intro nexthop missing
    obtain ⟨none, absent⟩ := apart.unknown nexthop missing
    exact ⟨by rw [sentTo, none]; rfl, absent⟩
  · intro msg short
    simp only [step, handleMsg]
    split
    · exact ⟨_, rfl⟩
    · unfold getBatsBuffer
      split
      · rename_i hop found
        obtain ⟨groups, waiting, pack⟩ := apart.packed room headerRoom sized found
        obtain ⟨after, ran⟩ := relay_goes room headerRoom short pack fun p member => by
          obtain ⟨flow, listed, rfl⟩ := mem_sentTo member
          exact (sized flow listed).1
        exact ⟨_, by rw [ran]; rfl⟩
      · obtain ⟨after, ran⟩ := relay_goes room headerRoom short (Hop.Packed.init cfg eager) fun p member => by
          cases member
        exact ⟨_, by rw [ran]; rfl⟩

/-- Two destinations behind one decoder, and one without a route. -/
def twoRoutes (dstAddr : UInt32) : String := if dstAddr = 3 then "" else "10.0.0.2"

theorem collector_keeps_hops_apart_two_routes :
    ∃ s, run (step ⟨64, 8, 4⟩ false twoRoutes) init
        [.handleMsg ⟨[1, 2], 1, true⟩, .handleMsg ⟨[3], 3, true⟩, .handleMsg ⟨[4], 2, false⟩,
          .handleTimeoutBuffer "10.0.0.2"] = some s ∧
      s.timers = ["10.0.0.2"] ∧ s.dropped = [⟨[3], 3, true⟩] := by
  obtain ⟨s, reach, timers⟩ : ∃ s, run (step ⟨64, 8, 4⟩ false twoRoutes) init
        [.handleMsg ⟨[1, 2], 1, true⟩, .handleMsg ⟨[3], 3, true⟩, .handleMsg ⟨[4], 2, false⟩,
          .handleTimeoutBuffer "10.0.0.2"] = some s ∧ s.timers = ["10.0.0.2"] := by
    exact ⟨_, rfl, rfl⟩
  have facts := collector_keeps_hops_apart ⟨64, 8, 4⟩ false twoRoutes 8 (by decide) (by decide) _ (by
    intro msg member
    simp only [List.mem_cons, CollectorCall.handleMsg.injEq, List.not_mem_nil, reduceCtorEq, or_false] at member
    rcases member with rfl | rfl | rfl
    · decide
    · decide
    · decide) s reach
  exact ⟨s, reach, timers, facts.2.2.1.trans rfl⟩

end CollectorMap

end ServicesFramework
