import ServicesFramework.CollectorHops
import ServicesFramework.TimerRuns

namespace ServicesFramework

open Machine

/-- The steps of the ticker and of the worker. -/
def TimerAct.internal {ι : Type*} : TimerAct ι → Bool
  | .addTimer _ | .addOneshotTimer _ | .cancelTimer _ => false
  | .increment | .beginPass | .visit | .enqueue | .sweep | .endPass | .dequeue | .callHandler | .handlerReturns => true

namespace TimerManager

variable {ι : Type*} [DecidableEq ι] {m m' : TimerManager ι} {a : TimerAct ι}

/-- What the ticker and the worker leave as it is. -/
theorem internal_frame (internal : a.internal = true) (next : m.step a = some m') :
    m'.cancels = m.cancels ∧ m'.added = m.added ∧ m'.tick.toNat ≤ m.tick.toNat + 5 ∧
      ∀ t, (m'.timer t).oneshot = (m.timer t).oneshot ∧ (m'.timer t).expires = (m.timer t).expires := by
  cases stepped next with
  | addTimer | addOneshotTimer | cancelTimer => cases internal
  | increment pc =>
    refine ⟨rfl, rfl, ?_, fun t => ⟨rfl, rfl⟩⟩
    rw [UInt64.toNat_add, show resolution.toNat = 5 from rfl]
    omega
  | visit it t =>
    unfold visit
    split_ifs with due
    · refine ⟨rfl, rfl, Nat.le_add_right _ _, fun u => ?_⟩
      by_cases here : u = t
      · subst u
        simp [setTimer, Timer.expire_oneshot, Timer.expire_expires]
      · simp [setTimer, here]
    · exact ⟨rfl, rfl, Nat.le_add_right _ _, fun u => ⟨rfl, rfl⟩⟩
  | enqueue it t =>
    unfold enqueue
    rcases m.timeout.enqueue_cases t with ⟨-, full⟩ | ⟨-, done⟩
    · rw [full]
      exact ⟨rfl, rfl, Nat.le_add_right _ _, fun u => ⟨rfl, rfl⟩⟩
    · rw [done]
      exact ⟨rfl, rfl, Nat.le_add_right _ _, fun u => ⟨rfl, rfl⟩⟩
  | sweep it t =>
    unfold sweep
    split_ifs <;> exact ⟨rfl, rfl, Nat.le_add_right _ _, fun u => ⟨rfl, rfl⟩⟩
  | dequeue =>
    unfold dequeue
    split <;> exact ⟨rfl, rfl, Nat.le_add_right _ _, fun u => ⟨rfl, rfl⟩⟩
  | beginPass | endPass | callHandler | handlerReturns => exact ⟨rfl, rfl, Nat.le_add_right _ _, fun u => ⟨rfl, rfl⟩⟩

/-- A timer of 15 is accepted, and starts at the tick of its call. -/
theorem addTimer_accepts {t : ι} (expires : (m.timer t).expires = 15) :
    m.addTimer t = { m.setTimer t { m.timer t with start := m.tick } with
      timers := m.timers ++ [t], added := Function.update m.added t (some m.tick) } := by
  unfold addTimer
  rw [expires, if_neg (by decide), if_neg (by decide)]

theorem step_room (room : m.timeout.pool.length ≤ m.timeout.poolSize) (next : m.step a = some m') :
    m'.timeout.pool.length ≤ m'.timeout.poolSize := by
  cases stepped next with
  | addTimer t =>
    rw [show (m.addTimer t).timeout = m.timeout from congrArg Delivery.timeout (m.addTimer_delivery t)]
    exact room
  | addOneshotTimer t =>
    have same := addTimer_delivery (m.setTimer t { m.timer t with oneshot := true }) t
    rw [show (m.addOneshotTimer t).timeout = m.timeout from congrArg Delivery.timeout same]
    exact room
  | visit it t =>
    unfold visit
    split_ifs <;> exact room
  | enqueue it t =>
    unfold enqueue
    rcases m.timeout.enqueue_cases t with ⟨-, full⟩ | ⟨free, done⟩
    · rw [full]
      exact room
    · rw [done]
      simpa using free
  | sweep it t =>
    unfold sweep
    split_ifs <;> exact room
  | dequeue =>
    unfold dequeue
    split
    · exact room
    · rename_i t rest pool
      rw [pool, List.length_cons] at room
      exact Nat.le_of_succ_le room
  | cancelTimer | increment | beginPass | endPass | callHandler | handlerReturns => exact room

end TimerManager

/-- The collector with its timer manager. The timer of a buffer is named by the next hop of the
buffer; `handled` tells that the worker, in its call of `HandleTimeoutBuffer`, is past the locked
section. -/
structure TimedCollector where
  manager : TimerManager String
  map : CollectorMap
  handled : Bool

/-- A locked section of some collector thread, that of the worker in `HandleTimeoutBuffer`, or a
step of the timer manager. -/
inductive TimedCollectorAct
  | handleMsg (msg : FlowMsg)
  | handleTimeoutBuffer
  | manager (a : TimerAct String)
  deriving DecidableEq

namespace TimedCollector

/-- The timers that `GetBatsBuffer` makes expire after 15. -/
def init (uninit : String → UInt64) : TimedCollector := ⟨.init (fun _ => 15) uninit, .init, false⟩

section Step

variable (cfg : CollectorConfig) (eager : Bool) (routeMatch : UInt32 → String)

/-- `HandleMsg`. Where `GetBatsBuffer` makes a buffer it gives its timer to the manager, which
takes the mutex of the manager while that of the collector is held. -/
def handleMsg (s : TimedCollector) (msg : FlowMsg) : Option TimedCollector :=
  let nexthop := routeMatch msg.dstAddr
  (s.map.handleMsg cfg eager routeMatch msg).bind fun map =>
    if nexthop = "" ∨ (s.map.batsBufferMap nexthop).isSome then some { s with map := map }
    else (s.manager.step (.addTimer nexthop)).map fun manager => { s with manager := manager, map := map }

def step (s : TimedCollector) : TimedCollectorAct → Option TimedCollector
  | .handleMsg msg => s.handleMsg cfg eager routeMatch msg
  | .handleTimeoutBuffer =>
    match s.manager.worker with
    | .handling nexthop =>
      if s.handled then none
      else (s.map.handleTimeoutBuffer cfg nexthop).map fun map => { s with map := map, handled := true }
    | .waiting | .dequeued _ => none
  | .manager a =>
    if a.internal ∧ (a = .handlerReturns → s.handled) then
      (s.manager.step a).map fun manager =>
        { s with manager := manager, handled := if a = .callHandler then false else s.handled }
    else none

end Step

/-- What the current buffer of a next hop holds. -/
def filled (s : TimedCollector) (nexthop : String) : List Octet :=
  ((s.map.batsBufferMap nexthop).map Hop.filled).getD []

/-- The expiry that the worker has dequeued and whose buffer it has not yet taken out. -/
def inHand (s : TimedCollector) : List String :=
  match s.manager.worker with
  | .waiting => []
  | .dequeued nexthop => [nexthop]
  | .handling nexthop => if s.handled then [] else [nexthop]

/-- The expiries on their way to `HandleTimeoutBuffer`, the oldest first: with the worker, in the
queue, and with the ticker in `WaitEnqueue`. -/
def line (s : TimedCollector) : List String :=
  s.inHand ++ (s.manager.timeout.pool ++ s.manager.owed.toList)

variable {cfg : CollectorConfig} {eager : Bool} {routeMatch : UInt32 → String} {s u : TimedCollector}
  {nexthop : String} {n : Nat}

/-- What a step can do. -/
inductive Effect (cfg : CollectorConfig) (s : TimedCollector) : TimedCollectorAct → TimedCollector → Prop
  | dropped (msg : FlowMsg) (map : CollectorMap) (same : map.batsBufferMap = s.map.batsBufferMap) :
    Effect cfg s (.handleMsg msg) { s with map := map }
  | known (msg : FlowMsg) (nexthop : String) (hop : Hop) (found : (s.map.batsBufferMap nexthop).isSome) :
    Effect cfg s (.handleMsg msg) { s with map := s.map.setHop nexthop hop }
  | made (msg : FlowMsg) (nexthop : String) (hop : Hop) (map : CollectorMap)
      (missing : s.map.batsBufferMap nexthop = none)
      (put : map.batsBufferMap = Function.update s.map.batsBufferMap nexthop (some hop))
      (free : s.manager.mutexHeld = false) :
    Effect cfg s (.handleMsg msg) { s with manager := s.manager.addTimer nexthop, map := map }
  | flushed (nexthop : String) (hop : Hop) (calls : s.manager.worker = .handling nexthop)
      (unhandled : s.handled = false) (found : s.map.batsBufferMap nexthop = some hop) :
    Effect cfg s .handleTimeoutBuffer
      { s with map := s.map.setHop nexthop (hop.handleTimeoutBuffer cfg), handled := true }
  | manager {m : TimerManager String} (a : TimerAct String) (internal : a.internal = true)
      (returns : a = .handlerReturns → s.handled = true) (moved : s.manager.step a = some m) :
    Effect cfg s (.manager a) { s with manager := m, handled := if a = .callHandler then false else s.handled }

theorem handleMsg_effect {msg : FlowMsg} (next : s.handleMsg cfg eager routeMatch msg = some u) :
    Effect cfg s (.handleMsg msg) u := by
  obtain ⟨map, ran, put⟩ := Option.bind_eq_some_iff.mp next
  have call : s.map.step cfg eager routeMatch (.handleMsg msg) = some map := ran
  rcases CollectorMap.step_cases call with ⟨_, same, nowhere, rfl⟩ | ⟨nexthop, act, hop, after, mine, _, _, _, moved⟩
  · cases same
    rw [if_pos (.inl nowhere)] at put
    cases Option.some.inj put
    exact .dropped msg _ rfl
  · simp only [CollectorCall.act?, Option.ite_none_right_eq_some] at mine
    obtain ⟨⟨named, rfl⟩, _⟩ := mine
    rcases moved with ⟨found, rfl⟩ | ⟨missing, _, rfl⟩
    · rw [if_pos (.inr (by rw [found]; rfl))] at put
      cases Option.some.inj put
      exact .known msg _ after (by rw [found]; rfl)
    · rw [if_neg (by simp [named, missing])] at put
      obtain ⟨m, added, rfl⟩ := Option.map_eq_some_iff.mp put
      cases TimerManager.stepped added with
      | addTimer _ free => exact .made msg _ after _ missing rfl free

theorem effect_of_step {a : TimedCollectorAct} (next : s.step cfg eager routeMatch a = some u) : Effect cfg s a u := by
  cases a with
  | handleMsg msg => exact handleMsg_effect next
  | handleTimeoutBuffer =>
    simp only [step] at next
    split at next
    · rename_i nexthop calls
      split_ifs at next with handled
      obtain ⟨map, ran, rfl⟩ := Option.map_eq_some_iff.mp next
      simp only [CollectorMap.handleTimeoutBuffer, Option.ite_none_right_eq_some] at ran
      obtain ⟨hop, found, rfl⟩ := Option.map_eq_some_iff.mp ran.2
      exact .flushed nexthop hop calls (Bool.eq_false_iff.mpr handled) found
    · cases next
    · cases next
  | manager a =>
    simp only [step, Option.ite_none_right_eq_some] at next
    obtain ⟨⟨internal, returns⟩, moves⟩ := next
    obtain ⟨m, moved, rfl⟩ := Option.map_eq_some_iff.mp moves
    exact .manager a internal returns moved

/-- What holds between the steps, of which `n` have been taken: every buffer of the map has a
periodic timer that keeps its schedule. -/
structure Kept (n : Nat) (s : TimedCollector) : Prop where
  sound : s.manager.Sound
  plain : ∀ t, (s.manager.timer t).oneshot = false ∧ (s.manager.timer t).expires = 15
  uncancelled : s.manager.cancels = []
  known : ∀ nexthop, (s.map.batsBufferMap nexthop).isSome ↔ s.manager.added nexthop ≠ none
  room : s.manager.timeout.pool.length ≤ s.manager.timeout.poolSize ∧ s.manager.timeout.poolSize = 10
  clock : s.manager.tick.toNat ≤ 5 * n

theorem Kept.init (uninit : String → UInt64) : Kept 0 (init uninit) where
  sound := TimerManager.init_sound _ _
  plain t := ⟨rfl, rfl⟩
  uncancelled := rfl
  known nexthop := by simp [TimedCollector.init, CollectorMap.init, TimerManager.init]
  room := ⟨Nat.zero_le 10, rfl⟩
  clock := Nat.le_refl 0

theorem Kept.alive (kept : Kept n s) (t : String) : (s.manager.timer t).cancelled = false := by
  refine Bool.eq_false_iff.mpr fun cancelled => ?_
  have unasked : ¬ (s.manager.view t).requested := by simp [TimerManager.view, kept.uncancelled]
  cases added : s.manager.added t with
  | none => exact unasked ((kept.sound.2 t).absent added |>.2.2.2.2 cancelled)
  | some a =>
    have oneshot := ((kept.sound.2 t).expired a added unasked cancelled).1
    rw [show (s.manager.view t).timer.oneshot = false from (kept.plain t).1] at oneshot
    cases oneshot

/-- The timer of a buffer: it has begun, and it expires within 15 of its start. -/
theorem Kept.schedule (kept : Kept n s) (found : (s.map.batsBufferMap nexthop).isSome) :
    (s.manager.timer nexthop).start.toNat ≤ s.manager.tick.toNat ∧
      s.manager.tick.toNat ≤ (s.manager.timer nexthop).start.toNat + 15 ∧
      (s.manager.ticker = .sleeping → s.manager.tick.toNat < (s.manager.timer nexthop).start.toNat + 15) := by
  obtain ⟨a, added⟩ := Option.ne_none_iff_exists'.mp ((kept.known nexthop).mp found)
  obtain ⟨k, schedule⟩ := (kept.sound.2 nexthop).schedule a added (kept.alive nexthop)
  have period : (s.manager.timer nexthop).expires.toNat = 15 := by
    rw [(kept.plain nexthop).2]
    rfl
  have due : s.manager.tick.toNat ≤ (s.manager.timer nexthop).start.toNat + (s.manager.timer nexthop).expires.toNat :=
    schedule.due
  refine ⟨schedule.begun, by omega, fun asleep => ?_⟩
  have future : s.manager.tick.toNat < (s.manager.timer nexthop).start.toNat + (s.manager.timer nexthop).expires.toNat :=
    schedule.future (by simp [TimerManager.view, TimerManager.ahead, asleep])
  omega

theorem Kept.noOverflow (kept : Kept n s) (uptime : 5 * n + 15 < 2 ^ 64) : s.manager.NoOverflow := by
  intro t member _
  have found := (kept.known t).mpr (kept.sound.1.listed t member)
  have begun := (kept.schedule found).1
  have clock := kept.clock
  rw [(kept.plain t).2, show (15 : UInt64).toNat = 15 from rfl]
  omega

theorem isSome_setHop (map : CollectorMap) {hop : Hop} (found : (map.batsBufferMap nexthop).isSome) (other : String) :
    ((map.setHop nexthop hop).batsBufferMap other).isSome = (map.batsBufferMap other).isSome := by
  by_cases here : other = nexthop
  · subst other
    rw [found]
    simp [CollectorMap.setHop]
  · simp [CollectorMap.setHop, here]

/-- The sections that leave the manager alone. -/
theorem Kept.of_manager (old : Kept n s) (manager : u.manager = s.manager)
    (same : ∀ nexthop, (u.map.batsBufferMap nexthop).isSome = (s.map.batsBufferMap nexthop).isSome) : Kept (n + 1) u := by
  refine ⟨?_, ?_, ?_, ?_, ?_, ?_⟩
  · rw [manager]
    exact old.sound
  · rw [manager]
    exact old.plain
  · rw [manager]
    exact old.uncancelled
  · intro nexthop
    rw [manager, same]
    exact old.known nexthop
  · rw [manager]
    exact old.room
  · have clock := old.clock
    rw [manager]
    omega

theorem Kept.addTimer (old : Kept n s) (uptime : 5 * n + 15 < 2 ^ 64) (missing : s.map.batsBufferMap nexthop = none)
    (free : s.manager.mutexHeld = false) {hop : Hop} {map : CollectorMap}
    (put : map.batsBufferMap = Function.update s.map.batsBufferMap nexthop (some hop)) :
    Kept (n + 1) { s with manager := s.manager.addTimer nexthop, map := map } := by
  have fresh : s.manager.added nexthop = none := by
    by_contra added
    have found := (old.known nexthop).mpr added
    rw [missing] at found
    cases found
  have next : s.manager.step (.addTimer nexthop) = some (s.manager.addTimer nexthop) := by
    simp [TimerManager.step, free]
  have accepted := TimerManager.addTimer_accepts (old.plain nexthop).2
  refine ⟨old.sound.step (a := .addTimer nexthop) ⟨old.noOverflow uptime, fresh⟩ next, ?_, ?_, ?_, ?_, ?_⟩
  · intro t
    rw [accepted]
    by_cases here : t = nexthop
    · subst t
      simpa [TimerManager.setTimer] using old.plain nexthop
    · simpa [TimerManager.setTimer, here] using old.plain t
  · rw [accepted]
    exact old.uncancelled
  · intro other
    rw [accepted, put]
    by_cases here : other = nexthop
    · subst other
      simp
    · simpa [here] using old.known other
  · exact ⟨TimerManager.step_room old.room.1 next, (TimerManager.step_poolSize next).trans old.room.2⟩
  · have clock := old.clock
    rw [accepted]
    exact clock.trans (by omega)

theorem Kept.step (old : Kept n s) (uptime : 5 * n + 15 < 2 ^ 64) {a : TimedCollectorAct}
    (next : s.step cfg eager routeMatch a = some u) : Kept (n + 1) u := by
  cases effect_of_step next with
  | dropped msg map same => exact old.of_manager rfl fun nexthop => by rw [same]
  | known msg nexthop hop found => exact old.of_manager rfl (isSome_setHop s.map found)
  | made msg nexthop hop map missing put free => exact old.addTimer uptime missing free put
  | flushed nexthop hop calls unhandled found => exact old.of_manager rfl (isSome_setHop s.map (by rw [found]; rfl))
  | manager a internal returns moved =>
    obtain ⟨cancels, added, tick, timers⟩ := TimerManager.internal_frame internal moved
    have fresh : s.manager.AddsFresh a := by cases a <;> trivial
    refine ⟨old.sound.step ⟨old.noOverflow uptime, fresh⟩ moved, ?_, ?_, ?_, ?_, ?_⟩
    · intro t
      rw [(timers t).1, (timers t).2]
      exact old.plain t
    · exact cancels.trans old.uncancelled
    · intro nexthop
      rw [added]
      exact old.known nexthop
    · exact ⟨TimerManager.step_room old.room.1 moved, (TimerManager.step_poolSize moved).trans old.room.2⟩
    · have clock := old.clock
      exact tick.trans (by omega)

theorem kept_of_run {acts : List TimedCollectorAct} (old : Kept n s) (uptime : 5 * (n + acts.length) + 15 < 2 ^ 64)
    (reach : run (step cfg eager routeMatch) s acts = some u) : Kept (n + acts.length) u := by
  induction acts generalizing n s with
  | nil =>
    cases Option.some.inj reach
    exact old
  | cons a acts ih =>
    obtain ⟨v, first, rest⟩ := run_cons.mp reach
    rw [List.length_cons] at uptime ⊢
    have later := ih (old.step (by omega) first) (by omega) rest
    rwa [Nat.add_assoc, Nat.add_comm 1] at later

/-- `HandleTimeoutBuffer` leaves the current buffer empty. -/
theorem filled_handleTimeoutBuffer (cfg : CollectorConfig) (hop : Hop) : (hop.handleTimeoutBuffer cfg).filled = [] := by
  unfold Hop.handleTimeoutBuffer
  split
  · rename_i absent
    simp [Hop.filled, absent]
  · rename_i i current
    split_ifs with empty
    · simp [Hop.filled, current, Nat.le_zero.mp empty]
    · simp [Hop.filled, BatsBuffer.resetBuf, BaseMsg.init, BaseMsg.filledBytes]

/-- A timer that expires goes to the end of the line. -/
theorem line_visit {it : Nat} {t : String} (pc : s.manager.ticker = .visiting it)
    (found : s.manager.timers[it]? = some t) :
    ∃ new, line { s with manager := s.manager.visit it t } = s.line ++ new ∧
      ∀ nexthop, nexthop ∉ new →
        ((s.manager.visit it t).timer nexthop).start = (s.manager.timer nexthop).start := by
  by_cases due : (s.manager.timer t).cancelled = false ∧
      (s.manager.timer t).expires + (s.manager.timer t).start = s.manager.tick
  · have fires : s.manager.visit it t =
        { s.manager.setTimer t ((s.manager.timer t).expire s.manager.tick) with ticker := .enqueuing it } := if_pos due
    rw [fires]
    refine ⟨[t], ?_, fun nexthop absent => ?_⟩
    · simp [line, inHand, TimerManager.owed, TimerManager.setTimer, pc, found]
    · have ne : nexthop ≠ t := by simpa using absent
      simp [TimerManager.setTimer, ne]
  · have passes : s.manager.visit it t = { s.manager with ticker := .sweeping it } := if_neg due
    rw [passes]
    refine ⟨[], ?_, fun _ _ => rfl⟩
    simp [line, inHand, TimerManager.owed, pc]

/-- What the ticker and the worker do to the line: only a timer that expires changes it. -/
theorem line_manager {a : TimerAct String} {m : TimerManager String} (internal : a.internal = true)
    (returns : a = .handlerReturns → s.handled = true) (moved : s.manager.step a = some m) :
    ∃ new, line { s with manager := m, handled := if a = .callHandler then false else s.handled } = s.line ++ new ∧
      ∀ nexthop, nexthop ∉ new → (m.timer nexthop).start = (s.manager.timer nexthop).start := by
  cases TimerManager.stepped moved with
  | addTimer | addOneshotTimer | cancelTimer => cases internal
  | increment pc | beginPass pc | endPass pc =>
    refine ⟨[], ?_, fun _ _ => rfl⟩
    simp [line, inHand, TimerManager.owed, pc]
  | visit it t pc found => exact line_visit pc found
  | enqueue it t pc found =>
    unfold TimerManager.enqueue
    rcases s.manager.timeout.enqueue_cases t with ⟨-, full⟩ | ⟨-, done⟩
    · rw [full]
      exact ⟨[], (List.append_nil _).symm, fun _ _ => rfl⟩
    · rw [done]
      refine ⟨[], ?_, fun _ _ => rfl⟩
      simp [line, inHand, TimerManager.owed, pc, found]
  | sweep it t pc found =>
    unfold TimerManager.sweep
    by_cases dead : (s.manager.timer t).cancelled ∧ (s.manager.timer t).refcnt ≤ 0
    · rw [if_pos dead]
      refine ⟨[], ?_, fun _ _ => rfl⟩
      simp [line, inHand, TimerManager.owed, pc]
    · rw [if_neg dead]
      refine ⟨[], ?_, fun _ _ => rfl⟩
      simp [line, inHand, TimerManager.owed, pc]
  | dequeue pc =>
    unfold TimerManager.dequeue
    split
    · exact ⟨[], (List.append_nil _).symm, fun _ _ => rfl⟩
    · rename_i t rest pool
      refine ⟨[], ?_, fun _ _ => rfl⟩
      simp [line, inHand, TimerManager.owed, pc, pool]
  | callHandler t pc =>
    refine ⟨[], ?_, fun _ _ => rfl⟩
    simp [line, inHand, TimerManager.owed, pc]
  | handlerReturns t pc =>
    refine ⟨[], ?_, fun _ _ => rfl⟩
    simp [line, inHand, TimerManager.owed, pc, returns rfl]

/-- What a step does to the line: the worker takes out the buffer of the first in it, or the
timers that expire are added at its end. -/
theorem Effect.line {a : TimedCollectorAct} (effect : Effect cfg s a u) :
    (∃ t, a = .handleTimeoutBuffer ∧ s.line = t :: u.line ∧ u.filled t = [] ∧
        ∀ nexthop, u.manager.timer nexthop = s.manager.timer nexthop) ∨
      (a ≠ .handleTimeoutBuffer ∧ ∃ new, u.line = s.line ++ new ∧
        ∀ nexthop, (s.map.batsBufferMap nexthop).isSome → nexthop ∉ new →
          (u.manager.timer nexthop).start = (s.manager.timer nexthop).start) := by
  cases effect with
  | dropped msg map same => exact .inr ⟨by simp, [], (List.append_nil _).symm, fun _ _ _ => rfl⟩
  | known msg nexthop hop found => exact .inr ⟨by simp, [], (List.append_nil _).symm, fun _ _ _ => rfl⟩
  | made msg nexthop hop map missing put free =>
    refine .inr ⟨by simp, [], ?_, ?_⟩
    · rcases s.manager.addTimer_cases nexthop with same | ⟨_, _, added⟩
      · rw [same, List.append_nil]
        rfl
      · rw [added]
        rcases TimerManager.mutexHeld_eq_false free with pc | pc <;>
          simp [TimedCollector.line, inHand, TimerManager.owed, TimerManager.setTimer, pc]
    · intro other found _
      have ne : other ≠ nexthop := by
        rintro rfl
        rw [missing] at found
        cases found
      rcases s.manager.addTimer_cases nexthop with same | ⟨_, _, added⟩
      · rw [same]
      · rw [added]
        simp [TimerManager.setTimer, ne]
  | flushed nexthop hop calls unhandled found =>
    refine .inl ⟨nexthop, rfl, ?_, ?_, fun _ => rfl⟩
    · simp [TimedCollector.line, inHand, calls, unhandled]
    · simp [filled, CollectorMap.setHop, filled_handleTimeoutBuffer]
  | manager a internal returns moved =>
    obtain ⟨new, grows, kept⟩ := line_manager internal returns moved
    exact .inr ⟨by simp, new, grows, fun nexthop _ absent => kept nexthop absent⟩

theorem known_of_filled (holds : s.filled nexthop ≠ []) : (s.map.batsBufferMap nexthop).isSome := by
  unfold filled at holds
  cases found : s.map.batsBufferMap nexthop with
  | none => exact absurd (by rw [found]; rfl) holds
  | some hop => rfl

/-- While a buffer holds something, its timer has not expired since the clock showed `T`, or the
expiry is in the line. -/
def Waits (T : Nat) (nexthop : String) (s : TimedCollector) : Prop :=
  s.filled nexthop = [] ∨ (s.manager.timer nexthop).start.toNat ≤ T ∨ nexthop ∈ s.line

theorem Waits.step {T : Nat} (old : s.Waits T nexthop) (holds : s.filled nexthop ≠ []) {a : TimedCollectorAct}
    (next : s.step cfg eager routeMatch a = some u) : u.Waits T nexthop := by
  have held := old.resolve_left holds
  rcases (effect_of_step next).line with ⟨t, _, first, empty, same⟩ | ⟨_, new, grows, same⟩
  · by_cases here : nexthop = t
    · subst t
      exact .inl empty
    · right
      rcases held with early | member
      · left
        rw [same]
        exact early
      · rw [first] at member
        exact .inr (List.mem_of_ne_of_mem here member)
  · right
    by_cases fires : nexthop ∈ new
    · right
      rw [grows]
      exact List.mem_append_right _ fires
    · rcases held with early | member
      · left
        rw [same nexthop (known_of_filled holds) fires]
        exact early
      · right
        rw [grows]
        exact List.mem_append_left _ member

/-- A place in the line bounds how often the worker can take out other buffers first. -/
theorem served_in_turn {acts : List TimedCollectorAct} (member : nexthop ∈ s.line)
    (holds : Along (step cfg eager routeMatch) (fun v _ => v.filled nexthop ≠ []) s acts)
    (onward : run (step cfg eager routeMatch) s acts = some u) (still : u.filled nexthop ≠ []) :
    acts.count .handleTimeoutBuffer ≤ s.line.idxOf nexthop := by
  induction acts generalizing s with
  | nil => exact Nat.zero_le _
  | cons a acts ih =>
    obtain ⟨v, next, rest⟩ := run_cons.mp onward
    have later := holds.2 v next
    have held : v.filled nexthop ≠ [] := by
      cases acts with
      | nil =>
        cases Option.some.inj rest
        exact still
      | cons b acts => exact later.1
    rcases (effect_of_step next).line with ⟨t, rfl, first, empty, _⟩ | ⟨other, new, grows, _⟩
    · have ne : nexthop ≠ t := by
        rintro rfl
        exact held empty
      rw [first] at member ⊢
      have bound := ih (List.mem_of_ne_of_mem ne member) later rest
      rw [List.count_cons_self, List.idxOf_cons_ne _ (Ne.symm ne)]
      omega
    · have bound := ih (by rw [grows]; exact List.mem_append_left _ member) later rest
      rw [grows, List.idxOf_append_of_mem member] at bound
      rw [List.count_cons_of_ne other]
      exact bound

theorem Kept.line_length (kept : Kept n s) : s.line.length ≤ 12 := by
  obtain ⟨room, size⟩ := kept.room
  have hand : s.inHand.length ≤ 1 := by
    unfold inHand
    split
    · exact Nat.zero_le 1
    · exact Nat.le_refl 1
    · split <;> simp
  have owed : s.manager.owed.toList.length ≤ 1 := by cases s.manager.owed <;> simp
  rw [line, List.length_append, List.length_append]
  omega

/-- Data does not stay in a buffer, however the collector threads, the ticker and the worker
interleave. A buffer that has held something all the time since the clock showed `u.manager.tick`
has done so for at most 15 ms, or an expiry of its timer is on the way to `HandleTimeoutBuffer`:
then the worker empties the buffer with one of its next 12 calls. -/
theorem buffered_data_leaves_in_time (cfg : CollectorConfig) (eager : Bool) (routeMatch : UInt32 → String)
    (uninit : String → UInt64) (before after : List TimedCollectorAct) (u s : TimedCollector)
    (uptime : before.length + after.length < 2 ^ 60)
    (reach : run (step cfg eager routeMatch) (init uninit) before = some u)
    (onward : run (step cfg eager routeMatch) u after = some s) (nexthop : String)
    (holds : Along (step cfg eager routeMatch) (fun v _ => v.filled nexthop ≠ []) u after)
    (still : s.filled nexthop ≠ []) :
    (s.manager.tick.toNat ≤ u.manager.tick.toNat + 15 ∧
        (s.manager.ticker = .sleeping → s.manager.tick.toNat < u.manager.tick.toNat + 15)) ∨
      (nexthop ∈ s.line ∧ ∀ more v, run (step cfg eager routeMatch) s more = some v →
        Along (step cfg eager routeMatch) (fun w _ => w.filled nexthop ≠ []) s more → v.filled nexthop ≠ [] →
          more.count .handleTimeoutBuffer < 12) := by
  have kept := kept_of_run (Kept.init uninit) (by omega) reach
  have later := kept_of_run kept (by omega) onward
  have first : u.filled nexthop ≠ [] := by
    cases after with
    | nil =>
      cases Option.some.inj onward
      exact still
    | cons a after => exact holds.1
  obtain ⟨begun, _⟩ := kept.schedule (known_of_filled first)
  obtain ⟨_, due, future⟩ := later.schedule (known_of_filled still)
  have waits : s.Waits u.manager.tick.toNat nexthop :=
    run_invariant_along (fun _ _ _ old held next => old.step held next) (.inr (.inl begun)) holds onward
  rcases waits.resolve_left still with early | member
  · left
    refine ⟨by omega, fun asleep => ?_⟩
    have soon := future asleep
    omega
  · refine .inr ⟨member, fun more v goes held last => ?_⟩
    have turns := served_in_turn member held goes last
    have place := List.idxOf_lt_length_iff.mpr member
    have length := later.line_length
    omega

/-- Two bytes that wait while three passes of the ticker go by, and the clock goes on. -/
def lateTicks : List TimedCollectorAct :=
  [.manager .increment, .manager .beginPass, .manager .visit, .manager .sweep, .manager .endPass, .manager .increment,
    .manager .beginPass, .manager .visit, .manager .sweep, .manager .endPass, .manager .increment, .manager .beginPass,
    .manager .visit, .manager .enqueue, .manager .sweep, .manager .endPass, .manager .increment]

theorem buffered_data_leaves_in_time_late_ticks :
    ∃ u s, run (step ⟨8, 8, 4⟩ false CollectorMap.twoRoutes) (init fun _ => 0) [.handleMsg ⟨[1, 2], 1, true⟩] = some u ∧
      run (step ⟨8, 8, 4⟩ false CollectorMap.twoRoutes) u lateTicks = some s ∧ s.manager.tick = 20 ∧
      "10.0.0.2" ∈ s.line := by
  obtain ⟨u, s, reach, onward, start, tick, holds, still⟩ : ∃ u s,
      run (step ⟨8, 8, 4⟩ false CollectorMap.twoRoutes) (init fun _ => 0) [.handleMsg ⟨[1, 2], 1, true⟩] = some u ∧
        run (step ⟨8, 8, 4⟩ false CollectorMap.twoRoutes) u lateTicks = some s ∧ u.manager.tick = 0 ∧
          s.manager.tick = 20 ∧
          Along (step ⟨8, 8, 4⟩ false CollectorMap.twoRoutes) (fun v _ => v.filled "10.0.0.2" ≠ []) u lateTicks ∧
          s.filled "10.0.0.2" = [1, 2] := by
    refine ⟨_, _, rfl, rfl, rfl, rfl, ?_, rfl⟩
    decide
  have facts := buffered_data_leaves_in_time ⟨8, 8, 4⟩ false CollectorMap.twoRoutes (fun _ => 0) _ _ u s (by decide) reach
    onward "10.0.0.2" holds (by rw [still]; simp)
  rcases facts with ⟨soon, _⟩ | ⟨member, _⟩
  · rw [start, tick] at soon
    exact absurd soon (by decide)
  · exact ⟨u, s, reach, onward, tick, member⟩

end TimedCollector

end ServicesFramework
