import ServicesFramework.PollerTimeouts

namespace ServicesFramework

namespace PollerEvent

variable {κ : Type*}

/-- A `Register` of the descriptor with a timeout. -/
def arms (fd : Int) : PollerEvent κ → Bool
  | .register req => req.fd == fd && decide (0 ≤ req.timeoutMs)
  | .unregister _ | .counted _ _ | .callback _ _ => false

/-- A callback of the descriptor without events. -/
def isTimeout (fd : Int) : PollerEvent κ → Bool
  | .callback other events => other == fd && events == 0
  | .register _ | .unregister _ | .counted _ _ => false

end PollerEvent

namespace PollerLoop

open Machine

variable {κ ι : Type*} {s u : PollerLoop κ ι} {fd : Int} {req : PollRequest κ}

/-- No callback is called between an `Unregister` and the next `Register` of its descriptor. -/
def Silent (history : List (PollerEvent κ)) : Prop :=
  ∀ before between after fd events, history = before ++ .unregister fd :: between ++ .callback fd events :: after →
    ∃ req, .register req ∈ between ∧ req.fd = fd

/-- A computed timeout of the descriptor that is not yet delivered. -/
def waiting (s : PollerLoop κ ι) (fd : Int) : Nat := if s.pc.pending.lookup fd = some 0 then 1 else 0

/-- A timeout of the descriptor that is counted down. -/
def running (s : PollerLoop κ ι) (fd : Int) : Nat :=
  if (s.system.poller.requests.lookup fd).any fun req => decide (0 ≤ req.timeoutMs) then 1 else 0

/-- Every timeout that was delivered, is to be delivered or is running has its `Register`. -/
def Funded (s : PollerLoop κ ι) : Prop :=
  ∀ fd, s.history.countP (PollerEvent.isTimeout fd) + s.waiting fd + s.running fd ≤
    s.history.countP (PollerEvent.arms fd)

theorem waiting_congr (same : u.pc.pending.lookup fd = s.pc.pending.lookup fd) : u.waiting fd = s.waiting fd := by
  rw [waiting, same, waiting]

theorem running_congr (same : u.system.poller.requests.lookup fd = s.system.poller.requests.lookup fd) :
    u.running fd = s.running fd := by
  rw [running, same, running]

theorem running_of_none (absent : s.system.poller.requests.lookup fd = none) : s.running fd = 0 := by
  simp [running, absent]

theorem running_of_some {found : PollRequest (PollCallback κ)}
    (present : s.system.poller.requests.lookup fd = some found) :
    s.running fd = if 0 ≤ found.timeoutMs then 1 else 0 := by
  simp [running, present]

theorem Funded.init (pipeFd : Int) : Funded (init pipeFd : PollerLoop κ ι) := by
  intro fd
  have still : (PollerLoop.init pipeFd : PollerLoop κ ι).running fd = 0 := by
    cases found : (PollerLoop.init pipeFd : PollerLoop κ ι).system.poller.requests.lookup fd with
    | none => exact running_of_none found
    | some req => simp [running_of_some found, lookup_init found]
  rw [still]
  exact le_refl 0

/-- Steps that call no callback without events and register nothing. -/
theorem Funded.frame (old : Funded s) (moves : ∀ fd, u.waiting fd + u.running fd ≤ s.waiting fd + s.running fd)
    (timeouts : ∀ fd, u.history.countP (PollerEvent.isTimeout fd) = s.history.countP (PollerEvent.isTimeout fd))
    (armings : ∀ fd, u.history.countP (PollerEvent.arms fd) = s.history.countP (PollerEvent.arms fd)) :
    Funded u := by
  intro fd
  have before := old fd
  have less := moves fd
  rw [timeouts, armings]
  omega

theorem Funded.register (old : Funded s)
    (requests : u.system.poller.requests = s.system.poller.requests.insert req.fd req.ofClient)
    (pending : u.pc.pending = s.pc.pending) (history : u.history = s.history ++ [.register req]) : Funded u := by
  intro fd
  have before := old fd
  have waits : u.waiting fd = s.waiting fd := waiting_congr (by rw [pending])
  rw [waits, history, List.countP_append, List.countP_append, List.countP_singleton, List.countP_singleton]
  simp only [PollerEvent.isTimeout, Bool.false_eq_true, if_false]
  by_cases same : fd = req.fd
  · subst fd
    have present : u.system.poller.requests.lookup req.fd = some req.ofClient := by
      rw [requests, AList.lookup_insert]
    have runs : u.running req.fd = if 0 ≤ req.timeoutMs then 1 else 0 := running_of_some present
    simp only [PollerEvent.arms, beq_self_eq_true, Bool.true_and, decide_eq_true_eq]
    omega
  · have runs : u.running fd = s.running fd := running_congr (by rw [requests, AList.lookup_insert_ne same])
    omega

theorem Funded.unregister (old : Funded s)
    (requests : u.system.poller.requests = s.system.poller.requests.erase fd)
    (pending : u.pc.pending = s.pc.pending) (history : u.history = s.history ++ [.unregister fd]) : Funded u := by
  refine old.frame ?_ (by simp [history, PollerEvent.isTimeout]) (by simp [history, PollerEvent.arms])
  intro other
  have waits : u.waiting other = s.waiting other := waiting_congr (by rw [pending])
  by_cases same : other = fd
  · subst other
    have gone : u.running fd = 0 := running_of_none (by rw [requests, AList.lookup_erase])
    omega
  · have runs : u.running other = s.running other := running_congr (by rw [requests, AList.lookup_erase_ne same])
    omega

theorem waiting_erase_le (pending : u.pc.pending = s.pc.pending.erase fd) (other : Int) :
    u.waiting other ≤ s.waiting other := by
  by_cases same : other = fd
  · subst other
    simp [waiting, pending]
  · exact (waiting_congr (by rw [pending, AList.lookup_erase_ne same])).le

theorem Funded.gone (old : Funded s) (requests : u.system.poller.requests = s.system.poller.requests)
    (pending : u.pc.pending = s.pc.pending.erase fd) (history : u.history = s.history) : Funded u := by
  refine old.frame ?_ (by simp [history]) (by simp [history])
  intro other
  have waits := waiting_erase_le pending other
  have runs : u.running other = s.running other := running_congr (by rw [requests])
  omega

/-- A timeout is delivered at the cost of the response that carried it. -/
theorem Funded.deliver (old : Funded s) {events : UInt32} {found : PollRequest (PollCallback κ)}
    (response : s.pc.pending.lookup fd = some events)
    (requests : u.system.poller.requests = s.system.poller.requests.insert fd { found with timeoutMs := -1 })
    (pending : u.pc.pending = s.pc.pending.erase fd) (history : u.history = s.history ++ [.callback fd events]) :
    Funded u := by
  intro other
  have before := old other
  rw [history, List.countP_append, List.countP_append, List.countP_singleton, List.countP_singleton]
  simp only [PollerEvent.isTimeout, PollerEvent.arms, Bool.false_eq_true, if_false]
  by_cases same : other = fd
  · subst other
    have present : u.system.poller.requests.lookup fd = some { found with timeoutMs := -1 } := by
      rw [requests, AList.lookup_insert]
    have disarmed : u.running fd = 0 := running_of_some present
    have delivered : u.waiting fd = 0 := by simp [waiting, pending]
    have carried : s.waiting fd = if events = 0 then 1 else 0 := by simp [waiting, response]
    simp only [beq_self_eq_true, Bool.true_and, beq_iff_eq]
    omega
  · have waits := waiting_erase_le pending other
    have runs : u.running other = s.running other := running_congr (by rw [requests, AList.lookup_insert_ne same])
    simp only [beq_eq_false_iff_ne.mpr (Ne.symm same), Bool.false_and, Bool.false_eq_true, if_false]
    omega

/-- A pass turns a running timeout into a response, or leaves it running. -/
theorem countdown_moves {interval : Int} {ready : ReadyEvents}
    (requests : u.system.poller.requests = (s.system.poller.countdown interval).requests)
    (pending : u.pc.pending = s.system.poller.responses interval ready) (fd : Int) :
    u.waiting fd + u.running fd ≤ s.running fd := by
  have after := congrArg (AList.lookup fd) requests
  rw [Poller.lookup_countdown] at after
  by_cases timeout : u.pc.pending.lookup fd = some 0
  · have now : u.waiting fd = 1 := if_pos timeout
    rw [pending] at timeout
    obtain ⟨req, found, skips, due⟩ := Poller.mem_due.mp (Poller.due_of_responses timeout)
    rw [found, Option.map_some, Poller.counting, skips] at after
    rcases req.countdown_cases interval with ⟨_, result⟩ | ⟨positive, _, result⟩ | ⟨_, _, result⟩
    · rw [result] at due
      cases due
    · rw [result] at after
      have stopped : u.running fd = 0 := running_of_some after
      have started : s.running fd = 1 := (running_of_some found).trans (if_pos positive)
      omega
    · rw [result] at due
      cases due
  · have now : u.waiting fd = 0 := if_neg timeout
    cases found : s.system.poller.requests.lookup fd with
    | none =>
      rw [found] at after
      rw [now, running_of_none after]
      exact Nat.zero_le _
    | some req =>
      rw [found] at after
      rw [now, running_of_some after, running_of_some found]
      split
      · rename_i positive
        rw [if_pos (Poller.running_of_countdown positive)]
      · exact Nat.zero_le _

theorem Funded.countdown (old : Funded s) {interval : Int} {ready : ReadyEvents}
    (requests : u.system.poller.requests = (s.system.poller.countdown interval).requests)
    (pending : u.pc.pending = s.system.poller.responses interval ready)
    (history : u.history = s.history ++ s.system.poller.counted.map (.counted · interval)) : Funded u := by
  refine old.frame ?_ ?_ ?_
  · intro fd
    have moves := countdown_moves requests pending fd
    omega
  · intro fd
    rw [history, List.countP_append, List.countP_map]
    simp [Function.comp_def, PollerEvent.isTimeout]
  · intro fd
    rw [history, List.countP_append, List.countP_map]
    simp [Function.comp_def, PollerEvent.arms]

/-- A descriptor whose last call was `Unregister` has no request, and so far it was silent. -/
structure Quieted (s : PollerLoop κ ι) : Prop where
  absent : ∀ before after fd, s.history = before ++ .unregister fd :: after →
    (∀ req, .register req ∈ after → req.fd ≠ fd) → s.system.poller.requests.lookup fd = none
  past : Silent s.history

theorem Quieted.init (pipeFd : Int) : Quieted (init pipeFd : PollerLoop κ ι) where
  absent before after fd split := by simp [PollerLoop.init] at split
  past before between after fd events split := by simp [PollerLoop.init] at split

/-- Steps without an `Unregister` and without a callback. -/
theorem Quieted.append (old : Quieted s) {more : List (PollerEvent κ)} (history : u.history = s.history ++ more)
    (unregister : ∀ fd, .unregister fd ∉ more) (callback : ∀ fd events, .callback fd events ∉ more)
    (requests : ∀ fd, (∀ req, .register req ∈ more → req.fd ≠ fd) → s.system.poller.requests.lookup fd = none →
      u.system.poller.requests.lookup fd = none) : Quieted u := by
  refine ⟨?_, ?_⟩
  · intro before after fd split apart
    rw [history] at split
    obtain ⟨rest, rfl, earlier⟩ := split_of_notMem split (unregister fd)
    refine requests fd (fun req member => apart req (List.mem_append_right _ member)) ?_
    exact old.absent before rest fd earlier fun req member => apart req (List.mem_append_left _ member)
  · intro before between after fd events split
    rw [history] at split
    obtain ⟨rest, _, earlier⟩ := split_of_notMem split (callback fd events)
    exact old.past before between rest fd events earlier

theorem Quieted.unregister (old : Quieted s)
    (requests : u.system.poller.requests = s.system.poller.requests.erase fd)
    (history : u.history = s.history ++ [.unregister fd]) : Quieted u := by
  refine ⟨?_, ?_⟩
  · intro before after other split apart
    rw [requests]
    by_cases same : other = fd
    · subst other
      exact AList.lookup_erase _ _
    · rw [AList.lookup_erase_ne same]
      rw [history] at split
      obtain ⟨rest, rfl, earlier⟩ := split_of_notMem split (by simpa using same)
      exact old.absent before rest other earlier fun req member => apart req (List.mem_append_left _ member)
  · intro before between after other events split
    rw [history] at split
    obtain ⟨rest, _, earlier⟩ := split_of_notMem split (by simp)
    exact old.past before between rest other events earlier

/-- A request was there, so there was a `Register` since the last `Unregister`. -/
theorem Quieted.deliver (old : Quieted s) {events : UInt32} {found : PollRequest (PollCallback κ)}
    (present : s.system.poller.requests.lookup fd = some found)
    (requests : u.system.poller.requests = s.system.poller.requests.insert fd { found with timeoutMs := -1 })
    (history : u.history = s.history ++ [.callback fd events]) : Quieted u := by
  refine ⟨?_, ?_⟩
  · intro before after other split apart
    rw [history] at split
    obtain ⟨rest, rfl, earlier⟩ := split_of_notMem split (by simp)
    have gone := old.absent before rest other earlier fun req member => apart req (List.mem_append_left _ member)
    have ne : other ≠ fd := by
      intro same
      rw [same, present] at gone
      cases gone
    rw [requests, AList.lookup_insert_ne ne]
    exact gone
  · intro before between after other now split
    rw [history] at split
    rcases snoc_eq_append_cons.mp split with ⟨_, earlier, same⟩ | ⟨rest, _, earlier⟩
    · cases same
      by_contra none
      have gone := old.absent before between fd earlier.symm fun req member same => none ⟨req, member, same⟩
      rw [present] at gone
      cases gone
    · exact old.past before between rest other now earlier

variable [DecidableEq ι] {capacity : Nat} {a : PollerLoopAct κ ι}

theorem Quieted.step (old : Quieted s) (next : s.step capacity a = some u) : Quieted u := by
  cases step_change next with
  | same _ requests _ history =>
    exact old.append (by rw [history, List.append_nil]) (by simp) (by simp) (by simp [requests])
  | register t req requests _ history =>
    refine old.append history (by simp) (by simp) fun fd apart none => ?_
    rwa [requests, AList.lookup_insert_ne (Ne.symm (apart req (by simp)))]
  | unregister t req requests _ history => exact old.unregister requests history
  | countdown interval ready requests _ history =>
    refine old.append history (by simp) (by simp) fun fd _ none => ?_
    rw [requests, Poller.lookup_countdown, none]
    rfl
  | gone fd requests _ history =>
    exact old.append (by rw [history, List.append_nil]) (by simp) (by simp) (by simp [requests])
  | deliver fd events found _ present requests _ history => exact old.deliver present requests history

theorem Funded.step (old : Funded s) (next : s.step capacity a = some u) : Funded u := by
  cases step_change next with
  | same _ requests pending history =>
    refine old.frame (fun fd => ?_) (by simp [history]) (by simp [history])
    have waits : u.waiting fd = s.waiting fd := waiting_congr (by rw [pending])
    have runs : u.running fd = s.running fd := running_congr (by rw [requests])
    omega
  | register t req requests pending history => exact old.register requests pending history
  | unregister t req requests pending history => exact old.unregister requests pending history
  | countdown interval ready requests pending history => exact old.countdown requests pending history
  | gone fd requests pending history => exact old.gone requests pending history
  | deliver fd events found response _ requests pending history =>
    exact old.deliver response requests pending history

/-- In every run a descriptor has at most as many timeouts as calls of `Register` with a
timeout, and no callback between an `Unregister` and the next `Register`. -/
theorem timeouts_fire_once (capacity : Nat) (pipeFd : Int) (acts : List (PollerLoopAct κ ι)) (s : PollerLoop κ ι)
    (reach : run (PollerLoop.step capacity) (PollerLoop.init pipeFd) acts = some s) :
    (∀ fd, s.history.countP (PollerEvent.isTimeout fd) ≤ s.history.countP (PollerEvent.arms fd)) ∧
      Silent s.history := by
  have funded : Funded s := run_invariant (fun _ _ _ old next => old.step next) (.init pipeFd) reach
  have quieted : Quieted s := run_invariant (fun _ _ _ old next => old.step next) (.init pipeFd) reach
  refine ⟨fun fd => ?_, quieted.past⟩
  have balance := funded fd
  omega

/-- The descriptor is unregistered between the countdown section and the delivery. -/
def beforeUnregistered : List (PollerLoopAct Unit Nat) :=
  pass 0 1000000 3000000 ++ [.deliver 3, .read, .read, .unregister 1 (fiveFor 0), .deliver 5]

theorem timeouts_fire_once_beforeUnregistered :
    ∃ s, run (PollerLoop.step 65536) (PollerLoop.init 3) beforeUnregistered = some s ∧
      s.history = [.register (fiveFor 0), .counted 5 2, .callback 3 1, .unregister 5] ∧ Silent s.history := by
  obtain ⟨s, reach, history⟩ : ∃ s, run (PollerLoop.step 65536) (PollerLoop.init 3) beforeUnregistered = some s ∧
      s.history = [.register (fiveFor 0), .counted 5 2, .callback 3 1, .unregister 5] := ⟨_, rfl, by decide⟩
  exact ⟨s, reach, history, (timeouts_fire_once 65536 3 beforeUnregistered s reach).2⟩

end PollerLoop

end ServicesFramework
