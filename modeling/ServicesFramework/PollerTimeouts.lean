import ServicesFramework.PollerSteps

namespace ServicesFramework

namespace PollerEvent

variable {κ : Type*}

/-- How an event changes what is known of the last `Register` of a descriptor: its timeout,
and the intervals of the passes that have counted it. -/
def track (fd : Int) : Option (Int × List Int) → PollerEvent κ → Option (Int × List Int)
  | last, .register req => if req.fd = fd then some (req.timeoutMs, []) else last
  | last, .counted other interval =>
    if other = fd then last.map fun (t, passes) => (t, passes ++ [interval]) else last
  | last, .unregister _ => last
  | last, .callback _ _ => last

end PollerEvent

namespace PollerLoop

open Machine

variable {κ ι : Type*}

/-- The last `Register` of the descriptor: its timeout and the passes that have counted it. -/
def installed (fd : Int) (history : List (PollerEvent κ)) : Option (Int × List Int) :=
  history.foldl (PollerEvent.track fd) none

/-- The passes are enough for the timeout; for the timeout 0 that is one pass. -/
def Waited (t : Int) (passes : List Int) : Prop := if t = 0 then passes ≠ [] else t ≤ passes.sum

/-- A callback that a `Register` with a timeout has installed is called without events only
after the passes that counted this `Register` were enough. -/
def NeverEarly (history : List (PollerEvent κ)) : Prop :=
  ∀ before after fd, history = before ++ .callback fd 0 :: after →
    ∀ t passes, installed fd before = some (t, passes) → 0 ≤ t → Waited t passes

section Histories

variable {history : List (PollerEvent κ)} {fd interval : Int}

theorem installed_snoc (event : PollerEvent κ) :
    installed fd (history ++ [event]) = PollerEvent.track fd (installed fd history) event := by
  simp [installed]

theorem installed_counted_of_notMem {fds : List Int} (absent : fd ∉ fds) :
    installed fd (history ++ fds.map (.counted · interval)) = installed fd history := by
  induction fds using List.reverseRecOn with
  | nil => simp
  | append_singleton fds other ih =>
    obtain ⟨before, last⟩ := not_or.mp (mt List.mem_append.mpr absent)
    have ne : other ≠ fd := fun same => last (by simp [same])
    rw [List.map_append, ← List.append_assoc, List.map_singleton, installed_snoc, ih before]
    simp [PollerEvent.track, ne]

/-- A pass counts a descriptor once. -/
theorem installed_counted {fds : List Int} (nodup : fds.Nodup) (member : fd ∈ fds) :
    installed fd (history ++ fds.map (.counted · interval)) =
      (installed fd history).map fun (t, passes) => (t, passes ++ [interval]) := by
  obtain ⟨before, after, rfl⟩ := List.append_of_mem member
  obtain ⟨_, tail, apart⟩ := List.nodup_append.mp nodup
  have absent : fd ∉ before := fun early => apart fd early fd List.mem_cons_self rfl
  have regroup : history ++ (before ++ fd :: after).map (.counted · interval) =
      (history ++ before.map (.counted · interval) ++ [.counted fd interval]) ++
        after.map (.counted · interval) := by
    simp
  rw [regroup, installed_counted_of_notMem (List.nodup_cons.mp tail).1, installed_snoc,
    installed_counted_of_notMem absent]
  simp [PollerEvent.track]

theorem NeverEarly.append (old : NeverEarly history) {more : List (PollerEvent κ)}
    (quiet : ∀ fd, .callback fd 0 ∉ more) : NeverEarly (history ++ more) := by
  intro before after fd split
  obtain ⟨rest, _, earlier⟩ := split_of_notMem split (quiet fd)
  exact old before rest fd earlier

theorem NeverEarly.callback (old : NeverEarly history) {events : UInt32}
    (waited : events = 0 → ∀ t passes, installed fd history = some (t, passes) → 0 ≤ t → Waited t passes) :
    NeverEarly (history ++ [.callback fd events]) := by
  intro before after other split
  rcases snoc_eq_append_cons.mp split with ⟨_, rfl, same⟩ | ⟨rest, _, earlier⟩
  · cases same
    exact waited rfl
  · exact old before rest other earlier

end Histories

/-- A `Register` with a timeout is made while no timeout of its descriptor is computed and
not yet delivered. -/
def TimeoutFits (s : PollerLoop κ ι) : PollerLoopAct κ ι → Prop
  | .register _ req => 0 ≤ req.timeoutMs → s.pc.pending.lookup req.fd ≠ some 0
  | .unregister _ _ | .notify _ | .write _ | .unlock _ | .handleChanges | .epollCtl _ | .getTimeoutMs
  | .epollWait _ | .epollReturn _ _ | .countdown | .deliver _ | .read => True

instance (s : PollerLoop κ ι) : ∀ a, Decidable (s.TimeoutFits a)
  | .register _ req => inferInstanceAs (Decidable (0 ≤ req.timeoutMs → s.pc.pending.lookup req.fd ≠ some 0))
  | .unregister _ _ | .notify _ | .write _ | .unlock _ | .handleChanges | .epollCtl _ | .getTimeoutMs
  | .epollWait _ | .epollReturn _ _ | .countdown | .deliver _ | .read => isTrue trivial

/-- A running timeout has what is left after the passes that counted it, and a timeout that
waits for its delivery was long enough for the `Register` that is installed. -/
structure Timed (s : PollerLoop κ ι) : Prop where
  armed : ∀ fd req, s.system.poller.requests.lookup fd = some req → 0 ≤ req.timeoutMs →
    ∃ t passes, installed fd s.history = some (t, passes) ∧ req.timeoutMs = t - passes.sum ∧
      (req.timeoutMs = 0 → t = 0)
  pending : ∀ fd, s.pc.pending.lookup fd = some 0 →
    ∀ t passes, installed fd s.history = some (t, passes) → 0 ≤ t → Waited t passes
  past : NeverEarly s.history

theorem lookup_init {pipeFd fd : Int} {req : PollRequest (PollCallback κ)}
    (found : (init pipeFd : PollerLoop κ ι).system.poller.requests.lookup fd = some req) : req.timeoutMs = -1 := by
  simp only [init, PollerSystem.init, Poller.init] at found
  by_cases same : fd = pipeFd
  · subst fd
    rw [AList.lookup_insert] at found
    cases found
    rfl
  · rw [AList.lookup_insert_ne same] at found
    cases found

theorem Timed.init (pipeFd : Int) : Timed (init pipeFd : PollerLoop κ ι) where
  armed fd req found running := by
    rw [lookup_init found] at running
    cases running
  pending fd found := by cases found
  past before after fd split := by simp [PollerLoop.init] at split

section Steps

variable {s u : PollerLoop κ ι} {fd : Int} {req : PollRequest κ}

/-- Steps that start no timeout, make no response without events and count nothing. -/
theorem Timed.frame (old : Timed s)
    (requests : ∀ fd req, u.system.poller.requests.lookup fd = some req → 0 ≤ req.timeoutMs →
      s.system.poller.requests.lookup fd = some req)
    (pending : ∀ fd, u.pc.pending.lookup fd = some 0 → s.pc.pending.lookup fd = some 0)
    (history : ∀ fd, installed fd u.history = installed fd s.history) (past : NeverEarly u.history) : Timed u := by
  refine ⟨?_, ?_, past⟩
  · intro fd req found running
    rw [history]
    exact old.armed fd req (requests fd req found running) running
  · intro fd waiting
    rw [history]
    exact old.pending fd (pending fd waiting)

theorem Timed.register (old : Timed s) (fits : 0 ≤ req.timeoutMs → s.pc.pending.lookup req.fd ≠ some 0)
    (requests : u.system.poller.requests = s.system.poller.requests.insert req.fd req.ofClient)
    (pending : u.pc.pending = s.pc.pending) (history : u.history = s.history ++ [.register req]) : Timed u := by
  refine ⟨?_, ?_, ?_⟩
  · intro fd found lookup running
    rw [requests] at lookup
    rw [history, installed_snoc]
    by_cases same : fd = req.fd
    · subst fd
      rw [AList.lookup_insert] at lookup
      cases lookup
      exact ⟨req.timeoutMs, [], by simp [PollerEvent.track], by simp [PollRequest.ofClient], id⟩
    · rw [AList.lookup_insert_ne same] at lookup
      simpa [PollerEvent.track, Ne.symm same] using old.armed fd found lookup running
  · intro fd waiting t passes last positive
    rw [pending] at waiting
    rw [history, installed_snoc] at last
    by_cases same : req.fd = fd
    · subst fd
      simp only [PollerEvent.track, if_true, Option.some.injEq, Prod.mk.injEq] at last
      rw [← last.1] at positive
      exact absurd waiting (fits positive)
    · simp only [PollerEvent.track, if_neg same] at last
      exact old.pending fd waiting t passes last positive
  · rw [history]
    exact old.past.append (by simp)

theorem Timed.unregister (old : Timed s)
    (requests : u.system.poller.requests = s.system.poller.requests.erase fd)
    (pending : u.pc.pending = s.pc.pending) (history : u.history = s.history ++ [.unregister fd]) : Timed u := by
  refine old.frame ?_ (by simp [pending]) ?_ ?_
  · intro other found lookup _
    rw [requests] at lookup
    exact (lookup_of_erase lookup).2
  · intro other
    rw [history, installed_snoc]
    rfl
  · rw [history]
    exact old.past.append (by simp)

theorem Timed.deliver (old : Timed s) {events : UInt32} {found : PollRequest (PollCallback κ)}
    (response : s.pc.pending.lookup fd = some events)
    (requests : u.system.poller.requests = s.system.poller.requests.insert fd { found with timeoutMs := -1 })
    (pending : u.pc.pending = s.pc.pending.erase fd) (history : u.history = s.history ++ [.callback fd events]) :
    Timed u := by
  refine old.frame ?_ ?_ ?_ ?_
  · intro other there lookup running
    rw [requests] at lookup
    by_cases same : other = fd
    · subst other
      rw [AList.lookup_insert] at lookup
      cases lookup
      cases running
    · rwa [AList.lookup_insert_ne same] at lookup
  · intro other waiting
    rw [pending] at waiting
    exact (lookup_of_erase waiting).2
  · intro other
    rw [history, installed_snoc]
    rfl
  · rw [history]
    refine old.past.callback fun none => ?_
    subst events
    exact old.pending fd response

theorem Timed.gone (old : Timed s) (requests : u.system.poller.requests = s.system.poller.requests)
    (pending : u.pc.pending = s.pc.pending.erase fd) (history : u.history = s.history) : Timed u := by
  refine old.frame (fun _ _ found _ => by rwa [requests] at found) ?_ (by simp [history])
    (by rw [history]; exact old.past)
  intro other waiting
  rw [pending] at waiting
  exact (lookup_of_erase waiting).2

/-- What a pass does to what is known of the descriptors that it counts. -/
theorem installed_pass {interval : Int}
    (history : u.history = s.history ++ s.system.poller.counted.map (.counted · interval))
    (counted : fd ∈ s.system.poller.counted) :
    installed fd u.history = (installed fd s.history).map fun (t, passes) => (t, passes ++ [interval]) := by
  rw [history, installed_counted Poller.counted_nodup counted]

/-- What is passed over keeps its timeout, and what is counted loses the interval. -/
theorem Timed.countdown_armed (old : Timed s) {interval : Int} {req : PollRequest (PollCallback κ)}
    (history : u.history = s.history ++ s.system.poller.counted.map (.counted · interval))
    (found : s.system.poller.requests.lookup fd = some req)
    (running : 0 ≤ (s.system.poller.counting interval req).timeoutMs) :
    ∃ t passes, installed fd u.history = some (t, passes) ∧
      (s.system.poller.counting interval req).timeoutMs = t - passes.sum ∧
      ((s.system.poller.counting interval req).timeoutMs = 0 → t = 0) := by
  unfold Poller.counting at running ⊢
  by_cases skips : s.system.poller.skips req = true
  · rw [if_pos skips] at running ⊢
    have absent : fd ∉ s.system.poller.counted := by
      intro member
      obtain ⟨other, same, counts, _⟩ := Poller.mem_counted.mp member
      cases Option.some.inj (found.symm.trans same)
      rw [skips] at counts
      cases counts
    rw [history, installed_counted_of_notMem absent]
    exact old.armed fd req found running
  · rw [if_neg skips] at running ⊢
    rw [Bool.not_eq_true] at skips
    rcases req.countdown_cases interval with ⟨negative, result⟩ | ⟨_, _, result⟩ | ⟨positive, less, result⟩
    · rw [result] at running
      exact absurd running (not_le.mpr negative)
    · rw [result] at running
      cases running
    · obtain ⟨t, passes, before, left, _⟩ := old.armed fd req found positive.le
      refine ⟨t, passes ++ [interval], ?_, ?_, ?_⟩
      · rw [installed_pass history (Poller.mem_counted.mpr ⟨req, found, skips, positive.le⟩), before]
        rfl
      · simp only [result, List.sum_append, List.sum_singleton]
        omega
      · intro none
        simp only [result] at none
        omega

/-- What is due in a pass has waited. -/
theorem Timed.countdown_due (old : Timed s) {interval : Int}
    (history : u.history = s.history ++ s.system.poller.counted.map (.counted · interval))
    (due : fd ∈ s.system.poller.due interval) {t : Int} {passes : List Int}
    (last : installed fd u.history = some (t, passes)) : Waited t passes := by
  obtain ⟨req, found, skips, due⟩ := Poller.mem_due.mp due
  rcases req.countdown_cases interval with ⟨_, result⟩ | ⟨running, enough, _⟩ | ⟨_, _, result⟩
  · rw [result] at due
    cases due
  · obtain ⟨timeout, earlier, before, left, zero⟩ := old.armed fd req found running
    rw [installed_pass history (Poller.mem_counted.mpr ⟨req, found, skips, running⟩), before] at last
    cases last
    unfold Waited
    split
    · simp
    · rename_i nonzero
      rw [List.sum_append, List.sum_singleton]
      rcases enough with now | enough
      · exact absurd (zero now) nonzero
      · omega
  · rw [result] at due
    cases due

theorem Timed.countdown (old : Timed s) {interval : Int} {ready : ReadyEvents}
    (requests : u.system.poller.requests = (s.system.poller.countdown interval).requests)
    (pending : u.pc.pending = s.system.poller.responses interval ready)
    (history : u.history = s.history ++ s.system.poller.counted.map (.counted · interval)) : Timed u := by
  refine ⟨?_, ?_, ?_⟩
  · intro fd after lookup running
    rw [requests, Poller.lookup_countdown] at lookup
    obtain ⟨req, found, rfl⟩ := Option.map_eq_some_iff.mp lookup
    exact old.countdown_armed history found running
  · intro fd waiting t passes last _
    rw [pending] at waiting
    exact old.countdown_due history (Poller.due_of_responses waiting) last
  · rw [history]
    exact old.past.append (by simp)

variable [DecidableEq ι] {capacity : Nat} {a : PollerLoopAct κ ι}

theorem Timed.step (old : Timed s) (fits : s.TimeoutFits a) (next : s.step capacity a = some u) : Timed u := by
  cases step_change next with
  | same _ requests pending history =>
    exact old.frame (fun _ _ found _ => by rwa [requests] at found) (by simp [pending]) (by simp [history])
      (by rw [history]; exact old.past)
  | register t req requests pending history => exact old.register fits requests pending history
  | unregister t req requests pending history => exact old.unregister requests pending history
  | countdown interval ready requests pending history => exact old.countdown requests pending history
  | gone fd requests pending history => exact old.gone requests pending history
  | deliver fd events found response _ requests pending history =>
    exact old.deliver response requests pending history

end Steps

theorem not_waited_nil {t : Int} (positive : 0 ≤ t) : ¬ Waited t [] := by
  unfold Waited
  split
  · simp
  · rename_i nonzero
    rw [List.sum_nil]
    omega

/-- A `Register` that does not fit is followed by an early timeout, when the delivery comes
next. -/
theorem register_early [DecidableEq ι] {capacity : Nat} {s u : PollerLoop κ ι} {t : ι} {req : PollRequest κ}
    (next : s.step capacity (.register t req) = some u) (unfit : ¬ s.TimeoutFits (.register t req)) :
    ∃ v, u.step capacity (.deliver req.fd) = some v ∧ ¬ NeverEarly v.history := by
  simp only [TimeoutFits, Classical.not_imp, not_not] at unfit
  obtain ⟨positive, computed⟩ := unfit
  cases register_effect next with
  | register _ _ ctrlParams free =>
    cases atPc : s.pc with
    | respond responses =>
      rw [atPc] at computed
      have found : responses.lookup req.fd = some 0 := computed
      refine ⟨_, by simp only [step, setCaller, atPc, found, Option.map_some]; rfl, ?_⟩
      intro never
      have early := never (s.history ++ [.register req]) [] req.fd (by simp [deliver]) req.timeoutMs []
        (by simp [installed_snoc, PollerEvent.track]) positive
      exact not_waited_nil positive early
    | drain => simp [atPc, PollerPc.locks] at free
    | handleChanges | epollCtl | getTimeoutMs | poll | epollWait | countdown =>
      simp [atPc, PollerPc.pending] at computed

/-- In every run whose `Register` calls with a timeout are made while no timeout of the
descriptor is computed and undelivered, no timeout is early. Any other such call can be
followed by one that is. -/
theorem timeout_never_early [DecidableEq ι] (capacity : Nat) (pipeFd : Int) (acts : List (PollerLoopAct κ ι))
    (s : PollerLoop κ ι) (reach : run (step capacity) (init pipeFd) acts = some s) :
    (Along (step capacity) TimeoutFits (init pipeFd) acts → NeverEarly s.history) ∧
      ∀ t req u, s.step capacity (.register t req) = some u → ¬ s.TimeoutFits (.register t req) →
        ∃ v, u.step capacity (.deliver req.fd) = some v ∧ ¬ NeverEarly v.history := by
  refine ⟨fun fits => ?_, fun _ _ _ next unfit => register_early next unfit⟩
  have timed : Timed s :=
    run_invariant_along (fun _ _ _ old fits next => old.step fits next) (.init pipeFd) fits reach
  exact timed.past

/-- Descriptor 5, as a client of a poller with its pipe at descriptor 3. -/
def fiveFor (timeoutMs : Int) : PollRequest Unit := ⟨5, 0x001, timeoutMs, some ()⟩

/-- One call, and the loop up to the end of its countdown section, in a pass that the byte of
the call ends. -/
def pass (timeoutMs : Int) (before after : UInt64) : List (PollerLoopAct Unit Nat) :=
  [.register 0 (fiveFor timeoutMs), .notify 0, .write 0, .unlock 0,
    .handleChanges, .epollCtl 5, .epollCtl 3, .getTimeoutMs, .epollWait before,
    .epollReturn after (.input 3), .countdown]

/-- The next call comes after the delivery. -/
def afterDelivery : List (PollerLoopAct Unit Nat) :=
  pass 2 1000000 3000000 ++ [.deliver 5, .deliver 3, .read, .read, .register 0 (fiveFor 50)]

/-- The next call comes before the delivery, from another thread. -/
def beforeDelivery : List (PollerLoopAct Unit Nat) :=
  pass 0 1000000 3000000 ++ [.register 1 (fiveFor 50), .deliver 5]

theorem timeout_never_early_afterDelivery :
    ∃ s, run (step 65536) (init 3) afterDelivery = some s ∧ NeverEarly s.history ∧
      s.history = [.register (fiveFor 2), .counted 5 2, .callback 5 0, .callback 3 1, .register (fiveFor 50)] := by
  obtain ⟨s, reach, history⟩ : ∃ s, run (step 65536) (init 3) afterDelivery = some s ∧
      s.history = [.register (fiveFor 2), .counted 5 2, .callback 5 0, .callback 3 1, .register (fiveFor 50)] :=
    ⟨_, rfl, by decide⟩
  exact ⟨s, reach, (timeout_never_early 65536 3 afterDelivery s reach).1 (by decide), history⟩

/-- The readings of the clock, in order. -/
def readings (acts : List (PollerLoopAct κ ι)) : List UInt64 :=
  acts.filterMap fun
    | .epollWait before => some before
    | .epollReturn after _ => some after
    | _ => none

/-- The timeout of the first call reaches the callback of the second. -/
theorem timeout_early_beforeDelivery :
    ¬ ∀ (capacity : Nat) (pipeFd : Int) (acts : List (PollerLoopAct Unit Nat)) (s : PollerLoop Unit Nat),
      (readings acts).Pairwise (· ≤ ·) → run (step capacity) (init pipeFd) acts = some s →
      NeverEarly s.history := by
  intro claim
  obtain ⟨s, reach, history⟩ : ∃ s, run (step 65536) (init 3) beforeDelivery = some s ∧
      s.history = [.register (fiveFor 0), .counted 5 2, .register (fiveFor 50)] ++ [.callback 5 0] :=
    ⟨_, rfl, by decide⟩
  have early : Waited 50 [] :=
    claim 65536 3 beforeDelivery s (by decide) reach _ [] 5 history 50 [] rfl (by decide)
  exact absurd early (by simp [Waited])

end PollerLoop

end ServicesFramework
