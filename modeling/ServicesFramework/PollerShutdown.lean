import ServicesFramework.Lib.Potential
import ServicesFramework.PollerService

namespace ServicesFramework

/-- A callback of the descriptor is called. -/
def PollerEvent.calls {κ : Type*} (fd : Int) : PollerEvent κ → Bool
  | .callback other _ => other = fd
  | .register _ | .unregister _ | .counted _ _ => false

/-- The thread has still to compute the responses of its pass. -/
def PollerPc.counts : PollerPc → Bool
  | .handleChanges | .epollCtl | .getTimeoutMs | .poll _ | .epollWait _ _ | .countdown _ _ => true
  | .respond _ | .drain _ => false

namespace PollerService

variable {κ ι : Type*} [DecidableEq ι] {capacity : Nat} {s u v : PollerService κ ι} {a : PollerServiceAct κ ι}

/-- The locked section of a call: it does not move the poller thread, and it adds one event. -/
theorem act_frame {loop next : PollerLoop κ ι} {t : ι} {call : PollerCall κ}
    (stepped : loop.step capacity (call.act t) = some next) :
    next.pc = loop.pc ∧ next.history = loop.history ++ [call.event] := by
  cases call with
  | register req =>
    cases PollerLoop.step_effect stepped
    exact ⟨rfl, rfl⟩
  | unregister req =>
    cases PollerLoop.step_effect stepped
    exact ⟨rfl, rfl⟩

theorem act_requests {loop next : PollerLoop κ ι} {t : ι} {call : PollerCall κ}
    (stepped : loop.step capacity (call.act t) = some next) {fd : Int} {req : PollRequest (PollCallback κ)}
    (found : next.system.poller.requests.lookup fd = some req) :
    loop.system.poller.requests.lookup fd = some req ∨ ∃ r, call = .register r ∧ r.fd = fd ∧ req = r.ofClient := by
  cases call with
  | register r =>
    cases PollerLoop.step_effect stepped
    by_cases same : fd = r.fd
    · subst fd
      rw [AList.lookup_insert] at found
      exact .inr ⟨r, rfl, rfl, (Option.some.inj found).symm⟩
    · rw [AList.lookup_insert_ne same] at found
      exact .inl found
  | unregister r =>
    cases PollerLoop.step_effect stepped
    exact .inl (lookup_of_erase found).2

/-- Once joined, the poller thread is at its end. -/
def Joined (s : PollerService κ ι) : Prop := s.closer.afterJoin = true → s.thread = .out

theorem Effect.joined (effect : Effect capacity s a u) (old : s.Joined) : u.Joined := by
  cases effect with
  | refused | call | missing | enter | caller | lost => exact old
  | test head =>
    intro after
    have out := old after
    rw [head] at out
    cases out
  | poller b loop body own next =>
    intro after
    have out := old after
    rw [body] at out
    cases out
  | shutdown first =>
    intro after
    cases after
  | join waits out => exact fun _ => out
  | closeFds joined => exact fun _ => old (by rw [joined]; rfl)
  | clear closed => exact fun _ => old (by rw [closed]; rfl)

theorem Effect.isShutdown (effect : Effect capacity s a u) (shut : s.isShutdown = true) : u.isShutdown = true := by
  cases effect with
  | refused | call | missing | enter | caller | lost | test | poller | join | closeFds | clear => exact shut
  | shutdown => rfl

/-- No call gets past the test once the flag is set. -/
theorem Effect.entering (effect : Effect capacity s a u) (shut : s.isShutdown = true) (t : ι) :
    u.entering t = none ∨ u.entering t = s.entering t := by
  cases effect with
  | refused | caller | lost | test | poller | shutdown | join | closeFds | clear => exact .inr rfl
  | call t call running =>
    rw [shut] at running
    cases running
  | missing other call there | enter other call loop there next =>
    by_cases same : t = other
    · exact .inl (by rw [same]; exact Function.update_self ..)
    · exact .inr (Function.update_of_ne same ..)

/-- What there is after `Clear`, when `waiting` are the calls that were past the test when the
flag was set, and `history` is the history at the end of `Clear`. -/
structure Final (waiting : ι → Option (PollerCall κ)) (history : List (PollerEvent κ)) (u : PollerService κ ι) : Prop where
  shut : u.isShutdown = true
  cleared : u.closer = .cleared
  out : u.thread = .out
  entering : ∀ t, u.entering t = none ∨ u.entering t = waiting t
  silent : ∃ new, u.loop.history = history ++ new ∧ ∀ event ∈ new, ∃ t call, waiting t = some call ∧ event = call.event
  requests : ∀ fd req, u.loop.system.poller.requests.lookup fd = some req →
    ∃ t r, waiting t = some (.register r) ∧ r.fd = fd ∧ req = r.ofClient

omit [DecidableEq ι] in
theorem Final.waiting {waiting : ι → Option (PollerCall κ)} {history : List (PollerEvent κ)} {t : ι}
    {call : PollerCall κ} (final : Final waiting history s) (there : s.entering t = some call) : waiting t = some call := by
  rcases final.entering t with none | same
  · rw [none] at there
    cases there
  · rw [← same]
    exact there

theorem Final.step {waiting : ι → Option (PollerCall κ)} {history : List (PollerEvent κ)}
    (final : Final waiting history s) (next : s.step capacity a = some u) : Final waiting history u := by
  have effect := step_effect next
  have entering : ∀ t, u.entering t = none ∨ u.entering t = waiting t := by
    intro t
    rcases effect.entering final.shut t with gone | same
    · exact .inl gone
    · rw [same]
      exact final.entering t
  cases effect with
  | refused => exact final
  | call t call running =>
    rw [final.shut] at running
    cases running
  | missing t call there => exact ⟨final.shut, final.cleared, final.out, entering, final.silent, final.requests⟩
  | enter t call loop there stepped =>
    have past := final.waiting there
    refine ⟨final.shut, final.cleared, final.out, entering, ?_, ?_⟩
    · obtain ⟨new, old, calls⟩ := final.silent
      refine ⟨new ++ [call.event], by rw [(act_frame stepped).2, old, List.append_assoc], ?_⟩
      intro event member
      rcases List.mem_append.mp member with early | late
      · exact calls event early
      · exact ⟨t, call, past, List.mem_singleton.mp late⟩
    · intro fd req found
      rcases act_requests stepped found with before | ⟨r, rfl, own, same⟩
      · exact final.requests fd req before
      · exact ⟨t, r, past, own, same⟩
  | lost t closed => exact ⟨final.shut, final.cleared, final.out, entering, final.silent, final.requests⟩
  | caller t a b loop quiet own stepped =>
    obtain ⟨pc, system, old⟩ := notifying_frame own stepped
    refine ⟨final.shut, final.cleared, final.out, entering, ?_, ?_⟩
    · rw [old]
      exact final.silent
    · rw [system]
      exact final.requests
  | test head =>
    rw [final.out] at head
    cases head
  | poller b loop body own stepped =>
    rw [final.out] at body
    cases body
  | shutdown first =>
    rw [final.shut] at first
    cases first
  | join waits out =>
    rw [final.cleared] at waits
    cases waits
  | closeFds joined =>
    rw [final.cleared] at joined
    cases joined
  | clear closed =>
    rw [final.cleared] at closed
    cases closed

/-- A pass that will come to its `epoll_wait`. -/
def waitsLeft (s : PollerService κ ι) : Nat :=
  match s.thread, s.loop.pc with
  | .body, .handleChanges | .body, .epollCtl | .body, .getTimeoutMs | .body, .poll _ => 1
  | _, _ => 0

/-- A callback that the pass will call, or may still find to be called. -/
def chances (fd : Int) (s : PollerService κ ι) : Nat :=
  match s.thread with
  | .test | .out => 0
  | .body => if s.loop.pc.counts then 1 else if (s.loop.pc.pending.lookup fd).isSome then 1 else 0

omit [DecidableEq ι] in
theorem chances_le (fd : Int) (s : PollerService κ ι) : s.chances fd ≤ 1 := by
  unfold chances
  split
  · exact Nat.zero_le 1
  · exact Nat.zero_le 1
  · split_ifs <;> omega

omit [DecidableEq ι] in
theorem waitsLeft_le (s : PollerService κ ι) : s.waitsLeft ≤ 1 := by
  unfold waitsLeft
  split <;> omega

omit [DecidableEq ι] in
theorem waitsLeft_turned {loop : PollerLoop κ ι} (swaps : loop.pc.willSwap = true) : (s.turned loop).waitsLeft = 0 := by
  unfold waitsLeft turned
  cases atPc : loop.pc <;> simp_all [PollerPc.willSwap]

omit [DecidableEq ι] in
/-- The pass goes on with the responses that are left, or is over. -/
theorem chances_after {loop : PollerLoop κ ι} {responses : ResponseMap} (fd : Int)
    (goes : loop.pc = .drain responses ∨ loop.pc = .after responses) :
    (s.turned loop).chances fd ≤ if (responses.lookup fd).isSome then 1 else 0 := by
  rcases goes with drains | goes
  · simp [chances, turned, drains, PollerPc.counts, PollerPc.pending]
  · unfold PollerPc.after at goes
    split_ifs at goes with empty
    · simp [chances, turned, goes]
    · simp [chances, turned, goes, PollerPc.counts, PollerPc.pending]

theorem poller_waits {b : PollerLoopAct κ ι} {loop : PollerLoop κ ι} (body : s.thread = .body)
    (own : b.ofPoller = true) (next : s.loop.step capacity b = some loop) :
    (s.turned loop).waitsLeft + (if b.waits then 1 else 0) ≤ s.waitsLeft := by
  cases PollerLoop.step_effect next with
  | register | unregister | skip | lock | write | unlock => cases own
  | unchanged atPc empty => simp [waitsLeft, turned, body, atPc, PollerLoopAct.waits]
  | swap atPc => simp [waitsLeft, turned, body, atPc, PollerLoopAct.waits]
  | epollCtl fd localParams interest pc atPc after =>
    rcases after with rfl | rfl <;> simp [waitsLeft, turned, body, atPc, PollerLoopAct.waits]
  | getTimeoutMs atPc => simp [waitsLeft, turned, body, atPc, PollerLoopAct.waits]
  | epollWait timeoutMs before atPc => simp [waitsLeft, turned, body, atPc, PollerLoopAct.waits]
  | epollReturn timeoutMs before after ready atPc => simp [waitsLeft, turned, PollerLoopAct.waits]
  | countdown interval ready atPc =>
    rw [waitsLeft_turned (PollerPc.willSwap_after _)]
    exact Nat.zero_le _
  | gone fd events responses atPc found missing =>
    rw [waitsLeft_turned (PollerPc.willSwap_after _)]
    exact Nat.zero_le _
  | deliver fd events responses req pc atPc found present pending swaps =>
    rw [waitsLeft_turned swaps]
    exact Nat.zero_le _
  | read responses atPc =>
    rw [waitsLeft_turned (by simp [atPc, PollerPc.willSwap])]
    exact Nat.zero_le _
  | drained responses atPc =>
    rw [waitsLeft_turned (PollerPc.willSwap_after _)]
    exact Nat.zero_le _

omit [DecidableEq ι] in
theorem waitsLeft_congr (thread : u.thread = s.thread) (pc : u.loop.pc = s.loop.pc) : u.waitsLeft = s.waitsLeft := by
  unfold waitsLeft
  rw [thread, pc]

omit [DecidableEq ι] in
theorem chances_congr (fd : Int) (thread : u.thread = s.thread) (pc : u.loop.pc = s.loop.pc) :
    u.chances fd = s.chances fd := by
  unfold chances
  rw [thread, pc]

/-- After the flag, what is left of the pass has at most one `epoll_wait`. -/
theorem Effect.waits (effect : Effect capacity s a u) (shut : s.isShutdown = true) :
    u.waitsLeft + (if a.waits then 1 else 0) ≤ s.waitsLeft := by
  cases effect with
  | refused _ quiet => simp [quiet]
  | call | missing | lost | shutdown | join | closeFds | clear => exact le_rfl
  | enter t call loop there next =>
    have same : waitsLeft { s with loop := loop, entering := Function.update s.entering t none } = s.waitsLeft :=
      waitsLeft_congr rfl (act_frame next).1
    exact same.le
  | caller t _ b loop quiet own next =>
    have same : waitsLeft { s with loop := loop } = s.waitsLeft := waitsLeft_congr rfl (notifying_frame own next).1
    rw [quiet]
    exact same.le
  | test head => simp [waitsLeft, shut, PollerServiceAct.waits]
  | poller b loop body own next => exact poller_waits body own next

theorem filter_calls_counted (fd interval : Int) (fds : List Int) :
    (fds.map (.counted · interval) : List (PollerEvent κ)).filter (PollerEvent.calls fd) = [] := by
  rw [List.filter_eq_nil_iff]
  intro event member
  obtain ⟨other, _, rfl⟩ := List.mem_map.mp member
  simp [PollerEvent.calls]

/-- A delivery uses up the response of its descriptor. -/
theorem deliver_calls {loop : PollerLoop κ ι} (fd other : Int) (body : s.thread = .body)
    (next : s.loop.step capacity (.deliver other) = some loop) :
    ∃ new, loop.history.filter (PollerEvent.calls fd) = s.loop.history.filter (PollerEvent.calls fd) ++ new ∧
      new.length + (s.turned loop).chances fd ≤ s.chances fd := by
  obtain ⟨responses, atPc, _, goes⟩ := PollerLoop.deliver_pc next
  have rest : (s.turned loop).chances fd ≤ _ := chances_after fd goes
  have before : s.chances fd = if (responses.lookup fd).isSome then 1 else 0 := by
    simp [chances, body, atPc, PollerPc.counts, PollerPc.pending]
  have fewer : fd ≠ other → (s.turned loop).chances fd ≤ s.chances fd := by
    intro ne
    rwa [AList.lookup_erase_ne ne, ← before] at rest
  have spent : fd = other → (s.turned loop).chances fd = 0 := by
    intro same
    rw [same, AList.lookup_erase] at rest
    rw [same]
    exact Nat.le_zero.mp rest
  cases PollerLoop.step_effect next with
  | gone _ events found atPc' there missing =>
    refine ⟨[], by simp, ?_⟩
    by_cases same : fd = other
    · rw [spent same]
      exact Nat.zero_le _
    · simpa using fewer same
  | deliver _ events found req pc atPc' there present pending swaps =>
    cases atPc.symm.trans atPc'
    by_cases same : fd = other
    · refine ⟨[.callback other events], by simp [PollerEvent.calls, same], ?_⟩
      rw [spent same, before, same, there]
      exact le_rfl
    · refine ⟨[], by simp [PollerEvent.calls, Ne.symm same], ?_⟩
      simpa using fewer same

theorem poller_calls {b : PollerLoopAct κ ι} {loop : PollerLoop κ ι} (fd : Int) (body : s.thread = .body)
    (own : b.ofPoller = true) (next : s.loop.step capacity b = some loop) :
    ∃ new, loop.history.filter (PollerEvent.calls fd) = s.loop.history.filter (PollerEvent.calls fd) ++ new ∧
      new.length + (s.turned loop).chances fd ≤ s.chances fd := by
  have bound := (s.turned loop).chances_le fd
  have effect := PollerLoop.step_effect next
  cases effect with
  | register | unregister | skip | lock | write | unlock => cases own
  | gone | deliver => exact deliver_calls fd _ body next
  | unchanged atPc | swap atPc | epollCtl _ _ _ _ atPc | getTimeoutMs atPc | epollWait _ _ atPc
  | epollReturn _ _ _ _ atPc =>
    refine ⟨[], by simp, ?_⟩
    have room : s.chances fd = 1 := by simp [chances, body, atPc, PollerPc.counts]
    rw [room]
    simpa using bound
  | countdown interval ready atPc =>
    refine ⟨[], ?_, ?_⟩
    · rw [List.filter_append, filter_calls_counted]
    · have room : s.chances fd = 1 := by simp [chances, body, atPc, PollerPc.counts]
      rw [room]
      simpa using bound
  | read responses atPc =>
    refine ⟨[], by simp, ?_⟩
    have same : (s.turned { s.loop with pipe := s.loop.pipe - 1 }).chances fd = s.chances fd :=
      chances_congr fd (by simp [turned, atPc, body]) rfl
    simp [same]
  | drained responses atPc =>
    refine ⟨[], by simp, ?_⟩
    have rest : (s.turned { s.loop with pc := .after responses }).chances fd ≤ _ := chances_after fd (.inr rfl)
    have before : s.chances fd = if (responses.lookup fd).isSome then 1 else 0 := by
      simp [chances, body, atPc, PollerPc.counts, PollerPc.pending]
    rw [before]
    simpa using rest

theorem Effect.calls (effect : Effect capacity s a u) (shut : s.isShutdown = true) (fd : Int) :
    ∃ new, u.loop.history.filter (PollerEvent.calls fd) = s.loop.history.filter (PollerEvent.calls fd) ++ new ∧
      new.length + u.chances fd ≤ s.chances fd := by
  cases effect with
  | refused | call | missing | lost | shutdown | join | closeFds | clear =>
    exact ⟨[], (List.append_nil _).symm, (Nat.zero_add _).le⟩
  | enter t call loop there next =>
    obtain ⟨pc, history⟩ := act_frame next
    have same : chances fd { s with loop := loop, entering := Function.update s.entering t none } = s.chances fd :=
      chances_congr fd rfl pc
    refine ⟨[], ?_, by simp [same]⟩
    cases call <;> simp [history, PollerCall.event, PollerEvent.calls]
  | caller t _ b loop quiet own next =>
    obtain ⟨pc, _, history⟩ := notifying_frame own next
    have same : chances fd { s with loop := loop } = s.chances fd := chances_congr fd rfl pc
    exact ⟨[], by simp [history], by simp [same]⟩
  | test head => exact ⟨[], by simp, by simp [chances, shut]⟩
  | poller b loop body own next => exact poller_calls fd body own next

theorem Effect.sane (effect : Effect capacity s a u) (old : s.loop.Sane) : u.loop.Sane := by
  cases effect with
  | refused | call | missing | test | shutdown | join | closeFds => exact old
  | enter t call loop there next => exact old.step next
  | caller t _ b loop quiet own next => exact old.step next
  | lost t closed => exact old.congr rfl rfl
  | poller b loop body own next => exact old.step next
  | clear closed => exact old.congr rfl rfl

/-- `Shutdown` ends the polling: in every run after it has set the flag there is at most one
more `epoll_wait`, and the callback of each descriptor is called at most once more. Until the
thread is at its end it always has a next step, unless its countdown overflows. -/
theorem shutdown_ends_polling (capacity : Nat) (pipeFd : Int) (before after : List (PollerServiceAct κ ι))
    (s u : PollerService κ ι) (reach : Machine.run (step capacity) (init pipeFd) before = some s)
    (shut : s.isShutdown = true) (later : Machine.run (step capacity) s after = some u) :
    after.countP PollerServiceAct.waits ≤ 1 ∧
      (∀ fd, ∃ new, u.loop.history.filter (PollerEvent.calls fd) =
        s.loop.history.filter (PollerEvent.calls fd) ++ new ∧ new.length ≤ 1) ∧
      (u.thread = .out ∨ (u.step capacity .test).isSome ∨ (∃ a, (u.step capacity (.poller a)).isSome) ∨
        ∃ interval ready, u.loop.pc = .countdown interval ready ∧ ¬ u.loop.system.poller.CountdownFits interval) := by
  have keep : ∀ (v : PollerService κ ι) a w, v.isShutdown = true → v.step capacity a = some w → w.isShutdown = true :=
    fun _ _ _ old next => (step_effect next).isShutdown old
  have waits := Machine.run_budget keep waitsLeft PollerServiceAct.waits (fun _ => 0)
    (fun _ _ _ old next => (step_effect next).waits old) shut later
  have one := s.waitsLeft_le
  refine ⟨?_, ?_, ?_⟩
  · simp only [List.map_const', List.sum_replicate, smul_zero] at waits
    omega
  · intro fd
    obtain ⟨new, added, few⟩ := Machine.run_log_budget keep (fun v => v.loop.history.filter (PollerEvent.calls fd))
      (chances fd) (fun _ _ _ old next => (step_effect next).calls old fd) shut later
    have bound := s.chances_le fd
    exact ⟨new, added, by omega⟩
  · have sane : u.loop.Sane := by
      have start : s.loop.Sane :=
        Machine.run_invariant (I := fun v => v.loop.Sane) (fun _ _ _ old next => (step_effect next).sane old) rfl reach
      exact Machine.run_invariant (I := fun v => v.loop.Sane) (fun _ _ _ old next => (step_effect next).sane old) start later
    cases thread : u.thread with
    | out => exact .inl rfl
    | test => exact .inr (.inl (by simp [step, thread]))
    | body =>
      rcases sane.enabled capacity with ⟨a, own, goes⟩ | overflow
      · exact .inr (.inr (.inl ⟨a, by simpa [step, thread, own] using goes⟩))
      · exact .inr (.inr (.inr overflow))

/-- `Shutdown` is final: once it has cleared the maps, the poller thread takes no step and no
callback is called any more, and the maps only ever hold what calls put there that were
past their test of the flag when it was set. -/
theorem shutdown_is_final (capacity : Nat) (pipeFd : Int) (before during after : List (PollerServiceAct κ ι))
    (s v u : PollerService κ ι) (reach : Machine.run (step capacity) (init pipeFd) before = some s)
    (shut : s.isShutdown = true) (cleared : Machine.run (step capacity) s (during ++ [.clear]) = some v)
    (later : Machine.run (step capacity) v after = some u) :
    u.thread = .out ∧ (∀ t, u.entering t = none ∨ u.entering t = s.entering t) ∧
      (∃ new, u.loop.history = v.loop.history ++ new ∧
        ∀ event ∈ new, ∃ t call, s.entering t = some call ∧ event = call.event) ∧
      (∀ fd req, u.loop.system.poller.requests.lookup fd = some req →
        ∃ t r, s.entering t = some (.register r) ∧ r.fd = fd ∧ req = r.ofClient) := by
  obtain ⟨w, ran, last⟩ := Machine.run_snoc.mp cleared
  have joined : w.Joined := by
    refine Machine.run_invariant (fun _ _ _ old next => (step_effect next).joined old) ?_ ran
    refine Machine.run_invariant (fun _ _ _ old next => (step_effect next).joined old) ?_ reach
    intro after
    cases after
  have closing : w.isShutdown = true ∧ ∀ t, w.entering t = none ∨ w.entering t = s.entering t := by
    refine Machine.run_invariant (I := fun w => w.isShutdown = true ∧ ∀ t, w.entering t = none ∨
      w.entering t = s.entering t) ?_ ⟨shut, fun _ => .inr rfl⟩ ran
    intro x a y old next
    refine ⟨(step_effect next).isShutdown old.1, fun t => ?_⟩
    rcases (step_effect next).entering old.1 t with gone | same
    · exact .inl gone
    · rw [same]
      exact old.2 t
  obtain ⟨⟨closed, _⟩, result⟩ := Option.ite_none_right_eq_some.mp last
  cases Option.some.inj result
  have start : Final s.entering w.clear.loop.history w.clear := by
    refine ⟨closing.1, rfl, joined (by rw [closed]; rfl), closing.2, ⟨[], by simp, by simp⟩, ?_⟩
    intro fd req found
    cases found
  have final : Final s.entering w.clear.loop.history u :=
    Machine.run_invariant (fun _ _ _ old next => old.step next) start later
  exact ⟨final.out, final.entering, final.silent, final.requests⟩

/-- A call has passed its test of the flag when `Shutdown` sets it. -/
def lateRegister : List (PollerServiceAct Unit Nat) := [.call 0 (.register ⟨5, 1, 40, some ()⟩), .test, .shutdown]

/-- The rest of the pass, and the rest of `Shutdown`. -/
def lastPass : List (PollerServiceAct Unit Nat) :=
  [.poller .handleChanges, .poller (.epollCtl 3), .poller .getTimeoutMs, .poller (.epollWait 0),
    .poller (.epollReturn 1000000 ⟨[], by simp⟩), .poller .countdown, .test, .join, .closeFds]

theorem shutdown_ends_polling_late_register :
    ∃ s u, Machine.run (step 65536) (init 3) lateRegister = some s ∧ Machine.run (step 65536) s lastPass = some u ∧
      u.thread = .out ∧ lastPass.countP PollerServiceAct.waits ≤ 1 := by
  obtain ⟨s, u, reach, shut, later, out⟩ : ∃ s u, Machine.run (step 65536) (init 3) lateRegister = some s ∧
      s.isShutdown = true ∧ Machine.run (step 65536) s lastPass = some u ∧ u.thread = .out :=
    ⟨_, _, rfl, rfl, rfl, rfl⟩
  exact ⟨s, u, reach, later, out, (shutdown_ends_polling 65536 3 lateRegister lastPass s u reach shut later).1⟩

/-- `Register` returns `true` here, and its request stays for ever without being served. -/
theorem shutdown_is_final_late_register :
    ∃ s v u, Machine.run (step 65536) (init 3) lateRegister = some s ∧
      Machine.run (step 65536) s (lastPass ++ [.clear]) = some v ∧
      Machine.run (step 65536) v [.enter 0, .notify 0, .write 0, .unlock 0] = some u ∧
      (u.loop.system.poller.requests.lookup 5).isSome ∧ u.thread = .out := by
  obtain ⟨s, v, u, reach, shut, cleared, later, left⟩ : ∃ s v u,
      Machine.run (step 65536) (init 3) lateRegister = some s ∧ s.isShutdown = true ∧
      Machine.run (step 65536) s (lastPass ++ [.clear]) = some v ∧
      Machine.run (step 65536) v [.enter 0, .notify 0, .write 0, .unlock 0] = some u ∧
      (u.loop.system.poller.requests.lookup 5).isSome := ⟨_, _, _, rfl, rfl, rfl, rfl, rfl⟩
  exact ⟨s, v, u, reach, cleared, later, left,
    (shutdown_is_final 65536 3 lateRegister lastPass _ s v u reach shut cleared later).1⟩

end PollerService

end ServicesFramework
