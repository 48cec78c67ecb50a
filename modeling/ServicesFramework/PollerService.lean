import ServicesFramework.Lib.Loop
import ServicesFramework.PollerSteps

namespace ServicesFramework

/-- The steps of the poller thread. -/
def PollerLoopAct.ofPoller {κ ι : Type*} : PollerLoopAct κ ι → Bool
  | .register _ _ | .unregister _ _ | .notify _ | .write _ | .unlock _ => false
  | .handleChanges | .epollCtl _ | .getTimeoutMs | .epollWait _ | .epollReturn _ _ | .countdown | .deliver _
  | .read => true

def PollerLoopAct.waits {κ ι : Type*} : PollerLoopAct κ ι → Bool
  | .epollWait _ => true
  | .register _ _ | .unregister _ _ | .notify _ | .write _ | .unlock _ | .handleChanges | .epollCtl _ | .getTimeoutMs
  | .epollReturn _ _ | .countdown | .deliver _ | .read => false

namespace PollerLoop

variable {κ ι : Type*}

/-- The loops of the poller thread are left when they have nothing left to do. -/
def Sane (s : PollerLoop κ ι) : Prop :=
  match s.pc with
  | .epollCtl => s.system.localParams.keys ≠ []
  | .respond responses => responses.keys ≠ [] ∧ s.system.localParams.keys = []
  | .handleChanges | .getTimeoutMs | .poll _ | .epollWait _ _ | .countdown _ _ | .drain _ =>
    s.system.localParams.keys = []

variable {s u : PollerLoop κ ι}

theorem Sane.congr (old : s.Sane) (pc : u.pc = s.pc) (params : u.system.localParams = s.system.localParams) :
    u.Sane := by
  unfold Sane
  rw [pc, params]
  exact old

theorem Sane.after {responses : ResponseMap} (pc : u.pc = .after responses)
    (done : u.system.localParams.keys = []) : u.Sane := by
  unfold Sane
  rw [pc]
  unfold PollerPc.after
  split_ifs with empty
  · exact done
  · exact ⟨empty, done⟩

variable [DecidableEq ι] {capacity : Nat} {a : PollerLoopAct κ ι}

/-- A response is delivered, and the thread goes on to the others or drains the pipe first. -/
theorem deliver_pc {fd : Int} (next : s.step capacity (.deliver fd) = some u) :
    ∃ responses, s.pc = .respond responses ∧ u.system.localParams = s.system.localParams ∧
      (u.pc = .drain (responses.erase fd) ∨ u.pc = .after (responses.erase fd)) := by
  simp only [step] at next
  split at next
  · rename_i responses atPc
    obtain ⟨events, _, rfl⟩ := Option.map_eq_some_iff.mp next
    refine ⟨responses, atPc, ?_⟩
    unfold deliver
    split
    · exact ⟨rfl, .inr rfl⟩
    · refine ⟨rfl, ?_⟩
      split
      · exact .inl rfl
      · exact .inr rfl
  · cases next

theorem handleChanges_sane (next : s.step capacity .handleChanges = some u) (old : s.Sane) : u.Sane := by
  simp only [step] at next
  split at next
  · rename_i atPc
    rw [Sane, atPc] at old
    unfold handleChanges at next
    split_ifs at next with empty
    · cases Option.some.inj next
      exact old
    · obtain ⟨system, swapped, rfl⟩ := Option.map_eq_some_iff.mp next
      simp only [PollerSystem.step, old, if_true, Option.some.injEq] at swapped
      subst swapped
      exact empty
  · cases next

theorem epollCtl_sane {fd : Int} (next : s.step capacity (.epollCtl fd) = some u) : u.Sane := by
  simp only [step] at next
  split at next
  · obtain ⟨system, _, rfl⟩ := Option.map_eq_some_iff.mp next
    unfold Sane
    by_cases empty : system.localParams.keys = []
    · simp [empty]
    · simp [empty]
  · cases next

theorem Sane.step (old : s.Sane) (next : s.step capacity a = some u) : u.Sane := by
  cases a with
  | handleChanges => exact handleChanges_sane next old
  | epollCtl fd => exact epollCtl_sane next
  | deliver fd =>
    obtain ⟨responses, atPc, params, drains | goes⟩ := deliver_pc next
    · rw [Sane, atPc] at old
      unfold Sane
      rw [drains, params]
      exact old.2
    · rw [Sane, atPc] at old
      exact .after goes (by rw [params]; exact old.2)
  | register t req | unregister t req | write t | unlock t =>
    cases step_effect next
    exact old.congr rfl rfl
  | notify t => cases step_effect next <;> exact old.congr rfl rfl
  | getTimeoutMs =>
    cases step_effect next with
    | getTimeoutMs atPc =>
      rw [Sane, atPc] at old
      exact old
  | epollWait before =>
    cases step_effect next with
    | epollWait timeoutMs _ atPc =>
      rw [Sane, atPc] at old
      exact old
  | epollReturn after ready =>
    cases step_effect next with
    | epollReturn timeoutMs before _ _ atPc =>
      rw [Sane, atPc] at old
      exact old
  | countdown =>
    cases step_effect next with
    | countdown interval ready atPc =>
      rw [Sane, atPc] at old
      exact .after rfl old
  | read =>
    cases step_effect next with
    | read responses atPc => exact old.congr rfl rfl
    | drained responses atPc =>
      rw [Sane, atPc] at old
      exact .after rfl old

/-- The poller thread has a next step, unless its countdown overflows. -/
theorem Sane.enabled (sane : s.Sane) (capacity : Nat) :
    (∃ a, a.ofPoller = true ∧ (s.step capacity a).isSome) ∨
      ∃ interval ready, s.pc = .countdown interval ready ∧ ¬ s.system.poller.CountdownFits interval := by
  unfold Sane at sane
  cases atPc : s.pc with
  | handleChanges =>
    rw [atPc] at sane
    refine .inl ⟨.handleChanges, rfl, ?_⟩
    by_cases empty : s.system.poller.ctrlParams.keys = []
    · simp [PollerLoop.step, atPc, handleChanges, empty]
    · simp [PollerLoop.step, atPc, handleChanges, empty, PollerSystem.step, sane]
  | epollCtl =>
    rw [atPc] at sane
    obtain ⟨fd, member⟩ := List.exists_mem_of_ne_nil _ sane
    obtain ⟨item, found⟩ := Option.isSome_iff_exists.mp (AList.lookup_isSome.mpr (AList.mem_keys.mpr member))
    exact .inl ⟨.epollCtl fd, rfl, by simp [PollerLoop.step, atPc, epollCtl, PollerSystem.step, found]⟩
  | getTimeoutMs => exact .inl ⟨.getTimeoutMs, rfl, by simp [PollerLoop.step, atPc]⟩
  | poll timeoutMs => exact .inl ⟨.epollWait 0, rfl, by simp [PollerLoop.step, atPc]⟩
  | epollWait timeoutMs before => exact .inl ⟨.epollReturn 0 ⟨[], by simp⟩, rfl, by simp [PollerLoop.step, atPc]⟩
  | countdown interval ready =>
    by_cases fits : s.system.poller.CountdownFits interval
    · exact .inl ⟨.countdown, rfl, by simp [PollerLoop.step, atPc, countdown, fits]⟩
    · exact .inr ⟨interval, ready, rfl, fits⟩
  | respond responses =>
    rw [atPc] at sane
    obtain ⟨fd, member⟩ := List.exists_mem_of_ne_nil _ sane.1
    obtain ⟨events, found⟩ := Option.isSome_iff_exists.mp (AList.lookup_isSome.mpr (AList.mem_keys.mpr member))
    exact .inl ⟨.deliver fd, rfl, by simp [PollerLoop.step, atPc, found]⟩
  | drain responses =>
    refine .inl ⟨.read, rfl, ?_⟩
    by_cases empty : s.pipe = 0
    · simp [PollerLoop.step, atPc, empty]
    · simp [PollerLoop.step, atPc, empty]

end PollerLoop

/-- A call of a client. -/
inductive PollerCall (κ : Type*)
  | register (req : PollRequest κ)
  | unregister (req : PollRequest κ)
  deriving DecidableEq, Repr

namespace PollerCall

variable {κ : Type*}

def request : PollerCall κ → PollRequest κ
  | .register req => req
  | .unregister req => req

/-- What the call leaves in the history once its locked section is over. -/
def event : PollerCall κ → PollerEvent κ
  | .register req => .register req
  | .unregister req => .unregister req.fd

/-- The locked section of the call. -/
def act {ι : Type*} (t : ι) : PollerCall κ → PollerLoopAct κ ι
  | .register req => .register t req
  | .unregister req => .unregister t req

end PollerCall

/-- How far the one call of `Shutdown` that finds the flag clear has come: it joins the thread,
closes the descriptors and clears the maps. -/
inductive ClosePc
  | opened
  | joining
  | joined
  | closed
  | cleared
  deriving DecidableEq, Repr

/-- The thread has been joined. -/
def ClosePc.afterJoin : ClosePc → Bool
  | .opened | .joining => false
  | .joined | .closed | .cleared => true

/-- The poller with `is_shutdown_`, which is tested outside of `poll_mutex_`: by the thread at
the head of its loop, and by a call before its locked section. `entering` has the calls that
are past their tests and wait for the lock. -/
structure PollerService (κ ι : Type*) where
  loop : PollerLoop κ ι
  isShutdown : Bool
  thread : Loop.Pc
  entering : ι → Option (PollerCall κ)
  closer : ClosePc

inductive PollerServiceAct (κ ι : Type*)
  | call (t : ι) (call : PollerCall κ)
  | enter (t : ι)
  | notify (t : ι)
  | write (t : ι)
  | unlock (t : ι)
  | test
  | poller (a : PollerLoopAct κ ι)
  | shutdown
  | join
  | closeFds
  | clear
  deriving DecidableEq, Repr

def PollerServiceAct.waits {κ ι : Type*} : PollerServiceAct κ ι → Bool
  | .poller a => a.waits
  | .call _ _ | .enter _ | .notify _ | .write _ | .unlock _ | .test | .shutdown | .join | .closeFds | .clear => false

namespace PollerService

variable {κ ι : Type*}

def init (pipeFd : Int) : PollerService κ ι := ⟨.init pipeFd, false, .test, fun _ => none, .opened⟩

/-- After a step of the poller thread: a pass is over when `HandleChanges` would be next. -/
def turned (s : PollerService κ ι) (loop : PollerLoop κ ι) : PollerService κ ι :=
  { s with
    loop := loop
    thread := match loop.pc with
      | .handleChanges => .test
      | _ => .body }

/-- The locked section of `Clear`. -/
def clear (s : PollerService κ ι) : PollerService κ ι :=
  { s with
    loop := s.loop.setPoller { s.loop.system.poller with requests := ∅, ctrlParams := ∅ }
    closer := .cleared }

variable [DecidableEq ι]

/-- The tests before the locked section; a call that fails one returns `false`. -/
def call (s : PollerService κ ι) (t : ι) (call : PollerCall κ) : PollerService κ ι :=
  if s.isShutdown then s
  else if call.request.fd < 0 ∨ call.request.callback.isNone then s
  else { s with entering := Function.update s.entering t (some call) }

/-- The locked section; `Unregister` of a descriptor that is not there returns `false`. -/
def enter (capacity : Nat) (s : PollerService κ ι) (t : ι) (call : PollerCall κ) : Option (PollerService κ ι) :=
  match call, s.loop.system.poller.requests.lookup call.request.fd with
  | .unregister _, none =>
    if s.loop.pc.locks then none else some { s with entering := Function.update s.entering t none }
  | _, _ =>
    (s.loop.step capacity (call.act t)).map fun loop =>
      { s with loop := loop, entering := Function.update s.entering t none }

def step (capacity : Nat) (s : PollerService κ ι) : PollerServiceAct κ ι → Option (PollerService κ ι)
  | .call t call =>
    if s.entering t = none ∧ s.loop.callers t = .idle then some (s.call t call) else none
  | .enter t => (s.entering t).bind (s.enter capacity t)
  | .notify t => (s.loop.step capacity (.notify t)).map fun loop => { s with loop := loop }
  | .write t =>
    -- `pipe_fd_[1]` is -1 once the descriptors are closed, and the write fails
    if s.closer = .closed ∨ s.closer = .cleared then
      if s.loop.callers t = .write then some { s with loop := s.loop.setCaller t .unlock } else none
    else (s.loop.step capacity (.write t)).map fun loop => { s with loop := loop }
  | .unlock t => (s.loop.step capacity (.unlock t)).map fun loop => { s with loop := loop }
  | .test =>
    match s.thread with
    | .test => some { s with thread := if s.isShutdown then .out else .body }
    | _ => none
  | .poller a =>
    match s.thread with
    | .body => if a.ofPoller then (s.loop.step capacity a).map s.turned else none
    | _ => none
  | .shutdown => if s.isShutdown then some s else some { s with isShutdown := true, closer := .joining }
  | .join => if s.closer = .joining ∧ s.thread = .out then some { s with closer := .joined } else none
  | .closeFds => if s.closer = .joined then some { s with closer := .closed } else none
  | .clear => if s.closer = .closed ∧ s.loop.pc.locks = false then some s.clear else none

variable {capacity : Nat} {s u v : PollerService κ ι} {a : PollerServiceAct κ ι}

/-- What a step does to the maps and the history, and to the loops around them. -/
inductive Effect (capacity : Nat) (s : PollerService κ ι) : PollerServiceAct κ ι → PollerService κ ι → Prop
  | refused (a : PollerServiceAct κ ι) (quiet : a.waits = false) : Effect capacity s a s
  | call (t : ι) (call : PollerCall κ) (running : s.isShutdown = false) :
      Effect capacity s (.call t call) { s with entering := Function.update s.entering t (some call) }
  | missing (t : ι) (call : PollerCall κ) (there : s.entering t = some call) :
      Effect capacity s (.enter t) { s with entering := Function.update s.entering t none }
  | enter (t : ι) (call : PollerCall κ) (loop : PollerLoop κ ι) (there : s.entering t = some call)
      (next : s.loop.step capacity (call.act t) = some loop) :
      Effect capacity s (.enter t) { s with loop := loop, entering := Function.update s.entering t none }
  | caller (t : ι) (a : PollerServiceAct κ ι) (b : PollerLoopAct κ ι) (loop : PollerLoop κ ι) (quiet : a.waits = false)
      (own : b = .notify t ∨ b = .write t ∨ b = .unlock t) (next : s.loop.step capacity b = some loop) :
      Effect capacity s a { s with loop := loop }
  | lost (t : ι) (closed : s.closer = .closed ∨ s.closer = .cleared) :
      Effect capacity s (.write t) { s with loop := s.loop.setCaller t .unlock }
  | test (head : s.thread = .test) : Effect capacity s .test { s with thread := if s.isShutdown then .out else .body }
  | poller (a : PollerLoopAct κ ι) (loop : PollerLoop κ ι) (body : s.thread = .body) (own : a.ofPoller = true)
      (next : s.loop.step capacity a = some loop) : Effect capacity s (.poller a) (s.turned loop)
  | shutdown (first : s.isShutdown = false) :
      Effect capacity s .shutdown { s with isShutdown := true, closer := .joining }
  | join (waits : s.closer = .joining) (out : s.thread = .out) : Effect capacity s .join { s with closer := .joined }
  | closeFds (joined : s.closer = .joined) : Effect capacity s .closeFds { s with closer := .closed }
  | clear (closed : s.closer = .closed) : Effect capacity s .clear s.clear

/-- The steps of `Notify` touch neither the maps nor the poller thread. -/
theorem notifying_frame {loop next : PollerLoop κ ι} {t : ι} {a : PollerLoopAct κ ι}
    (own : a = .notify t ∨ a = .write t ∨ a = .unlock t) (stepped : loop.step capacity a = some next) :
    next.pc = loop.pc ∧ next.system = loop.system ∧ next.history = loop.history := by
  rcases own with rfl | rfl | rfl
  · cases PollerLoop.step_effect stepped <;> exact ⟨rfl, rfl, rfl⟩
  · cases PollerLoop.step_effect stepped
    exact ⟨rfl, rfl, rfl⟩
  · cases PollerLoop.step_effect stepped
    exact ⟨rfl, rfl, rfl⟩

theorem caller_effect {t : ι} {b : PollerLoopAct κ ι} (own : b = .notify t ∨ b = .write t ∨ b = .unlock t)
    (quiet : a.waits = false)
    (next : ((s.loop.step capacity b).map fun loop => { s with loop := loop }) = some u) : Effect capacity s a u := by
  obtain ⟨loop, stepped, rfl⟩ := Option.map_eq_some_iff.mp next
  exact .caller t a b loop quiet own stepped

theorem call_effect {t : ι} {call : PollerCall κ} (next : s.step capacity (.call t call) = some u) :
    Effect capacity s (.call t call) u := by
  obtain ⟨_, result⟩ := Option.ite_none_right_eq_some.mp next
  cases Option.some.inj result
  unfold PollerService.call
  split_ifs with shut invalid
  · exact .refused _ rfl
  · exact .refused _ rfl
  · exact .call t call (by simpa using shut)

theorem enter_effect {t : ι} (next : s.step capacity (.enter t) = some u) : Effect capacity s (.enter t) u := by
  obtain ⟨call, there, result⟩ := Option.bind_eq_some_iff.mp next
  unfold enter at result
  split at result
  · obtain ⟨_, result⟩ := Option.ite_none_left_eq_some.mp result
    cases Option.some.inj result
    exact .missing t _ there
  · obtain ⟨loop, stepped, rfl⟩ := Option.map_eq_some_iff.mp result
    exact .enter t _ loop there stepped

theorem write_effect {t : ι} (next : s.step capacity (.write t) = some u) : Effect capacity s (.write t) u := by
  simp only [step] at next
  split at next
  · rename_i closed
    obtain ⟨_, result⟩ := Option.ite_none_right_eq_some.mp next
    cases Option.some.inj result
    exact .lost t closed
  · exact caller_effect (.inr (.inl rfl)) rfl next

theorem step_effect (next : s.step capacity a = some u) : Effect capacity s a u := by
  cases a with
  | call t call => exact call_effect next
  | enter t => exact enter_effect next
  | notify t => exact caller_effect (.inl rfl) rfl next
  | write t => exact write_effect next
  | unlock t => exact caller_effect (.inr (.inr rfl)) rfl next
  | test =>
    simp only [step] at next
    split at next
    · rename_i head
      cases Option.some.inj next
      exact .test head
    · cases next
  | poller b =>
    simp only [step] at next
    split at next
    · rename_i body
      obtain ⟨own, result⟩ := Option.ite_none_right_eq_some.mp next
      obtain ⟨loop, stepped, rfl⟩ := Option.map_eq_some_iff.mp result
      exact .poller b loop body own stepped
    · cases next
  | shutdown =>
    simp only [step] at next
    split at next
    · cases Option.some.inj next
      exact .refused _ rfl
    · rename_i first
      cases Option.some.inj next
      exact .shutdown (by simpa using first)
  | join =>
    obtain ⟨⟨waits, out⟩, result⟩ := Option.ite_none_right_eq_some.mp next
    cases Option.some.inj result
    exact .join waits out
  | closeFds =>
    obtain ⟨joined, result⟩ := Option.ite_none_right_eq_some.mp next
    cases Option.some.inj result
    exact .closeFds joined
  | clear =>
    obtain ⟨⟨closed, _⟩, result⟩ := Option.ite_none_right_eq_some.mp next
    cases Option.some.inj result
    exact .clear closed

/-- Until the descriptors are closed, the maps and the threads are those of a run of the poller
as it is without `Shutdown`. -/
structure Follows (capacity : Nat) (pipeFd : Int) (s : PollerService κ ι) : Prop where
  opened : s.isShutdown = false → s.closer = .opened
  looped : s.closer ≠ .closed → s.closer ≠ .cleared →
    ∃ acts, Machine.run (PollerLoop.step capacity) (.init pipeFd) acts = some s.loop

theorem Follows.step {pipeFd : Int} (old : Follows capacity pipeFd s) (next : s.step capacity a = some u) :
    Follows capacity pipeFd u := by
  have extended {b : PollerLoopAct κ ι} {loop : PollerLoop κ ι} (more : s.loop.step capacity b = some loop)
      (unclosed : s.closer ≠ .closed) (uncleared : s.closer ≠ .cleared) :
      ∃ acts, Machine.run (PollerLoop.step capacity) (.init pipeFd) acts = some loop := by
    obtain ⟨acts, ran⟩ := old.looped unclosed uncleared
    exact ⟨acts ++ [b], Machine.run_snoc.mpr ⟨s.loop, ran, more⟩⟩
  cases step_effect next with
  | refused | call | missing | test => exact ⟨old.opened, old.looped⟩
  | enter t call loop there stepped => exact ⟨old.opened, extended stepped⟩
  | caller t _ b loop quiet own stepped => exact ⟨old.opened, extended stepped⟩
  | poller b loop body own stepped => exact ⟨old.opened, extended stepped⟩
  | lost t closed =>
    refine ⟨old.opened, fun unclosed uncleared => ?_⟩
    rcases closed with closed | cleared
    · exact absurd closed unclosed
    · exact absurd cleared uncleared
  | shutdown first =>
    have opened := old.opened first
    exact ⟨nofun, fun _ _ => old.looped (by rw [opened]; nofun) (by rw [opened]; nofun)⟩
  | join waits out =>
    refine ⟨fun running => ?_, fun _ _ => old.looped (by rw [waits]; nofun) (by rw [waits]; nofun)⟩
    rw [old.opened running] at waits
    cases waits
  | closeFds joined =>
    refine ⟨fun running => ?_, fun unclosed => absurd rfl unclosed⟩
    rw [old.opened running] at joined
    cases joined
  | clear closed =>
    refine ⟨fun running => ?_, fun _ uncleared => absurd rfl uncleared⟩
    rw [old.opened running] at closed
    cases closed

theorem follows_of_run {pipeFd : Int} {acts : List (PollerServiceAct κ ι)}
    (reach : Machine.run (step capacity) (init pipeFd) acts = some s) : Follows capacity pipeFd s :=
  Machine.run_invariant (fun _ _ _ old next => old.step next) ⟨fun _ => rfl, fun _ _ => ⟨[], rfl⟩⟩ reach

end PollerService

end ServicesFramework
