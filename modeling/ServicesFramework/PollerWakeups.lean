import ServicesFramework.PollerSteps

namespace ServicesFramework.PollerLoop

open Machine

variable {κ ι : Type*} {s u : PollerLoop κ ι}

/-- The call has yet to try the lock of the pipe, or to write. -/
def Notifying (s : PollerLoop κ ι) (t : ι) : Prop := s.callers t = .notify ∨ s.callers t = .write

/-- Nothing is left for the poller to swap, or something makes it swap: a byte in the pipe, its
own next steps, or a call that has yet to notify. -/
def Noticed (s : PollerLoop κ ι) : Prop :=
  s.system.poller.ctrlParams.keys = [] ∨ 0 < s.pipe ∨ s.pc.willSwap = true ∨ ∃ t, s.Notifying t

/-- A `Notify` that finds `pipe_mutex_` taken relies on something else to make the poller
swap. -/
def SkipFits (s : PollerLoop κ ι) : PollerLoopAct κ ι → Prop
  | .notify t => s.pipeMutex ≠ none →
    s.system.poller.ctrlParams.keys = [] ∨ 0 < s.pipe ∨ s.pc.willSwap = true ∨
      ∃ other, other ≠ t ∧ s.Notifying other
  | .register _ _ | .unregister _ _ | .write _ | .unlock _ | .handleChanges | .epollCtl _ | .getTimeoutMs
  | .epollWait _ | .epollReturn _ _ | .countdown | .deliver _ | .read => True

instance (s : PollerLoop κ ι) (t : ι) : Decidable (s.Notifying t) :=
  inferInstanceAs (Decidable (s.callers t = .notify ∨ s.callers t = .write))

instance [Fintype ι] [DecidableEq ι] (s : PollerLoop κ ι) : ∀ a, Decidable (s.SkipFits a)
  | .notify t => inferInstanceAs (Decidable (s.pipeMutex ≠ none →
      s.system.poller.ctrlParams.keys = [] ∨ 0 < s.pipe ∨ s.pc.willSwap = true ∨
        ∃ other, other ≠ t ∧ s.Notifying other))
  | .register _ _ | .unregister _ _ | .write _ | .unlock _ | .handleChanges | .epollCtl _ | .getTimeoutMs
  | .epollWait _ | .epollReturn _ _ | .countdown | .deliver _ | .read => isTrue trivial

theorem Noticed.init (pipeFd : Int) : Noticed (init pipeFd : PollerLoop κ ι) := Or.inr (Or.inr (Or.inl rfl))

/-- A step of the poller thread between its swap and its next wait. -/
theorem Noticed.awake (old : Noticed s) (asleep : s.pc.willSwap = false)
    (ctrlParams : u.system.poller.ctrlParams = s.system.poller.ctrlParams) (pipe : u.pipe = s.pipe)
    (callers : u.callers = s.callers) : Noticed u := by
  rcases old with empty | byte | swap | ⟨t, calling⟩
  · exact Or.inl (by rw [ctrlParams]; exact empty)
  · exact Or.inr (Or.inl (by rw [pipe]; exact byte))
  · rw [asleep] at swap
    cases swap
  · refine Or.inr (Or.inr (Or.inr ⟨t, ?_⟩))
    rw [Notifying, callers]
    exact calling

variable [DecidableEq ι] {capacity : Nat} {a : PollerLoopAct κ ι} {t other : ι} {pc : CallPc}

theorem notifying_setCaller_of_ne (ne : other ≠ t) : (s.setCaller t pc).Notifying other ↔ s.Notifying other := by
  simp only [Notifying, setCaller, Function.update_of_ne ne]

theorem notifying_setCaller (calling : pc = .notify ∨ pc = .write) : (s.setCaller t pc).Notifying t := by
  simpa only [Notifying, setCaller, Function.update_self] using calling

theorem Noticed.unlock (old : Noticed s) (here : s.callers t = .unlock) :
    Noticed { s.setCaller t .idle with pipeMutex := none } := by
  rcases old with empty | byte | swap | ⟨other, calling⟩
  · exact Or.inl empty
  · exact Or.inr (Or.inl byte)
  · exact Or.inr (Or.inr (Or.inl swap))
  · have ne : other ≠ t := by
      rintro rfl
      rw [Notifying, here] at calling
      rcases calling with wrong | wrong
      · cases wrong
      · cases wrong
    exact Or.inr (Or.inr (Or.inr ⟨other, (notifying_setCaller_of_ne ne).mpr calling⟩))

theorem Noticed.skip (fits : s.SkipFits (.notify t)) {owner : ι} (taken : s.pipeMutex = some owner) :
    Noticed (s.setCaller t .idle) := by
  rcases fits (by rw [taken]; simp) with empty | byte | swap | ⟨other, ne, calling⟩
  · exact Or.inl empty
  · exact Or.inr (Or.inl byte)
  · exact Or.inr (Or.inr (Or.inl swap))
  · exact Or.inr (Or.inr (Or.inr ⟨other, (notifying_setCaller_of_ne ne).mpr calling⟩))

theorem Noticed.step (room : 0 < capacity) (old : Noticed s) (fits : s.SkipFits a)
    (next : s.step capacity a = some u) : Noticed u := by
  cases step_effect next with
  | register t req ctrlParams _ => exact Or.inr (Or.inr (Or.inr ⟨t, notifying_setCaller (Or.inl rfl)⟩))
  | unregister t req ctrlParams _ => exact Or.inr (Or.inr (Or.inr ⟨t, notifying_setCaller (Or.inl rfl)⟩))
  | skip t owner _ taken => exact .skip fits taken
  | lock t _ _ => exact Or.inr (Or.inr (Or.inr ⟨t, notifying_setCaller (Or.inr rfl)⟩))
  | write t _ => exact Or.inr (Or.inl (lt_min (Nat.succ_pos _) room))
  | unlock t here => exact old.unlock here
  | unchanged _ empty => exact Or.inl empty
  | swap _ => exact Or.inl rfl
  | epollCtl fd localParams interest pc atPc _ => exact old.awake (by rw [atPc]; rfl) rfl rfl rfl
  | getTimeoutMs atPc => exact old.awake (by rw [atPc]; rfl) rfl rfl rfl
  | epollWait _ _ atPc => exact old.awake (by rw [atPc]; rfl) rfl rfl rfl
  | epollReturn => exact Or.inr (Or.inr (Or.inl rfl))
  | countdown => exact Or.inr (Or.inr (Or.inl (PollerPc.willSwap_after _)))
  | gone => exact Or.inr (Or.inr (Or.inl (PollerPc.willSwap_after _)))
  | deliver _ _ _ _ _ _ _ _ _ willSwap => exact Or.inr (Or.inr (Or.inl willSwap))
  | read responses atPc => exact Or.inr (Or.inr (Or.inl (by rw [atPc]; rfl)))
  | drained => exact Or.inr (Or.inr (Or.inl (PollerPc.willSwap_after _)))

/-- In every run whose skipped notifications can rely on something else: when the poller waits
with changes left to swap and all calls have returned, the pipe holds a byte. -/
theorem no_lost_wakeup (capacity : Nat) (room : 0 < capacity) (pipeFd : Int) (acts : List (PollerLoopAct κ ι))
    (s : PollerLoop κ ι) (fits : Along (PollerLoop.step capacity) SkipFits (PollerLoop.init pipeFd) acts)
    (reach : run (PollerLoop.step capacity) (PollerLoop.init pipeFd) acts = some s)
    (timeoutMs : Int) (before : UInt64) (waiting : s.pc = .epollWait timeoutMs before)
    (changes : s.system.poller.ctrlParams.keys ≠ []) (returned : ∀ t, s.callers t = .idle) : 0 < s.pipe := by
  have noticed : Noticed s := run_invariant_along (I := Noticed)
    (fun _ _ _ old fits next => old.step room fits next) (.init pipeFd) fits reach
  rcases noticed with empty | byte | swap | ⟨t, calling⟩
  · exact absurd empty changes
  · exact byte
  · rw [waiting] at swap
    cases swap
  · rw [Notifying, returned t] at calling
    rcases calling with wrong | wrong
    · cases wrong
    · cases wrong

/-- A client's descriptor, for a poller with its pipe at descriptor 3. -/
def input (fd : Int) : PollRequest Unit := ⟨fd, 0x001, -1, some ()⟩

/-- The poller has the pipe in its epoll set and waits. -/
def firstWait : List (PollerLoopAct Unit (Fin 2)) := [.handleChanges, .epollCtl 3, .getTimeoutMs, .epollWait 0]

/-- The second call tries the lock before the first has written. -/
def skipBeforeWrite : List (PollerLoopAct Unit (Fin 2)) :=
  firstWait ++ [.register 0 (input 5), .notify 0, .register 1 (input 6), .notify 1, .write 0, .unlock 0]

/-- The second call tries the lock when the byte of the first is read and its change is
swapped. -/
def skipAfterDrain : List (PollerLoopAct Unit (Fin 2)) :=
  firstWait ++ [.register 0 (input 5), .notify 0, .write 0,
    .epollReturn 0 (.input 3), .countdown, .deliver 3, .read, .read,
    .handleChanges, .epollCtl 5, .getTimeoutMs, .epollWait 0,
    .register 1 (input 6), .notify 1, .unlock 0]

theorem no_lost_wakeup_skipBeforeWrite :
    ∃ s : PollerLoop Unit (Fin 2), run (PollerLoop.step 65536) (PollerLoop.init 3) skipBeforeWrite = some s ∧
      s.system.poller.ctrlParams.keys = [6, 5] ∧ 0 < s.pipe := by
  obtain ⟨s, reach, waiting, changes, returned⟩ : ∃ s : PollerLoop Unit (Fin 2),
      run (PollerLoop.step 65536) (PollerLoop.init 3) skipBeforeWrite = some s ∧ s.pc = .epollWait 100 0 ∧
      s.system.poller.ctrlParams.keys = [6, 5] ∧ ∀ t, s.callers t = .idle := ⟨_, rfl, rfl, rfl, by decide⟩
  exact ⟨s, reach, changes, no_lost_wakeup 65536 (by decide) 3 skipBeforeWrite s (by decide) reach 100 0 waiting
    (by rw [changes]; simp) returned⟩

/-- The change of the second call waits for something else to end the wait. -/
theorem lost_wakeup_skipAfterDrain :
    ¬ ∀ (threads capacity : Nat) (pipeFd : Int) (acts : List (PollerLoopAct Unit (Fin threads)))
        (s : PollerLoop Unit (Fin threads)) (timeoutMs : Int) (before : UInt64), 0 < capacity →
      run (PollerLoop.step capacity) (PollerLoop.init pipeFd) acts = some s → s.pc = .epollWait timeoutMs before →
      s.system.interest pipeFd ≠ none → s.system.poller.ctrlParams.keys ≠ [] → (∀ t, s.callers t = .idle) →
      0 < s.pipe := by
  intro claim
  obtain ⟨s, reach, waiting, listening, changes, returned, empty⟩ : ∃ s : PollerLoop Unit (Fin 2),
      run (PollerLoop.step 65536) (PollerLoop.init 3) skipAfterDrain = some s ∧ s.pc = .epollWait 100 0 ∧
      s.system.interest 3 = some 1 ∧ s.system.poller.ctrlParams.keys = [6] ∧ (∀ t, s.callers t = .idle) ∧
      s.pipe = 0 := ⟨_, rfl, rfl, rfl, rfl, by decide, rfl⟩
  have byte := claim 2 65536 3 skipAfterDrain s 100 0 (by decide) reach waiting (by rw [listening]; simp)
    (by rw [changes]; simp) returned
  rw [empty] at byte
  exact absurd byte (lt_irrefl 0)

end ServicesFramework.PollerLoop
