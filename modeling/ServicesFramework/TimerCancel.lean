import ServicesFramework.TimerRuns

namespace ServicesFramework

namespace Delivery

variable {ι : Type*} {d d' : Delivery ι}

/-- The expiries that no handler has been called for yet. -/
def pending (d : Delivery ι) : List ι := d.held ++ d.timeout.pool

/-- The handler calls of a timer and its pending expiries make up a number that only a new
expiry changes. -/
theorem Moves.count [DecidableEq ι] (moves : d.Moves d') (t : ι) :
    d'.called.count t + d'.pending.count t = d.called.count t + d.pending.count t ∨
      ∃ tick, d'.enqueued = d.enqueued ++ [(t, tick)] := by
  cases moves with
  | same => exact Or.inl rfl
  | enqueue u tick =>
    by_cases same : u = t
    · subst u
      exact Or.inr ⟨tick, rfl⟩
    · exact Or.inl (by simp [pending, held, List.count_append, same])
  | dequeue u rest pc pool =>
    left
    simp [pending, held, pc, pool]
  | call u pc =>
    left
    simp only [pending, held, pc, List.count_append, List.nil_append]
    omega
  | returns u pc =>
    left
    simp [pending, held, pc]

theorem Moves.called_grows (moves : d.Moves d') : d.called <+: d'.called := by
  cases moves with
  | call u pc => exact List.prefix_append _ _
  | same | enqueue u tick | dequeue u rest pc pool | returns u pc => exact List.prefix_refl _

end Delivery

/-- What threads do, with the two parts of `AddOneshotTimer` apart: it sets the flag of the
timer without a lock, and then calls `AddTimer`. -/
inductive TimerThreadAct (ι : Type*)
  | setOneshot (t : ι)
  | act (a : TimerAct ι)
  deriving DecidableEq, Repr

namespace TimerManager

open Machine

variable {ι : Type*} [DecidableEq ι] {m m' u : TimerManager ι} {a : TimerAct ι} {act : TimerThreadAct ι}
  {acts : List (TimerThreadAct ι)} {t : ι}

def threadStep (m : TimerManager ι) : TimerThreadAct ι → Option (TimerManager ι)
  | .setOneshot t => some (m.setTimer t { m.timer t with oneshot := true })
  | .act a => m.step a

/-- The timer is cancelled, and no expiry of it is on its way into the queue. -/
def Dead (t : ι) (m : TimerManager ι) : Prop := (m.timer t).cancelled = true ∧ m.owed ≠ some t

omit [DecidableEq ι] in
theorem owed_of_free (free : m.mutexHeld = false) : m.owed = none := by
  unfold mutexHeld at free
  unfold owed
  cases pc : m.ticker <;> simp [pc] at free ⊢

omit [DecidableEq ι] in
/-- Outside of an enqueue, a cancelled timer is a dead one. -/
theorem dead_of_idle (cancelled : (m.timer t).cancelled = true) (idle : m.owed = none) : m.Dead t :=
  ⟨cancelled, by simp [idle]⟩

/-- Writing to a timer without clearing its flag cancels no cancellation. -/
theorem setTimer_cancelled (cancelled : (m.timer t).cancelled = true) (u : ι) {timer : Timer}
    (kept : (m.timer u).cancelled = true → timer.cancelled = true) :
    ((m.setTimer u timer).timer t).cancelled = true := by
  by_cases same : t = u
  · subst u
    simpa [setTimer] using kept cancelled
  · simpa [setTimer, same] using cancelled

theorem Dead.setOneshot (dead : m.Dead t) (u : ι) : (m.setTimer u { m.timer u with oneshot := true }).Dead t :=
  ⟨setTimer_cancelled dead.1 u id, dead.2⟩

theorem Dead.addTimer (dead : m.Dead t) (u : ι) (unlocked : m.mutexHeld = false) : (m.addTimer u).Dead t := by
  rcases addTimer_cases m u with same | ⟨-, -, added⟩
  · rwa [same]
  · rw [added]
    exact dead_of_idle (setTimer_cancelled dead.1 u id) (owed_of_free unlocked)

/-- A dead timer stays dead, and is not enqueued. -/
theorem Dead.step (dead : m.Dead t) (next : m.step a = some m') :
    m'.Dead t ∧ ∀ tick, m'.enqueued ≠ m.enqueued ++ [(t, tick)] := by
  have quiet : ∀ tick, m.enqueued ≠ m.enqueued ++ [(t, tick)] := by simp
  have added (m : TimerManager ι) (u : ι) : (m.addTimer u).enqueued = m.enqueued :=
    congrArg Delivery.enqueued (addTimer_delivery m u)
  obtain ⟨cancelled, free⟩ := id dead
  cases stepped next with
  | addTimer u unlocked => exact ⟨dead.addTimer u unlocked, by rw [added]; exact quiet⟩
  | addOneshotTimer u unlocked =>
    exact ⟨(dead.setOneshot u).addTimer u unlocked, by rw [addOneshotTimer, added]; exact quiet⟩
  | cancelTimer u unlocked =>
    exact ⟨⟨setTimer_cancelled cancelled u fun _ => rfl, free⟩, quiet⟩
  | increment pc => exact ⟨dead_of_idle cancelled rfl, quiet⟩
  | beginPass pc => exact ⟨dead_of_idle cancelled rfl, quiet⟩
  | visit it u pc found =>
    unfold TimerManager.visit
    split_ifs with due
    · have other : t ≠ u := by
        rintro rfl
        simp [cancelled] at due
      refine ⟨⟨by simpa [setTimer, other] using cancelled, ?_⟩, quiet⟩
      -- what the ticker is enqueuing now is the timer it has found due
      simpa [owed, setTimer, found] using other.symm
    · exact ⟨dead_of_idle cancelled rfl, quiet⟩
  | enqueue it u pc found =>
    have other : u ≠ t := by
      rintro rfl
      exact free (by simp [owed, pc, found])
    unfold TimerManager.enqueue
    rcases m.timeout.enqueue_cases u with ⟨-, full⟩ | ⟨-, done⟩
    · rw [full]
      exact ⟨dead, quiet⟩
    · rw [done]
      exact ⟨dead_of_idle cancelled rfl, by simp [other]⟩
  | sweep it u pc found =>
    unfold TimerManager.sweep
    split_ifs
    · exact ⟨dead_of_idle cancelled rfl, quiet⟩
    · exact ⟨dead_of_idle cancelled rfl, quiet⟩
  | endPass pc => exact ⟨dead_of_idle cancelled rfl, quiet⟩
  | dequeue pc =>
    unfold TimerManager.dequeue
    split
    · exact ⟨dead, quiet⟩
    · exact ⟨dead, quiet⟩
  | callHandler u pc => exact ⟨dead, quiet⟩
  | handlerReturns u pc => exact ⟨dead, quiet⟩

theorem cancelTimer_dead (free : m.lockedTimer ≠ some t) : (m.cancelTimer t).Dead t :=
  ⟨by simp [cancelTimer, setTimer], owed_of_lockedTimer free⟩

/-- From then on the handler calls of the timer use up its pending expiries. -/
theorem Dead.run (dead : m.Dead t) (reach : run threadStep m acts = some m') :
    m'.called.count t + m'.delivery.pending.count t = m.called.count t + m.delivery.pending.count t := by
  suffices kept : m'.Dead t ∧
      m'.called.count t + m'.delivery.pending.count t = m.called.count t + m.delivery.pending.count t from kept.2
  refine run_invariant (I := fun n => n.Dead t ∧
    n.called.count t + n.delivery.pending.count t = m.called.count t + m.delivery.pending.count t) ?_ ⟨dead, rfl⟩ reach
  rintro n act n' ⟨dead, same⟩ next
  cases act with
  | setOneshot u =>
    cases Option.some.inj next
    exact ⟨dead.setOneshot u, same⟩
  | act a =>
    obtain ⟨dead', quiet⟩ := dead.step next
    refine ⟨dead', ?_⟩
    rcases (step_delivery next).count t with kept | ⟨tick, now⟩
    · exact kept.trans same
    · exact absurd now (quiet tick)

theorem run_called (reach : run threadStep m acts = some m') : m.called <+: m'.called := by
  refine run_invariant (I := fun n => m.called <+: n.called) ?_ (List.prefix_refl _) reach
  rintro n act n' initial next
  cases act with
  | setOneshot u =>
    cases Option.some.inj next
    exact initial
  | act a => exact initial.trans (step_delivery next).called_grows

/-- The state once the worker has called the handler of the timer at the head of the queue. -/
def handled (m : TimerManager ι) (t : ι) (rest : List ι) : TimerManager ι :=
  { m with timeout := { m.timeout with pool := rest }, worker := .handling t, called := m.called ++ [t] }

theorem run_next (waiting : m.worker = .waiting) {rest : List ι} (pool : m.timeout.pool = t :: rest) :
    run threadStep m [.act .dequeue, .act .callHandler] = some (m.handled t rest) := by
  simp only [run, threadStep, step, waiting, dequeue, pool, Option.bind_some, handled]

/-- The worker can go on to the next pending expiry, whatever the other threads do. -/
theorem worker_calls_next {rest : List ι} (pending : m.delivery.pending = t :: rest) :
    ∃ acts m', run threadStep m acts = some m' ∧ m'.called = m.called ++ [t] ∧ m'.delivery.pending = rest := by
  cases pc : m.worker with
  | waiting =>
    have pool : m.timeout.pool = t :: rest := by simpa [Delivery.pending, Delivery.held, delivery, pc] using pending
    exact ⟨_, m.handled t rest, run_next pc pool, rfl, rfl⟩
  | dequeued u =>
    have front : u = t ∧ m.timeout.pool = rest := by
      simpa [Delivery.pending, Delivery.held, delivery, pc] using pending
    obtain ⟨rfl, rfl⟩ := front
    refine ⟨[.act .callHandler], m.handled u m.timeout.pool, ?_, rfl, rfl⟩
    simp only [run, threadStep, step, pc, Option.bind_some, handled]
  | handling u =>
    have pool : m.timeout.pool = t :: rest := by simpa [Delivery.pending, Delivery.held, delivery, pc] using pending
    have returned : threadStep m (.act .handlerReturns) = some { m with worker := .waiting } := by
      simp only [threadStep, step, pc]
    exact ⟨.act .handlerReturns :: _, handled { m with worker := .waiting } t rest,
      run_cons.mpr ⟨_, returned, run_next rfl pool⟩, rfl, rfl⟩

/-- It can go on until nothing is pending. -/
theorem worker_drains (m : TimerManager ι) :
    ∃ acts m', run threadStep m acts = some m' ∧ m'.called = m.called ++ m.delivery.pending := by
  induction queue : m.delivery.pending generalizing m with
  | nil => exact ⟨[], m, rfl, by simp⟩
  | cons t rest ih =>
    obtain ⟨first, n, reach, called, pending⟩ := worker_calls_next queue
    obtain ⟨acts, m', drained, all⟩ := ih n pending
    exact ⟨first ++ acts, m', run_append.mpr ⟨n, reach, drained⟩, by rw [all, called, List.append_assoc]; rfl⟩

omit [DecidableEq ι] in
theorem mem_pending_iff : t ∈ m.delivery.pending ↔ t ∈ m.timeout.pool ∨ m.worker = .dequeued t := by
  cases pc : m.worker with
  | waiting => simp [Delivery.pending, Delivery.held, delivery, pc]
  | dequeued u => simp [Delivery.pending, Delivery.held, delivery, pc, or_comm, eq_comm]
  | handling u => simp [Delivery.pending, Delivery.held, delivery, pc]

/-- A call of `CancelTimer` is followed by no call of the handler in any continuation of the
run exactly when it finds no expiry of the timer in the queue, nor in the hands of the worker:
nobody looks at the flag after the expiry has been enqueued. -/
theorem cancel_silences_iff (expires uninit : ι → UInt64) (before : List (TimerThreadAct ι)) (u : TimerManager ι)
    (t : ι) (reach : run threadStep (init expires uninit) before = some u) (free : u.lockedTimer ≠ some t) :
    (∀ later m, run threadStep (init expires uninit) (before ++ .act (.cancelTimer t) :: later) = some m →
      m.called.count t = u.called.count t) ↔
    t ∉ u.timeout.pool ∧ u.worker ≠ .dequeued t := by
  have cancel : threadStep u (.act (.cancelTimer t)) = some (u.cancelTimer t) := if_neg free
  have continued {later : List (TimerThreadAct ι)} {m : TimerManager ι} :
      run threadStep (init expires uninit) (before ++ .act (.cancelTimer t) :: later) = some m ↔
        run threadStep (u.cancelTimer t) later = some m := by
    simp [run_append, run_cons, reach, cancel]
  rw [← not_or, ← mem_pending_iff]
  constructor
  · intro silent pending
    obtain ⟨later, m, drained, all⟩ := worker_drains (u.cancelTimer t)
    have same := silent later m (continued.mpr drained)
    have more : 0 < u.delivery.pending.count t := List.count_pos_iff.mpr pending
    rw [all, List.count_append] at same
    change u.called.count t + u.delivery.pending.count t = _ at same
    omega
  · intro none later m reached
    have total := (cancelTimer_dead free).run (continued.mp reached)
    change _ = u.called.count t + u.delivery.pending.count t at total
    rw [List.count_eq_zero.mpr none] at total
    have kept : u.called.count t ≤ m.called.count t := (run_called (continued.mp reached)).sublist.count_le t
    omega

/-- Cancelled before it has expired, a timer stays silent. -/
theorem cancel_silences_before_tick :
    ∃ u, run threadStep (init (fun _ : Unit => 5) fun _ => 0) [.act (.addTimer ()), .act .increment] = some u ∧
      ∀ later m, run threadStep (init (fun _ : Unit => 5) fun _ => 0)
        ([.act (.addTimer ()), .act .increment] ++ .act (.cancelTimer ()) :: later) = some m →
        m.called.count () = u.called.count () := by
  obtain ⟨u, reach, free, pool, worker⟩ : ∃ u, run threadStep (init (fun _ : Unit => 5) fun _ => 0)
      [.act (.addTimer ()), .act .increment] = some u ∧ u.lockedTimer ≠ some () ∧ () ∉ u.timeout.pool ∧
      u.worker ≠ .dequeued () := ⟨_, rfl, by decide, by decide, by decide⟩
  exact ⟨u, reach, (cancel_silences_iff _ _ _ u () reach free).mpr ⟨pool, worker⟩⟩

/-- The timer expires, is cancelled while its expiry is in the queue, and its handler is called. -/
theorem cancelled_timer_called :
    ¬ ∀ (expires uninit : Unit → UInt64) (before later : List (TimerThreadAct Unit)) (u m : TimerManager Unit),
      .act (.cancelTimer ()) ∉ before → run threadStep (init expires uninit) before = some u →
      run threadStep (init expires uninit) (before ++ .act (.cancelTimer ()) :: later) = some m →
      m.called.count () = u.called.count () := by
  intro claim
  have silent := claim (fun _ => 5) (fun _ => 0)
    [.act (.addTimer ()), .act .increment, .act .beginPass, .act .visit, .act .enqueue, .act .sweep]
    [.act .dequeue, .act .callHandler] _ _ (by decide) rfl rfl
  exact absurd silent (by decide)

end TimerManager

end ServicesFramework
