import ServicesFramework.TimerSchedule

namespace ServicesFramework

/-- The queue with what has gone into it and come out of it. -/
structure Delivery (ι : Type*) where
  timeout : Queue ι
  worker : WorkerPc ι
  enqueued : List (ι × UInt64)
  called : List ι

namespace Delivery

variable {ι : Type*} {d d' : Delivery ι}

/-- Everything that one step of the manager can do to the queue. -/
inductive Moves (d : Delivery ι) : Delivery ι → Prop
  | same : Moves d d
  | enqueue (t : ι) (tick : UInt64) :
      Moves d { d with
        timeout := { d.timeout with pool := d.timeout.pool ++ [t] }, enqueued := d.enqueued ++ [(t, tick)] }
  | dequeue (t : ι) (rest : List ι) (pc : d.worker = .waiting) (pool : d.timeout.pool = t :: rest) :
      Moves d { d with timeout := { d.timeout with pool := rest }, worker := .dequeued t }
  | call (t : ι) (pc : d.worker = .dequeued t) : Moves d { d with worker := .handling t, called := d.called ++ [t] }
  | returns (t : ι) (pc : d.worker = .handling t) : Moves d { d with worker := .waiting }

theorem Moves.poolSize_eq (moves : d.Moves d') : d'.timeout.poolSize = d.timeout.poolSize := by
  cases moves <;> rfl

/-- What the worker has dequeued and not yet passed to its handler. -/
def held (d : Delivery ι) : List ι :=
  match d.worker with
  | .dequeued t => [t]
  | .waiting | .handling _ => []

/-- Every expiry that was enqueued has been handled, is held by the worker, or waits. -/
def Balanced (d : Delivery ι) : Prop := d.enqueued.map Prod.fst = d.called ++ d.held ++ d.timeout.pool

theorem Balanced.moves (balanced : d.Balanced) (moves : d.Moves d') : d'.Balanced := by
  have before : d.enqueued.map Prod.fst = d.called ++ d.held ++ d.timeout.pool := balanced
  cases moves with
  | same => exact balanced
  | enqueue t tick => simp [Balanced, before, held]
  | dequeue t rest pc pool => simp [Balanced, before, held, pc, pool]
  | call t pc => simp [Balanced, before, held, pc]
  | returns t pc => simp [Balanced, before, held, pc]

end Delivery

namespace TimerManager

variable {ι : Type*} [DecidableEq ι] {m m' : TimerManager ι} {a : TimerAct ι} {t u : ι} {acts : List (TimerAct ι)}

/-- No uncancelled timer of the list has a deadline beyond 64 bits. -/
def NoOverflow (m : TimerManager ι) : Prop :=
  ∀ t ∈ m.timers, (m.timer t).cancelled = false → (m.timer t).start.toNat + (m.timer t).expires.toNat < 2 ^ 64

/-- What is asked of a step: no deadline overflows, and a timer is added only once. -/
def Allowed (m : TimerManager ι) (a : TimerAct ι) : Prop := m.NoOverflow ∧ m.AddsFresh a

instance (m : TimerManager ι) : Decidable m.NoOverflow :=
  inferInstanceAs (Decidable (∀ t ∈ m.timers, (m.timer t).cancelled = false →
    (m.timer t).start.toNat + (m.timer t).expires.toNat < 2 ^ 64))

instance (m : TimerManager ι) : ∀ a, Decidable (m.AddsFresh a)
  | .addTimer t | .addOneshotTimer t => inferInstanceAs (Decidable (m.added t = none))
  | .cancelTimer _ | .increment | .beginPass | .visit | .enqueue | .sweep | .endPass | .dequeue | .callHandler
  | .handlerReturns => isTrue trivial

instance (m : TimerManager ι) (a : TimerAct ι) : Decidable (m.Allowed a) :=
  inferInstanceAs (Decidable (m.NoOverflow ∧ m.AddsFresh a))

theorem Ordered.addTimer (ordered : m.Ordered) (fresh : m.added t = none) (free : m.mutexHeld = false) :
    (m.addTimer t).Ordered := by
  rcases addTimer_cases m t with same | ⟨-, -, success⟩
  · rw [same]
    exact ordered
  · rw [success]
    have absent : t ∉ m.timers := fun member => ordered.listed t member fresh
    refine ⟨?_, ?_, ?_⟩
    · exact List.nodup_append.mpr ⟨ordered.nodup, List.nodup_singleton t, by
        rintro x member y single rfl
        exact absent (List.mem_singleton.mp single ▸ member)⟩
    · intro u member
      by_cases here : u = t
      · simp [here]
      · have old : u ∈ m.timers := by simpa [here] using member
        simpa [here] using ordered.listed u old
    · intro it pc
      rcases mutexHeld_eq_false free with rest | rest <;> simp [setTimer, rest] at pc

theorem Ordered.step (ordered : m.Ordered) (fresh : m.AddsFresh a) (next : m.step a = some m') : m'.Ordered := by
  cases stepped next with
  | addTimer t free => exact ordered.addTimer fresh free
  | addOneshotTimer t free =>
    have flagged : (m.setTimer t { m.timer t with oneshot := true }).Ordered :=
      ⟨ordered.nodup, ordered.listed, ordered.inside⟩
    exact flagged.addTimer fresh free
  | cancelTimer t free => exact ⟨ordered.nodup, ordered.listed, ordered.inside⟩
  | increment pc => exact ⟨ordered.nodup, ordered.listed, by simp⟩
  | beginPass pc => exact ⟨ordered.nodup, ordered.listed, by simp⟩
  | visit it t pc found =>
    obtain ⟨inside, -⟩ := List.getElem?_eq_some_iff.mp found
    unfold visit
    split_ifs
    · exact ⟨ordered.nodup, ordered.listed, by simpa [setTimer] using inside⟩
    · exact ⟨ordered.nodup, ordered.listed, by simpa using inside⟩
  | enqueue it t pc found =>
    obtain ⟨inside, -⟩ := List.getElem?_eq_some_iff.mp found
    unfold enqueue
    rcases m.timeout.enqueue_cases t with ⟨-, full⟩ | ⟨-, done⟩
    · rw [full]
      exact ⟨ordered.nodup, ordered.listed, ordered.inside⟩
    · rw [done]
      exact ⟨ordered.nodup, ordered.listed, by simpa using inside⟩
  | sweep it t pc found =>
    unfold sweep
    split_ifs
    · refine ⟨ordered.nodup.sublist (List.eraseIdx_sublist ..), ?_, by simp⟩
      exact fun u member => ordered.listed u (List.mem_of_mem_eraseIdx member)
    · exact ⟨ordered.nodup, ordered.listed, by simp⟩
  | endPass pc => exact ⟨ordered.nodup, ordered.listed, by simp⟩
  | dequeue pc =>
    unfold dequeue
    split
    · exact ordered
    · exact ⟨ordered.nodup, ordered.listed, ordered.inside⟩
  | callHandler t pc => exact ⟨ordered.nodup, ordered.listed, ordered.inside⟩
  | handlerReturns t pc => exact ⟨ordered.nodup, ordered.listed, ordered.inside⟩

/-- The list is in order and every timer keeps its schedule. -/
def Sound (m : TimerManager ι) : Prop := m.Ordered ∧ ∀ t, (m.view t).Sound

theorem init_sound (expires uninit : ι → UInt64) : (init expires uninit).Sound := by
  refine ⟨⟨List.nodup_nil, by simp [init], by simp [init]⟩, fun t => ?_⟩
  constructor <;> simp [init, view, ahead, owed, firings, Timer.init]

theorem Sound.step (sound : m.Sound) (allowed : m.Allowed a) (next : m.step a = some m') : m'.Sound :=
  ⟨sound.1.step allowed.2 next, fun t => (sound.2 t).moves (allowed.1 t) (step_moves sound.1 allowed.2 next t)⟩

theorem run_sound {expires uninit : ι → UInt64} (allowed : Machine.Along step Allowed (init expires uninit) acts)
    (reach : Machine.run step (init expires uninit) acts = some m) : m.Sound :=
  Machine.run_invariant_along (I := Sound) (fun _ _ _ sound allowed next => sound.step allowed next)
    (init_sound expires uninit) allowed reach

theorem run_expires {expires uninit : ι → UInt64} (allowed : Machine.Along step Allowed (init expires uninit) acts)
    (reach : Machine.run step (init expires uninit) acts = some m) (t : ι) : (m.timer t).expires = expires t := by
  have both : m.Sound ∧ (m.timer t).expires = expires t := by
    refine Machine.run_invariant_along (I := fun m => m.Sound ∧ (m.timer t).expires = expires t) ?_
      ⟨init_sound expires uninit, rfl⟩ allowed reach
    rintro m a m' ⟨sound, same⟩ allowed next
    exact ⟨sound.step allowed next, (step_moves sound.1 allowed.2 next t).expires_eq.trans same⟩
  exact both.2

/-- A cancelled timer expires no more, whatever happens after. -/
theorem run_frozen (sound : m.Sound) (allowed : Machine.Along step Allowed m acts)
    (reach : Machine.run step m acts = some m') (cancelled : (m.timer t).cancelled = true) (free : m.owed ≠ some t) :
    m'.firings t = m.firings t := by
  have kept : m'.Sound ∧ (m'.timer t).cancelled = true ∧ m'.owed ≠ some t ∧ m'.firings t = m.firings t := by
    refine Machine.run_invariant_along
      (I := fun n => n.Sound ∧ (n.timer t).cancelled = true ∧ n.owed ≠ some t ∧ n.firings t = m.firings t) ?_
      ⟨sound, cancelled, free, rfl⟩ allowed reach
    rintro n a n' ⟨sound, cancelled, free, same⟩ allowed next
    obtain ⟨cancelled', free', same'⟩ := (step_moves sound.1 allowed.2 next t).frozen cancelled free
    exact ⟨sound.step allowed next, cancelled', free', same'.trans same⟩
  exact kept.2.2.2

omit [DecidableEq ι] in
/-- While `WaitEnqueue` runs for a timer, its mutex is held. -/
theorem owed_of_lockedTimer (free : m.lockedTimer ≠ some t) : m.owed ≠ some t := by
  unfold lockedTimer at free
  unfold owed
  cases pc : m.ticker with
  | enqueuing it => simpa only [pc] using free
  | sleeping | ticked | visiting it | sweeping it => exact nofun

theorem run_cancelled (sound : m.Sound) (allowed : Machine.Along step Allowed m (.cancelTimer t :: acts))
    (reach : Machine.run step m (.cancelTimer t :: acts) = some m') : m'.firings t = m.firings t := by
  obtain ⟨n, next, rest⟩ := Machine.run_cons.mp reach
  have sound' := sound.step allowed.1 next
  cases stepped next with
  | cancelTimer _ free =>
    have unowed : (m.cancelTimer t).owed ≠ some t := owed_of_lockedTimer free
    have dead : ((m.cancelTimer t).timer t).cancelled = true := by simp [cancelTimer, setTimer]
    have frozen := run_frozen sound' (allowed.2 _ next) rest dead unowed
    exact frozen

theorem addTimer_added (m : TimerManager ι) (other : u ≠ t) : (m.addTimer t).added u = m.added u := by
  rcases addTimer_cases m t with same | ⟨-, -, success⟩
  · rw [same]
  · rw [success]
    simp [other]

/-- Only adding a timer records it. -/
theorem step_added (next : m.step a = some m') (other : a ≠ .addTimer u ∧ a ≠ .addOneshotTimer u) :
    m'.added u = m.added u := by
  cases stepped next with
  | addTimer t free => exact addTimer_added m (by rintro rfl; exact other.1 rfl)
  | addOneshotTimer t free =>
    exact addTimer_added (m.setTimer t { m.timer t with oneshot := true }) (by rintro rfl; exact other.2 rfl)
  | visit it t =>
    unfold visit
    split_ifs <;> rfl
  | enqueue it t =>
    unfold enqueue
    rcases m.timeout.enqueue_cases t with ⟨-, full⟩ | ⟨-, done⟩
    · rw [full]
    · rw [done]
  | sweep it t =>
    unfold sweep
    split_ifs <;> rfl
  | dequeue =>
    unfold dequeue
    split <;> rfl
  | cancelTimer | increment | beginPass | endPass | callHandler | handlerReturns => rfl

def delivery (m : TimerManager ι) : Delivery ι := ⟨m.timeout, m.worker, m.enqueued, m.called⟩

theorem addTimer_delivery (m : TimerManager ι) (t : ι) : (m.addTimer t).delivery = m.delivery := by
  unfold addTimer
  split_ifs <;> rfl

/-- What clients and the ticker do outside `WaitEnqueue` does not touch the queue. -/
theorem step_delivery (next : m.step a = some m') : m.delivery.Moves m'.delivery := by
  cases stepped next with
  | addTimer t =>
    rw [addTimer_delivery]
    exact .same
  | addOneshotTimer t =>
    rw [addOneshotTimer, addTimer_delivery]
    exact .same
  | cancelTimer | increment | beginPass | endPass => exact .same
  | visit it t =>
    unfold visit
    split_ifs
    · exact .same
    · exact .same
  | enqueue it t =>
    unfold enqueue
    rcases m.timeout.enqueue_cases t with ⟨-, full⟩ | ⟨-, done⟩
    · rw [full]
      exact .same
    · rw [done]
      exact .enqueue t m.tick
  | sweep it t =>
    unfold sweep
    split_ifs
    · exact .same
    · exact .same
  | dequeue pc =>
    unfold dequeue
    split
    · exact .same
    · rename_i t rest pool
      exact .dequeue t rest pc pool
  | callHandler t pc => exact .call t pc
  | handlerReturns t pc => exact .returns t pc

theorem step_poolSize (next : m.step a = some m') : m'.timeout.poolSize = m.timeout.poolSize :=
  (step_delivery next).poolSize_eq

theorem called_initial {expires uninit : ι → UInt64}
    (reach : Machine.run step (init expires uninit) acts = some m) : m.called <+: m.enqueued.map Prod.fst := by
  have balanced : m.delivery.Balanced := by
    refine Machine.run_invariant (I := fun m => m.delivery.Balanced) ?_ ?_ reach
    · exact fun _ _ _ balanced next => balanced.moves (step_delivery next)
    · simp [Delivery.Balanced, Delivery.held, delivery, init, Queue.init]
  have whole : m.enqueued.map Prod.fst = m.called ++ m.delivery.held ++ m.timeout.pool := balanced
  rw [whole, List.append_assoc]
  exact List.prefix_append _ _

end TimerManager

end ServicesFramework
