import Mathlib.Tactic
import ServicesFramework.Timer

namespace ServicesFramework

/-- What concerns a single timer: the object, its history, whether it is in `timers_`, whether
the pass of this tick has still to look at it, and whether `WaitEnqueue` is running for it. -/
structure TimerView where
  timer : Timer
  added : Option UInt64
  requested : Prop
  firings : List UInt64
  listed : Prop
  ahead : Prop
  owed : Prop
  tick : UInt64

/-- Everything that one step of the manager can do to one timer. -/
inductive TimerView.Moves (v : TimerView) : TimerView → Prop
  | same : Moves v v
  | flag (absent : v.added = none) : Moves v { v with timer := { v.timer with oneshot := true } }
  | add (oneshot : Bool) (ahead : Prop) (absent : v.added = none)
      (fits : v.timer.expires % TimerManager.resolution = 0) (positive : ¬v.timer.expires ≤ 0) :
      Moves v { v with
        timer := { v.timer with oneshot := oneshot, start := v.tick }, added := some v.tick, listed := True,
        ahead := ahead }
  | cancel (free : ¬v.owed) :
      Moves v { v with timer := { v.timer with refcnt := v.timer.refcnt - 1, cancelled := true }, requested := True }
  | tick (passed : ¬v.ahead) (free : ¬v.owed) :
      Moves v { v with tick := v.tick + TimerManager.resolution, ahead := v.listed }
  | expire (ahead : v.ahead) (uncancelled : v.timer.cancelled = false)
      (due : v.timer.expires + v.timer.start = v.tick) :
      Moves v { v with timer := v.timer.expire v.tick, ahead := False, owed := True }
  | pass (ahead : v.ahead) (notDue : ¬(v.timer.cancelled = false ∧ v.timer.expires + v.timer.start = v.tick)) :
      Moves v { v with ahead := False }
  | enqueue (owed : v.owed) : Moves v { v with owed := False, firings := v.firings ++ [v.tick] }
  | erase (cancelled : v.timer.cancelled = true) (free : ¬v.owed) : Moves v { v with listed := False }

namespace TimerManager

variable {ι : Type*} [DecidableEq ι] {m m' : TimerManager ι} {t u : ι} {it : Nat}

/-- The timers that the pass of this tick has still to look at. -/
def ahead (m : TimerManager ι) : List ι :=
  match m.ticker with
  | .sleeping => []
  | .ticked => m.timers
  | .visiting it => m.timers.drop it
  | .enqueuing it | .sweeping it => m.timers.drop (it + 1)

/-- The timer that `WaitEnqueue` is running for. -/
def owed (m : TimerManager ι) : Option ι :=
  match m.ticker with
  | .enqueuing it => m.timers[it]?
  | .sleeping | .ticked | .visiting _ | .sweeping _ => none

/-- The tick values at which a timer was put into `timeout_`. -/
def firings (m : TimerManager ι) (t : ι) : List UInt64 := (m.enqueued.filter fun e => e.1 = t).map Prod.snd

def view (m : TimerManager ι) (t : ι) : TimerView where
  timer := m.timer t
  added := m.added t
  requested := t ∈ m.cancels
  firings := m.firings t
  listed := t ∈ m.timers
  ahead := t ∈ m.ahead
  owed := m.owed = some t
  tick := m.tick

/-- The list has no timer twice, none that was not added, and the iterator is inside it. -/
structure Ordered (m : TimerManager ι) : Prop where
  nodup : m.timers.Nodup
  listed : ∀ t ∈ m.timers, m.added t ≠ none
  inside : ∀ it, m.ticker = .enqueuing it ∨ m.ticker = .sweeping it → it < m.timers.length

/-- A timer is added only once. -/
def AddsFresh (m : TimerManager ι) : TimerAct ι → Prop
  | .addTimer t | .addOneshotTimer t => m.added t = none
  | _ => True

omit [DecidableEq ι] in
theorem mutexHeld_eq_false (free : m.mutexHeld = false) : m.ticker = .sleeping ∨ m.ticker = .ticked := by
  unfold mutexHeld at free
  cases pc : m.ticker <;> simp_all

theorem addTimer_cases (m : TimerManager ι) (t : ι) :
    m.addTimer t = m ∨
      ((m.timer t).expires % resolution = 0 ∧ ¬(m.timer t).expires ≤ 0 ∧
        m.addTimer t = { m.setTimer t { m.timer t with start := m.tick } with
          timers := m.timers ++ [t], added := Function.update m.added t (some m.tick) }) := by
  unfold addTimer
  split_ifs with uneven zero
  · exact Or.inl rfl
  · exact Or.inl rfl
  · exact Or.inr ⟨not_not.mp uneven, zero, rfl⟩

/-- The two ways of adding a timer; `b` is the flag that it has then. -/
theorem add_moves {b : Bool} (kind : b = true ∨ b = (m.timer t).oneshot) (fresh : m.added t = none)
    (free : m.mutexHeld = false) (u : ι) :
    (m.view u).Moves (((m.setTimer t { m.timer t with oneshot := b }).addTimer t).view u) := by
  by_cases here : u = t
  · subst u
    rcases addTimer_cases (m.setTimer t { m.timer t with oneshot := b }) t with same | ⟨even, positive, success⟩
    · rw [same]
      rcases kind with rfl | rfl
      · convert TimerView.Moves.flag (v := m.view t) fresh using 1
        simp [view, setTimer, ahead, owed, firings]
      · convert TimerView.Moves.same using 1
        simp [view, setTimer, ahead, owed, firings]
    · simp only [setTimer, Function.update_self] at even positive
      rw [success]
      convert TimerView.Moves.add (v := m.view t) b (m.ticker = .ticked) fresh even positive using 1
      rcases mutexHeld_eq_false free with pc | pc <;> simp [view, setTimer, ahead, owed, firings, pc]
  · have unchanged : ((m.setTimer t { m.timer t with oneshot := b }).addTimer t).view u = m.view u := by
      rcases addTimer_cases (m.setTimer t { m.timer t with oneshot := b }) t with same | ⟨-, -, success⟩
      · rw [same]
        simp [view, setTimer, ahead, owed, firings, here]
      · rw [success]
        rcases mutexHeld_eq_false free with pc | pc <;> simp [view, setTimer, ahead, owed, firings, pc, here]
    rw [unchanged]
    exact .same

theorem addTimer_moves (fresh : m.added t = none) (free : m.mutexHeld = false) (u : ι) :
    (m.view u).Moves ((m.addTimer t).view u) := by
  have moved := add_moves (Or.inr rfl) fresh free u
  rwa [setTimer, Function.update_eq_self] at moved

theorem cancelTimer_moves (free : m.lockedTimer ≠ some t) (u : ι) : (m.view u).Moves ((m.cancelTimer t).view u) := by
  by_cases here : u = t
  · subst u
    have unowed : ¬(m.view t).owed := by
      intro owed
      refine free ?_
      simp only [view, TimerManager.owed] at owed
      unfold lockedTimer
      cases pc : m.ticker <;> simp_all
    convert TimerView.Moves.cancel unowed using 1
    simp [view, cancelTimer, setTimer, ahead, TimerManager.owed, firings]
  · have unchanged : (m.cancelTimer t).view u = m.view u := by
      simp [view, cancelTimer, setTimer, ahead, owed, firings, here]
    rw [unchanged]
    exact .same

theorem increment_moves (pc : m.ticker = .sleeping) (u : ι) :
    (m.view u).Moves (view { m with tick := m.tick + resolution, ticker := .ticked } u) := by
  have passed : ¬(m.view u).ahead := by simp [view, ahead, pc]
  have free : ¬(m.view u).owed := by simp [view, owed, pc]
  convert TimerView.Moves.tick passed free using 1
  simp [view, ahead, owed, firings, pc]

omit [DecidableEq ι] in
theorem drop_eq (found : m.timers[it]? = some t) : m.timers.drop it = t :: m.timers.drop (it + 1) := by
  obtain ⟨inside, rfl⟩ := List.getElem?_eq_some_iff.mp found
  exact List.drop_eq_getElem_cons inside

omit [DecidableEq ι] in
theorem Ordered.not_mem_drop (ordered : m.Ordered) (found : m.timers[it]? = some t) : t ∉ m.timers.drop (it + 1) := by
  have nodup : (m.timers.drop it).Nodup := ordered.nodup.sublist (List.drop_sublist it m.timers)
  rw [drop_eq found] at nodup
  exact (List.nodup_cons.mp nodup).1

omit [DecidableEq ι] in
theorem Ordered.mem_eraseIdx (ordered : m.Ordered) (found : m.timers[it]? = some t) :
    u ∈ m.timers.eraseIdx it ↔ u ∈ m.timers ∧ u ≠ t := by
  rw [List.mem_eraseIdx_iff_getElem?]
  constructor
  · rintro ⟨i, other, at_i⟩
    refine ⟨List.mem_of_getElem? at_i, ?_⟩
    rintro rfl
    obtain ⟨inside, -⟩ := List.getElem?_eq_some_iff.mp at_i
    exact other ((List.getElem?_inj inside ordered.nodup).mp (at_i.trans found.symm))
  · rintro ⟨member, other⟩
    obtain ⟨i, at_i⟩ := List.mem_iff_getElem?.mp member
    refine ⟨i, ?_, at_i⟩
    rintro rfl
    exact other (Option.some.inj (at_i.symm.trans found))

theorem visit_moves (ordered : m.Ordered) (pc : m.ticker = .visiting it) (found : m.timers[it]? = some t) (u : ι) :
    (m.view u).Moves ((m.visit it t).view u) := by
  have rest := ordered.not_mem_drop found
  have head := drop_eq found
  by_cases here : u = t
  · subst u
    have ahead : (m.view t).ahead := by simp [view, TimerManager.ahead, pc, head]
    by_cases due : (m.timer t).cancelled = false ∧ (m.timer t).expires + (m.timer t).start = m.tick
    · convert TimerView.Moves.expire ahead due.1 due.2 using 1
      simp [view, visit, due, setTimer, TimerManager.ahead, owed, firings, rest, found]
    · convert TimerView.Moves.pass ahead due using 1
      simp [view, visit, due, TimerManager.ahead, owed, firings, rest, pc]
  · have unchanged : (m.visit it t).view u = m.view u := by
      have other : ¬t = u := fun equal => here equal.symm
      unfold visit
      split_ifs <;> simp [view, setTimer, TimerManager.ahead, owed, firings, pc, head, here, found, other]
    rw [unchanged]
    exact .same

theorem enqueue_moves (pc : m.ticker = .enqueuing it) (found : m.timers[it]? = some t) (u : ι) :
    (m.view u).Moves ((m.enqueue it t).view u) := by
  unfold enqueue
  rcases m.timeout.enqueue_cases t with ⟨-, full⟩ | ⟨-, done⟩
  · rw [full]
    exact .same
  · rw [done]
    by_cases here : u = t
    · subst u
      have owed : (m.view t).owed := by simp [view, TimerManager.owed, pc, found]
      convert TimerView.Moves.enqueue owed using 1
      simp [view, ahead, TimerManager.owed, firings, pc]
    · have other : ¬t = u := fun equal => here equal.symm
      convert TimerView.Moves.same using 1
      simp [view, ahead, owed, firings, pc, found, other]

theorem sweep_moves (ordered : m.Ordered) (pc : m.ticker = .sweeping it) (found : m.timers[it]? = some t) (u : ι) :
    (m.view u).Moves ((m.sweep it t).view u) := by
  have inside := ordered.inside it (Or.inr pc)
  unfold sweep
  split_ifs with dead
  · have rest : (m.timers.eraseIdx it).drop it = m.timers.drop (it + 1) := by
      rw [List.eraseIdx_eq_take_drop_succ, List.drop_append_of_le_length (by simp; omega)]
      simp
    have members : u ∈ m.timers.eraseIdx it ↔ u ∈ m.timers ∧ u ≠ t := ordered.mem_eraseIdx found
    by_cases here : u = t
    · subst u
      have free : ¬(m.view t).owed := by simp [view, owed, pc]
      convert TimerView.Moves.erase (v := m.view t) dead.1 free using 1
      simp [view, ahead, owed, firings, pc, rest, members]
    · convert TimerView.Moves.same using 1
      simp [view, ahead, owed, firings, pc, rest, members, here]
  · convert TimerView.Moves.same using 1
    simp [view, ahead, owed, firings, pc]

/-- One step, as each timer sees it. -/
theorem step_moves {a : TimerAct ι} (ordered : m.Ordered) (fresh : m.AddsFresh a) (next : m.step a = some m') (u : ι) :
    (m.view u).Moves (m'.view u) := by
  cases stepped next with
  | addTimer t free => exact addTimer_moves fresh free u
  | addOneshotTimer t free => exact add_moves (Or.inl rfl) fresh free u
  | cancelTimer t free => exact cancelTimer_moves free u
  | increment pc => exact increment_moves pc u
  | beginPass pc =>
    convert TimerView.Moves.same using 1
    simp [view, ahead, owed, firings, pc]
  | visit it t pc found => exact visit_moves ordered pc found u
  | enqueue it t pc found => exact enqueue_moves pc found u
  | sweep it t pc found => exact sweep_moves ordered pc found u
  | endPass pc =>
    convert TimerView.Moves.same using 1
    simp [view, ahead, owed, firings, pc]
  | dequeue pc =>
    unfold dequeue
    split
    · exact .same
    · exact .same
  | callHandler t pc => exact .same
  | handlerReturns t pc => exact .same

end TimerManager

end ServicesFramework
