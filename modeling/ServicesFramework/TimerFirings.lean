import ServicesFramework.TimerRuns

namespace ServicesFramework

namespace TimerManager

variable {ι : Type*} [DecidableEq ι] {m m' : TimerManager ι} {a : TimerAct ι} {t : ι} {acts : List (TimerAct ι)}

/-- During a pass: a timer that can be erased is not among those the pass has left behind. -/
def Swept (t : ι) (m : TimerManager ι) : Prop :=
  (m.timer t).cancelled = true ∧ (m.timer t).refcnt ≤ 0 ∧
    ∃ it, (m.ticker = .visiting it ∨ m.ticker = .enqueuing it ∨ m.ticker = .sweeping it) ∧ t ∉ m.timers.take it

omit [DecidableEq ι] in
theorem Swept.held (swept : m.Swept t) : m.mutexHeld = true := by
  obtain ⟨-, -, it, pc | pc | pc, -⟩ := swept <;> simp [mutexHeld, pc]

theorem Swept.step (swept : m.Swept t) (notLast : a ≠ .endPass) (next : m.step a = some m') : m'.Swept t := by
  have locked := swept.held
  obtain ⟨cancelled, count, it, pc, left⟩ := swept
  cases stepped next with
  | addTimer u free => simp [locked] at free
  | addOneshotTimer u free => simp [locked] at free
  | cancelTimer u free =>
    by_cases here : t = u
    · subst u
      exact ⟨by simp [cancelTimer, setTimer], by simp [cancelTimer, setTimer]; omega, it, pc, left⟩
    · exact ⟨by simpa [cancelTimer, setTimer, here] using cancelled, by simpa [cancelTimer, setTimer, here] using count,
        it, pc, left⟩
  | increment pc' => simp [pc'] at pc
  | beginPass pc' => simp [pc'] at pc
  | visit it' u pc' found =>
    obtain rfl : it' = it := by simpa [pc'] using pc
    unfold visit
    split_ifs with due
    · have other : t ≠ u := by
        rintro rfl
        simp [cancelled] at due
      exact ⟨by simpa [setTimer, other] using cancelled, by simpa [setTimer, other] using count, it', by simp, left⟩
    · exact ⟨cancelled, count, it', by simp, left⟩
  | enqueue it' u pc' found =>
    obtain rfl : it' = it := by simpa [pc'] using pc
    unfold enqueue
    rcases m.timeout.enqueue_cases u with ⟨-, full⟩ | ⟨-, done⟩
    · rw [full]
      exact ⟨cancelled, count, it', pc, left⟩
    · rw [done]
      exact ⟨cancelled, count, it', by simp, left⟩
  | sweep it' u pc' found =>
    obtain rfl : it' = it := by simpa [pc'] using pc
    unfold sweep
    split_ifs with dead
    · obtain ⟨inside, -⟩ := List.getElem?_eq_some_iff.mp found
      have full : it' ≤ (m.timers.take it').length := by
        rw [List.length_take]
        omega
      have same : (m.timers.eraseIdx it').take it' = m.timers.take it' := by
        rw [List.eraseIdx_eq_take_drop_succ, List.take_append_of_le_length full, List.take_take, Nat.min_self]
      exact ⟨cancelled, count, it', by simp, by simpa [same] using left⟩
    · have other : t ≠ u := by
        rintro rfl
        exact dead ⟨cancelled, count⟩
      refine ⟨cancelled, count, it' + 1, by simp, ?_⟩
      rw [List.take_add_one, found]
      simpa [other] using left
  | endPass pc' => exact absurd rfl notLast
  | dequeue pc' =>
    unfold dequeue
    split
    · exact ⟨cancelled, count, it, pc, left⟩
    · exact ⟨cancelled, count, it, pc, left⟩
  | callHandler u pc' => exact ⟨cancelled, count, it, pc, left⟩
  | handlerReturns u pc' => exact ⟨cancelled, count, it, pc, left⟩

/-- A whole pass takes the timers that were cancelled before it out of the list. -/
theorem pass_removes {pass : List (TimerAct ι)} (sound : m.Sound) (cancelled : (m.timer t).cancelled = true)
    (inner : .endPass ∉ pass) (reach : Machine.run step m (.beginPass :: (pass ++ [.endPass])) = some m') :
    t ∉ m'.timers := by
  obtain ⟨n, first, rest⟩ := Machine.run_cons.mp reach
  obtain ⟨n', middle, last⟩ := Machine.run_snoc.mp rest
  have count : (m.timer t).refcnt ≤ 0 := by
    have bound : (m.timer t).refcnt ≤ if (m.timer t).cancelled then 0 else 1 := (sound.2 t).refcnt
    simpa [cancelled] using bound
  have start : n.Swept t := by
    cases stepped first with
    | beginPass pc => exact ⟨cancelled, count, 0, by simp, by simp⟩
  have swept : n'.Swept t := by
    refine Machine.run_invariant_along (I := fun n => n.Swept t) (P := fun _ a => a ≠ .endPass) ?_ start ?_ middle
    · exact fun _ _ _ swept notLast next => swept.step notLast next
    · exact Machine.along_of_forall fun a member _ equal => inner (equal ▸ member)
  cases stepped last with
  | endPass pc =>
    obtain ⟨-, -, it, pc', left⟩ := swept
    obtain rfl : n'.timers.length = it := by simpa [pc] using pc'
    simpa using left

omit [DecidableEq ι] in
theorem owed_of_sleeping (asleep : m.ticker = .sleeping) : m.owed ≠ some t := by
  simp [owed, asleep]

/-- A periodic timer that nobody has cancelled. -/
theorem Sound.periodic {b : UInt64} (sound : m.Sound) (added : m.added t = some b)
    (periodic : (m.timer t).oneshot = false) (uncancelled : t ∉ m.cancels) :
    ∃ k, (m.firings t).map UInt64.toNat = multiples b.toNat (m.timer t).expires.toNat k ∧
      b.toNat + k * (m.timer t).expires.toNat ≤ m.tick.toNat ∧
      m.tick.toNat ≤ b.toNat + (k + 1) * (m.timer t).expires.toNat ∧
      (m.ticker = .sleeping → m.tick.toNat < b.toNat + (k + 1) * (m.timer t).expires.toNat) := by
  have view := sound.2 t
  have alive : (m.timer t).cancelled = false := by
    refine Bool.eq_false_iff.mpr fun cancelled => ?_
    have oneshot := (view.expired b added uncancelled cancelled).1
    exact absurd (periodic.symm.trans oneshot) (by decide)
  obtain ⟨k, schedule⟩ := view.schedule b added alive
  have start : (m.timer t).start.toNat = b.toNat + k * (m.timer t).expires.toNat := schedule.start
  have begun : (m.timer t).start.toNat ≤ m.tick.toNat := schedule.begun
  have due : m.tick.toNat ≤ (m.timer t).start.toNat + (m.timer t).expires.toNat := schedule.due
  have next (k : Nat) : b.toNat + (k + 1) * (m.timer t).expires.toNat =
      b.toNat + k * (m.timer t).expires.toNat + (m.timer t).expires.toNat := by
    rw [Nat.succ_mul, Nat.add_assoc]
  by_cases owed : m.owed = some t
  · have ticks : (m.firings t).map UInt64.toNat ++ [m.tick.toNat] = _ := schedule.fired.1 owed
    cases k with
    | zero => simp [multiples] at ticks
    | succ j =>
      rw [multiples_succ] at ticks
      obtain ⟨earlier, now⟩ := List.append_inj' ticks rfl
      have clock : m.tick.toNat = b.toNat + (j + 1) * (m.timer t).expires.toNat := List.singleton_inj.mp now
      have step := next j
      exact ⟨j, earlier, by omega, by omega, fun asleep => absurd owed (owed_of_sleeping asleep)⟩
  · have step := next k
    refine ⟨k, schedule.fired.2 owed, by omega, by omega, fun asleep => ?_⟩
    have future : m.tick.toNat < (m.timer t).start.toNat + (m.timer t).expires.toNat :=
      schedule.future (by simp [TimerManager.view, ahead, asleep])
    omega

/-- A one-shot timer that nobody has cancelled. -/
theorem Sound.oneshot {b : UInt64} (sound : m.Sound) (added : m.added t = some b)
    (oneshot : (m.timer t).oneshot = true) (uncancelled : t ∉ m.cancels) :
    (m.firings t).map UInt64.toNat = [b.toNat + (m.timer t).expires.toNat] ∨
      (m.firings t = [] ∧ m.tick.toNat ≤ b.toNat + (m.timer t).expires.toNat ∧
        (m.ticker = .sleeping → m.tick.toNat < b.toNat + (m.timer t).expires.toNat)) := by
  have view := sound.2 t
  cases state : (m.timer t).cancelled with
  | true =>
    obtain ⟨-, fired⟩ := view.expired b added uncancelled state
    by_cases owed : m.owed = some t
    · have ticks : (m.firings t).map UInt64.toNat ++ [m.tick.toNat] = [] ++ [b.toNat + (m.timer t).expires.toNat] :=
        fired.1 owed
      obtain ⟨none, now⟩ := List.append_inj' ticks rfl
      have clock : m.tick.toNat = b.toNat + (m.timer t).expires.toNat := List.singleton_inj.mp now
      exact Or.inr ⟨List.map_eq_nil_iff.mp none, by omega, fun asleep => absurd owed (owed_of_sleeping asleep)⟩
    · exact Or.inl (fired.2 owed)
  | false =>
    obtain ⟨k, schedule⟩ := view.schedule b added state
    obtain rfl : k = 0 := schedule.oneshot oneshot
    have start : (m.timer t).start.toNat = b.toNat + 0 * (m.timer t).expires.toNat := schedule.start
    have due : m.tick.toNat ≤ (m.timer t).start.toNat + (m.timer t).expires.toNat := schedule.due
    rw [Nat.zero_mul, Nat.add_zero] at start
    have unowed : m.owed ≠ some t := by
      intro owed
      have ticks : (m.firings t).map UInt64.toNat ++ [m.tick.toNat] = [] := schedule.fired.1 owed
      simp at ticks
    refine Or.inr ⟨List.map_eq_nil_iff.mp (schedule.fired.2 unowed), by omega, fun asleep => ?_⟩
    have future : m.tick.toNat < (m.timer t).start.toNat + (m.timer t).expires.toNat :=
      schedule.future (by simp [TimerManager.view, ahead, asleep])
    omega

/-- The schedule of every timer in every run: periodic timers, one-shot timers, what a
cancellation stops, what a pass removes, and the order of the handler calls. -/
theorem timer_firing_schedule {expires uninit : ι → UInt64}
    (allowed : Machine.Along step Allowed (init expires uninit) acts)
    (reach : Machine.run step (init expires uninit) acts = some m) :
    (∀ t a, m.added t = some a → (m.timer t).oneshot = false → t ∉ m.cancels →
      ∃ k, (m.firings t).map UInt64.toNat = multiples a.toNat (expires t).toNat k ∧
        a.toNat + k * (expires t).toNat ≤ m.tick.toNat ∧ m.tick.toNat ≤ a.toNat + (k + 1) * (expires t).toNat ∧
        (m.ticker = .sleeping → m.tick.toNat < a.toNat + (k + 1) * (expires t).toNat)) ∧
    (∀ t a, m.added t = some a → (m.timer t).oneshot = true → t ∉ m.cancels →
      (m.firings t).map UInt64.toNat = [a.toNat + (expires t).toNat] ∨
        (m.firings t = [] ∧ m.tick.toNat ≤ a.toNat + (expires t).toNat ∧
          (m.ticker = .sleeping → m.tick.toNat < a.toNat + (expires t).toNat))) ∧
    (∀ before after t u, acts = before ++ .cancelTimer t :: after →
      Machine.run step (init expires uninit) before = some u → m.firings t = u.firings t) ∧
    (∀ before pass t u, acts = before ++ .beginPass :: (pass ++ [.endPass]) → .endPass ∉ pass →
      Machine.run step (init expires uninit) before = some u → (u.timer t).cancelled = true → t ∉ m.timers) ∧
    m.called <+: m.enqueued.map Prod.fst := by
  have sound := run_sound allowed reach
  refine ⟨?_, ?_, ?_, ?_, called_initial reach⟩
  · intro t a added periodic uncancelled
    rw [← run_expires allowed reach t]
    exact sound.periodic added periodic uncancelled
  · intro t a added oneshot uncancelled
    rw [← run_expires allowed reach t]
    exact sound.oneshot added oneshot uncancelled
  · rintro before after t u rfl first
    obtain ⟨n, first', rest⟩ := Machine.run_append.mp reach
    obtain rfl : u = n := Option.some.inj (first.symm.trans first')
    have earlier := run_sound (Machine.along_initial allowed) first
    exact run_cancelled earlier (Machine.along_suffix allowed first) rest
  · rintro before pass t u rfl inner first cancelled
    obtain ⟨n, first', rest⟩ := Machine.run_append.mp reach
    obtain rfl : u = n := Option.some.inj (first.symm.trans first')
    have earlier := run_sound (Machine.along_initial allowed) first
    exact pass_removes earlier cancelled inner rest

/-- A periodic and a one-shot timer of one tick each, up to the first handler call. -/
theorem timer_firing_schedule_first_tick :
    ∃ m : TimerManager Bool, Machine.run step (init (fun _ => 5) fun _ => 0)
        [.addTimer false, .addOneshotTimer true, .increment, .beginPass, .visit, .enqueue, .sweep, .visit, .enqueue,
          .sweep, .endPass, .dequeue, .callHandler] = some m ∧
      (∃ k, (m.firings false).map UInt64.toNat = multiples 0 5 k ∧ m.tick.toNat < 0 + (k + 1) * 5) ∧
      m.called <+: m.enqueued.map Prod.fst := by
  have facts : (Machine.run step (init (fun _ : Bool => 5) fun _ => 0)
      [.addTimer false, .addOneshotTimer true, .increment, .beginPass, .visit, .enqueue, .sweep, .visit, .enqueue,
        .sweep, .endPass, .dequeue, .callHandler]).any (fun m => decide (m.added false = some 0 ∧
      (m.timer false).oneshot = false ∧ false ∉ m.cancels ∧ m.ticker = .sleeping)) = true := by decide
  obtain ⟨m, reach, facts⟩ := (Option.any_eq_true _ _).mp facts
  obtain ⟨added, kind, alive, asleep⟩ := of_decide_eq_true facts
  obtain ⟨periodic, -, -, -, calls⟩ := timer_firing_schedule (by decide) reach
  obtain ⟨k, firings, -, -, ahead⟩ := periodic false 0 added kind alive
  exact ⟨m, reach, ⟨k, firings, ahead asleep⟩, calls⟩

end TimerManager

end ServicesFramework
