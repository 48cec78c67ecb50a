import ServicesFramework.TimerViews

namespace ServicesFramework

/-- The first `k` expiries of a timer with period `e` that was added at `a`. -/
def multiples (a e k : Nat) : List Nat := (List.range k).map fun i => a + (i + 1) * e

theorem multiples_succ (a e k : Nat) : multiples a e (k + 1) = multiples a e k ++ [a + (k + 1) * e] := by
  rw [multiples, List.range_succ, List.map_append]
  rfl

namespace Timer

variable (timer : Timer)

theorem expire_start (tick : UInt64) : (timer.expire tick).start = tick := rfl

theorem expire_expires (tick : UInt64) : (timer.expire tick).expires = timer.expires := by
  unfold expire
  split_ifs <;> rfl

theorem expire_oneshot (tick : UInt64) : (timer.expire tick).oneshot = timer.oneshot := by
  unfold expire
  split_ifs <;> rfl

theorem expire_cancelled (uncancelled : timer.cancelled = false) (tick : UInt64) :
    (timer.expire tick).cancelled = timer.oneshot := by
  unfold expire
  split_ifs with oneshot
  · exact oneshot.symm
  · rw [uncancelled]
    simpa using oneshot

end Timer

namespace TimerView

variable {v w : TimerView} {a : UInt64}

/-- The expiries, with the one that `WaitEnqueue` is still working on. -/
def Fired (v : TimerView) (ticks : List Nat) : Prop :=
  (v.owed → v.firings.map UInt64.toNat ++ [v.tick.toNat] = ticks) ∧ (¬v.owed → v.firings.map UInt64.toNat = ticks)

/-- An uncancelled timer that was added at `a`: it has expired `k` times, and the next
deadline is ahead of the clock by a multiple of the resolution, or due in this pass. -/
structure OnSchedule (v : TimerView) (a : UInt64) (k : Nat) : Prop where
  start : v.timer.start.toNat = a.toNat + k * v.timer.expires.toNat
  fired : v.Fired (multiples a.toNat v.timer.expires.toNat k)
  oneshot : v.timer.oneshot = true → k = 0
  begun : v.timer.start.toNat ≤ v.tick.toNat
  due : v.tick.toNat ≤ v.timer.start.toNat + v.timer.expires.toNat
  future : ¬v.ahead → v.tick.toNat < v.timer.start.toNat + v.timer.expires.toNat
  congruent : 5 ∣ v.timer.start.toNat + v.timer.expires.toNat - v.tick.toNat

structure Sound (v : TimerView) : Prop where
  absent : v.added = none →
    ¬v.listed ∧ ¬v.ahead ∧ ¬v.owed ∧ v.firings = [] ∧ (v.timer.cancelled = true → v.requested)
  refcnt : v.timer.refcnt ≤ if v.timer.cancelled then 0 else 1
  requested : v.requested → v.timer.cancelled = true
  free : v.ahead → ¬v.owed
  live : v.added ≠ none → v.timer.cancelled = false → v.listed
  period : v.added ≠ none → 0 < v.timer.expires.toNat ∧ 5 ∣ v.timer.expires.toNat
  schedule : ∀ a, v.added = some a → v.timer.cancelled = false → ∃ k, v.OnSchedule a k
  expired : ∀ a, v.added = some a → ¬v.requested → v.timer.cancelled = true →
    v.timer.oneshot = true ∧ v.Fired [a.toNat + v.timer.expires.toNat]

/-- The deadline of an uncancelled timer fits into 64 bits. -/
def NoOverflow (v : TimerView) : Prop :=
  v.listed → v.timer.cancelled = false → v.timer.start.toNat + v.timer.expires.toNat < 2 ^ 64

theorem Sound.add (sound : v.Sound) (oneshot : Bool) (ahead : Prop) (absent : v.added = none)
    (fits : v.timer.expires % TimerManager.resolution = 0) (positive : ¬v.timer.expires ≤ 0) :
    Sound { v with
      timer := { v.timer with oneshot := oneshot, start := v.tick }, added := some v.tick, listed := True,
      ahead := ahead } := by
  obtain ⟨-, -, unowed, none, asked⟩ := sound.absent absent
  have even : v.timer.expires.toNat % 5 = 0 := by
    have mod := congrArg UInt64.toNat fits
    simpa [TimerManager.resolution] using mod
  have nonzero : 0 < v.timer.expires.toNat := by
    rw [UInt64.le_iff_toNat_le] at positive
    exact Nat.lt_of_not_le positive
  refine ⟨by simp, sound.refcnt, sound.requested, fun _ => unowed, by simp, fun _ => ⟨nonzero, Nat.dvd_of_mod_eq_zero even⟩, ?_, ?_⟩
  · intro a added uncancelled
    cases added
    refine ⟨0, ⟨by simp, ?_, fun _ => rfl, Nat.le_refl _, Nat.le_add_right _ _, fun _ => by simpa using nonzero, ?_⟩⟩
    · exact ⟨fun owed => absurd owed unowed, fun _ => by simp [none, multiples]⟩
    · simpa using Nat.dvd_of_mod_eq_zero even
  · intro a added unasked cancelled
    exact absurd (asked cancelled) unasked

theorem Sound.flag (sound : v.Sound) (absent : v.added = none) :
    Sound { v with timer := { v.timer with oneshot := true } } := by
  refine ⟨sound.absent, sound.refcnt, sound.requested, sound.free, fun present => absurd absent present,
    fun present => absurd absent present, ?_, ?_⟩
  · intro a added
    simp [absent] at added
  · intro a added
    simp [absent] at added

theorem Sound.cancel (sound : v.Sound) :
    Sound { v with timer := { v.timer with refcnt := v.timer.refcnt - 1, cancelled := true }, requested := True } := by
  have count := sound.refcnt
  refine ⟨?_, ?_, fun _ => rfl, sound.free, ?_, sound.period, ?_, ?_⟩
  · intro absent
    obtain ⟨unlisted, passed, unowed, none, -⟩ := sound.absent absent
    exact ⟨unlisted, passed, unowed, none, fun _ => trivial⟩
  · simp only [if_true]
    split_ifs at count <;> omega
  · intro added uncancelled
    cases uncancelled
  · intro a added uncancelled
    cases uncancelled
  · intro a added unasked
    exact absurd trivial unasked

/-- The clock can go on: the deadline of an uncancelled timer is at least one tick away. -/
theorem Sound.tick (sound : v.Sound) (fits : v.NoOverflow) (passed : ¬v.ahead) (unowed : ¬v.owed) :
    Sound { v with tick := v.tick + TimerManager.resolution, ahead := v.listed } := by
  have unfired {ticks : List Nat} (fired : v.Fired ticks) :
      Fired { v with tick := v.tick + TimerManager.resolution, ahead := v.listed } ticks :=
    ⟨fun owed => absurd owed unowed, fired.2⟩
  refine ⟨?_, sound.refcnt, sound.requested, fun _ => unowed, sound.live, sound.period, ?_, ?_⟩
  · intro absent
    obtain ⟨unlisted, -, rest⟩ := sound.absent absent
    exact ⟨unlisted, unlisted, rest⟩
  · intro a added uncancelled
    dsimp only at added uncancelled
    obtain ⟨k, schedule⟩ := sound.schedule a added uncancelled
    have listed : v.listed := sound.live (by simp [added]) uncancelled
    have bound := fits listed uncancelled
    have future := schedule.future passed
    obtain ⟨q, gap⟩ := schedule.congruent
    have begun := schedule.begun
    have clock : (v.tick + TimerManager.resolution).toNat = v.tick.toNat + 5 := by
      rw [UInt64.toNat_add]
      exact Nat.mod_eq_of_lt (by simp [TimerManager.resolution]; omega)
    refine ⟨k, schedule.start, unfired schedule.fired, schedule.oneshot, ?_, ?_, fun away => absurd listed away, ?_⟩
    · dsimp only
      omega
    · dsimp only
      omega
    · dsimp only
      exact ⟨q - 1, by omega⟩
  · intro a added unasked cancelled
    obtain ⟨oneshot, fired⟩ := sound.expired a added unasked cancelled
    exact ⟨oneshot, unfired fired⟩

/-- The 64-bit test of `TimersTick` says whether the deadline is now. -/
theorem due_iff (fits : v.timer.start.toNat + v.timer.expires.toNat < 2 ^ 64) :
    v.timer.expires + v.timer.start = v.tick ↔ v.timer.start.toNat + v.timer.expires.toNat = v.tick.toNat := by
  rw [← UInt64.toNat_inj, UInt64.toNat_add, Nat.mod_eq_of_lt (by omega), Nat.add_comm]

theorem Sound.expire (sound : v.Sound) (fits : v.NoOverflow) (ahead : v.ahead) (uncancelled : v.timer.cancelled = false)
    (now : v.timer.expires + v.timer.start = v.tick) :
    Sound { v with timer := v.timer.expire v.tick, ahead := False, owed := True } := by
  have unowed := sound.free ahead
  have count := sound.refcnt
  have present : v.added ≠ none := fun absent => (sound.absent absent).2.1 ahead
  have listed := sound.live present uncancelled
  have deadline := (due_iff (fits listed uncancelled)).mp now
  obtain ⟨positive, even⟩ := sound.period present
  have period := v.timer.expire_expires v.tick
  have start := v.timer.expire_start v.tick
  have kind := v.timer.expire_oneshot v.tick
  have dead := v.timer.expire_cancelled uncancelled v.tick
  refine ⟨fun absent => absurd absent present, ?_, ?_, False.elim, fun _ _ => listed, ?_, ?_, ?_⟩
  · rw [dead]
    simp only [uncancelled, Bool.false_eq_true, if_false] at count
    unfold Timer.expire
    split_ifs
    · simp only
      omega
    · exact count
  · intro asked
    exact absurd (sound.requested asked) (by simp [uncancelled])
  · intro _
    rw [period]
    exact ⟨positive, even⟩
  · intro a added alive
    obtain ⟨k, schedule⟩ := sound.schedule a added uncancelled
    have clock : v.tick.toNat = a.toNat + (k + 1) * v.timer.expires.toNat := by
      rw [← deadline, schedule.start, Nat.succ_mul, Nat.add_assoc]
    have periodic : v.timer.oneshot = false := dead ▸ alive
    refine ⟨k + 1, ?_, ⟨fun _ => ?_, fun unowed' => absurd trivial unowed'⟩, ?_, ?_, ?_, ?_, ?_⟩
    · rw [start, period, clock]
    · rw [period, multiples_succ, ← clock, ← schedule.fired.2 unowed]
    · intro oneshot
      rw [kind, periodic] at oneshot
      cases oneshot
    · rw [start]
    · rw [start]
      exact Nat.le_add_right _ _
    · intro _
      rw [start, period]
      exact Nat.lt_add_of_pos_right positive
    · rw [start, period, Nat.add_sub_cancel_left]
      exact even
  · intro a added unasked gone
    obtain ⟨k, schedule⟩ := sound.schedule a added uncancelled
    have oneshot : v.timer.oneshot = true := dead ▸ gone
    obtain rfl : k = 0 := schedule.oneshot oneshot
    have clock : v.tick.toNat = a.toNat + v.timer.expires.toNat := by
      rw [← deadline, schedule.start, Nat.zero_mul, Nat.add_zero]
    have none : v.firings.map UInt64.toNat = [] := schedule.fired.2 unowed
    refine ⟨kind.trans oneshot, fun _ => ?_, fun unowed' => absurd trivial unowed'⟩
    rw [period, ← clock, none, List.nil_append]

theorem Sound.pass (sound : v.Sound) (fits : v.NoOverflow)
    (notDue : ¬(v.timer.cancelled = false ∧ v.timer.expires + v.timer.start = v.tick)) :
    Sound { v with ahead := False } := by
  refine ⟨?_, sound.refcnt, sound.requested, False.elim, sound.live, sound.period, ?_, sound.expired⟩
  · intro absent
    obtain ⟨unlisted, -, rest⟩ := sound.absent absent
    exact ⟨unlisted, id, rest⟩
  · intro a added uncancelled
    dsimp only at added uncancelled
    obtain ⟨k, schedule⟩ := sound.schedule a added uncancelled
    have listed : v.listed := sound.live (by simp [added]) uncancelled
    have later : v.timer.start.toNat + v.timer.expires.toNat ≠ v.tick.toNat :=
      fun equal => notDue ⟨uncancelled, (due_iff (fits listed uncancelled)).mpr equal⟩
    have due := schedule.due
    exact ⟨k, schedule.start, schedule.fired, schedule.oneshot, schedule.begun, due, fun _ => by dsimp only; omega,
      schedule.congruent⟩

theorem Sound.enqueue (sound : v.Sound) (owed : v.owed) :
    Sound { v with owed := False, firings := v.firings ++ [v.tick] } := by
  have enqueued {ticks : List Nat} (fired : v.Fired ticks) :
      Fired { v with owed := False, firings := v.firings ++ [v.tick] } ticks :=
    ⟨False.elim, fun _ => by simpa using fired.1 owed⟩
  refine ⟨fun absent => absurd owed (sound.absent absent).2.2.1, sound.refcnt, sound.requested, fun _ => id, sound.live,
    sound.period, ?_, ?_⟩
  · intro a added uncancelled
    obtain ⟨k, schedule⟩ := sound.schedule a added uncancelled
    exact ⟨k, { schedule with fired := enqueued schedule.fired }⟩
  · intro a added unasked cancelled
    obtain ⟨oneshot, fired⟩ := sound.expired a added unasked cancelled
    exact ⟨oneshot, enqueued fired⟩

theorem Sound.erase (sound : v.Sound) (cancelled : v.timer.cancelled = true) : Sound { v with listed := False } := by
  refine ⟨?_, sound.refcnt, sound.requested, sound.free, ?_, sound.period, ?_, sound.expired⟩
  · intro absent
    exact ⟨id, (sound.absent absent).2⟩
  · intro _ uncancelled
    simp [cancelled] at uncancelled
  · intro a _ uncancelled
    simp [cancelled] at uncancelled

theorem Sound.moves (sound : v.Sound) (fits : v.NoOverflow) (moves : v.Moves w) : w.Sound := by
  cases moves with
  | same => exact sound
  | flag absent => exact sound.flag absent
  | add oneshot ahead absent even positive => exact sound.add oneshot ahead absent even positive
  | cancel free => exact sound.cancel
  | tick passed free => exact sound.tick fits passed free
  | expire ahead uncancelled due => exact sound.expire fits ahead uncancelled due
  | pass ahead notDue => exact sound.pass fits notDue
  | enqueue owed => exact sound.enqueue owed
  | erase cancelled free => exact sound.erase cancelled

theorem Moves.expires_eq (moves : v.Moves w) : w.timer.expires = v.timer.expires := by
  cases moves with
  | same | flag | add | cancel | tick | pass | enqueue | erase => rfl
  | expire => exact v.timer.expire_expires v.tick

/-- A timer that is cancelled and not being enqueued expires no more. -/
theorem Moves.frozen (moves : v.Moves w) (cancelled : v.timer.cancelled = true) (free : ¬v.owed) :
    w.timer.cancelled = true ∧ ¬w.owed ∧ w.firings = v.firings := by
  cases moves with
  | same | flag | add | tick | pass | erase => exact ⟨cancelled, free, rfl⟩
  | cancel => exact ⟨rfl, free, rfl⟩
  | expire ahead uncancelled => simp [cancelled] at uncancelled
  | enqueue owed => exact absurd owed free

end TimerView

end ServicesFramework
