import ServicesFramework.CollectorTimers
import ServicesFramework.TimerRuns

namespace ServicesFramework

namespace CollectorService

variable {η : Type*} {s s' : CollectorService η} {act : ServiceAct η} {acts : List (ServiceAct η)}

/-- How far a thread is from one that can go on. -/
def rank (s : CollectorService η) (ticker : Nat) : ServiceThread → Nat
  | .ticker => ticker
  | .worker => if s.collectorHolds then 2 else 1
  | .collector => if s.collectorHolds then 1 else 2

theorem not_deadlocked_of_rank (ticker : Nat) (decreases : ∀ x y, s.WaitsFor x y → s.rank ticker y < s.rank ticker x) :
    ¬s.Deadlocked := by
  rintro ⟨thread, cycle⟩
  have descent := cycle.lift (p := fun m n => n < m) (s.rank ticker) decreases
  rw [Relation.transGen_eq_self] at descent
  exact lt_irrefl _ descent

theorem rank_mutex {ticker : Nat} (waits : s.WaitsFor .worker .collector) :
    s.rank ticker .collector < s.rank ticker .worker := by
  simp [rank, waits.2]

theorem rank_entering {ticker : Nat} (waits : s.WaitsFor .collector .worker) :
    s.rank ticker .worker < s.rank ticker .collector := by
  obtain ⟨⟨nexthop, pc⟩, -⟩ := waits
  simp [rank, collectorHolds, pc]

theorem rank_pos (thread : ServiceThread) (other : thread ≠ .ticker) : 0 < s.rank 0 thread ∧ s.rank 3 thread < 3 := by
  cases thread with
  | ticker => exact absurd rfl other
  | worker | collector =>
    simp only [rank]
    split_ifs <;> decide

/-- A cycle runs through the full queue and through the mutex of the manager. -/
theorem Deadlocked.edges (deadlocked : s.Deadlocked) (capacity : 0 < s.manager.timeout.poolSize) :
    s.WaitsFor .ticker .worker ∧ s.WaitsFor .collector .ticker := by
  by_contra broken
  by_cases blocked : s.WaitsFor .ticker .worker
  · -- the ticker waits: what remains is that nobody waits for it
    have apart : ¬s.WaitsFor .collector .ticker := fun waits => broken ⟨blocked, waits⟩
    have full := blocked.2
    have fed : ¬s.WaitsFor .worker .ticker := by
      rintro ⟨-, -, empty⟩
      rw [empty, List.length_nil] at full
      omega
    refine not_deadlocked_of_rank 3 ?_ deadlocked
    intro x y waits
    match x, y with
    | .ticker, .worker => exact (rank_pos .worker (by decide)).2
    | .worker, .collector => exact rank_mutex waits
    | .worker, .ticker => exact absurd waits fed
    | .collector, .worker => exact rank_entering waits
    | .collector, .ticker => exact absurd waits apart
  · refine not_deadlocked_of_rank 0 ?_ deadlocked
    intro x y waits
    match x, y with
    | .ticker, .worker => exact absurd waits blocked
    | .worker, .collector => exact rank_mutex waits
    | .worker, .ticker => exact (rank_pos .worker (by decide)).1
    | .collector, .worker => exact rank_entering waits
    | .collector, .ticker => exact (rank_pos .collector (by decide)).1

/-- Every timer belongs to a next hop of the map, and not to the one that is being added. -/
structure Consistent (s : CollectorService η) : Prop where
  ordered : s.manager.Ordered
  known : ∀ t, s.manager.added t ≠ none → t ∈ s.batsBufferMap ∧ s.collector ≠ .adding t
  adding : ∀ nexthop, s.collector = .adding nexthop → nexthop ∈ s.batsBufferMap
  capacity : s.manager.timeout.poolSize = 10

theorem Consistent.setHandler (consistent : s.Consistent) (pc : HandlerPc) : Consistent { s with handler := pc } :=
  ⟨consistent.ordered, consistent.known, consistent.adding, consistent.capacity⟩

theorem Consistent.setCollector {pc : CollectorPc η} (consistent : s.Consistent)
    (plain : ∀ nexthop, pc ≠ .adding nexthop) : Consistent { s with collector := pc } where
  ordered := consistent.ordered
  known := fun t added => ⟨(consistent.known t added).1, plain t⟩
  adding := fun nexthop equal => absurd equal (plain nexthop)
  capacity := consistent.capacity

variable [DecidableEq η] {a : TimerAct η}

theorem init_consistent (uninit : η → UInt64) : (init uninit).Consistent :=
  ⟨(TimerManager.init_sound _ uninit).1, by simp [init, TimerManager.init], by simp [init], rfl⟩

theorem Consistent.managed (consistent : s.Consistent) (service : ∀ t, a ≠ .addTimer t ∧ a ≠ .addOneshotTimer t)
    (next : s.managed a = some s') : s'.Consistent := by
  obtain ⟨manager, moved, rfl⟩ := Option.map_eq_some_iff.mp next
  have fresh : s.manager.AddsFresh a := by
    cases a with
    | addTimer t => exact absurd rfl (service t).1
    | addOneshotTimer t => exact absurd rfl (service t).2
    | _ => trivial
  refine ⟨consistent.ordered.step fresh moved, ?_, consistent.adding, ?_⟩
  · intro t added
    rw [TimerManager.step_added moved (service t)] at added
    exact consistent.known t added
  · rw [TimerManager.step_poolSize moved]
    exact consistent.capacity

theorem Consistent.step (consistent : s.Consistent) (next : s.step act = some s') : s'.Consistent := by
  cases act with
  | increment | beginPass | visit | enqueue | sweep | endPass | dequeue => exact consistent.managed (by simp) next
  | callHandler =>
    obtain ⟨u, moved, rfl⟩ := Option.map_eq_some_iff.mp next
    exact (consistent.managed (by simp) moved).setHandler _
  | handlerReturns =>
    simp only [CollectorService.step] at next
    split_ifs at next
    obtain ⟨u, moved, rfl⟩ := Option.map_eq_some_iff.mp next
    exact (consistent.managed (by simp) moved).setHandler _
  | handlerLock | handlerUnlock =>
    simp only [CollectorService.step] at next
    split_ifs at next
    cases next
    exact consistent.setHandler _
  | handleMsg nexthop | collectorUnlock =>
    simp only [CollectorService.step] at next
    split_ifs at next
    cases next
    exact consistent.setCollector (by simp)
  | collectorLock =>
    simp only [CollectorService.step] at next
    split at next
    · split_ifs at next
      cases next
      exact consistent.setCollector (by simp)
    · cases next
  | find =>
    simp only [CollectorService.step] at next
    split at next
    · rename_i nexthop pc
      split_ifs at next with old
      · cases next
        exact consistent.setCollector (by simp)
      · cases next
        refine ⟨consistent.ordered, fun t added => ?_, by simp, consistent.capacity⟩
        have member := (consistent.known t added).1
        refine ⟨List.mem_cons_of_mem nexthop member, ?_⟩
        rintro equal
        cases equal
        exact old member
    · cases next
  | addTimer =>
    simp only [CollectorService.step] at next
    split at next
    · rename_i nexthop pc
      obtain ⟨u, lifted, rfl⟩ := Option.map_eq_some_iff.mp next
      obtain ⟨manager, moved, rfl⟩ := Option.map_eq_some_iff.mp lifted
      have fresh : s.manager.AddsFresh (.addTimer nexthop) := by
        by_contra added
        exact (consistent.known nexthop added).2 pc
      refine ⟨consistent.ordered.step fresh moved, fun t added => ⟨?_, by simp⟩, by simp, ?_⟩
      · by_cases here : t = nexthop
        · exact here ▸ consistent.adding nexthop pc
        · rw [TimerManager.step_added moved ⟨by simpa using Ne.symm here, by simp⟩] at added
          exact (consistent.known t added).1
      · rw [TimerManager.step_poolSize moved]
        exact consistent.capacity
    · cases next

theorem run_consistent {uninit : η → UInt64} (reach : Machine.run step (init uninit) acts = some s) : s.Consistent :=
  Machine.run_invariant (I := Consistent) (fun _ _ _ consistent next => consistent.step next)
    (init_consistent uninit) reach

/-- With one next hop, `AddTimer` is called only while there is no timer that could expire. -/
theorem not_deadlocked_of_subsingleton [Subsingleton η] {uninit : η → UInt64}
    (reach : Machine.run step (init uninit) acts = some s) : ¬s.Deadlocked := by
  intro deadlocked
  have consistent := run_consistent reach
  obtain ⟨⟨⟨it, pc⟩, -⟩, ⟨nexthop, adding⟩, -⟩ := deadlocked.edges (by rw [consistent.capacity]; decide)
  have inside : it < s.manager.timers.length := consistent.ordered.inside it (Or.inl pc)
  have added := consistent.ordered.listed _ (List.getElem_mem inside)
  refine (consistent.known _ added).2 ?_
  rw [adding, Subsingleton.elim nexthop]

end CollectorService

end ServicesFramework
