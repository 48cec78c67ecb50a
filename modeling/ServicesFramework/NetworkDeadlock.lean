import ServicesFramework.NetworkStops

namespace ServicesFramework.Network

open Machine

variable {ν ι : Type*} {sv : Services ν ι} {D : Set ι} {job : ι → Nat × BaseMsg × List BaseMsg}
  {s u : Network ν ι} {t : ι} {role : Role ν}

/-- Threads that wait for each other: each one is in `WriteMessage`, with its job, on a full
channel that none but them reads. -/
def Deadlocked (sv : Services ν ι) (D : Set ι) (job : ι → Nat × BaseMsg × List BaseMsg) (s : Network ν ι) : Prop :=
  ∀ t ∈ D, (∃ pc, s.pcs t = .write (job t).1 (job t).2.1 (job t).2.2 pc) ∧
    (s.queues (job t).1).breakAllWait = false ∧
    (s.queues (job t).1).poolSize ≤ (s.queues (job t).1).pool.length ∧
    ∀ r n, sv.role r = some (.worker n (job t).1) → r ∈ D

variable [DecidableEq ν] [DecidableEq ι]

/-- A thread outside of `D` leaves the channels of `D` as they are. -/
theorem Effect.full_queue {c : Nat} (effect : Effect sv s t role u) (atRole : sv.role t = some role)
    (full : (s.queues c).poolSize ≤ (s.queues c).pool.length)
    (reader : ∀ n, sv.role t ≠ some (.worker n c)) : u.queues c = s.queues c := by
  cases effect with
  | turn | unrouted | broken | stop | fdWrite | handled => rfl
  | take n channel front rest worker _ _ =>
    have other : c ≠ channel := by
      rintro rfl
      exact reader n (worker ▸ atRole)
    exact Function.update_of_ne other ..
  | put channel msg rest _ space =>
    have other : c ≠ channel := by
      rintro rfl
      omega
    exact Function.update_of_ne other ..

/-- A thread of `D` goes around its loop. -/
theorem Deadlocked.write (dead : Deadlocked sv D job s) (member : t ∈ D) (next : s.step sv (.step t) = some u) :
    ∃ pc, u = s.setPc t (.write (job t).1 (job t).2.1 (job t).2.2 pc) := by
  obtain ⟨⟨pc, atPc⟩, unbroken, full, _⟩ := dead t member
  obtain ⟨role, atRole, next⟩ := Option.bind_eq_some_iff.mp next
  simp only [advance, atPc] at next
  cases Option.some.inj next
  cases pc with
  | check => exact ⟨.attempt, by simp [Network.write, unbroken]⟩
  | wait => exact ⟨.check, by simp [Network.write]⟩
  | attempt =>
    rcases (s.queues (job t).1).enqueue_cases (job t).2.1 with ⟨_, result⟩ | ⟨space, _⟩
    · exact ⟨.wait, by simp [Network.write, result]⟩
    · omega

/-- A thread of `D` begins and ends nothing. -/
theorem Deadlocked.only_step {a : NetworkAct ι} (dead : Deadlocked sv D job s) (next : s.step sv a = some u) :
    (∃ t ∈ D, a = .step t) ∨ ∃ t, t ∉ D ∧ (∀ other, other ≠ t → u.pcs other = s.pcs other) ∧
      ((∃ role, sv.role t = some role ∧ Effect sv s t role u) ∨ u.queues = s.queues) := by
  cases a with
  | step t =>
    by_cases member : t ∈ D
    · exact .inl ⟨t, member, rfl⟩
    · obtain ⟨role, atRole, next⟩ := Option.bind_eq_some_iff.mp next
      exact .inr ⟨t, member, (advance_effect next).frame.1, .inl ⟨role, atRole, advance_effect next⟩⟩
  | produce t msg =>
    simp only [step] at next
    split at next
    · rename_i atPc
      cases Option.some.inj next
      refine .inr ⟨t, fun member => ?_, fun _ ne => setPc_other ne, .inr rfl⟩
      obtain ⟨⟨pc, writing⟩, _⟩ := dead t member
      rw [writing] at atPc
      cases atPc
    · cases next
  | handleMsg t msgs =>
    simp only [step] at next
    split at next
    · rename_i atPc
      split at next
      · cases Option.some.inj next
        refine .inr ⟨t, fun member => ?_, fun _ ne => setPc_other ne, .inr rfl⟩
        obtain ⟨⟨pc, writing⟩, _⟩ := dead t member
        rw [writing] at atPc
        cases atPc
      · cases next
    · cases next

/-- Such threads wait for ever: nothing that any thread of the services does frees them. These runs
have no `Stop` and no `Shutdown`, which break the channels from outside and end such a wait. -/
theorem deadlock_is_permanent (dead : Deadlocked sv D job s) (acts : List (NetworkAct ι))
    (reach : run (step sv) s acts = some u) : Deadlocked sv D job u := by
  refine run_invariant (fun s a u dead next => ?_) dead reach
  intro t member
  obtain ⟨⟨pc, atPc⟩, unbroken, full, readers⟩ := dead t member
  rcases dead.only_step next with ⟨other, inside, rfl⟩ | ⟨other, outside, pcs, moved⟩
  · obtain ⟨now, rfl⟩ := dead.write inside next
    refine ⟨?_, unbroken, full, readers⟩
    by_cases same : t = other
    · exact ⟨now, by rw [same, setPc_self]⟩
    · exact ⟨pc, by rw [setPc_other same, atPc]⟩
  · have queue : u.queues (job t).1 = s.queues (job t).1 := by
      rcases moved with ⟨role, atRole, effect⟩ | same
      · exact effect.full_queue atRole full fun n reads => outside (readers other n reads)
      · rw [same]
    have ne : t ≠ other := by
      rintro rfl
      exact outside member
    rw [queue]
    exact ⟨⟨pc, by rw [pcs t ne, atPc]⟩, unbroken, full, readers⟩

/-- A relay that reads the channel it writes to, and sends two messages for each one. -/
def feedback : Services Unit Bool where
  nodes _ := ⟨"loop", .relay, false, 1, [0], [0]⟩
  role t := if t then some (.worker () 0) else some (.producer ())
  handleMsg _ msg msgs := msgs = [msg, msg]

theorem deadlock_is_permanent_feedback :
    ∃ s, run (step feedback) (init (fun _ => false) fun _ => 1)
        [.produce false (.init 3), .step false, .step false, .step false, .step true, .step true, .step true,
          .handleMsg true [.init 3, .init 3], .step true, .step true, .step true, .step true, .step true] = some s ∧
      ∀ acts u, run (step feedback) s acts = some u → Deadlocked feedback {true} (fun _ => (0, .init 3, [])) u := by
  refine ⟨_, rfl, fun acts u reach => deadlock_is_permanent ?_ acts reach⟩
  rintro t rfl
  refine ⟨⟨.attempt, rfl⟩, rfl, Nat.le_refl 1, ?_⟩
  intro r n reads
  cases r with
  | true => rfl
  | false => cases reads

end ServicesFramework.Network
