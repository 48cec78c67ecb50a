import Mathlib.Tactic
import ServicesFramework.Queue

namespace ServicesFramework.QueueSystem

open Machine

variable {ι α : Type*} [DecidableEq ι] {s u v : QueueSystem ι α} {c d : ι} {call : QueueCall α}

@[simp] theorem setCall_queue : (s.setCall c call).queue = s.queue := rfl

@[simp] theorem setCall_enqueued : (s.setCall c call).enqueued = s.enqueued := rfl

@[simp] theorem setCall_dequeued : (s.setCall c call).dequeued = s.dequeued := rfl

@[simp] theorem setCall_self : (s.setCall c call).calls c = some call := by
  simp [setCall]

theorem setCall_other (other : d ≠ c) : (s.setCall c call).calls d = s.calls d := by
  simp [setCall, other]

@[simp] theorem entriesOf_nil : entriesOf c ([] : List (ι × α)) = [] := rfl

theorem entriesOf_snoc_self {log : List (ι × α)} {element : α} :
    entriesOf c (log ++ [(c, element)]) = entriesOf c log ++ [element] := by
  simp [entriesOf]

theorem entriesOf_snoc_other {log : List (ι × α)} {element : α} (other : d ≠ c) :
    entriesOf d (log ++ [(c, element)]) = entriesOf d log := by
  simp [entriesOf, Ne.symm other]

/-- Everything one step of a running call can do. A move without effect never ends in a
successful return, and ends in a failed one as soon as the flag is seen. -/
inductive CallStep (s : QueueSystem ι α) (c : ι) (call : QueueCall α) : QueueSystem ι α → Prop
  | move (pc : QueuePc) : (∀ result, call.pc ≠ .ret result) → pc ≠ .ret true →
      (call.pc = .check → s.queue.breakAllWait = true → pc = .ret false) →
      CallStep s c call (s.setCall c { call with pc := pc })
  | enqueue : call.op = .waitEnqueue → call.pc = .attempt → s.queue.pool.length < s.queue.poolSize →
      CallStep s c call
        (setCall { s with
          queue := { s.queue with pool := s.queue.pool ++ [call.element] }
          enqueued := s.enqueued ++ [(c, call.element)] } c { call with pc := .ret true })
  | dequeue (front : α) (rest : List α) : call.op = .waitDequeue → call.pc = .attempt →
      s.queue.pool = front :: rest →
      CallStep s c call
        (setCall { s with
          queue := { s.queue with pool := rest }
          dequeued := s.dequeued ++ [(c, front)] } c { call with element := front, pc := .ret true })

theorem attempt_callStep (atAttempt : call.pc = .attempt) : CallStep s c call (s.attempt c call) := by
  have running : ∀ result, call.pc ≠ .ret result := by simp [atAttempt]
  have waits : CallStep s c call (s.setCall c { call with pc := .wait }) :=
    .move .wait running (by simp) (by simp [atAttempt])
  unfold attempt
  cases op : call.op with
  | waitEnqueue =>
    rcases s.queue.enqueue_cases call.element with ⟨_, result⟩ | ⟨room, result⟩
    · simpa only [op, result] using waits
    · simpa only [op, result] using CallStep.enqueue op atAttempt room
  | waitDequeue =>
    rcases s.queue.dequeue_cases call.element with ⟨_, result⟩ | ⟨front, rest, pool, result⟩
    · simpa only [op, result] using waits
    · simpa only [op, result] using CallStep.dequeue front rest op atAttempt pool

theorem advance_callStep (run : s.advance c call = some u) : CallStep s c call u := by
  unfold advance at run
  cases pc : call.pc with
  | check =>
    simp only [pc, Option.some.injEq] at run
    subst u
    refine .move _ (by simp [pc]) ?_ (fun _ flag => by simp [flag])
    split <;> simp
  | attempt =>
    simp only [pc, Option.some.injEq] at run
    exact run ▸ attempt_callStep pc
  | wait =>
    simp only [pc, Option.some.injEq, Queue.emptyWait] at run
    subst u
    exact .move _ (by simp [pc]) (by simp) (by simp [pc])
  | ret result => simp [pc] at run

theorem step_cases {a : QueueAct ι α} (run : s.step a = some u) :
    (∃ c op element, a = .call c op element ∧ s.calls c = none ∧
        u = s.setCall c ⟨op, element, element, .check⟩) ∨
      (∃ c call, a = .step c ∧ s.calls c = some call ∧ CallStep s c call u) ∨
      (a = .breakAllWait ∧ u = { s with queue := { s.queue with breakAllWait := true } }) := by
  cases a with
  | call c op element =>
    simp only [step] at run
    split at run
    · rename_i absent
      exact Or.inl ⟨c, op, element, rfl, by simpa using absent, (Option.some.inj run).symm⟩
    · cases run
  | step c =>
    obtain ⟨call, atCall, run⟩ := Option.bind_eq_some_iff.mp run
    exact Or.inr (Or.inl ⟨c, call, rfl, atCall, advance_callStep run⟩)
  | breakAllWait => exact Or.inr (Or.inr ⟨rfl, (Option.some.inj run).symm⟩)

/-- What a call has contributed to the two logs so far, and what it has done to its
argument. -/
structure Accounted (call : QueueCall α) (added removed : List α) : Prop where
  added : added = if call.op = .waitEnqueue ∧ call.pc = .ret true then [call.argument] else []
  removed : removed = if call.op = .waitDequeue ∧ call.pc = .ret true then [call.element] else []
  element : call.op = .waitEnqueue ∨ call.pc ≠ .ret true → call.element = call.argument

structure Invariant (n : Nat) (s : QueueSystem ι α) : Prop where
  poolSize : s.queue.poolSize = n
  bound : s.queue.pool.length ≤ n
  fifo : s.dequeued.map Prod.snd ++ s.queue.pool = s.enqueued.map Prod.snd
  unborn : ∀ c, s.calls c = none → entriesOf c s.enqueued = [] ∧ entriesOf c s.dequeued = []
  accounted : ∀ c call, s.calls c = some call →
    Accounted call (entriesOf c s.enqueued) (entriesOf c s.dequeued)

theorem Invariant.init (n : Nat) : Invariant n (QueueSystem.init n : QueueSystem ι α) where
  poolSize := rfl
  bound := Nat.zero_le n
  fifo := rfl
  unborn _ _ := ⟨rfl, rfl⟩
  accounted _ _ atCall := by simp [QueueSystem.init] at atCall

/-- A call is charged with its own entries only, so a step of `c` leaves the account of
every other call as it was. -/
theorem Invariant.of_setCall {n : Nat} (old : Invariant n s) (new : QueueCall α)
    (poolSize : u.queue.poolSize = n) (bound : u.queue.pool.length ≤ n)
    (fifo : u.dequeued.map Prod.snd ++ u.queue.pool = u.enqueued.map Prod.snd)
    (calls : u.calls = s.calls)
    (enqueued : ∀ d, d ≠ c → entriesOf d u.enqueued = entriesOf d s.enqueued)
    (dequeued : ∀ d, d ≠ c → entriesOf d u.dequeued = entriesOf d s.dequeued)
    (account : Accounted new (entriesOf c u.enqueued) (entriesOf c u.dequeued)) :
    Invariant n (u.setCall c new) where
  poolSize := poolSize
  bound := bound
  fifo := fifo
  unborn d absent := by
    by_cases same : d = c
    · subst d
      simp at absent
    · rw [setCall_other same, calls] at absent
      simpa only [setCall_enqueued, setCall_dequeued, enqueued d same, dequeued d same] using old.unborn d absent
  accounted d call atCall := by
    by_cases same : d = c
    · subst d
      cases Option.some.inj (setCall_self.symm.trans atCall)
      exact account
    · rw [setCall_other same, calls] at atCall
      simpa only [setCall_enqueued, setCall_dequeued, enqueued d same, dequeued d same] using
        old.accounted d call atCall

theorem Invariant.callStep {n : Nat} (old : Invariant n s) (atCall : s.calls c = some call)
    (run : CallStep s c call u) : Invariant n u := by
  have account := old.accounted c call atCall
  cases run with
  | move pc running notTrue _ =>
    refine old.of_setCall _ old.poolSize old.bound old.fifo rfl (fun _ _ => rfl) (fun _ _ => rfl) ?_
    refine ⟨?_, ?_, fun _ => account.element (Or.inr (running true))⟩
    · rw [account.added, if_neg (fun both => running true both.2), if_neg (fun both => notTrue both.2)]
    · rw [account.removed, if_neg (fun both => running true both.2), if_neg (fun both => notTrue both.2)]
  | enqueue op atAttempt room =>
    have same := account.element (Or.inl op)
    refine old.of_setCall _ old.poolSize ?_ ?_ rfl
      (fun d other => entriesOf_snoc_other other) (fun _ _ => rfl) ?_
    · rw [old.poolSize] at room
      simp only [List.length_append, List.length_singleton]
      omega
    · simp only [List.map_append, List.map_singleton, ← old.fifo, List.append_assoc]
    · refine ⟨?_, ?_, fun _ => same⟩
      · rw [entriesOf_snoc_self, account.added]
        simp [op, atAttempt, same]
      · rw [account.removed]
        simp [op]
  | dequeue front rest op atAttempt pool =>
    refine old.of_setCall _ old.poolSize ?_ ?_ rfl (fun _ _ => rfl)
      (fun d other => entriesOf_snoc_other other) ?_
    · have bound := old.bound
      rw [pool, List.length_cons] at bound
      exact Nat.le_of_succ_le bound
    · rw [← old.fifo, pool]
      simp
    · refine ⟨?_, ?_, by simp [op]⟩
      · rw [account.added]
        simp [op]
      · rw [entriesOf_snoc_self, account.removed]
        simp [op, atAttempt]

theorem Invariant.step {n : Nat} {a : QueueAct ι α} (old : Invariant n s) (run : s.step a = some u) :
    Invariant n u := by
  rcases step_cases run with ⟨c, op, element, _, absent, rfl⟩ | ⟨c, call, _, atCall, run⟩ | ⟨_, rfl⟩
  · have empty := old.unborn c absent
    refine old.of_setCall _ old.poolSize old.bound old.fifo rfl (fun _ _ => rfl) (fun _ _ => rfl) ?_
    exact ⟨by simp [empty.1], by simp [empty.2], fun _ => rfl⟩
  · exact old.callStep atCall run
  · exact ⟨old.poolSize, old.bound, old.fifo, old.unborn, old.accounted⟩

theorem invariant_of_run {n : Nat} {acts : List (QueueAct ι α)}
    (reach : run step (init n) acts = some s) : Invariant n s :=
  run_invariant (fun _ _ _ old next => old.step next) (.init n) reach

/-- A call that began after the flag was set: it has not left its first flag test, or that
test has already made it return. -/
def Refused (c : ι) (s : QueueSystem ι α) : Prop :=
  s.queue.breakAllWait = true ∧ entriesOf c s.enqueued = [] ∧ entriesOf c s.dequeued = [] ∧
    ∀ call, s.calls c = some call → call.pc = .check ∨ call.pc = .ret false

theorem Refused.callStep (old : Refused c s) (atCall : s.calls d = some call)
    (run : CallStep s d call u) : Refused c u := by
  obtain ⟨flag, enqueued, dequeued, stays⟩ := old
  by_cases same : c = d
  · subst d
    cases run with
    | move pc running _ refuses =>
      have atCheck : call.pc = .check := (stays call atCall).resolve_right (running false)
      refine ⟨flag, enqueued, dequeued, fun new atNew => Or.inr ?_⟩
      cases Option.some.inj (setCall_self.symm.trans atNew)
      exact refuses atCheck flag
    | enqueue _ atAttempt _ => simpa [atAttempt] using stays call atCall
    | dequeue _ _ _ atAttempt _ => simpa [atAttempt] using stays call atCall
  · cases run with
    | move pc _ _ _ =>
      exact ⟨flag, enqueued, dequeued, fun new atNew => stays new (setCall_other same ▸ atNew)⟩
    | enqueue _ _ _ =>
      exact ⟨flag, (entriesOf_snoc_other same).trans enqueued, dequeued,
        fun new atNew => stays new (setCall_other same ▸ atNew)⟩
    | dequeue _ _ _ _ _ =>
      exact ⟨flag, enqueued, (entriesOf_snoc_other same).trans dequeued,
        fun new atNew => stays new (setCall_other same ▸ atNew)⟩

theorem Refused.step {a : QueueAct ι α} (old : Refused c s) (run : s.step a = some u) : Refused c u := by
  rcases step_cases run with ⟨d, op, element, _, _, rfl⟩ | ⟨d, call, _, atCall, run⟩ | ⟨_, rfl⟩
  · refine ⟨old.1, old.2.1, old.2.2.1, fun new atNew => ?_⟩
    by_cases same : c = d
    · subst d
      cases Option.some.inj (setCall_self.symm.trans atNew)
      exact Or.inl rfl
    · exact old.2.2.2 new (setCall_other same ▸ atNew)
  · exact old.callStep atCall run
  · exact ⟨rfl, old.2⟩

/-- A refused call that has not returned yet can take its step, and that step returns
`false` and touches nothing else. -/
theorem Refused.returns_false (refused : Refused c s) (atCall : s.calls c = some call)
    (pending : call.pc = .check) :
    s.step (.step c) = some (s.setCall c { call with pc := .ret false }) := by
  simp [QueueSystem.step, atCall, advance, pending, refused.1]

/-- The queue is a bounded FIFO in every reachable state, the return value of every call
tells exactly what the call did, and a call made after `BreakAllWait` returns `false` at its
first step and does nothing, whatever the pool holds. -/
theorem queue_bounded_fifo (n : Nat) (acts : List (QueueAct ι α)) (s : QueueSystem ι α)
    (reach : run step (init n) acts = some s) :
    s.queue.pool.length ≤ n ∧
    s.dequeued.map Prod.snd ++ s.queue.pool = s.enqueued.map Prod.snd ∧
    (∀ c call, s.calls c = some call → call.op = .waitEnqueue →
      entriesOf c s.dequeued = [] ∧
      (call.pc = .ret true → entriesOf c s.enqueued = [call.argument]) ∧
      (call.pc = .ret false → entriesOf c s.enqueued = [])) ∧
    (∀ c call, s.calls c = some call → call.op = .waitDequeue →
      entriesOf c s.enqueued = [] ∧
      (call.pc = .ret true → entriesOf c s.dequeued = [call.element]) ∧
      (call.pc = .ret false → entriesOf c s.dequeued = [] ∧ call.element = call.argument)) ∧
    (s.queue.breakAllWait = true → ∀ c, s.calls c = none → ∀ later u call,
      run step s later = some u → u.calls c = some call →
      entriesOf c u.enqueued = [] ∧ entriesOf c u.dequeued = [] ∧
      (call.pc = .ret false ∨
        call.pc = .check ∧ u.step (.step c) = some (u.setCall c { call with pc := .ret false }))) := by
  have inv := invariant_of_run reach
  refine ⟨inv.bound, inv.fifo, ?_, ?_, ?_⟩
  · intro c call atCall op
    have account := inv.accounted c call atCall
    refine ⟨by rw [account.removed]; simp [op], fun done => ?_, fun done => ?_⟩
    · rw [account.added]
      simp [op, done]
    · rw [account.added]
      simp [done]
  · intro c call atCall op
    have account := inv.accounted c call atCall
    refine ⟨by rw [account.added]; simp [op], fun done => ?_, fun done => ⟨?_, ?_⟩⟩
    · rw [account.removed]
      simp [op, done]
    · rw [account.removed]
      simp [done]
    · exact account.element (Or.inr (by simp [done]))
  · intro flag c absent later u call next atCall
    have fresh : Refused c s := ⟨flag, (inv.unborn c absent).1, (inv.unborn c absent).2, by simp [absent]⟩
    have refused : Refused c u := run_invariant (fun _ _ _ old next => old.step next) fresh next
    refine ⟨refused.2.1, refused.2.2.1, ?_⟩
    rcases refused.2.2.2 call atCall with pending | done
    · exact Or.inr ⟨pending, refused.returns_false atCall pending⟩
    · exact Or.inl done

/-- Two calls contend for a queue of capacity one; the second finds it full and is still
waiting when `BreakAllWait` comes. -/
def contention : List (QueueAct Nat Nat) :=
  [.call 0 .waitEnqueue 7, .call 1 .waitEnqueue 8, .step 0, .step 1, .step 0, .step 1, .step 1,
    .breakAllWait, .step 1]

theorem queue_bounded_fifo_contention :
    ∃ s, run step (init 1) contention = some s ∧ s.queue.pool.length ≤ 1 ∧ s.queue.pool = [7] ∧
      s.calls 1 = some ⟨.waitEnqueue, 8, 8, .ret false⟩ ∧ entriesOf 1 s.enqueued = [] := by
  obtain ⟨s, reach, pool, refused⟩ : ∃ s, run step (init 1) contention = some s ∧ s.queue.pool = [7] ∧
      s.calls 1 = some ⟨.waitEnqueue, 8, 8, .ret false⟩ := ⟨_, rfl, rfl, rfl⟩
  have facts := queue_bounded_fifo 1 contention s reach
  exact ⟨s, reach, facts.1, pool, refused, (facts.2.2.1 1 _ refused rfl).2.2 rfl⟩

end ServicesFramework.QueueSystem
