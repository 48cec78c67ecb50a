import Mathlib.Tactic
import ServicesFramework.Network

namespace ServicesFramework.Network

open Machine

variable {ν ι : Type*} {sv : Services ν ι} {s u : Network ν ι} {t : ι} {role : Role ν}

theorem via_snoc (c : Nat) (log : List (Transfer ι)) (e : Transfer ι) :
    via c (log ++ [e]) = via c log ++ if e.channel = c then [e.msg] else [] := by
  by_cases same : e.channel = c <;> simp [via, same]

/-- Every channel is a queue between the log of what was written to it and the log of what
was read from it, every message was written where `Dispatch` of its thread's node sends it,
and every message was read by a worker bound to the channel. -/
structure Logged (sv : Services ν ι) (s : Network ν ι) : Prop where
  fifo : ∀ c, via c s.enqueued = via c s.dequeued ++ (s.queues c).pool
  routed : ∀ e ∈ s.enqueued, ∃ role, sv.role e.thread = some role ∧
    sv.dispatch role.node e.msg = some e.channel
  taken : ∀ e ∈ s.dequeued, ∃ n, sv.role e.thread = some (.worker n e.channel)
  pending : ∀ t channel msg rest pc, s.pcs t = .write channel msg rest pc → ∃ role, sv.role t = some role ∧
    sv.dispatch role.node msg = some channel

theorem Logged.init (isStop : ν → Bool) (capacity : Nat → Nat) : Logged sv (init isStop capacity) where
  fifo c := rfl
  routed e member := by cases member
  taken e member := by cases member
  pending t channel msg rest pc atPc := by cases atPc

variable [DecidableEq ι]

theorem moved_snoc (t : ι) (log : List (Transfer ι)) (e : Transfer ι) :
    moved t (log ++ [e]) = moved t log ++ if e.thread = t then [e.msg] else [] := by
  by_cases same : e.thread = t <;> simp [moved, same]

@[simp] theorem setPc_queues {pc : ThreadPc} : (s.setPc t pc).queues = s.queues := rfl

@[simp] theorem setPc_isStop {pc : ThreadPc} : (s.setPc t pc).isStop = s.isStop := rfl

@[simp] theorem setPc_enqueued {pc : ThreadPc} : (s.setPc t pc).enqueued = s.enqueued := rfl

@[simp] theorem setPc_dequeued {pc : ThreadPc} : (s.setPc t pc).dequeued = s.dequeued := rfl

@[simp] theorem setPc_self {pc : ThreadPc} : (s.setPc t pc).pcs t = pc := Function.update_self ..

theorem setPc_other {pc : ThreadPc} {other : ι} (ne : other ≠ t) : (s.setPc t pc).pcs other = s.pcs other :=
  Function.update_of_ne ne ..

/-- The part of the invariant that a step of `t` outside the queues has to keep. -/
theorem Logged.of_setPc (old : Logged sv s) (atRole : sv.role t = some role) {pc : ThreadPc}
    (queues : u.queues = s.queues) (enqueued : u.enqueued = s.enqueued) (dequeued : u.dequeued = s.dequeued)
    (pcs : u.pcs = Function.update s.pcs t pc)
    (valid : ∀ channel msg rest after, pc = .write channel msg rest after →
      (∃ before, s.pcs t = .write channel msg rest before) ∨ sv.dispatch role.node msg = some channel) :
    Logged sv u := by
  refine ⟨by rw [queues, enqueued, dequeued]; exact old.fifo, by rw [enqueued]; exact old.routed,
    by rw [dequeued]; exact old.taken, ?_⟩
  intro other channel msg rest after atPc
  rw [pcs] at atPc
  by_cases same : other = t
  · subst other
    rw [Function.update_self] at atPc
    rcases valid channel msg rest after atPc with ⟨before, atBefore⟩ | target
    · exact old.pending t channel msg rest before atBefore
    · exact ⟨role, atRole, target⟩
  · rw [Function.update_of_ne same] at atPc
    exact old.pending other channel msg rest after atPc

theorem Logged.take (old : Logged sv s) {n : ν} {channel : Nat} {front : BaseMsg} {rest : List BaseMsg}
    (atRole : sv.role t = some (.worker n channel)) (pool : (s.queues channel).pool = front :: rest) :
    Logged sv (setPc { s with
      queues := Function.update s.queues channel { s.queues channel with pool := rest }
      dequeued := s.dequeued ++ [⟨t, channel, front⟩] } t (.handle front)) := by
  refine ⟨?_, old.routed, ?_, ?_⟩
  · intro c
    have fifo := old.fifo c
    simp only [setPc_enqueued, setPc_dequeued, setPc_queues, via_snoc]
    by_cases same : channel = c
    · subst c
      rw [fifo, pool, Function.update_self]
      simp
    · rw [fifo, Function.update_of_ne (Ne.symm same)]
      simp [same]
  · intro e member
    rcases List.mem_append.mp member with earlier | now
    · exact old.taken e earlier
    · cases List.mem_singleton.mp now
      exact ⟨n, atRole⟩
  · intro other c msg more pc atPc
    by_cases same : other = t
    · subst other
      rw [setPc_self] at atPc
      cases atPc
    · rw [setPc_other same] at atPc
      exact old.pending other c msg more pc atPc

theorem Logged.put (old : Logged sv s) {channel : Nat} {msg : BaseMsg} {rest : List BaseMsg}
    (atPc : s.pcs t = .write channel msg rest .attempt) :
    Logged sv (setPc { s with
      queues := Function.update s.queues channel { s.queues channel with pool := (s.queues channel).pool ++ [msg] }
      enqueued := s.enqueued ++ [⟨t, channel, msg⟩] } t (.dispatch rest)) := by
  refine ⟨?_, ?_, old.taken, ?_⟩
  · intro c
    have fifo := old.fifo c
    simp only [setPc_enqueued, setPc_dequeued, setPc_queues, via_snoc]
    by_cases same : channel = c
    · subst c
      rw [fifo, Function.update_self]
      simp
    · rw [fifo, Function.update_of_ne (Ne.symm same)]
      simp [same]
  · intro e member
    rcases List.mem_append.mp member with earlier | now
    · exact old.routed e earlier
    · cases List.mem_singleton.mp now
      exact old.pending t channel msg rest _ atPc
  · intro other c more later pc atOther
    by_cases same : other = t
    · subst other
      rw [setPc_self] at atOther
      cases atOther
    · rw [setPc_other same] at atOther
      exact old.pending other c more later pc atOther

variable [DecidableEq ν]

/-- Everything that one step of a thread can do. A `turn` moves the thread on with what it
holds; a message is dropped where its node has no channel or the queue is broken. -/
inductive Effect (sv : Services ν ι) (s : Network ν ι) (t : ι) (role : Role ν) : Network ν ι → Prop
  | turn (pc : ThreadPc) : pc.held = (s.pcs t).held → (∀ msg, s.pcs t ≠ .handle msg) → (∀ msg, pc ≠ .handle msg) →
      (∀ channel msg rest after, pc = .write channel msg rest after →
        (∃ before, s.pcs t = .write channel msg rest before) ∨ sv.dispatch role.node msg = some channel) →
      Effect sv s t role (s.setPc t pc)
  | take (n : ν) (channel : Nat) (front : BaseMsg) (rest : List BaseMsg) : role = .worker n channel →
      s.pcs t = .read .attempt → (s.queues channel).pool = front :: rest →
      Effect sv s t role (setPc { s with
        queues := Function.update s.queues channel { s.queues channel with pool := rest }
        dequeued := s.dequeued ++ [⟨t, channel, front⟩] } t (.handle front))
  | put (channel : Nat) (msg : BaseMsg) (rest : List BaseMsg) : s.pcs t = .write channel msg rest .attempt →
      (s.queues channel).pool.length < (s.queues channel).poolSize →
      Effect sv s t role (setPc { s with
        queues := Function.update s.queues channel
          { s.queues channel with pool := (s.queues channel).pool ++ [msg] }
        enqueued := s.enqueued ++ [⟨t, channel, msg⟩] } t (.dispatch rest))
  | unrouted (msg : BaseMsg) (rest : List BaseMsg) : s.pcs t = .dispatch (msg :: rest) →
      sv.dispatch role.node msg = none → Effect sv s t role (s.setPc t (.dispatch rest))
  | broken (channel : Nat) (msg : BaseMsg) (rest : List BaseMsg) : s.pcs t = .write channel msg rest .check →
      (s.queues channel).breakAllWait = true → Effect sv s t role (s.setPc t (.dispatch rest))
  | stop (msg : BaseMsg) : s.pcs t = .handle msg → (sv.nodes role.node).type ≠ .fullDuplex → msg.stopSignal = true →
      Effect sv s t role
        (setPc { s with isStop := Function.update s.isStop role.node true } t (.dispatch [msg]))
  | fdWrite (msg : BaseMsg) : s.pcs t = .handle msg → (sv.nodes role.node).type = .fullDuplex →
      Effect sv s t role (setPc { s with written := s.written ++ [(role.node, msg)] } t .top)
  | handled (msg : BaseMsg) (msgs : List BaseMsg) : s.pcs t = .handle msg → msg.stopSignal = false →
      (sv.nodes role.node).type ≠ .fullDuplex → sv.handleMsg role.node msg msgs = true →
      Effect sv s t role (s.setPc t (.dispatch msgs))

theorem read_effect {n : ν} {channel : Nat} {pc : WaitPc} (atPc : s.pcs t = .read pc) :
    Effect sv s t (.worker n channel) (s.read t channel pc) := by
  unfold read
  cases pc with
  | check =>
    refine .turn _ ?_ (by simp [atPc]) ?_ ?_
    · rw [atPc]
      split <;> rfl
    · intro msg
      split <;> simp
    · intro channel msg rest after
      split <;> simp
  | wait => exact .turn _ (by simp [atPc, ThreadPc.held]) (by simp [atPc]) (by simp) (by simp)
  | attempt =>
    dsimp only
    split
    · exact .turn _ (by simp [atPc, ThreadPc.held]) (by simp [atPc]) (by simp) (by simp)
    · rename_i front rest pool
      exact .take n channel front rest rfl atPc pool

theorem write_effect {channel : Nat} {msg : BaseMsg} {rest : List BaseMsg} {pc : WaitPc}
    (atPc : s.pcs t = .write channel msg rest pc) : Effect sv s t role (s.write t channel msg rest pc) := by
  have moves (next : WaitPc) : Effect sv s t role (s.setPc t (.write channel msg rest next)) := by
    refine .turn _ (by simp [atPc, ThreadPc.held]) (by simp [atPc]) (by simp) ?_
    intro _ _ _ _ same
    cases same
    exact Or.inl ⟨pc, atPc⟩
  unfold write
  cases pc with
  | check =>
    dsimp only
    split
    · rename_i broken
      exact .broken channel msg rest atPc broken
    · exact moves .attempt
  | wait => exact moves .check
  | attempt =>
    rcases (s.queues channel).enqueue_cases msg with ⟨_, result⟩ | ⟨room, result⟩
    · simp only [result]
      exact moves .wait
    · simp only [result]
      exact .put channel msg rest atPc room

theorem dispatch_effect {msgs : List BaseMsg} (atPc : s.pcs t = .dispatch msgs) :
    Effect sv s t role (s.dispatch sv t role.node msgs) := by
  unfold dispatch
  cases msgs with
  | nil => exact .turn _ (by simp [atPc, ThreadPc.held]) (by simp [atPc]) (by simp) (by simp)
  | cons msg rest =>
    dsimp only
    split
    · rename_i nowhere
      exact .unrouted msg rest atPc nowhere
    · rename_i channel target
      refine .turn _ (by simp [atPc, ThreadPc.held]) (by simp [atPc]) (by simp) ?_
      intro _ _ _ _ same
      cases same
      exact Or.inr target

theorem advance_effect (next : s.advance sv t role = some u) : Effect sv s t role u := by
  unfold advance at next
  split at next
  · rename_i atPc
    cases Option.some.inj next
    refine .turn _ ?_ (by simp [atPc]) ?_ ?_
    · rw [atPc]
      split <;> rfl
    · intro msg
      split <;> simp
    · intro channel msg rest after
      split <;> simp
  · rename_i atPc
    cases Option.some.inj next
    exact read_effect atPc
  · rename_i msg n channel atPc
    split at next
    · rename_i duplex
      cases Option.some.inj next
      exact .fdWrite msg atPc duplex
    · rename_i other
      split at next
      · rename_i signal
        cases Option.some.inj next
        exact .stop msg atPc other signal
      · cases next
  · rename_i atPc
    cases Option.some.inj next
    exact dispatch_effect atPc
  · rename_i atPc
    cases Option.some.inj next
    exact write_effect atPc
  · cases next

/-- Either a thread from outside begins to dispatch a message, or a thread goes on. -/
theorem step_cases {a : NetworkAct ι} (next : s.step sv a = some u) :
    (∃ t n msg, a = .produce t msg ∧ sv.role t = some (.producer n) ∧ s.pcs t = .top ∧
        u = s.setPc t (.dispatch [msg])) ∨
      ((∀ t msg, a ≠ .produce t msg) ∧ ∃ t role, sv.role t = some role ∧ Effect sv s t role u) := by
  cases a with
  | produce t msg =>
    simp only [step] at next
    split at next
    · rename_i n atRole atPc
      exact Or.inl ⟨t, n, msg, rfl, atRole, atPc, (Option.some.inj next).symm⟩
    · cases next
  | handleMsg t msgs =>
    refine Or.inr ⟨by simp, ?_⟩
    simp only [step] at next
    split at next
    · rename_i n channel msg atRole atPc
      split at next
      · rename_i allowed
        cases Option.some.inj next
        exact ⟨t, _, atRole, .handled msg msgs atPc allowed.2.1 allowed.1 allowed.2.2⟩
      · cases next
    · cases next
  | step t =>
    obtain ⟨role, atRole, next⟩ := Option.bind_eq_some_iff.mp next
    exact Or.inr ⟨by simp, t, role, atRole, advance_effect next⟩

theorem Logged.effect (old : Logged sv s) (atRole : sv.role t = some role) (effect : Effect sv s t role u) :
    Logged sv u := by
  cases effect with
  | turn pc _ _ _ valid => exact old.of_setPc atRole rfl rfl rfl rfl valid
  | take n channel front rest worker _ pool =>
    subst role
    exact old.take atRole pool
  | put channel msg rest atPc _ => exact old.put atPc
  | unrouted | broken | stop | fdWrite | handled =>
    exact old.of_setPc atRole rfl rfl rfl rfl (by simp)

theorem logged_of_run {acts : List (NetworkAct ι)} {isStop : ν → Bool} {capacity : Nat → Nat}
    (reach : run (step sv) (init isStop capacity) acts = some s) : Logged sv s := by
  refine run_invariant (fun _ _ _ old next => ?_) (.init isStop capacity) reach
  rcases step_cases next with ⟨t, n, msg, _, atRole, _, rfl⟩ | ⟨_, t, role, atRole, effect⟩
  · exact old.of_setPc atRole rfl rfl rfl rfl (by simp)
  · exact old.effect atRole effect

end ServicesFramework.Network
