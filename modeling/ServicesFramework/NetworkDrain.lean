import ServicesFramework.NetworkPotential
import ServicesFramework.NetworkSignals

namespace ServicesFramework.Network

open Machine

section Exits

variable {ν ι : Type*} [DecidableEq ν] [DecidableEq ι] {sv : Services ν ι} {s u : Network ν ι} {t : ι} {role : Role ν}

theorem advance_exit (next : s.advance sv t role = some u) (out : u.pcs t = .exit) :
    s.pcs t = .top ∧ ∃ n c, role = .worker n c ∧ s.isStop n = true := by
  unfold advance at next
  split at next
  · rename_i n c atPc
    cases Option.some.inj next
    refine ⟨atPc, n, c, rfl, ?_⟩
    rw [setPc_self] at out
    by_contra running
    rw [if_neg running] at out
    cases out
  · rename_i pc _ channel atPc
    cases Option.some.inj next
    exfalso
    cases pc with
    | check =>
      simp only [read, setPc_self] at out
      split at out <;> cases out
    | attempt =>
      simp only [read] at out
      split at out <;> simp at out
    | wait => simp [read] at out
  · exfalso
    split at next
    · cases Option.some.inj next
      simp at out
    · split at next
      · cases Option.some.inj next
        simp at out
      · cases next
  · rename_i msgs atPc
    cases Option.some.inj next
    exfalso
    cases msgs with
    | nil => simp [dispatch] at out
    | cons msg rest =>
      simp only [dispatch] at out
      split at out <;> simp at out
  · rename_i channel msg rest pc atPc
    cases Option.some.inj next
    exfalso
    cases pc with
    | check =>
      simp only [write, setPc_self] at out
      split at out <;> cases out
    | attempt =>
      simp only [write] at out
      split at out <;> simp at out
    | wait => simp [write] at out
  · cases next

/-- A thread leaves `DoWork` only where its node is stopped. -/
theorem exit_of_step {a : NetworkAct ι} (next : s.step sv a = some u) (out : u.pcs t = .exit) :
    s.pcs t = .exit ∨ ∃ n c, sv.role t = some (.worker n c) ∧ s.isStop n = true := by
  cases a with
  | produce other msg =>
    simp only [step] at next
    split at next
    · cases Option.some.inj next
      by_cases same : t = other
      · subst other
        simp at out
      · exact Or.inl (by rwa [setPc_other same] at out)
    · cases next
  | handleMsg other msgs =>
    simp only [step] at next
    split at next
    · split at next
      · cases Option.some.inj next
        by_cases same : t = other
        · subst other
          simp at out
        · exact Or.inl (by rwa [setPc_other same] at out)
      · cases next
    · cases next
  | step other =>
    obtain ⟨role, atRole, next⟩ := Option.bind_eq_some_iff.mp next
    by_cases same : t = other
    · subst other
      obtain ⟨_, n, c, rfl, stopped⟩ := advance_exit next out
      exact Or.inr ⟨n, c, atRole, stopped⟩
    · exact Or.inl (by rwa [(advance_effect next).frame.1 t same] at out)

end Exits

section Flow

variable {ν ι : Type*} {sv : Services ν ι} {s u : Network ν ι} {t : ι} {role : Role ν}

/-- Nothing is stopped or broken, no stop signal is under way, and every thread is where its
role lets it be. -/
structure Flowing (sv : Services ν ι) (s : Network ν ι) : Prop where
  logged : Logged sv s
  unbroken : ∀ c, (s.queues c).breakAllWait = false
  room : ∀ c, 0 < (s.queues c).poolSize
  running : ∀ n, s.isStop n = false
  awake : ∀ t, s.pcs t ≠ .exit
  queued : ∀ c, ∀ msg ∈ (s.queues c).pool, msg.stopSignal = false
  held : ∀ t, ∀ msg ∈ (s.pcs t).held, msg.stopSignal = false
  staffed : ∀ t, s.pcs t ≠ .top → ∃ role, sv.role t = some role
  handling : ∀ t msg, s.pcs t = .handle msg → ∃ n c, sv.role t = some (.worker n c)

theorem Flowing.init {capacity : Nat → Nat} (room : ∀ c, 0 < capacity c) :
    Flowing sv (init (fun _ => false) capacity) where
  logged := .init _ _
  unbroken _ := rfl
  room := room
  running _ := rfl
  awake t out := by cases out
  queued c msg member := by cases member
  held t msg member := by cases member
  staffed t moving := absurd rfl moving
  handling t msg atPc := by cases atPc

variable [DecidableEq ι]

/-- What a step of `t` has to keep. -/
theorem Flowing.of_setPc (old : Flowing sv s) (logged : Logged sv u) (atRole : sv.role t = some role)
    {pc : ThreadPc} (pcs : u.pcs = Function.update s.pcs t pc) (isStop : u.isStop = s.isStop)
    (flags : ∀ c, (u.queues c).breakAllWait = (s.queues c).breakAllWait ∧ (u.queues c).poolSize = (s.queues c).poolSize)
    (queued : ∀ c, ∀ msg ∈ (u.queues c).pool, msg.stopSignal = false)
    (held : ∀ msg ∈ pc.held, msg.stopSignal = false) (awake : pc ≠ .exit)
    (handling : ∀ msg, pc = .handle msg → ∃ n c, role = .worker n c) : Flowing sv u where
  logged := logged
  unbroken c := by rw [(flags c).1, old.unbroken c]
  room c := by rw [(flags c).2]; exact old.room c
  running := isStop ▸ old.running
  awake other := by
    rw [pcs]
    by_cases same : other = t
    · rwa [same, Function.update_self]
    · rw [Function.update_of_ne same]
      exact old.awake other
  queued := queued
  held other := by
    rw [pcs]
    by_cases same : other = t
    · rwa [same, Function.update_self]
    · rw [Function.update_of_ne same]
      exact old.held other
  staffed other moving := by
    rw [pcs] at moving
    by_cases same : other = t
    · exact ⟨role, same ▸ atRole⟩
    · rw [Function.update_of_ne same] at moving
      exact old.staffed other moving
  handling other msg atPc := by
    rw [pcs] at atPc
    by_cases same : other = t
    · rw [same, Function.update_self] at atPc
      obtain ⟨n, c, rfl⟩ := handling msg atPc
      exact ⟨n, c, same ▸ atRole⟩
    · rw [Function.update_of_ne same] at atPc
      exact old.handling other msg atPc

omit [DecidableEq ι] in
theorem flags_update {channel : Nat} {pool : List BaseMsg} (c : Nat) :
    (Function.update s.queues channel { s.queues channel with pool := pool } c).breakAllWait =
        (s.queues c).breakAllWait ∧
      (Function.update s.queues channel { s.queues channel with pool := pool } c).poolSize =
        (s.queues c).poolSize := by
  by_cases same : c = channel
  · subst c
    simp
  · simp [same]

variable [DecidableEq ν]

theorem Flowing.effect (old : Flowing sv s) (atRole : sv.role t = some role)
    (plain : ∀ n msg msgs, sv.handleMsg n msg msgs = true → ∀ o ∈ msgs, o.stopSignal = false)
    (effect : Effect sv s t role u) (awake : u.pcs t ≠ .exit) : Flowing sv u := by
  have logged := old.logged.effect atRole effect
  have mine := old.held t
  cases effect with
  | turn pc held _ notHandle _ =>
    rw [setPc_self] at awake
    exact old.of_setPc logged atRole rfl rfl (fun _ => ⟨rfl, rfl⟩) old.queued (held ▸ mine) awake
      fun msg same => absurd same (notHandle msg)
  | take n channel front rest worker atPc pool =>
    have waiting := old.queued channel
    rw [pool] at waiting
    refine old.of_setPc logged atRole rfl rfl flags_update ?_ ?_ (by simp) fun _ _ => ⟨n, channel, worker⟩
    · intro c msg member
      rcases mem_pool_update member with ⟨_, later⟩ | here
      · exact waiting msg (List.mem_cons_of_mem front later)
      · exact old.queued c msg here
    · intro msg member
      cases List.mem_singleton.mp member
      exact waiting front List.mem_cons_self
  | put channel msg rest atPc _ =>
    rw [atPc] at mine
    refine old.of_setPc logged atRole rfl rfl flags_update ?_ ?_ (by simp) (by simp)
    · intro c other member
      rcases mem_pool_update member with ⟨_, inside⟩ | here
      · rcases List.mem_append.mp inside with before | now
        · exact old.queued channel other before
        · cases List.mem_singleton.mp now
          exact mine msg List.mem_cons_self
      · exact old.queued c other here
    · exact fun other later => mine other (List.mem_cons_of_mem msg later)
  | unrouted msg rest atPc _ | broken _ msg rest atPc _ =>
    rw [atPc] at mine
    exact old.of_setPc logged atRole rfl rfl (fun _ => ⟨rfl, rfl⟩) old.queued
      (fun other later => mine other (List.mem_cons_of_mem msg later)) (by simp) (by simp)
  | stop msg atPc _ signal =>
    rw [atPc] at mine
    have calm := mine msg List.mem_cons_self
    rw [signal] at calm
    cases calm
  | fdWrite msg atPc _ =>
    exact old.of_setPc logged atRole rfl rfl (fun _ => ⟨rfl, rfl⟩) old.queued
      (fun other member => by cases member) (by simp) (by simp)
  | handled msg msgs atPc _ _ allowed =>
    exact old.of_setPc logged atRole rfl rfl (fun _ => ⟨rfl, rfl⟩) old.queued (plain _ msg msgs allowed) (by simp)
      (by simp)

theorem Flowing.step {a : NetworkAct ι} (old : Flowing sv s)
    (plain : ∀ n msg msgs, sv.handleMsg n msg msgs = true → ∀ o ∈ msgs, o.stopSignal = false)
    (calm : ∀ msg, a.produced = some msg → msg.stopSignal = false) (next : s.step sv a = some u) : Flowing sv u := by
  have awake (t : ι) : u.pcs t ≠ .exit := by
    intro out
    rcases exit_of_step next out with earlier | ⟨n, c, _, stopped⟩
    · exact old.awake t earlier
    · rw [old.running n] at stopped
      cases stopped
  rcases step_cases next with ⟨t, n, msg, rfl, atRole, _, rfl⟩ | ⟨_, t, role, atRole, effect⟩
  · refine old.of_setPc (old.logged.of_setPc atRole rfl rfl rfl rfl (by simp)) atRole rfl rfl (fun _ => ⟨rfl, rfl⟩)
      old.queued ?_ (by simp) (by simp)
    intro other member
    cases List.mem_singleton.mp member
    exact calm msg rfl
  · exact old.effect atRole plain effect (awake t)

end Flow

section Drain

variable {ν ι : Type*} [DecidableEq ν] [DecidableEq ι] [Fintype ι] {sv : Services ν ι} {rank : ν → Nat}
  {s u : Network ν ι} {t : ι} {role : Role ν} {msg : BaseMsg}

variable (sv rank) in
/-- The threads can bring the messages further by themselves. -/
def Reduces (s : Network ν ι) : Prop :=
  ∃ acts u, (∀ a ∈ acts, NetworkAct.produced a = none) ∧ run (step sv) s acts = some u ∧
    (potential sv rank u).IsDershowitzMannaLT (potential sv rank s)

/-- One step first, whatever it does. -/
theorem Reduces.of_step (flowing : Flowing sv s) (layered : Layered sv rank)
    (next : s.step sv (.step t) = some u) (later : Reduces sv rank u) : Reduces sv rank s := by
  obtain ⟨_, _, ⟨_, same, _⟩ | lower⟩ := step_lowers flowing.logged layered rfl next
  · obtain ⟨acts, v, quiet, reach, lower⟩ := later
    refine ⟨.step t :: acts, v, ?_, run_cons.mpr ⟨u, next, reach⟩, same ▸ lower⟩
    intro a member
    rcases List.mem_cons.mp member with rfl | later
    · rfl
    · exact quiet a later
  · exact ⟨[.step t], u, by simp [NetworkAct.produced], run_cons.mpr ⟨u, next, rfl⟩, lower⟩

/-- A step that visibly does something to a message. -/
theorem reduces_of_effect {a : NetworkAct ι} (flowing : Flowing sv s) (layered : Layered sv rank)
    (atRole : sv.role t = some role) (quiet : a.produced = none) (next : s.step sv a = some u)
    (effect : Effect sv s t role u)
    (moved : (∃ msg, s.pcs t = .handle msg) ∨ u.enqueued ≠ s.enqueued ∨ u.dequeued ≠ s.dequeued ∨
      (u.pcs t).held ≠ (s.pcs t).held) : Reduces sv rank s := by
  rcases effect.lowers flowing.logged layered atRole with
    ⟨notHandle, _, enqueued, dequeued, _, _, held⟩ | lower
  · rcases moved with ⟨msg, atPc⟩ | grown | taken | dropped
    · exact absurd atPc (notHandle msg)
    · exact absurd enqueued grown
    · exact absurd dequeued taken
    · exact absurd held dropped
  · exact ⟨[a], u, by simpa using quiet, run_cons.mpr ⟨u, next, rfl⟩, lower⟩

theorem reduces_handle (flowing : Flowing sv s) (layered : Layered sv rank)
    (total : ∀ n msg, (sv.nodes n).type ≠ .fullDuplex → ∃ msgs, sv.handleMsg n msg msgs = true)
    (atPc : s.pcs t = .handle msg) : Reduces sv rank s := by
  obtain ⟨n, c, atRole⟩ := flowing.handling t msg atPc
  by_cases duplex : (sv.nodes n).type = .fullDuplex
  · have next : s.step sv (.step t) =
        some (setPc { s with written := s.written ++ [(n, msg)] } t .top) := by
      simp [step, atRole, advance, atPc, duplex]
    exact reduces_of_effect flowing layered atRole rfl next (.fdWrite msg atPc duplex) (.inl ⟨msg, atPc⟩)
  · have calm : msg.stopSignal = false := flowing.held t msg (by rw [atPc]; exact List.mem_cons_self)
    obtain ⟨msgs, allowed⟩ := total n msg duplex
    have next : s.step sv (.handleMsg t msgs) = some (s.setPc t (.dispatch msgs)) := by
      simp [step, atRole, atPc, duplex, calm, allowed]
    exact reduces_of_effect flowing layered atRole rfl next (.handled msg msgs atPc calm duplex allowed) (.inl ⟨msg, atPc⟩)

variable (plain : ∀ n msg msgs, sv.handleMsg n msg msgs = true → ∀ o ∈ msgs, o.stopSignal = false)

include plain

omit [Fintype ι] in
theorem Flowing.stepped (flowing : Flowing sv s) (next : s.step sv (.step t) = some u) : Flowing sv u :=
  flowing.step plain (fun _ produced => by cases produced) next

/-- A thread in `WriteMessage` whose channel has room. -/
theorem reduces_write {channel : Nat} {rest : List BaseMsg} {pc : WaitPc} (flowing : Flowing sv s)
    (layered : Layered sv rank) (atPc : s.pcs t = .write channel msg rest pc)
    (space : (s.queues channel).pool.length < (s.queues channel).poolSize) : Reduces sv rank s := by
  obtain ⟨role, atRole⟩ := flowing.staffed t (by simp [atPc])
  have attempting {s : Network ν ι} (flowing : Flowing sv s) (atPc : s.pcs t = .write channel msg rest .attempt)
      (space : (s.queues channel).pool.length < (s.queues channel).poolSize) : Reduces sv rank s := by
    have next : s.step sv (.step t) = some (s.write t channel msg rest .attempt) := by
      simp [step, atRole, advance, atPc]
    refine reduces_of_effect flowing layered atRole rfl next (write_effect atPc) (.inr (.inl ?_))
    rcases (s.queues channel).enqueue_cases msg with ⟨full, _⟩ | ⟨_, result⟩
    · omega
    · simp [write, result]
  have checking {s : Network ν ι} (flowing : Flowing sv s) (atPc : s.pcs t = .write channel msg rest .check)
      (space : (s.queues channel).pool.length < (s.queues channel).poolSize) : Reduces sv rank s := by
    have next : s.step sv (.step t) = some (s.setPc t (.write channel msg rest .attempt)) := by
      simp [step, atRole, advance, atPc, write, flowing.unbroken channel]
    exact (attempting (flowing.stepped plain next) setPc_self space).of_step flowing layered next
  cases pc with
  | attempt => exact attempting flowing atPc space
  | check => exact checking flowing atPc space
  | wait =>
    have next : s.step sv (.step t) = some (s.setPc t (.write channel msg rest .check)) := by
      simp [step, atRole, advance, atPc, write]
    exact (checking (flowing.stepped plain next) setPc_self space).of_step flowing layered next

/-- A worker that holds nothing, before a channel that holds something. -/
theorem reduces_read {n : ν} {c : Nat} (flowing : Flowing sv s) (layered : Layered sv rank)
    (atRole : sv.role t = some (.worker n c)) (idle : (s.pcs t).held = []) (waiting : (s.queues c).pool ≠ []) :
    Reduces sv rank s := by
  have attempting {s : Network ν ι} (flowing : Flowing sv s) (atPc : s.pcs t = .read .attempt)
      (waiting : (s.queues c).pool ≠ []) : Reduces sv rank s := by
    have next : s.step sv (.step t) = some (s.read t c .attempt) := by
      simp [step, atRole, advance, atPc]
    refine reduces_of_effect flowing layered atRole rfl next (read_effect atPc) (.inr (.inr (.inl ?_)))
    obtain ⟨front, rest, pool⟩ := List.exists_cons_of_ne_nil waiting
    simp [read, pool]
  have checking {s : Network ν ι} (flowing : Flowing sv s) (atPc : s.pcs t = .read .check)
      (waiting : (s.queues c).pool ≠ []) : Reduces sv rank s := by
    have next : s.step sv (.step t) = some (s.setPc t (.read .attempt)) := by
      simp [step, atRole, advance, atPc, read, flowing.unbroken c]
    exact (attempting (flowing.stepped plain next) setPc_self waiting).of_step flowing layered next
  have starting {s : Network ν ι} (flowing : Flowing sv s) (atPc : s.pcs t = .top)
      (waiting : (s.queues c).pool ≠ []) : Reduces sv rank s := by
    have next : s.step sv (.step t) = some (s.setPc t (.read .check)) := by
      simp [step, atRole, advance, atPc, flowing.running n]
    exact (checking (flowing.stepped plain next) setPc_self waiting).of_step flowing layered next
  cases atPc : s.pcs t with
  | top => exact starting flowing atPc waiting
  | exit => exact absurd atPc (flowing.awake t)
  | handle | write => simp [atPc, ThreadPc.held] at idle
  | read pc =>
    cases pc with
    | attempt => exact attempting flowing atPc waiting
    | check => exact checking flowing atPc waiting
    | wait =>
      have next : s.step sv (.step t) = some (s.setPc t (.read .check)) := by
        simp [step, atRole, advance, atPc, read]
      exact (checking (flowing.stepped plain next) setPc_self waiting).of_step flowing layered next
  | dispatch msgs =>
    have empty : msgs = [] := by simpa [atPc, ThreadPc.held] using idle
    subst msgs
    have next : s.step sv (.step t) = some (s.setPc t .top) := by
      simp [step, atRole, advance, atPc, dispatch]
    exact (starting (flowing.stepped plain next) setPc_self waiting).of_step flowing layered next

variable (total : ∀ n msg, (sv.nodes n).type ≠ .fullDuplex → ∃ msgs, sv.handleMsg n msg msgs = true)
  (covered : ∀ c m, WrittenBy sv m c → ∃ t n, sv.role t = some (.worker n c))

include total covered

/-- Wherever a message is, following what keeps it there down the ranks leads to a thread that
can go on: a full channel to its readers, a busy reader to the channel it writes to. -/
theorem reduces_of_level (flowing : Flowing sv s) (layered : Layered sv rank) (level : Nat)
    (inFlight : (∃ c, (s.queues c).pool ≠ [] ∧ 3 * channelRank sv rank c = level) ∨
      ∃ t, (s.pcs t).held ≠ [] ∧ 3 * threadRank sv rank t + 1 = level) : Reduces sv rank s := by
  induction level using Nat.strongRecOn with
  | ind level ih =>
    rcases inFlight with ⟨c, waiting, rfl⟩ | ⟨t, busy, rfl⟩
    · have written := flowing.logged.written waiting
      obtain ⟨m, writes⟩ := written
      obtain ⟨t, n, atRole⟩ := covered c m writes
      have below : rank n < channelRank sv rank c := layered.lt_channelRank atRole ⟨m, writes⟩
      by_cases idle : (s.pcs t).held = []
      · exact reduces_read plain flowing layered atRole idle waiting
      · have known : threadRank sv rank t = rank n := threadRank_eq atRole
        exact ih _ (by omega) (.inr ⟨t, idle, rfl⟩)
    · obtain ⟨role, atRole⟩ := flowing.staffed t (by rintro atTop; simp [atTop, ThreadPc.held] at busy)
      have known : threadRank sv rank t = rank role.node := threadRank_eq atRole
      have stuck {msg : BaseMsg} {channel : Nat} (target : sv.dispatch role.node msg = some channel)
          (full : ¬ (s.queues channel).pool.length < (s.queues channel).poolSize) : Reduces sv rank s := by
        have above : channelRank sv rank channel ≤ rank role.node :=
          channelRank_le (writtenBy_of_dispatch atRole target)
        have room := flowing.room channel
        have waiting : (s.queues channel).pool ≠ [] := by
          rw [← List.length_pos_iff]
          omega
        exact ih _ (by omega) (.inl ⟨channel, waiting, rfl⟩)
      cases atPc : s.pcs t with
      | top | read | exit => simp [atPc, ThreadPc.held] at busy
      | handle msg => exact reduces_handle flowing layered total atPc
      | write channel msg rest pc =>
        obtain ⟨other, same, target⟩ := flowing.logged.pending t channel msg rest pc atPc
        cases Option.some.inj (atRole.symm.trans same)
        by_cases space : (s.queues channel).pool.length < (s.queues channel).poolSize
        · exact reduces_write plain flowing layered atPc space
        · exact stuck target space
      | dispatch msgs =>
        cases msgs with
        | nil => simp [atPc, ThreadPc.held] at busy
        | cons msg rest =>
          cases target : sv.dispatch role.node msg with
          | none =>
            have next : s.step sv (.step t) = some (s.setPc t (.dispatch rest)) := by
              simp [step, atRole, advance, atPc, dispatch, target]
            refine reduces_of_effect flowing layered atRole rfl next (.unrouted msg rest atPc target) ?_
            simp [atPc, ThreadPc.held]
          | some channel =>
            by_cases space : (s.queues channel).pool.length < (s.queues channel).poolSize
            · have next : s.step sv (.step t) = some (s.setPc t (.write channel msg rest .check)) := by
                simp [step, atRole, advance, atPc, dispatch, target]
              have writing := reduces_write plain (flowing.stepped plain next) layered setPc_self space
              exact writing.of_step flowing layered next
            · exact stuck target space

/-- All queues are empty and no thread holds a message. -/
def Drained (s : Network ν ι) : Prop := (∀ c, (s.queues c).pool = []) ∧ ∀ t, (s.pcs t).held = []

theorem reduces_of_not_drained (flowing : Flowing sv s) (layered : Layered sv rank) (busy : ¬ Drained s) :
    Reduces sv rank s := by
  by_cases waiting : ∃ c, (s.queues c).pool ≠ []
  · obtain ⟨c, waiting⟩ := waiting
    exact reduces_of_level plain total covered flowing layered _ (.inl ⟨c, waiting, rfl⟩)
  by_cases holding : ∃ t, (s.pcs t).held ≠ []
  · obtain ⟨t, holding⟩ := holding
    exact reduces_of_level plain total covered flowing layered _ (.inr ⟨t, holding, rfl⟩)
  · push Not at waiting holding
    exact absurd ⟨waiting, holding⟩ busy

/-- No deadlock without a loop: where every channel that is written is also read, no node is
stopped and no stop signal is sent, the threads can bring every message in flight to its end
from every state of every run, and then all that was written has been read. -/
theorem layered_network_drains (layered : Layered sv rank) (capacity : Nat → Nat) (room : ∀ c, 0 < capacity c)
    (acts : List (NetworkAct ι)) (calm : ∀ a ∈ acts, ∀ msg, a.produced = some msg → msg.stopSignal = false)
    (s : Network ν ι) (reach : run (step sv) (init (fun _ => false) capacity) acts = some s) :
    ∃ more u, (∀ a ∈ more, NetworkAct.produced a = none) ∧ run (step sv) s more = some u ∧
      (∀ c, (u.queues c).pool = []) ∧ (∀ t, (u.pcs t).held = []) ∧
      ∀ c, via c u.dequeued = via c u.enqueued := by
  have flowing : Flowing sv s := by
    refine run_invariant_along (P := fun _ a => ∀ msg, a.produced = some msg → msg.stopSignal = false) ?_
      (.init room) (along_of_forall fun a member _ => calm a member) reach
    exact fun _ _ _ old calm next => old.step plain calm next
  have progress (s : Network ν ι) (flowing : Flowing sv s) (busy : ¬ Drained s) :
      ∃ acts u, (∀ a ∈ acts, NetworkAct.produced a = none) ∧ run (step sv) s acts = some u ∧ Flowing sv u ∧
        (potential sv rank u).IsDershowitzMannaLT (potential sv rank s) := by
    obtain ⟨acts, u, quiet, reach, lower⟩ := reduces_of_not_drained plain total covered flowing layered busy
    refine ⟨acts, u, quiet, reach, ?_, lower⟩
    refine run_invariant_along (P := fun _ a => NetworkAct.produced a = none) ?_ flowing
      (along_of_forall fun a member _ => quiet a member) reach
    exact fun _ _ _ old quiet next => old.step plain (fun msg produced => by rw [quiet] at produced; cases produced) next
  obtain ⟨more, u, quiet, onward, kept, empty, idle⟩ :=
    run_to_rest Multiset.wellFounded_isDershowitzMannaLT (potential sv rank) progress flowing
  refine ⟨more, u, quiet, onward, empty, idle, fun c => ?_⟩
  rw [kept.logged.fifo c, empty c, List.append_nil]

end Drain

theorem layered_network_drains_chain :
    ∃ s, run (step chain) (init (fun _ => false) fun _ => 100)
        [.produce false (.init 3), .step false, .step false, .step false] = some s ∧
      (s.queues 0).pool = [.init 3] ∧
      ∃ more u, run (step chain) s more = some u ∧ (u.queues 0).pool = [] ∧ via 0 u.dequeued = via 0 u.enqueued := by
  refine ⟨_, rfl, rfl, ?_⟩
  obtain ⟨more, u, _, onward, empty, _, all⟩ := layered_network_drains
    (fun _ _ msgs allowed o member => by
      have none : msgs = [] := by simpa [chain] using allowed
      rw [none] at member
      cases member)
    (fun _ _ _ => ⟨[], rfl⟩)
    (fun c m writes => by
      obtain ⟨_, rfl⟩ := chain_writers writes
      exact ⟨true, true, rfl⟩)
    chain_layered (fun _ => 100) (fun _ => by omega)
    [.produce false (.init 3), .step false, .step false, .step false]
    (by
      intro a member msg produced
      simp only [List.mem_cons, List.not_mem_nil, or_false] at member
      rcases member with rfl | rfl | rfl | rfl
      · cases produced
        rfl
      · cases produced
      · cases produced
      · cases produced)
    _ rfl
  exact ⟨more, u, onward, empty 0, all 0⟩

end ServicesFramework.Network
