import Mathlib.Data.Fintype.Basic
import Mathlib.Tactic
import ServicesFramework.Lib.Potential
import ServicesFramework.NetworkStops

namespace ServicesFramework.Network

open Machine

variable {ν ι : Type*} (sv : Services ν ι) (rank : ν → Nat)

/-- A node that some thread belongs to writes to the channel. -/
def WrittenBy (n : ν) (c : Nat) : Prop :=
  (∃ t role, sv.role t = some role ∧ role.node = n) ∧ c ∈ (sv.nodes n).channels .chnOut

/-- The topology has no loop: along every channel that a worker reads, the rank falls. -/
def Layered : Prop :=
  ∀ t n c, sv.role t = some (.worker n c) → ∀ m, WrittenBy sv m c → rank n < rank m

/-- The lowest rank of a node that writes to the channel. -/
noncomputable def channelRank (c : Nat) : Nat := sInf (Set.image rank {n | WrittenBy sv n c})

def threadRank (t : ι) : Nat := (sv.role t).elim 0 fun role => rank role.node

/-- How far the messages that a thread holds still have to go: a message that is handled may
become several that are dispatched, and one that is dispatched goes into a channel. -/
def levels (rank : Nat) : ThreadPc → Multiset Nat
  | .handle _ => {3 * rank + 2}
  | .dispatch msgs => Multiset.replicate msgs.length (3 * rank + 1)
  | .write _ _ rest _ => Multiset.replicate (rest.length + 1) (3 * rank + 1)
  | .top | .read _ | .exit => 0

/-- The same for the messages of a channel. -/
noncomputable def channelLevels (c : Nat) (q : Queue BaseMsg) : Multiset Nat :=
  Multiset.replicate q.pool.length (3 * channelRank sv rank c)

variable {sv rank} {s u : Network ν ι} {t : ι} {role : Role ν} {n : ν} {c : Nat} {msg : BaseMsg}

theorem writtenBy_of_dispatch (atRole : sv.role t = some role)
    (target : sv.dispatch role.node msg = some c) : WrittenBy sv role.node c :=
  ⟨⟨t, role, atRole, rfl⟩, sv.dispatch_mem _ _ _ target⟩

theorem channelRank_le (writes : WrittenBy sv n c) : channelRank sv rank c ≤ rank n :=
  Nat.sInf_le ⟨n, writes, rfl⟩

theorem Layered.lt_channelRank (layered : Layered sv rank) (atRole : sv.role t = some (.worker n c))
    (written : ∃ m, WrittenBy sv m c) : rank n < channelRank sv rank c := by
  obtain ⟨m, writes⟩ := written
  have lowest : channelRank sv rank c ∈ Set.image rank {n | WrittenBy sv n c} := Nat.sInf_mem ⟨rank m, m, writes, rfl⟩
  obtain ⟨k, writes, same⟩ := lowest
  rw [← same]
  exact layered t n c atRole k writes

/-- A message in a channel was written there by a thread of some node. -/
theorem Logged.written (logged : Logged sv s) (waiting : (s.queues c).pool ≠ []) : ∃ m, WrittenBy sv m c := by
  obtain ⟨msg, member⟩ := List.exists_mem_of_ne_nil _ waiting
  have sent : msg ∈ via c s.enqueued := by
    rw [logged.fifo c]
    exact List.mem_append_right _ member
  obtain ⟨e, selected, _⟩ := List.mem_map.mp sent
  obtain ⟨listed, here⟩ := List.mem_filter.mp selected
  obtain ⟨role, atRole, target⟩ := logged.routed e listed
  rw [decide_eq_true_eq.mp here] at target
  exact ⟨role.node, writtenBy_of_dispatch atRole target⟩

theorem threadRank_eq (atRole : sv.role t = some role) : threadRank sv rank t = rank role.node := by
  simp [threadRank, atRole]

/-- Away from `handle`, what a thread holds says how far it has to go. -/
theorem levels_eq_replicate {r : Nat} {pc : ThreadPc} (other : ∀ msg, pc ≠ .handle msg) :
    levels r pc = Multiset.replicate pc.held.length (3 * r + 1) := by
  cases pc with
  | handle msg => exact absurd rfl (other msg)
  | top | read | exit | dispatch | write => rfl

variable [Fintype ι]

variable (sv) in
/-- The channels that the threads write to. -/
def writtenChannels : Finset Nat :=
  Finset.univ.biUnion fun t => ((sv.role t).elim [] fun role => (sv.nodes role.node).channels .chnOut).toFinset

theorem WrittenBy.mem_channels (writes : WrittenBy sv n c) : c ∈ writtenChannels sv := by
  obtain ⟨⟨t, role, atRole, rfl⟩, listed⟩ := writes
  simp only [writtenChannels, Finset.mem_biUnion, Finset.mem_univ, true_and]
  exact ⟨t, by simpa [atRole] using listed⟩

variable (sv rank) in
/-- All the messages in flight, each with how far it has to go. -/
noncomputable def potential (s : Network ν ι) : Multiset Nat :=
  ∑ t, levels (threadRank sv rank t) (s.pcs t) + ∑ c ∈ writtenChannels sv, channelLevels sv rank c (s.queues c)

variable [DecidableEq ι]

theorem potential_setPc {pc : ThreadPc} (queues : u.queues = s.queues) (pcs : u.pcs = Function.update s.pcs t pc) :
    potential sv rank u + levels (threadRank sv rank t) (s.pcs t) =
      potential sv rank s + levels (threadRank sv rank t) pc := by
  have threads := load_update (fun t => levels (threadRank sv rank t)) s.pcs pc (Finset.mem_univ t)
  rw [potential, potential, queues, pcs, add_right_comm, threads, add_right_comm]

theorem potential_move {pc : ThreadPc} {q : Queue BaseMsg} (listed : c ∈ writtenChannels sv)
    (queues : u.queues = Function.update s.queues c q) (pcs : u.pcs = Function.update s.pcs t pc) :
    potential sv rank u + (levels (threadRank sv rank t) (s.pcs t) + channelLevels sv rank c (s.queues c)) =
      potential sv rank s + (levels (threadRank sv rank t) pc + channelLevels sv rank c q) := by
  have threads := load_update (fun t => levels (threadRank sv rank t)) s.pcs pc (Finset.mem_univ t)
  have channels := load_update (channelLevels sv rank) s.queues q listed
  rw [potential, potential, queues, pcs, add_add_add_comm, threads, channels, add_add_add_comm]

/-- One message less in a multiset of equal levels. -/
theorem add_replicate_succ {M N : Multiset Nat} {k d : Nat} (more : Multiset Nat)
    (balance : M + Multiset.replicate (k + 1) d = N + (more + Multiset.replicate k d)) : M + {d} = N + more := by
  refine add_right_cancel (b := Multiset.replicate k d) ?_
  rw [add_assoc, Multiset.singleton_add, ← Multiset.replicate_succ, balance, add_assoc]

variable [DecidableEq ν]

/-- A step that moves no message leaves the potential as it is, and every other one lowers
it. -/
theorem Effect.lowers (logged : Logged sv s) (layered : Layered sv rank) (atRole : sv.role t = some role)
    (effect : Effect sv s t role u) :
    ((∀ msg, s.pcs t ≠ .handle msg) ∧ potential sv rank u = potential sv rank s ∧ u.enqueued = s.enqueued ∧
        u.dequeued = s.dequeued ∧ u.written = s.written ∧ u.queues = s.queues ∧
        (u.pcs t).held = (s.pcs t).held) ∨
      (potential sv rank u).IsDershowitzMannaLT (potential sv rank s) := by
  have known : threadRank sv rank t = rank role.node := threadRank_eq atRole
  have turned {pc : ThreadPc} (queues : u.queues = s.queues) (pcs : u.pcs = Function.update s.pcs t pc) :
      potential sv rank u + levels (rank role.node) (s.pcs t) =
        potential sv rank s + levels (rank role.node) pc := by
    rw [← known]
    exact potential_setPc queues pcs
  have moved {pc : ThreadPc} {c : Nat} {q : Queue BaseMsg} (listed : c ∈ writtenChannels sv)
      (queues : u.queues = Function.update s.queues c q) (pcs : u.pcs = Function.update s.pcs t pc) :
      potential sv rank u + (levels (rank role.node) (s.pcs t) + channelLevels sv rank c (s.queues c)) =
        potential sv rank s + (levels (rank role.node) pc + channelLevels sv rank c q) := by
    rw [← known]
    exact potential_move listed queues pcs
  cases effect with
  | turn pc held before after _ =>
    refine Or.inl ⟨before, ?_, rfl, rfl, rfl, rfl, by rw [setPc_self, held]⟩
    have balance := turned rfl rfl
    rw [levels_eq_replicate before, levels_eq_replicate after, held] at balance
    exact add_right_cancel balance
  | take n channel front rest worker atPc pool =>
    subst role
    have written := logged.written (pool ▸ List.cons_ne_nil front rest)
    have below : rank n < channelRank sv rank channel := layered.lt_channelRank atRole written
    obtain ⟨m, writes⟩ := written
    have balance := moved writes.mem_channels rfl rfl
    simp only [atPc, channelLevels, pool, levels, zero_add, List.length_cons, Role.node] at balance
    refine Or.inr (isDershowitzMannaLT_of_replace (add_replicate_succ _ balance) ?_)
    intro level member
    rw [Multiset.mem_singleton] at member
    omega
  | put channel msg rest atPc room =>
    obtain ⟨other, same, target⟩ := logged.pending t channel msg rest _ atPc
    cases Option.some.inj (atRole.symm.trans same)
    have writes := writtenBy_of_dispatch atRole target
    have above : channelRank sv rank channel ≤ rank role.node := channelRank_le writes
    have balance := moved writes.mem_channels rfl rfl
    rw [atPc, channelLevels, channelLevels, List.length_append, List.length_singleton, levels, levels,
      Multiset.replicate_succ _ (s.queues channel).pool.length, ← Multiset.singleton_add,
      ← add_assoc (Multiset.replicate rest.length _), add_comm (Multiset.replicate rest.length _),
      ← add_assoc, ← add_assoc] at balance
    refine Or.inr (isDershowitzMannaLT_of_replace (add_replicate_succ _ (add_right_cancel balance)) ?_)
    intro level member
    rw [Multiset.mem_singleton] at member
    omega
  | unrouted msg rest atPc nowhere | broken channel msg rest atPc flag =>
    have balance := turned rfl rfl
    rw [atPc, levels, levels, ← zero_add (Multiset.replicate rest.length _)] at balance
    exact Or.inr (isDershowitzMannaLT_of_replace (add_replicate_succ 0 balance) (by simp))
  | stop msg atPc relay signal =>
    have balance := turned rfl rfl
    rw [atPc, levels, levels] at balance
    exact Or.inr (isDershowitzMannaLT_of_replace balance (by simp))
  | fdWrite msg atPc duplex =>
    have balance := turned rfl rfl
    rw [atPc, levels, levels] at balance
    exact Or.inr (isDershowitzMannaLT_of_replace balance (by simp))
  | handled msg msgs atPc plain relay allowed =>
    have balance := turned rfl rfl
    rw [atPc, levels, levels] at balance
    refine Or.inr (isDershowitzMannaLT_of_replace balance ?_)
    intro level member
    rw [Multiset.eq_of_mem_replicate member]
    omega

/-- The steps of the threads themselves. -/
theorem step_lowers {a : NetworkAct ι} (logged : Logged sv s) (layered : Layered sv rank) (quiet : a.produced = none)
    (next : s.step sv a = some u) : ∃ t, (∀ other, other ≠ t → u.pcs other = s.pcs other) ∧
      (((∀ msg, s.pcs t ≠ .handle msg) ∧ potential sv rank u = potential sv rank s ∧ u.enqueued = s.enqueued ∧
          u.dequeued = s.dequeued ∧ u.written = s.written ∧ u.queues = s.queues ∧
          (u.pcs t).held = (s.pcs t).held) ∨
        (potential sv rank u).IsDershowitzMannaLT (potential sv rank s)) := by
  rcases step_cases next with ⟨t, n, msg, rfl, _⟩ | ⟨_, t, role, atRole, effect⟩
  · cases quiet
  · exact ⟨t, effect.frame.1, effect.lowers logged layered atRole⟩

/-- Without a loop in the topology, threads that nobody gives new messages move messages only
finitely often: from some point of an endless run on, nothing is written, read or sent. -/
theorem layered_network_settles (layered : Layered sv rank) (isStop : ν → Bool) (capacity : Nat → Nat)
    (acts : List (NetworkAct ι)) (f : Nat → Network ν ι)
    (reach : run (step sv) (init isStop capacity) acts = some (f 0))
    (goesOn : ∀ i, ∃ a : NetworkAct ι, a.produced = none ∧ (f i).step sv a = some (f (i + 1))) :
    ∃ N, ∀ i, N ≤ i → (f i).enqueued = (f N).enqueued ∧ (f i).dequeued = (f N).dequeued ∧
      (f i).written = (f N).written ∧ (f i).queues = (f N).queues ∧
      ∀ t, ((f i).pcs t).held = ((f N).pcs t).held := by
  have logged (i : Nat) : Logged sv (f i) := by
    induction i with
    | zero => exact logged_of_run reach
    | succ i ih =>
      obtain ⟨a, _, next⟩ := goesOn i
      rcases step_cases next with ⟨t, n, msg, _, atRole, _, same⟩ | ⟨_, t, role, atRole, effect⟩
      · rw [same]
        exact ih.of_setPc atRole rfl rfl rfl rfl (by simp)
      · exact ih.effect atRole effect
  have lowers (i : Nat) := (goesOn i).elim fun a act => step_lowers (logged i) layered act.1 act.2
  obtain ⟨N, constant⟩ := settles Multiset.wellFounded_isDershowitzMannaLT (f := fun i => potential sv rank (f i))
    fun i => by
      obtain ⟨t, _, ⟨_, same, _⟩ | lower⟩ := lowers i
      · exact Or.inl same
      · exact Or.inr lower
  refine ⟨N, fun i after => ?_⟩
  induction after with
  | refl => exact ⟨rfl, rfl, rfl, rfl, fun _ => rfl⟩
  | @step i after ih =>
    obtain ⟨enqueued, dequeued, written, queues, held⟩ := ih
    obtain ⟨t, others, ⟨_, _, sameEnqueued, sameDequeued, sameWritten, sameQueues, sameHeld⟩ | lower⟩ := lowers i
    · refine ⟨sameEnqueued.trans enqueued, sameDequeued.trans dequeued, sameWritten.trans written,
        sameQueues.trans queues, fun other => ?_⟩
      by_cases same : other = t
      · rw [same, sameHeld, held]
      · rw [others other same, held]
    · have still : potential sv rank (f (i + 1)) = potential sv rank (f i) :=
        (constant (i + 1) (Nat.le_succ_of_le after)).trans (constant i after).symm
      rw [still] at lower
      exact absurd lower (Multiset.wellFounded_isDershowitzMannaLT.irrefl.irrefl _)

/-- A relay that a thread from outside writes for, and a worker that consumes what it sends. -/
def chain : Services Bool Bool where
  nodes n := if n then ⟨"consumer", .relay, false, 1, [0], []⟩ else ⟨"relay", .relay, false, 0, [], [0]⟩
  role t := if t then some (.worker true 0) else some (.producer false)
  handleMsg _ _ msgs := msgs.isEmpty

def chainRank (n : Bool) : Nat := if n then 0 else 1

theorem chain_writers {m : Bool} {c : Nat} (writes : WrittenBy chain m c) : m = false ∧ c = 0 := by
  obtain ⟨_, listed⟩ := writes
  cases m with
  | false => simpa [chain, Node.channels] using listed
  | true => simp [chain, Node.channels] at listed

theorem chain_layered : Layered chain chainRank := by
  intro t n c atRole m writes
  obtain ⟨rfl, rfl⟩ := chain_writers writes
  cases t with
  | false => cases atRole
  | true =>
    cases atRole
    exact Nat.zero_lt_one

/-- What the relay has sent waits in the channel. -/
def sentChain : Network Bool Bool :=
  { init (fun _ => false) fun _ => 100 with
    queues := Function.update (fun _ => .init 100) 0 ⟨[.init 3], 100, false⟩
    enqueued := [⟨false, 0, .init 3⟩] }

def takenChain : Network Bool Bool :=
  { sentChain with queues := fun _ => .init 100, dequeued := [⟨true, 0, .init 3⟩] }

/-- The worker on its way around the loop of `WaitDequeue`. -/
def spinning : Nat → ThreadPc
  | 0 => .top
  | 1 => .read .check
  | 2 => .read .attempt
  | 3 => .read .wait
  | i + 4 => spinning (i + 1)

/-- The worker takes the message, consumes it, and goes on looking for more. -/
def deliveringChain : Nat → Network Bool Bool
  | 0 => sentChain
  | 1 => sentChain.setPc true (.read .check)
  | 2 => sentChain.setPc true (.read .attempt)
  | 3 => takenChain.setPc true (.handle (.init 3))
  | 4 => takenChain.setPc true (.dispatch [])
  | i + 5 => takenChain.setPc true (spinning i)

theorem spinning_step (i : Nat) : (takenChain.setPc true (spinning i)).step chain (.step true) =
    some (takenChain.setPc true (spinning (i + 1))) := by
  fun_induction spinning i with
  | case5 i ih => simpa only [spinning] using ih
  | case1 | case2 | case3 | case4 =>
    simp [step, chain, advance, read, setPc, takenChain, sentChain, init, Queue.init, spinning]

theorem deliveringChain_step (i : Nat) :
    ∃ a : NetworkAct Bool, a.produced = none ∧ (deliveringChain i).step chain a = some (deliveringChain (i + 1)) := by
  match i with
  | 0 => exact ⟨.step true, rfl, by simp [step, chain, advance, setPc, deliveringChain, sentChain, init]⟩
  | 1 => exact ⟨.step true, rfl, by simp [step, chain, advance, read, setPc, deliveringChain, sentChain, init, Queue.init]⟩
  | 2 =>
    refine ⟨.step true, rfl, ?_⟩
    simp [step, chain, advance, read, setPc, deliveringChain, takenChain, sentChain, init, Queue.init]
  | 3 =>
    refine ⟨.handleMsg true [], rfl, ?_⟩
    simp [step, chain, setPc, deliveringChain, takenChain, sentChain, init, BaseMsg.stopSignal, BaseMsg.init]
  | 4 =>
    refine ⟨.step true, rfl, ?_⟩
    simp [step, chain, advance, dispatch, setPc, deliveringChain, takenChain, sentChain, init, spinning]
  | i + 5 => exact ⟨.step true, rfl, spinning_step i⟩

theorem layered_network_settles_chain :
    (∃ acts, run (step chain) (init (fun _ => false) fun _ => 100) acts = some (deliveringChain 0)) ∧
      ((deliveringChain 0).queues 0).pool = [.init 3] ∧
      ∃ N, ∀ i, N ≤ i → (deliveringChain i).dequeued = (deliveringChain N).dequeued := by
  have sent : run (step chain) (init (fun _ => false) fun _ => 100)
      [.produce false (.init 3), .step false, .step false, .step false, .step false] = some (deliveringChain 0) := by
    have atRole : chain.role false = some (.producer false) := rfl
    have target : chain.dispatch false (.init 3) = some 0 := rfl
    simp [run, step, atRole, advance, dispatch, Role.node, target, write, Queue.enqueue, setPc, deliveringChain, sentChain,
      init, Queue.init]
  obtain ⟨N, still⟩ := layered_network_settles chain_layered (fun _ => false) (fun _ => 100) _ deliveringChain sent
    deliveringChain_step
  exact ⟨⟨_, sent⟩, rfl, N, fun i after => (still i after).2.1⟩

end ServicesFramework.Network
