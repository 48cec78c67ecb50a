import Mathlib.Logic.Relation
import Mathlib.Tactic
import ServicesFramework.NetworkDispatch
import ServicesFramework.NodeTopology

namespace ServicesFramework.Network

open Machine Relation

variable {ν ι : Type*} {sv : Services ν ι} {s u : Network ν ι} {t : ι} {role : Role ν} {msg : BaseMsg}

/-- What has become of a stop signal that a worker of node `n` has taken from its channel:
it is about to be looked at, or the node is stopped and the signal is on its way. -/
def Relayed (sv : Services ν ι) (s : Network ν ι) (t : ι) (n : ν) (msg : BaseMsg) : Prop :=
  s.pcs t = .handle msg ∨
    s.isStop n = true ∧ (msg ∈ (s.pcs t).held ∨ sv.dispatch n msg = none ∨
      ∃ channel, sv.dispatch n msg = some channel ∧ msg ∈ via channel s.enqueued)

structure Signalled (sv : Services ν ι) (s : Network ν ι) : Prop where
  unbroken : ∀ c, (s.queues c).breakAllWait = false
  relayed : ∀ e ∈ s.dequeued, e.msg.stopSignal = true → ∀ n c, sv.role e.thread = some (.worker n c) →
    Relayed sv s e.thread n e.msg

theorem Signalled.init (isStop : ν → Bool) (capacity : Nat → Nat) : Signalled sv (init isStop capacity) where
  unbroken c := rfl
  relayed e member := by cases member

/-- What another thread does never takes a signal back. -/
theorem Relayed.other {n : ν} {other : ι} (old : Relayed sv s other n msg) (pcs : u.pcs other = s.pcs other)
    (isStop : s.isStop n = true → u.isStop n = true)
    (enqueued : ∀ c, msg ∈ via c s.enqueued → msg ∈ via c u.enqueued) : Relayed sv u other n msg := by
  rcases old with looking | ⟨stopped, held | nowhere | ⟨channel, target, written⟩⟩
  · exact Or.inl (pcs.trans looking)
  · exact Or.inr ⟨isStop stopped, Or.inl (by rw [pcs]; exact held)⟩
  · exact Or.inr ⟨isStop stopped, Or.inr (Or.inl nowhere)⟩
  · exact Or.inr ⟨isStop stopped, Or.inr (Or.inr ⟨channel, target, enqueued channel written⟩)⟩

theorem via_subset_snoc {c : Nat} {log : List (Transfer ι)} {e : Transfer ι} (member : msg ∈ via c log) :
    msg ∈ via c (log ++ [e]) := by
  rw [via_snoc]
  exact List.mem_append_left _ member

/-- All queues are empty and no worker holds a message. -/
def Quiet (sv : Services ν ι) (s : Network ν ι) : Prop :=
  (∀ c, (s.queues c).pool = []) ∧ ∀ t n c, sv.role t = some (.worker n c) → (s.pcs t).held = []

/-- Some worker of the node has taken the message from its channel. -/
def Consumed (sv : Services ν ι) (s : Network ν ι) (n : ν) (msg : BaseMsg) : Prop :=
  ∃ e ∈ s.dequeued, e.msg = msg ∧ ∃ c, sv.role e.thread = some (.worker n c)

/-- Once all is quiet, a node that has consumed a stop signal is stopped, and the signal was
consumed behind the channel that `Dispatch` picks for it. -/
theorem Signalled.consumed (signalled : Signalled sv s) (logged : Logged sv s) (quiet : Quiet sv s) {n : ν}
    (signal : msg.stopSignal = true) (consumed : Consumed sv s n msg) :
    s.isStop n = true ∧ ∀ channel, sv.dispatch n msg = some channel →
      ∃ t d, sv.role t = some (.worker d channel) ∧ Consumed sv s d msg := by
  obtain ⟨e, member, rfl, c, worker⟩ := consumed
  have empty := quiet.2 e.thread n c worker
  rcases signalled.relayed e member signal n c worker with looking | ⟨stopped, carried⟩
  · rw [looking] at empty
    cases empty
  · refine ⟨stopped, fun channel target => ?_⟩
    rcases carried with held | nowhere | ⟨other, same, written⟩
    · rw [empty] at held
      cases held
    · rw [nowhere] at target
      cases target
    · cases Option.some.inj (target.symm.trans same)
      rw [logged.fifo channel, quiet.1 channel, List.append_nil] at written
      obtain ⟨taken, selected, same⟩ := List.mem_map.mp written
      obtain ⟨listed, here⟩ := List.mem_filter.mp selected
      rw [decide_eq_true_eq] at here
      obtain ⟨d, reader⟩ := logged.taken taken listed
      rw [here] at reader
      exact ⟨taken.thread, d, reader, taken, listed, same, channel, reader⟩

variable [DecidableEq ν] [DecidableEq ι]

omit [DecidableEq ν] [DecidableEq ι] in
/-- A thread that is past looking at the signal has stopped its node. -/
theorem Relayed.looked {n : ν} (old : Relayed sv s t n msg) {pc : ThreadPc} (atPc : s.pcs t = pc)
    (past : pc ≠ .handle msg) :
    s.isStop n = true ∧ (msg ∈ pc.held ∨ sv.dispatch n msg = none ∨
      ∃ channel, sv.dispatch n msg = some channel ∧ msg ∈ via channel s.enqueued) := by
  subst pc
  exact old.resolve_left past

/-- One step of a thread, for the signals that this thread itself has taken. -/
theorem Relayed.own {n : ν} {c : Nat} (old : Relayed sv s t n msg) (logged : Logged sv s)
    (unbroken : ∀ c, (s.queues c).breakAllWait = false) (signal : msg.stopSignal = true)
    (relay : (sv.nodes n).type ≠ .fullDuplex) (atRole : sv.role t = some (.worker n c))
    (effect : Effect sv s t (.worker n c) u) : Relayed sv u t n msg := by
  cases effect with
  | turn pc held notBefore _ _ =>
    obtain ⟨stopped, carried⟩ := old.looked rfl (notBefore msg)
    refine Or.inr ⟨stopped, ?_⟩
    rw [setPc_self, held]
    exact carried
  | take _ channel front rest _ atPc _ =>
    obtain ⟨stopped, held | carried⟩ := old.looked atPc (by simp)
    · cases held
    · exact Or.inr ⟨stopped, Or.inr carried⟩
  | put channel sent rest atPc _ =>
    obtain ⟨stopped, held | nowhere | ⟨target, routed, written⟩⟩ := old.looked atPc (by simp)
    · refine Or.inr ⟨stopped, ?_⟩
      rcases List.mem_cons.mp held with rfl | later
      · obtain ⟨role, sameRole, routed⟩ := logged.pending t channel msg rest _ atPc
        cases Option.some.inj (atRole.symm.trans sameRole)
        refine Or.inr (Or.inr ⟨channel, routed, ?_⟩)
        rw [setPc_enqueued, via_snoc]
        simp
      · exact Or.inl (by rw [setPc_self]; exact later)
    · exact Or.inr ⟨stopped, Or.inr (Or.inl nowhere)⟩
    · exact Or.inr ⟨stopped, Or.inr (Or.inr ⟨target, routed, via_subset_snoc written⟩)⟩
  | unrouted lost rest atPc nowhere =>
    obtain ⟨stopped, held | carried⟩ := old.looked atPc (by simp)
    · refine Or.inr ⟨stopped, ?_⟩
      rcases List.mem_cons.mp held with rfl | later
      · exact Or.inr (Or.inl nowhere)
      · exact Or.inl (by rw [setPc_self]; exact later)
    · exact Or.inr ⟨stopped, Or.inr carried⟩
  | broken channel _ _ _ flag =>
    rw [unbroken channel] at flag
    cases flag
  | stop now atPc _ _ =>
    refine Or.inr ⟨Function.update_self .., ?_⟩
    rcases old with looking | ⟨_, held | carried⟩
    · rw [atPc] at looking
      cases looking
      exact Or.inl (by rw [setPc_self]; exact List.mem_cons_self)
    · rw [atPc] at held
      exact Or.inl (by rw [setPc_self]; exact held)
    · exact Or.inr carried
  | fdWrite _ _ duplex => exact absurd duplex relay
  | handled data msgs atPc plain _ _ =>
    have other : data ≠ msg := by
      rintro rfl
      rw [signal] at plain
      cases plain
    obtain ⟨stopped, held | carried⟩ := old.looked atPc (by simpa using other)
    · exact absurd (List.mem_singleton.mp held).symm other
    · exact Or.inr ⟨stopped, Or.inr carried⟩

/-- A step sets flags, adds to the logs, and moves no thread but its own. -/
theorem Effect.frame (effect : Effect sv s t role u) :
    (∀ other, other ≠ t → u.pcs other = s.pcs other) ∧ (∀ n, s.isStop n = true → u.isStop n = true) ∧
      (∀ c msg, msg ∈ via c s.enqueued → msg ∈ via c u.enqueued) ∧
      (∀ c, (u.queues c).breakAllWait = (s.queues c).breakAllWait) ∧
      ∀ e ∈ u.dequeued, e ∈ s.dequeued ∨ e.thread = t ∧ u.pcs t = .handle e.msg := by
  have flags {channel : Nat} {pool : List BaseMsg} (c : Nat) :
      (Function.update s.queues channel { s.queues channel with pool := pool } c).breakAllWait =
        (s.queues c).breakAllWait := by
    by_cases same : c = channel
    · subst c
      rw [Function.update_self]
    · rw [Function.update_of_ne same]
  cases effect with
  | turn | unrouted | broken | fdWrite | handled =>
    exact ⟨fun _ ne => setPc_other ne, fun _ stopped => stopped, fun _ _ member => member, fun _ => rfl,
      fun _ member => Or.inl member⟩
  | take _ channel front rest _ _ _ =>
    refine ⟨fun _ ne => setPc_other ne, fun _ stopped => stopped, fun _ _ member => member, flags, ?_⟩
    intro e member
    rcases List.mem_append.mp member with earlier | now
    · exact Or.inl earlier
    · cases List.mem_singleton.mp now
      exact Or.inr ⟨rfl, setPc_self⟩
  | put channel sent rest _ _ =>
    exact ⟨fun _ ne => setPc_other ne, fun _ stopped => stopped, fun _ _ member => via_subset_snoc member, flags,
      fun _ member => Or.inl member⟩
  | stop now _ _ _ =>
    refine ⟨fun _ ne => setPc_other ne, ?_, fun _ _ member => member, fun _ => rfl, fun _ member => Or.inl member⟩
    intro n stopped
    by_cases same : n = role.node
    · subst n
      exact Function.update_self ..
    · exact (Function.update_of_ne same ..).trans stopped

theorem Signalled.effect (old : Signalled sv s) (logged : Logged sv s)
    (relay : ∀ n, (sv.nodes n).type ≠ .fullDuplex) (atRole : sv.role t = some role)
    (effect : Effect sv s t role u) : Signalled sv u := by
  obtain ⟨pcs, isStop, enqueued, flags, dequeued⟩ := effect.frame
  refine ⟨fun c => (flags c).trans (old.unbroken c), ?_⟩
  intro e member signal n c worker
  rcases dequeued e member with earlier | ⟨same, now⟩
  · have relayed := old.relayed e earlier signal n c worker
    by_cases same : e.thread = t
    · rw [same] at relayed worker ⊢
      cases Option.some.inj (atRole.symm.trans worker)
      exact relayed.own logged old.unbroken signal (relay n) atRole effect
    · exact relayed.other (pcs _ same) (isStop n) fun c => enqueued c e.msg
  · rw [same]
    exact Or.inl now

theorem signalled_of_run {acts : List (NetworkAct ι)} {isStop : ν → Bool} {capacity : Nat → Nat}
    (relay : ∀ n, (sv.nodes n).type ≠ .fullDuplex)
    (reach : run (step sv) (init isStop capacity) acts = some s) : Signalled sv s := by
  suffices both : Logged sv s ∧ Signalled sv s from both.2
  refine run_invariant (I := fun s => Logged sv s ∧ Signalled sv s) ?_ ⟨.init _ _, .init _ _⟩ reach
  rintro s a u ⟨logged, old⟩ next
  rcases step_cases next with ⟨t, n, msg, _, atRole, atPc, rfl⟩ | ⟨_, t, role, atRole, effect⟩
  · refine ⟨logged.of_setPc atRole rfl rfl rfl rfl (by simp), old.unbroken, ?_⟩
    intro e member signal k c worker
    have ne : e.thread ≠ t := by
      intro same
      rw [same, atRole] at worker
      cases worker
    exact (old.relayed e member signal k c worker).other (setPc_other ne) id fun _ written => written
  · exact ⟨logged.effect atRole effect, old.effect logged relay atRole effect⟩

end ServicesFramework.Network

namespace ServicesFramework

/-- `Dispatch` of node `u`, its own or an override, writes the message to a channel of node `d`. -/
def Services.Forwards {ν ι : Type*} (sv : Services ν ι) (msg : BaseMsg) (u d : ν) : Prop :=
  ∃ c, sv.dispatch u msg = some c ∧ c ∈ (sv.nodes d).channels .chnIn

end ServicesFramework

namespace ServicesFramework.NodeManager

open Relation

variable {ν : Type*} [DecidableEq ν]

/-- `Connect(u, d)` was called. -/
def Downstream (calls : List (Connection ν)) (u d : ν) : Prop := ∃ call ∈ calls, call.up = u ∧ call.down = d

/-- Without reuse every channel has one reader. -/
theorem single_reader {nodes : ν → Node} (fresh : ∀ n ct, (nodes n).channels ct = []) {calls : List (Connection ν)}
    (separate : ∀ call ∈ calls, call.reuseChn = false) :
    ∀ c d e, c ∈ ((init nodes).connectAll calls).chns d .chnIn →
      c ∈ ((init nodes).connectAll calls).chns e .chnIn → d = e := by
  induction calls using List.reverseRecOn with
  | nil =>
    intro c d e reads
    simp [chns, init, fresh] at reads
  | append_singleton calls call ih =>
    intro c d e readsD readsE
    have old := ih (fun other member => separate other (List.mem_append_left _ member))
    have wired := wired_connectAll (.init fresh) calls
    have new : call.reuseChn = false := separate call (by simp)
    rw [connectAll_snoc] at readsD readsE
    rcases ((init nodes).connectAll calls).connect_cases call.up call.down call.reuseChn with
      ⟨_, result⟩ | ⟨_, _, _, reuse, _⟩ | ⟨_, _, _, reuse, _⟩ | ⟨_, _, result⟩
    · rw [result] at readsD readsE
      exact old c d e readsD readsE
    · simp [new] at reuse
    · simp [new] at reuse
    · rw [result] at readsD readsE
      have joins : Joins ((init nodes).connectAll calls) _ call.up call.down _ := joins_create
      rcases (joins c d .chnIn).mp readsD with oldD | ⟨freshD, ⟨_, wrong⟩ | ⟨sameD, _⟩⟩
      · rcases (joins c e .chnIn).mp readsE with oldE | ⟨freshE, _⟩
        · exact old c d e oldD oldE
        · exact absurd (wired.made d .chnIn c oldD) (by omega)
      · cases wrong
      · rcases (joins c e .chnIn).mp readsE with oldE | ⟨_, ⟨_, wrong⟩ | ⟨sameE, _⟩⟩
        · exact absurd (wired.made e .chnIn c oldE) (by omega)
        · cases wrong
        · rw [sameD, sameE]

open Machine Network in
/-- When all has become quiet after a node consumed a stop signal, every node on the path
along which the signal is dispatched is stopped, whatever `Dispatch` the nodes have. So all nodes
downstream are stopped where that path leads through all of them. -/
theorem stop_signal_reaches_path {ι : Type*} [DecidableEq ι] (nodes : ν → Node)
    (fresh : ∀ n ct, (nodes n).channels ct = []) (relays : ∀ n, (nodes n).type = .relay)
    (calls : List (Connection ν)) (separate : ∀ call ∈ calls, call.reuseChn = false)
    (m : NodeManager ν) (built : m = (init nodes).connectAll calls)
    (sv : Services ν ι) (connected : sv.nodes = m.nodes)
    (bound : ∀ t n c, sv.role t = some (.worker n c) → c ∈ m.chns n .chnIn)
    (isStop : ν → Bool) (capacity : Nat → Nat) (acts : List (NetworkAct ι)) (s : Network ν ι)
    (reach : run (Network.step sv) (Network.init isStop capacity) acts = some s) (quiet : Quiet sv s)
    (n : ν) (msg : BaseMsg) (signal : msg.stopSignal = true) (consumed : Consumed sv s n msg) :
    (∀ r, ReflTransGen (sv.Forwards msg) n r → s.isStop r = true) ∧
    ((∀ r, ReflTransGen (Downstream calls) n r → ReflTransGen (sv.Forwards msg) n r) →
      ∀ r, ReflTransGen (Downstream calls) n r → s.isStop r = true) := by
  have relay : ∀ n, (sv.nodes n).type ≠ .fullDuplex := by
    intro n
    rw [connected, built, connectAll_field Node.type Node.addChannel_type]
    simp [init, relays]
  have logged := logged_of_run reach
  have signalled := signalled_of_run relay reach
  have along : ∀ r, ReflTransGen (sv.Forwards msg) n r → Consumed sv s r msg := by
    intro r path
    induction path with
    | refl => exact consumed
    | tail _ hop ih =>
      obtain ⟨c, target, reads⟩ := hop
      rw [connected] at reads
      obtain ⟨t, d, worker, next⟩ := (signalled.consumed logged quiet signal ih).2 c target
      have here := bound t d c worker
      subst m
      rwa [single_reader fresh separate c _ d reads here]
  have stopped : ∀ r, ReflTransGen (sv.Forwards msg) n r → s.isStop r = true := fun r path =>
    (signalled.consumed logged quiet signal (along r path)).1
  exact ⟨stopped, fun covered r path => stopped r (covered r path)⟩

/-- Relays, of which the last here feeds the first. -/
def relayNodes (n : Nat) : Node := .init (if n = 2 then "UDP" else "relay") .relay false

theorem relayNodes_fresh (n : Nat) (ct : ChnType) : (relayNodes n).channels ct = [] := by cases ct <;> rfl

/-- Node 0 feeds the others. -/
def fanOut : List (Connection Nat) := [⟨3, 0, false⟩, ⟨0, 1, false⟩, ⟨0, 2, false⟩]

/-- Node 1 feeds node 2 as well. -/
def encoding : List (Connection Nat) := [⟨3, 0, false⟩, ⟨0, 1, false⟩, ⟨0, 2, false⟩, ⟨1, 2, false⟩]

theorem type_relayNodes (calls : List (Connection Nat)) (n : Nat) :
    (((init relayNodes).connectAll calls).nodes n).type = .relay := by
  rw [connectAll_field Node.type Node.addChannel_type]
  rfl

/-- One worker for each channel, which has the number of the call that made it, and threads that
dispatch from node 3. -/
def staff (calls : List (Connection Nat)) (t : Nat) : Option (Role Nat) :=
  (calls[t]?).elim (some (.producer 3)) fun call => some (.worker call.down t)

def relayServices (collector : Nat → Bool) (calls : List (Connection Nat)) : Services Nat Nat :=
  ((init relayNodes).connectAll calls).runningServices collector (fun n _ => type_relayNodes calls n) (staff calls)
    fun _ _ _ => true

/-- A stop signal, marked as a message to be coded. -/
def stopMsg (id : UInt32) : BaseMsg := { BaseMsg.init 0 with type := .signal, signal := .stop, id := id }

/-- Node 3 dispatches the signal, and the workers take it in turn. -/
def stopping (id : UInt32) (workers : List Nat) : List (NetworkAct Nat) :=
  .produce 4 (stopMsg id) :: List.replicate 4 (.step 4) ++ workers.flatMap fun t => List.replicate 7 (.step t)

theorem staff_worker {calls : List (Connection Nat)} {t n c : Nat} (worker : staff calls t = some (.worker n c)) :
    ∃ call, calls[t]? = some call ∧ n = call.down ∧ c = t := by
  unfold staff at worker
  cases at_t : calls[t]? with
  | none => simp [at_t] at worker
  | some call =>
    simp only [at_t, Option.elim_some, Option.some.injEq, Role.worker.injEq] at worker
    exact ⟨call, rfl, worker.1.symm, worker.2.symm⟩

theorem staff_producer {calls : List (Connection Nat)} {t n : Nat} (producer : staff calls t = some (.producer n)) :
    n = 3 := by
  unfold staff at producer
  cases at_t : calls[t]? with
  | none =>
    rw [at_t] at producer
    exact (Role.producer.inj (Option.some.inj producer)).symm
  | some call =>
    rw [at_t] at producer
    cases producer

/-- Checked call by call. -/
theorem made_read {calls : List (Connection Nat)}
    (reads : ∀ t, (below : t < calls.length) → t ∈ ((init relayNodes).connectAll calls).chns calls[t].down .chnIn)
    (t : Nat) (call : Connection Nat) (made : calls[t]? = some call) :
    t ∈ ((init relayNodes).connectAll calls).chns call.down .chnIn := by
  obtain ⟨below, rfl⟩ := List.getElem?_eq_some_iff.mp made
  exact reads t below

theorem relayServices_bound {collector : Nat → Bool} {calls : List (Connection Nat)}
    (covered : ∀ t call, calls[t]? = some call → t ∈ ((init relayNodes).connectAll calls).chns call.down .chnIn)
    (t n c : Nat) (worker : (relayServices collector calls).role t = some (.worker n c)) :
    c ∈ ((init relayNodes).connectAll calls).chns n .chnIn := by
  obtain ⟨call, made, rfl, rfl⟩ := staff_worker worker
  exact covered _ call made

theorem relayServices_quiet {collector : Nat → Bool} {calls : List (Connection Nat)} {s : Network Nat Nat}
    (queues : ∀ c, (s.queues c).pool = []) (pcs : ∀ t < calls.length, (s.pcs t).held = []) :
    Network.Quiet (relayServices collector calls) s := by
  refine ⟨queues, fun t _ _ worker => pcs t ?_⟩
  obtain ⟨_, made, _⟩ := staff_worker worker
  exact (List.getElem?_eq_some_iff.mp made).1

/-- A collector sends the coded signal to its encoder, whatever its id, and the encoder to the UDP
node: one path for all. -/
theorem encoding_dispatch : (relayServices (fun n => n = 0) encoding).dispatch 0 (stopMsg 1) = some 1 ∧
    (relayServices (fun n => n = 0) encoding).dispatch 1 (stopMsg 1) = some 3 := by decide

open Machine Network in
theorem stop_signal_reaches_path_encoding :
    ∃ s, run (Network.step (relayServices (fun n => n = 0) encoding)) (Network.init (fun _ => false) fun _ => 100)
        (stopping 1 [0, 1, 3]) = some s ∧
      ∀ r, ReflTransGen (Downstream encoding) 0 r → s.isStop r = true := by
  obtain ⟨s, reach, queues, pcs, taken⟩ : ∃ s,
      run (Network.step (relayServices (fun n => n = 0) encoding)) (Network.init (fun _ => false) fun _ => 100)
        (stopping 1 [0, 1, 3]) = some s ∧
      (∀ c, (s.queues c).pool = []) ∧ (∀ t < 4, (s.pcs t).held = []) ∧
      s.dequeued = [⟨0, 0, stopMsg 1⟩, ⟨1, 1, stopMsg 1⟩, ⟨3, 3, stopMsg 1⟩] := by
    refine ⟨_, rfl, ?_, by decide, rfl⟩
    intro c
    match c with
    | 0 => rfl
    | 1 => rfl
    | 2 => rfl
    | 3 => rfl
    | _ + 4 => rfl
  have quiet : Quiet (relayServices (fun n => n = 0) encoding) s := relayServices_quiet queues pcs
  have consumed : Consumed (relayServices (fun n => n = 0) encoding) s 0 (stopMsg 1) :=
    ⟨⟨0, 0, stopMsg 1⟩, by simp [taken], rfl, 0, rfl⟩
  have first : (relayServices (fun n => n = 0) encoding).Forwards (stopMsg 1) 0 1 :=
    ⟨1, encoding_dispatch.1, by decide⟩
  have second : (relayServices (fun n => n = 0) encoding).Forwards (stopMsg 1) 1 2 :=
    ⟨3, encoding_dispatch.2, by decide⟩
  have covered : ∀ r, ReflTransGen (Downstream encoding) 0 r →
      ReflTransGen ((relayServices (fun n => n = 0) encoding).Forwards (stopMsg 1)) 0 r := by
    intro r path
    have near : r = 0 ∨ r = 1 ∨ r = 2 := by
      induction path with
      | refl => exact .inl rfl
      | tail _ hop _ =>
        obtain ⟨call, member, _, rfl⟩ := hop
        have ends : ∀ call ∈ encoding, call.down = 0 ∨ call.down = 1 ∨ call.down = 2 := by decide
        exact ends call member
    rcases near with rfl | rfl | rfl
    · exact .refl
    · exact .single first
    · exact .tail (.single first) second
  exact ⟨s, reach, (stop_signal_reaches_path relayNodes relayNodes_fresh (fun _ => rfl) encoding (by decide) _ rfl
    (relayServices (fun n => n = 0) encoding) rfl (relayServices_bound (made_read (by decide))) _ _ _ s reach quiet 0 (stopMsg 1) rfl consumed).2 covered⟩

/-- The steps from a node along `Connect` calls never come back. -/
def Acyclic (calls : List (Connection ν)) : Prop := ∀ n, ¬ TransGen (Downstream calls) n n

/-- Every call leads away from node 3. -/
theorem fanOut_acyclic : Acyclic fanOut := by
  let depth : Nat → Nat := fun n => if n = 3 then 0 else if n = 0 then 1 else 2
  have deeper : ∀ n r, TransGen (Downstream fanOut) n r → depth n < depth r := by
    intro n r path
    have hop : ∀ u d, Downstream fanOut u d → depth u < depth d := by
      rintro u d ⟨call, member, rfl, rfl⟩
      revert call
      decide
    induction path with
    | single first => exact hop _ _ first
    | tail _ last ih => exact ih.trans (hop _ _ last)
  exact fun n loop => lt_irrefl _ (deeper n n loop)

open Machine Network in
/-- The fan-out sends the signal down one branch only. -/
theorem stop_signal_misses_branch :
    ¬ ∀ (nodes : Nat → Node) (calls : List (Connection Nat)) (collector : Nat → Bool) (sv : Services Nat Nat)
        (capacity : Nat → Nat) (acts : List (NetworkAct Nat)) (s : Network Nat Nat) (n : Nat) (msg : BaseMsg),
      (∀ n ct, (nodes n).channels ct = []) → (∀ n, (nodes n).type = .relay) →
      (∀ call ∈ calls, call.reuseChn = false) → Acyclic calls →
      sv.nodes = ((init nodes).connectAll calls).nodes →
      sv.dispatch = ((init nodes).connectAll calls).dispatch collector →
      (∀ t n c, sv.role t = some (.worker n c) → c ∈ ((init nodes).connectAll calls).chns n .chnIn) →
      (∀ n c, c ∈ ((init nodes).connectAll calls).chns n .chnIn → ∃ t, sv.role t = some (.worker n c)) →
      run (Network.step sv) (Network.init (fun _ => false) capacity) acts = some s → Quiet sv s →
      msg.stopSignal = true → Consumed sv s n msg →
      ∀ r, ReflTransGen (Downstream calls) n r → s.isStop r = true := by
  intro claim
  obtain ⟨s, reach, queues, pcs, taken, running⟩ : ∃ s,
      run (Network.step (relayServices (fun _ => false) fanOut)) (Network.init (fun _ => false) fun _ => 100)
        (stopping 0 [0, 1]) = some s ∧
      (∀ c, (s.queues c).pool = []) ∧ (∀ t < 3, (s.pcs t).held = []) ∧
      s.dequeued = [⟨0, 0, stopMsg 0⟩, ⟨1, 1, stopMsg 0⟩] ∧ s.isStop 2 = false := by
    refine ⟨_, rfl, ?_, by decide, rfl, rfl⟩
    intro c
    match c with
    | 0 => rfl
    | 1 => rfl
    | _ + 2 => rfl
  have covered : ∀ t call, fanOut[t]? = some call →
      t ∈ ((init relayNodes).connectAll fanOut).chns call.down .chnIn := made_read (by decide)
  have staffed : ∀ n c, c ∈ ((init relayNodes).connectAll fanOut).chns n .chnIn →
      ∃ t, (relayServices (fun _ => false) fanOut).role t = some (.worker n c) := by
    intro n c reads
    have below : c < 3 := (wired_connectAll (.init relayNodes_fresh) fanOut).made n .chnIn c reads
    have made : fanOut[c]? = some fanOut[c] := List.getElem?_eq_getElem below
    cases single_reader relayNodes_fresh (by decide) c n _ reads (covered c _ made)
    exact ⟨c, by simp [relayServices, runningServices, staff, made]⟩
  have quiet : Quiet (relayServices (fun _ => false) fanOut) s := relayServices_quiet queues pcs
  have consumed : Consumed (relayServices (fun _ => false) fanOut) s 0 (stopMsg 0) :=
    ⟨⟨0, 0, stopMsg 0⟩, by simp [taken], rfl, 0, rfl⟩
  have stopped := claim relayNodes fanOut (fun _ => false) (relayServices (fun _ => false) fanOut) _ _ s 0 (stopMsg 0)
    relayNodes_fresh (fun _ => rfl) (by decide) fanOut_acyclic rfl rfl (relayServices_bound covered) staffed reach quiet
    rfl consumed 2 (.single ⟨⟨0, 2, false⟩, by decide, rfl, rfl⟩)
  rw [running] at stopped
  cases stopped

end ServicesFramework.NodeManager
