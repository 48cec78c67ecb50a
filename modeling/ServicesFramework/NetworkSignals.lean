import ServicesFramework.NetworkStops

namespace ServicesFramework.Services

open Relation

variable {ν ι : Type*} (sv : Services ν ι) (isStop : ν → Bool) (msg : BaseMsg)

/-- A worker of node `d` reads the channel that `Dispatch` of node `u` writes the message to. The
workers of a node that is stopped from the start read nothing. -/
def Hands (u d : ν) : Prop :=
  ∃ c, sv.dispatch u msg = some c ∧ isStop d = false ∧ ∃ t, sv.role t = some (.worker d c)

/-- The read loop of every node that is not full-duplex hands a stop signal on. -/
def Relays (u d : ν) : Prop := (sv.nodes u).type ≠ .fullDuplex ∧ sv.Hands isStop msg u d

/-- The signal meets no full-duplex node, from this one on. -/
def Clear (n : ν) : Prop := ∀ e, ReflTransGen (sv.Relays isStop msg) n e → (sv.nodes e).type ≠ .fullDuplex

/-- It meets one after so many hops. -/
def Meets : Nat → ν → Prop
  | 0, n => (sv.nodes n).type = .fullDuplex
  | k + 1, n => ∃ d, sv.Relays isStop msg n d ∧ Meets k d

/-- A node that is not stopped from the start, with at most so many hops left. -/
def Near (k : Nat) (n : ν) : Prop := isStop n = false ∧ ∃ j ≤ k, sv.Meets isStop msg j n

variable {sv isStop msg} {n d : ν}

theorem Near.ne_of_shortest {k : Nat} (near : sv.Near isStop msg k n)
    (shortest : ∀ j < k + 1, ¬ sv.Meets isStop msg j d) : n ≠ d := by
  obtain ⟨_, j, few, met⟩ := near
  rintro rfl
  exact shortest j (by omega) met

theorem Clear.hands (clear : sv.Clear isStop msg n) (hop : sv.Hands isStop msg n d) : sv.Clear isStop msg d := by
  intro e path
  have relay : sv.Relays isStop msg n d := ⟨clear n .refl, hop⟩
  exact clear e (.head relay path)

theorem exists_meets (met : ¬ sv.Clear isStop msg n) : ∃ k, sv.Meets isStop msg k n := by
  simp only [Clear, not_forall, not_not] at met
  obtain ⟨e, path, duplex⟩ := met
  induction path using ReflTransGen.head_induction_on with
  | refl => exact ⟨0, duplex⟩
  | head hop _ ih =>
    obtain ⟨k, meets⟩ := ih
    exact ⟨k + 1, _, hop, meets⟩

end ServicesFramework.Services

namespace ServicesFramework.Network

open Machine

section Inside

variable {ν ι : Type*} {sv : Services ν ι} {isStop : ν → Bool} {s u : Network ν ι} {t : ι} {role : Role ν}

/-- Only the workers of nodes that were running at the start have left the head of their loop. -/
structure Awake (sv : Services ν ι) (isStop : ν → Bool) (s : Network ν ι) : Prop where
  started : ∀ n, s.isStop n = false → isStop n = false
  reads : ∀ t n c, sv.role t = some (.worker n c) → s.pcs t = .top ∨ s.pcs t = .exit ∨ isStop n = false

/-- Where the control messages are: a stop signal lies in a channel, or is held by a thread,
only if it can meet no full-duplex node from there, and none has been written. -/
structure Confined (sv : Services ν ι) (isStop : ν → Bool) (s : Network ν ι) : Prop where
  queued : ∀ c, ∀ msg ∈ (s.queues c).pool, msg.type = .signal → msg.signal = .stop ∧
    ∀ t d, sv.role t = some (.worker d c) → isStop d = false → sv.Clear isStop msg d
  held : ∀ t role, sv.role t = some role → ∀ msg ∈ (s.pcs t).held, msg.type = .signal →
    msg.signal = .stop ∧ ∀ d, sv.Hands isStop msg role.node d → sv.Clear isStop msg d
  looked : ∀ t role msg, sv.role t = some role → s.pcs t = .handle msg → msg.type = .signal →
    sv.Clear isStop msg role.node
  written : ∀ e ∈ s.written, e.2.type ≠ .signal

theorem Awake.init (capacity : Nat → Nat) : Awake sv isStop (init isStop capacity) where
  started _ running := running
  reads _ _ _ _ := .inl rfl

theorem Confined.init (capacity : Nat → Nat) : Confined sv isStop (init isStop capacity) where
  queued c msg member := by cases member
  held t role _ msg member := by cases member
  looked t role msg _ atPc := by cases atPc
  written e member := by cases member

variable [DecidableEq ι]

/-- What a step has to keep when it moves only its own thread. -/
theorem Confined.of_setPc (old : Confined sv isStop s) (atRole : sv.role t = some role) {pc : ThreadPc}
    (pcs : u.pcs = Function.update s.pcs t pc)
    (queued : ∀ c, ∀ msg ∈ (u.queues c).pool, msg.type = .signal → msg.signal = .stop ∧
      ∀ t d, sv.role t = some (.worker d c) → isStop d = false → sv.Clear isStop msg d)
    (held : ∀ msg ∈ pc.held, msg.type = .signal →
      msg.signal = .stop ∧ ∀ d, sv.Hands isStop msg role.node d → sv.Clear isStop msg d)
    (looked : ∀ msg, pc = .handle msg → msg.type = .signal → sv.Clear isStop msg role.node)
    (written : ∀ e ∈ u.written, e.2.type ≠ .signal) : Confined sv isStop u := by
  refine ⟨queued, ?_, ?_, written⟩
  · intro other role' atOther msg member signal
    rw [pcs] at member
    by_cases same : other = t
    · subst other
      obtain rfl := Option.some.inj (atRole.symm.trans atOther)
      rw [Function.update_self] at member
      exact held msg member signal
    · rw [Function.update_of_ne same] at member
      exact old.held other role' atOther msg member signal
  · intro other role' msg atOther atPc signal
    rw [pcs] at atPc
    by_cases same : other = t
    · subst other
      obtain rfl := Option.some.inj (atRole.symm.trans atOther)
      rw [Function.update_self] at atPc
      exact looked msg atPc signal
    · rw [Function.update_of_ne same] at atPc
      exact old.looked other role' msg atOther atPc signal

omit [DecidableEq ι] in
/-- The messages of a channel after one channel has got another pool. -/
theorem mem_pool_update {channel c : Nat} {pool : List BaseMsg} {msg : BaseMsg}
    (member : msg ∈ (Function.update s.queues channel { s.queues channel with pool := pool } c).pool) :
    (c = channel ∧ msg ∈ pool) ∨ msg ∈ (s.queues c).pool := by
  by_cases same : c = channel
  · subst c
    rw [Function.update_self] at member
    exact .inl ⟨rfl, member⟩
  · rw [Function.update_of_ne same] at member
    exact .inr member

variable [DecidableEq ν]

/-- A worker at the head of its loop tests the flag. -/
theorem advance_top {n : ν} {c : Nat} (atPc : s.pcs t = .top) (next : s.advance sv t (.worker n c) = some u) :
    u.pcs t = .exit ∨ s.isStop n = false := by
  simp only [advance, atPc, Option.some.injEq] at next
  subst next
  cases flag : s.isStop n with
  | true => exact .inl (by simp)
  | false => exact .inr rfl

omit [DecidableEq ι] [DecidableEq ν] in
theorem Awake.of_thread (old : Awake sv isStop s) (flags : ∀ n, s.isStop n = true → u.isStop n = true)
    (others : ∀ other, other ≠ t → u.pcs other = s.pcs other)
    (mine : ∀ n c, sv.role t = some (.worker n c) → u.pcs t = .exit ∨ isStop n = false) : Awake sv isStop u := by
  refine ⟨fun n running => old.started n ?_, fun other n c worker => ?_⟩
  · refine Bool.eq_false_iff.mpr fun stopped => ?_
    rw [flags n stopped] at running
    cases running
  · by_cases same : other = t
    · subst other
      exact .inr (mine n c worker)
    · rw [others other same]
      exact old.reads other n c worker

theorem Awake.step {a : NetworkAct ι} (old : Awake sv isStop s) (next : s.step sv a = some u) : Awake sv isStop u := by
  cases a with
  | produce t msg =>
    simp only [Network.step] at next
    split at next
    · rename_i atRole _
      cases Option.some.inj next
      refine old.of_thread (fun _ stopped => stopped) (fun _ ne => setPc_other ne) fun n c worker => ?_
      rw [atRole] at worker
      cases worker
    · cases next
  | handleMsg t msgs =>
    simp only [Network.step] at next
    split at next
    · rename_i atRole atPc
      split at next
      · cases Option.some.inj next
        refine old.of_thread (fun _ stopped => stopped) (fun _ ne => setPc_other ne) fun n c worker => ?_
        have reads := old.reads t n c worker
        simpa [atPc] using reads
      · cases next
    · cases next
  | step t =>
    obtain ⟨role, atRole, next⟩ := Option.bind_eq_some_iff.mp next
    obtain ⟨pcs, flags, _⟩ := (advance_effect next).frame
    refine old.of_thread flags pcs fun n c worker => ?_
    obtain rfl := Option.some.inj (atRole.symm.trans worker)
    rcases old.reads t n c worker with atTop | atExit | running
    · exact (advance_top atTop next).imp_right (old.started n)
    · simp [advance, atExit] at next
    · exact .inr running

/-- One step of a thread keeps the signals where they meet no full-duplex node. -/
theorem Confined.effect (old : Confined sv isStop s) (logged : Logged sv s) (awake : Awake sv isStop s)
    (plain : ∀ n msg msgs, sv.handleMsg n msg msgs = true → ∀ o ∈ msgs, o.type ≠ .signal)
    (atRole : sv.role t = some role) (effect : Effect sv s t role u) : Confined sv isStop u := by
  have mine := old.held t role atRole
  cases effect with
  | turn pc held _ notHandle _ =>
    refine old.of_setPc atRole rfl old.queued ?_ (fun msg same => absurd same (notHandle msg)) old.written
    rw [held]
    exact mine
  | take n channel front rest worker atPc pool =>
    subst worker
    have running : isStop n = false := by
      have reads := awake.reads t n channel atRole
      simpa [atPc] using reads
    have clear (signal : front.type = .signal) := old.queued channel front (by rw [pool]; exact List.mem_cons_self) signal
    have here (signal : front.type = .signal) : sv.Clear isStop front n := (clear signal).2 t n atRole running
    refine old.of_setPc atRole rfl ?_ ?_ ?_ old.written
    · intro c msg member
      rcases mem_pool_update member with ⟨rfl, later⟩ | here
      · exact old.queued c msg (by rw [pool]; exact List.mem_cons_of_mem front later)
      · exact old.queued c msg here
    · intro msg member signal
      obtain rfl := List.mem_singleton.mp member
      exact ⟨(clear signal).1, fun d hop => (here signal).hands hop⟩
    · intro msg same signal
      cases same
      exact here signal
  | put channel msg rest atPc _ =>
    obtain ⟨role', atRole', target⟩ := logged.pending t channel msg rest _ atPc
    obtain rfl := Option.some.inj (atRole.symm.trans atRole')
    rw [atPc] at mine
    refine old.of_setPc atRole rfl ?_ (fun o member => mine o (List.mem_cons_of_mem msg member)) (by simp) old.written
    intro c o member signal
    rcases mem_pool_update member with ⟨rfl, here⟩ | here
    · rcases List.mem_append.mp here with before | last
      · exact old.queued c o before signal
      · obtain rfl := List.mem_singleton.mp last
        obtain ⟨stop, clear⟩ := mine o List.mem_cons_self signal
        exact ⟨stop, fun w d reader running => clear d ⟨c, target, running, w, reader⟩⟩
    · exact old.queued c o here signal
  | unrouted msg rest atPc _ =>
    rw [atPc] at mine
    refine old.of_setPc atRole rfl old.queued ?_ (by simp) old.written
    exact fun o member => mine o (List.mem_cons_of_mem msg member)
  | broken channel msg rest atPc _ =>
    rw [atPc] at mine
    refine old.of_setPc atRole rfl old.queued ?_ (by simp) old.written
    exact fun o member => mine o (List.mem_cons_of_mem msg member)
  | stop msg atPc _ _ =>
    rw [atPc] at mine
    exact old.of_setPc atRole rfl old.queued mine (by simp) old.written
  | fdWrite msg atPc duplex =>
    refine old.of_setPc atRole rfl old.queued (by simp [ThreadPc.held]) (by simp) ?_
    intro e member
    rcases List.mem_append.mp member with earlier | now
    · exact old.written e earlier
    · obtain rfl := List.mem_singleton.mp now
      exact fun signal => old.looked t role msg atRole atPc signal role.node .refl duplex
  | handled msg msgs _ _ _ allowed =>
    refine old.of_setPc atRole rfl old.queued ?_ (by simp) old.written
    exact fun o member signal => absurd signal (plain role.node msg msgs allowed o member)

theorem confined_of_run {acts : List (NetworkAct ι)} {capacity : Nat → Nat}
    (plain : ∀ n msg msgs, sv.handleMsg n msg msgs = true → ∀ o ∈ msgs, o.type ≠ .signal)
    (injected : ∀ t n msg, .produce t msg ∈ acts → sv.role t = some (.producer n) → msg.type = .signal →
      msg.signal = .stop ∧ ∀ d, sv.Hands isStop msg n d → sv.Clear isStop msg d)
    (reach : run (step sv) (init isStop capacity) acts = some s) : Confined sv isStop s := by
  suffices all : Logged sv s ∧ Awake sv isStop s ∧ Confined sv isStop s from all.2.2
  refine run_invariant_along (I := fun s => Logged sv s ∧ Awake sv isStop s ∧ Confined sv isStop s)
    (P := fun _ a => a ∈ acts) ?_ ⟨.init _ _, .init _, .init _⟩ (along_of_forall fun a member _ => member) reach
  rintro s a u ⟨logged, awake, old⟩ member next
  have later := awake.step next
  rcases step_cases next with ⟨t, n, msg, rfl, atRole, _, rfl⟩ | ⟨_, t, role, atRole, effect⟩
  · refine ⟨logged.of_setPc atRole rfl rfl rfl rfl (by simp), later, ?_⟩
    refine old.of_setPc atRole rfl old.queued ?_ (by simp) old.written
    intro o here signal
    obtain rfl := List.mem_singleton.mp here
    exact injected t n o member atRole signal
  · exact ⟨logged.effect atRole effect, later, old.effect logged awake plain atRole effect⟩

end Inside

section Outside

variable {ν ι : Type*} [DecidableEq ν] [DecidableEq ι] {sv : Services ν ι} {isStop : ν → Bool} {s u : Network ν ι}
  {t w : ι} {role : Role ν} {n d : ν} {c : Nat} {msg : BaseMsg}

/-- A thread puts its message into a channel that has room. -/
theorem putting (atRole : sv.role t = some role) (atPc : s.pcs t = .dispatch [msg])
    (target : sv.dispatch role.node msg = some c) (unbroken : (s.queues c).breakAllWait = false)
    (room : (s.queues c).pool.length < (s.queues c).poolSize) :
    ∃ u, run (step sv) s [.step t, .step t, .step t] = some u ∧ u.pcs = Function.update s.pcs t (.dispatch []) ∧
      u.isStop = s.isStop ∧
      u.queues = Function.update s.queues c { s.queues c with pool := (s.queues c).pool ++ [msg] } := by
  obtain ⟨_, enqueued⟩ := ((s.queues c).enqueue_cases msg).resolve_left (by omega)
  have first : s.step sv (.step t) = some (s.setPc t (.write c msg [] .check)) := by
    simp [step, atRole, advance, atPc, dispatch, target]
  have second : (s.setPc t (.write c msg [] .check)).step sv (.step t) =
      some ((s.setPc t (.write c msg [] .check)).setPc t (.write c msg [] .attempt)) := by
    simp [step, atRole, advance, write, unbroken]
  have third : ((s.setPc t (.write c msg [] .check)).setPc t (.write c msg [] .attempt)).step sv (.step t) =
      some (setPc { (s.setPc t (.write c msg [] .check)).setPc t (.write c msg [] .attempt) with
        queues := Function.update s.queues c { s.queues c with pool := (s.queues c).pool ++ [msg] }
        enqueued := s.enqueued ++ [⟨t, c, msg⟩] } t (.dispatch [])) := by
    simp [step, atRole, advance, write, enqueued]
  refine ⟨_, run_cons.mpr ⟨_, first, run_cons.mpr ⟨_, second, run_cons.mpr ⟨_, third, rfl⟩⟩⟩, ?_, rfl, rfl⟩
  simp [setPc]

/-- A worker at the head of its loop takes the first message of its channel. -/
theorem taking {rest : List BaseMsg} (atRole : sv.role w = some (.worker d c)) (atPc : s.pcs w = .top)
    (running : s.isStop d = false) (unbroken : (s.queues c).breakAllWait = false)
    (pool : (s.queues c).pool = msg :: rest) :
    ∃ u, run (step sv) s [.step w, .step w, .step w] = some u ∧ u.pcs = Function.update s.pcs w (.handle msg) ∧
      u.isStop = s.isStop ∧ u.queues = Function.update s.queues c { s.queues c with pool := rest } := by
  have first : s.step sv (.step w) = some (s.setPc w (.read .check)) := by
    simp [step, atRole, advance, atPc, running]
  have second : (s.setPc w (.read .check)).step sv (.step w) =
      some ((s.setPc w (.read .check)).setPc w (.read .attempt)) := by
    simp [step, atRole, advance, read, unbroken]
  have third : ((s.setPc w (.read .check)).setPc w (.read .attempt)).step sv (.step w) =
      some (setPc { (s.setPc w (.read .check)).setPc w (.read .attempt) with
        queues := Function.update s.queues c { s.queues c with pool := rest }
        dequeued := s.dequeued ++ [⟨w, c, msg⟩] } w (.handle msg)) := by
    simp [step, atRole, advance, read, pool]
  refine ⟨_, run_cons.mpr ⟨_, first, run_cons.mpr ⟨_, second, run_cons.mpr ⟨_, third, rfl⟩⟩⟩, ?_, rfl, rfl⟩
  simp [setPc]

/-- Nothing is in a channel, and the workers of these nodes have not begun. -/
structure Ready (sv : Services ν ι) (P : ν → Prop) (s : Network ν ι) : Prop where
  unbroken : ∀ c, (s.queues c).breakAllWait = false
  empty : ∀ c, (s.queues c).pool = []
  room : ∀ c, 0 < (s.queues c).poolSize
  running : ∀ n, P n → s.isStop n = false
  idle : ∀ t n c, sv.role t = some (.worker n c) → P n → s.pcs t = .top

/-- The message goes from a thread to the worker that reads its channel. -/
theorem Ready.handOver {P Q : ν → Prop} (ready : Ready sv P s) (atRole : sv.role t = some role)
    (atPc : s.pcs t = .dispatch [msg]) (target : sv.dispatch role.node msg = some c)
    (reader : sv.role w = some (.worker d c)) (here : P d) (less : ∀ n, Q n → P n ∧ n ≠ d) :
    ∃ u, run (step sv) s ([t, t, t, w, w, w].map .step) = some u ∧ u.pcs w = .handle msg ∧ Ready sv Q u := by
  have top : s.pcs w = .top := ready.idle w d c reader here
  have other : w ≠ t := by
    rintro rfl
    rw [top] at atPc
    cases atPc
  obtain ⟨v, puts, pcs, flags, queues⟩ :=
    putting atRole atPc target (ready.unbroken c) (by rw [ready.empty c]; exact ready.room c)
  have pool : (v.queues c).pool = [msg] := by simp [queues, ready.empty c]
  obtain ⟨u, takes, pcs', flags', queues'⟩ := taking (s := v) reader (by rw [pcs, Function.update_of_ne other, top])
    (by rw [flags]; exact ready.running d here) (by simp [queues, ready.unbroken c]) pool
  -- the channel is as it was
  have same : u.queues = s.queues := by
    rw [queues', queues, Function.update_idem, Function.update_self]
    refine Function.update_eq_self_iff.mpr ?_
    rw [← ready.empty c]
  refine ⟨u, run_append.mpr ⟨v, puts, takes⟩, by rw [pcs', Function.update_self], ?_⟩
  refine ⟨by rw [same]; exact ready.unbroken, by rw [same]; exact ready.empty, by rw [same]; exact ready.room, ?_, ?_⟩
  · intro n later
    rw [flags', flags]
    exact ready.running n (less n later).1
  · intro x n k worker later
    have atTop := ready.idle x n k worker (less n later).1
    have notReader : x ≠ w := by
      rintro rfl
      rw [reader] at worker
      cases worker
      exact (less _ later).2 rfl
    have notSender : x ≠ t := by
      rintro rfl
      rw [atTop] at atPc
      cases atPc
    rw [pcs', Function.update_of_ne notReader, pcs, Function.update_of_ne notSender, atTop]

/-- A worker stops its node and hands the signal on; the nodes ahead wait as before. -/
theorem Ready.stops {P : ν → Prop} (ready : Ready sv P s) (reader : sv.role w = some (.worker d c))
    (past : ∀ n, P n → n ≠ d) :
    Ready sv P (setPc { s with isStop := Function.update s.isStop d true } w (.dispatch [msg])) := by
  refine ⟨ready.unbroken, ready.empty, ready.room, ?_, ?_⟩
  · intro n later
    exact (Function.update_of_ne (past n later) ..).trans (ready.running n later)
  · intro x n k worker later
    have other : x ≠ w := by
      rintro rfl
      rw [reader] at worker
      cases worker
      exact past _ later rfl
    exact (setPc_other other).trans (ready.idle x n k worker later)

/-- A stop signal goes the shortest way to a full-duplex node: the nodes on it are met once, so each
of them still runs when the signal comes. -/
theorem Ready.written {k : Nat} (meets : sv.Meets isStop msg k d) (shortest : ∀ j < k, ¬ sv.Meets isStop msg j d)
    (ready : Ready sv (sv.Near isStop msg k) s)
    (atRole : sv.role t = some role) (atPc : s.pcs t = .dispatch [msg])
    (hop : sv.Hands isStop msg role.node d) (signal : msg.stopSignal = true) :
    ∃ ts u, run (step sv) s (List.map .step ts) = some u ∧ ∃ n, (n, msg) ∈ u.written := by
  induction k generalizing s t role d with
  | zero =>
    obtain ⟨c, target, running, w, reader⟩ := hop
    obtain ⟨u, reach, handles, _⟩ :=
      ready.handOver (Q := fun _ => False) atRole atPc target reader ⟨running, 0, le_rfl, meets⟩ fun _ none => none.elim
    have duplex : (sv.nodes d).type = .fullDuplex := meets
    have next : u.step sv (.step w) = some (setPc { u with written := u.written ++ [(d, msg)] } w .top) := by
      simp [step, reader, advance, handles, duplex]
    exact ⟨[t, t, t, w, w, w] ++ [w], _, run_snoc.mpr ⟨u, reach, next⟩, d, by simp [setPc]⟩
  | succ k ih =>
    obtain ⟨c, target, running, w, reader⟩ := hop
    obtain ⟨e, ⟨relay, onward⟩, later⟩ := meets
    -- The nodes ahead are nearer to a full-duplex node than this one.
    have past : ∀ n, sv.Near isStop msg k n → n ≠ d := fun n near => near.ne_of_shortest shortest
    obtain ⟨u, reach, handles, waiting⟩ := ready.handOver (Q := sv.Near isStop msg k) atRole atPc target reader
      ⟨running, k + 1, le_rfl, e, ⟨relay, onward⟩, later⟩ fun n near => by
        obtain ⟨runs, j, few, met⟩ := near
        exact ⟨⟨runs, j, by omega, met⟩, past n ⟨runs, j, few, met⟩⟩
    have next : u.step sv (.step w) =
        some (setPc { u with isStop := Function.update u.isStop d true } w (.dispatch [msg])) := by
      simp [step, reader, advance, handles, relay, signal]
    obtain ⟨ts, v, goes, out⟩ := ih later (fun j below met => shortest (j + 1) (by omega) ⟨e, ⟨relay, onward⟩, met⟩)
      (waiting.stops reader past) reader setPc_self onward
    refine ⟨[t, t, t, w, w, w] ++ w :: ts, v, ?_, out⟩
    rw [List.map_append, List.map_cons]
    exact run_append.mpr ⟨u, reach, run_cons.mpr ⟨_, next, goes⟩⟩

end Outside

section Signals

variable {ν ι : Type*} [DecidableEq ν] [DecidableEq ι]

/-- No run in which these stop signals may be injected, in whatever order and however often, calls
`FDWrite` with a control message, exactly where none of them can meet a full-duplex node: along
the channels that `Dispatch` of each node picks for it, from reader to reader. -/
theorem signals_stay_inside_iff (sv : Services ν ι)
    (plain : ∀ n msg msgs, sv.handleMsg n msg msgs = true → ∀ o ∈ msgs, o.type ≠ .signal)
    (isStop : ν → Bool) (capacity : Nat → Nat) (room : ∀ c, 0 < capacity c)
    (injected : ι → BaseMsg → Prop) (stops : ∀ t msg, injected t msg → msg.type = .signal ∧ msg.signal = .stop) :
    (∀ acts s, run (step sv) (init isStop capacity) acts = some s →
      (∀ t msg, .produce t msg ∈ acts → msg.type = .signal → injected t msg) →
        ∀ n msg, (n, msg) ∈ s.written → msg.type ≠ .signal) ↔
      ∀ t n msg, injected t msg → sv.role t = some (.producer n) →
        ∀ d, sv.Hands isStop msg n d → sv.Clear isStop msg d := by
  constructor
  · intro inside t n msg may atRole d hop
    by_contra met
    obtain ⟨type, stop⟩ := stops t msg may
    have signal : msg.stopSignal = true := by simp [BaseMsg.stopSignal, type, stop]
    obtain ⟨k, meets, shortest⟩ : ∃ k, sv.Meets isStop msg k d ∧ ∀ j < k, ¬ sv.Meets isStop msg j d := by
      classical
      have some := Services.exists_meets met
      exact ⟨Nat.find some, Nat.find_spec some, fun j => Nat.find_min some⟩
    have next : (init isStop capacity : Network ν ι).step sv (.produce t msg) =
        some ((init isStop capacity).setPc t (.dispatch [msg])) := by
      simp [step, atRole, init]
    have ready : Ready sv (sv.Near isStop msg k) ((init isStop capacity).setPc t (.dispatch [msg])) := by
      refine ⟨fun _ => rfl, fun _ => rfl, room, fun n near => near.1, fun w e c worker _ => ?_⟩
      have other : w ≠ t := by
        rintro rfl
        rw [atRole] at worker
        cases worker
      exact setPc_other other
    obtain ⟨ts, s, goes, e, written⟩ := ready.written meets shortest atRole setPc_self hop signal
    refine inside (.produce t msg :: ts.map .step) s (run_cons.mpr ⟨_, next, goes⟩) ?_ e msg written type
    intro t' msg' member _
    rcases List.mem_cons.mp member with same | other
    · cases same
      exact may
    · obtain ⟨_, _, wrong⟩ := List.mem_map.mp other
      cases wrong
  · intro clear acts s reach allowed n msg member
    have confined : Confined sv isStop s := by
      refine confined_of_run plain (fun t n msg produced atRole type => ?_) reach
      have may := allowed t msg produced type
      exact ⟨(stops t msg may).2, clear t n msg may atRole⟩
    exact confined.written (n, msg) member

end Signals

open NodeManager

/-- Relays, and one full-duplex node. -/
def mixedNodes (n : Nat) : Node :=
  .init (if n = 2 then "UDP" else "relay") (if n = 2 then .fullDuplex else .relay) false

theorem mixedNodes_fresh (n : Nat) (ct : ChnType) : (mixedNodes n).channels ct = [] := by
  unfold mixedNodes Node.init Node.channels
  cases ct <;> split <;> rfl

def mixedManager : NodeManager Nat := (NodeManager.init mixedNodes).connectAll fanOut

theorem mixedManager_relay (n : Nat) (other : n ≠ 2) : (mixedManager.nodes n).type = .relay := by
  rw [mixedManager, connectAll_field Node.type Node.addChannel_type]
  exact if_neg other

/-- Node 3 feeds node 0, which may be a collector, and which feeds a relay and the full-duplex node. -/
def mixedServices (collector : Bool) : Services Nat Nat :=
  mixedManager.runningServices (fun n => collector && n == 0) (fun n here => mixedManager_relay n (by
    rintro rfl
    simp at here)) (staff fanOut) fun _ _ msgs => msgs = []

theorem mixedServices_plain {collector : Bool} {n : Nat} {msg : BaseMsg} {msgs : List BaseMsg}
    (allowed : (mixedServices collector).handleMsg n msg msgs = true) : ∀ o ∈ msgs, o.type ≠ .signal := by
  obtain rfl : msgs = [] := of_decide_eq_true allowed
  simp

theorem mixedServices_feeder {collector : Bool} {t n : Nat}
    (producer : (mixedServices collector).role t = some (.producer n)) : n = 3 :=
  have atRole : staff fanOut t = some (.producer n) := producer
  staff_producer atRole

/-- The way of a coded signal with an odd id through the collector: from node 3 to node 0, and to the
relay that encodes. -/
theorem mixedServices_dispatch : (mixedServices true).dispatch 3 (stopMsg 1) = some 0 ∧
    (mixedServices true).dispatch 0 (stopMsg 1) = some 1 ∧ (mixedServices true).dispatch 1 (stopMsg 1) = none := by
  decide

theorem mixedServices_hands {u d c : Nat} (target : (mixedServices true).dispatch u (stopMsg 1) = some c)
    (hop : (mixedServices true).Hands (fun _ => false) (stopMsg 1) u d) : (fanOut[c]?).map Connection.down = some d := by
  obtain ⟨c', same, _, t, worker⟩ := hop
  obtain rfl := Option.some.inj (target.symm.trans same)
  obtain ⟨call, made, rfl, rfl⟩ := staff_worker worker
  rw [made]
  rfl

theorem mixedServices_clear : (mixedServices true).Clear (fun _ => false) (stopMsg 1) 0 := by
  intro e path
  have near : e = 0 ∨ e = 1 := by
    induction path with
    | refl => exact .inl rfl
    | tail _ hop ih =>
      rcases ih with rfl | rfl
      · exact .inr (Option.some.inj (mixedServices_hands mixedServices_dispatch.2.1 hop.2)).symm
      · obtain ⟨c, target, _⟩ := hop.2
        rw [mixedServices_dispatch.2.2] at target
        cases target
  have relay : (mixedManager.nodes e).type = .relay := mixedManager_relay e (by omega)
  intro duplex
  rw [show (mixedServices true).nodes = mixedManager.nodes from rfl, relay] at duplex
  cases duplex

theorem signals_stay_inside_iff_collector :
    (mixedServices true).dispatch 0 (stopMsg 1) = some 1 ∧ ∀ acts s,
      run (step (mixedServices true)) (init (fun _ => false) fun _ => 100) acts = some s →
        (∀ t msg, .produce t msg ∈ acts → msg.type = .signal → msg = stopMsg 1) →
          ∀ n msg, (n, msg) ∈ s.written → msg.type ≠ .signal := by
  refine ⟨mixedServices_dispatch.2.1, (signals_stay_inside_iff (mixedServices true) (fun _ _ _ => mixedServices_plain)
    (fun _ => false) (fun _ => 100) (by simp) (fun _ msg => msg = stopMsg 1) ?_).mpr ?_⟩
  · rintro _ _ rfl
    exact ⟨rfl, rfl⟩
  · rintro t n _ rfl atRole d hop
    obtain rfl := mixedServices_feeder atRole
    cases Option.some.inj (mixedServices_hands mixedServices_dispatch.1 hop)
    exact mixedServices_clear

/-- With a plain relay in its place, the signal goes to the full-duplex node, and is written to the
descriptor. -/
theorem signal_written_by_duplex :
    ¬ ∀ (nodes : Nat → Node) (calls : List (Connection Nat)) (m : NodeManager Nat) (collector : Nat → Bool)
        (sv : Services Nat Nat) (acts : List (NetworkAct Nat)) (s : Network Nat Nat),
      (∀ n ct, (nodes n).channels ct = []) → m = (NodeManager.init nodes).connectAll calls → sv.nodes = m.nodes →
      sv.dispatch = m.dispatch collector →
      (∀ t n c, sv.role t = some (.worker n c) → c ∈ m.chns n .chnIn) →
      (∀ n msg msgs, sv.handleMsg n msg msgs = true → ∀ o ∈ msgs, o.type ≠ .signal) →
      (∀ t n msg, .produce t msg ∈ acts → sv.role t = some (.producer n) → msg.type = .signal →
        msg.signal = .stop ∧ ∃ d, sv.Forwards msg n d ∧ (sv.nodes d).type = .relay) →
      run (step sv) (init (fun _ => false) fun _ => 100) acts = some s →
      ∀ n msg, (n, msg) ∈ s.written → msg.type ≠ .signal := by
  intro claim
  have bound : ∀ t n c, (mixedServices false).role t = some (.worker n c) → c ∈ mixedManager.chns n .chnIn := by
    intro t n c worker
    obtain ⟨call, made, rfl, rfl⟩ := staff_worker worker
    obtain ⟨below, rfl⟩ := List.getElem?_eq_some_iff.mp made
    have reads : ∀ t, (below : t < fanOut.length) → t ∈ mixedManager.chns fanOut[t].down .chnIn := by decide
    exact reads c below
  obtain ⟨s, reach, written⟩ : ∃ s,
      run (step (mixedServices false)) (init (fun _ => false) fun _ => 100) (stopping 1 [0, 2]) = some s ∧
        (2, stopMsg 1) ∈ s.written := ⟨_, rfl, by decide⟩
  have inside := claim mixedNodes fanOut mixedManager (fun n => false && n == 0) (mixedServices false)
    (stopping 1 [0, 2]) s mixedNodes_fresh rfl rfl rfl bound (fun _ _ _ => mixedServices_plain) (by
      intro t n msg member atRole _
      obtain ⟨rfl, rfl⟩ : t = 4 ∧ msg = stopMsg 1 := by simpa [stopping] using member
      obtain rfl := mixedServices_feeder atRole
      exact ⟨rfl, 0, ⟨0, rfl, by decide⟩, by decide⟩) reach
  exact inside 2 (stopMsg 1) written rfl

end ServicesFramework.Network
