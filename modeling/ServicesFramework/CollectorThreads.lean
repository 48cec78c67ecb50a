import ServicesFramework.CollectorHops

namespace ServicesFramework

/-- A buffer that was taken out is not the current one, and is still as it was then. -/
structure BatsBuffer.Frozen (bats : BatsBuffer) (taken : List Taken) : Prop where
  made : ∀ i, bats.buf = some i → i < bats.made
  apart : ∀ e ∈ taken, e.buffer < bats.made ∧ bats.buf ≠ some e.buffer
  same : ∀ e ∈ taken, bats.bufs e.buffer = e.msg

namespace BatsBuffer

variable {bats : BatsBuffer} {taken : List Taken} {i : Nat}

@[simp] theorem set_buf (bats : BatsBuffer) (i : Nat) (buffer : BaseMsg) : (bats.set i buffer).buf = bats.buf := rfl

@[simp] theorem cut_buf (bats : BatsBuffer) (i : Nat) : (bats.cut i).buf = bats.buf := rfl

@[simp] theorem cut_made (bats : BatsBuffer) (i : Nat) : (bats.cut i).made = bats.made := rfl

@[simp] theorem resetBuf_made (bats : BatsBuffer) (B : Nat) : (bats.resetBuf B).made = bats.made + 1 := rfl

@[simp] theorem resetBuf_buf (bats : BatsBuffer) (B : Nat) : (bats.resetBuf B).buf = some bats.made := rfl

theorem set_bufs_of_ne {j : Nat} (bats : BatsBuffer) (buffer : BaseMsg) (ne : j ≠ i) :
    (bats.set i buffer).bufs j = bats.bufs j := by
  simp [set, ne]

theorem resetBuf_bufs_of_lt (B : Nat) (below : i < bats.made) : (bats.resetBuf B).bufs i = bats.bufs i := by
  simp [resetBuf, Nat.ne_of_lt below]

/-- Writing to a buffer that was not taken out. -/
theorem Frozen.set (old : bats.Frozen taken) (fresh : ∀ e ∈ taken, e.buffer ≠ i) (buffer : BaseMsg) :
    (bats.set i buffer).Frozen taken where
  made := old.made
  apart := old.apart
  same e member := by
    rw [set_bufs_of_ne bats buffer (fresh e member)]
    exact old.same e member

theorem Frozen.cut (old : bats.Frozen taken) (fresh : ∀ e ∈ taken, e.buffer ≠ i) : (bats.cut i).Frozen taken :=
  old.set fresh _

theorem Frozen.resetBuf (old : bats.Frozen taken) (B : Nat) : (bats.resetBuf B).Frozen taken where
  made j current := by
    rw [resetBuf_buf] at current
    cases current
    exact Nat.lt_succ_self _
  apart e member := by
    have below := (old.apart e member).1
    refine ⟨Nat.lt_succ_of_lt below, fun current => ?_⟩
    rw [resetBuf_buf, Option.some.injEq] at current
    omega
  same e member := by
    rw [resetBuf_bufs_of_lt B (old.apart e member).1]
    exact old.same e member

/-- Taking out buffers that are not the current one. -/
theorem Frozen.take (old : bats.Frozen taken) (js : List Nat) (out : ∀ j ∈ js, j < bats.made ∧ bats.buf ≠ some j)
    (raw : Bool) : bats.Frozen (taken ++ js.map fun j => ⟨j, bats.bufs j, raw⟩) where
  made := old.made
  apart e member := by
    rcases List.mem_append.mp member with earlier | new
    · exact old.apart e earlier
    · obtain ⟨j, listed, rfl⟩ := List.mem_map.mp new
      exact out j listed
  same e member := by
    rcases List.mem_append.mp member with earlier | new
    · exact old.same e earlier
    · obtain ⟨j, listed, rfl⟩ := List.mem_map.mp new
      rfl

/-- Taking out the current buffer, with a fresh one in its place. -/
theorem Frozen.takeOut (old : bats.Frozen taken) (current : bats.buf = some i) (B : Nat) (raw : Bool) :
    (bats.resetBuf B).Frozen (taken ++ [⟨i, bats.bufs i, raw⟩]) := by
  have below := old.made i current
  have out := (old.resetBuf B).take [i] (fun j member => by
    rw [List.mem_singleton.mp member, resetBuf_made, resetBuf_buf, ne_eq, Option.some.injEq]
    omega) raw
  rwa [List.map_singleton, resetBuf_bufs_of_lt B below] at out

theorem Frozen.current (old : bats.Frozen taken) (B : Nat) :
    (bats.current B).1.Frozen taken ∧ (bats.current B).1.buf = some (bats.current B).2 := by
  unfold BatsBuffer.current
  split
  · rename_i i current
    exact ⟨old, current⟩
  · exact ⟨old.resetBuf B, rfl⟩

theorem Frozen.fresh (old : bats.Frozen taken) (current : bats.buf = some i) : ∀ e ∈ taken, e.buffer ≠ i := by
  rintro e member rfl
  exact (old.apart e member).2 current

end BatsBuffer

namespace Hop

variable {cfg : CollectorConfig} {hop after : Hop} {msg : List Octet}

/-- Between two sections, the buffers that were taken out are as they were. -/
def Frozen (hop : Hop) : Prop := hop.batsBuffer.Frozen hop.taken

theorem Frozen.init (cfg : CollectorConfig) (eager : Bool) : (Hop.init cfg eager).Frozen := by
  have empty : BatsBuffer.Frozen ⟨fun _ => .init 0, 0, none⟩ [] := ⟨nofun, nofun, nofun⟩
  cases eager with
  | false => exact empty
  | true => exact empty.resetBuf cfg.maxBlockSize

theorem Frozen.handleTimeoutBuffer (old : hop.Frozen) : (hop.handleTimeoutBuffer cfg).Frozen := by
  unfold Hop.handleTimeoutBuffer
  split
  · exact old
  · rename_i i current
    split_ifs
    · exact old
    · exact (old.cut (old.fresh current)).takeOut current cfg.maxBlockSize false

theorem Frozen.forceRelayData (old : hop.Frozen) (next : hop.forceRelayData cfg msg = some after) :
    after.Frozen ∧ hop.taken <+: after.taken := by
  obtain ⟨frozen, current⟩ := old.current cfg.maxBlockSize
  unfold Hop.forceRelayData at next
  generalize hop.batsBuffer.current cfg.maxBlockSize = start at frozen current next
  obtain ⟨bats, i⟩ := start
  dsimp only at frozen current next
  by_cases pending : (bats.bufs i).filledBytes > 0
  · simp only [pending, decide_true, if_true] at next
    obtain ⟨buffer, _, rfl⟩ := Option.map_eq_some_iff.mp next
    have flushed := (frozen.cut (frozen.fresh current)).takeOut current cfg.maxBlockSize false
    refine ⟨?_, ?_⟩
    · exact (((flushed.set (flushed.fresh rfl) buffer).cut (flushed.fresh rfl)).set (flushed.fresh rfl) _).takeOut rfl
        cfg.maxBlockSize true
    · exact (List.prefix_append _ _).trans (List.prefix_append _ _)
  · simp only [pending, decide_false, Bool.false_eq_true, if_false] at next
    obtain ⟨buffer, _, rfl⟩ := Option.map_eq_some_iff.mp next
    refine ⟨?_, List.prefix_append _ _⟩
    exact (((frozen.set (frozen.fresh current) buffer).cut (frozen.fresh current)).set (frozen.fresh current) _).takeOut
      current cfg.maxBlockSize true

theorem Frozen.bufferingData (old : hop.Frozen) (next : hop.bufferingData cfg msg = some after) :
    after.Frozen ∧ hop.taken <+: after.taken := by
  obtain ⟨frozen, current⟩ := old.current cfg.maxBlockSize
  unfold Hop.bufferingData at next
  generalize hop.batsBuffer.current cfg.maxBlockSize = start at frozen current next
  obtain ⟨bats, i⟩ := start
  dsimp only at frozen current next
  have fresh := frozen.fresh current
  have below := frozen.made i current
  by_cases full : (bats.bufs i).filledBytes + msg.length > (bats.bufs i).size
  · simp only [full, decide_true, if_true] at next
    obtain ⟨buffer, _, rfl⟩ := Option.map_eq_some_iff.mp next
    refine ⟨?_, List.prefix_append _ _⟩
    have given := ((frozen.cut fresh).resetBuf cfg.maxBlockSize).set fresh buffer
    by_cases enough : buffer.filledBytes > cfg.codingThreshold
    · simp only [enough, decide_true, if_true]
      refine ((given.cut fresh).resetBuf cfg.maxBlockSize).take _ ?_ false
      intro j member
      have same : j = i := by simpa using member
      rw [same, BatsBuffer.resetBuf_made, BatsBuffer.resetBuf_buf, ne_eq, Option.some.injEq]
      simp only [BatsBuffer.cut_made, BatsBuffer.set_made, BatsBuffer.resetBuf_made]
      omega
    · simp only [enough, decide_false, Bool.false_eq_true, if_false]
      -- the buffer that was given away is written to, but it is no longer the current one
      refine given.take _ ?_ false
      intro j member
      rw [List.mem_singleton.mp member, BatsBuffer.set_made, BatsBuffer.set_buf, BatsBuffer.resetBuf_made,
        BatsBuffer.resetBuf_buf, BatsBuffer.cut_made, ne_eq, Option.some.injEq]
      omega
  · simp only [full, decide_false, Bool.false_eq_true, if_false] at next
    obtain ⟨buffer, _, rfl⟩ := Option.map_eq_some_iff.mp next
    refine ⟨?_, List.prefix_append _ _⟩
    have filled := frozen.set fresh buffer
    by_cases enough : buffer.filledBytes > cfg.codingThreshold
    · simp only [enough, decide_true, if_true]
      refine ((filled.cut fresh).resetBuf cfg.maxBlockSize).take _ ?_ false
      intro j member
      rw [List.mem_singleton.mp member, BatsBuffer.resetBuf_made, BatsBuffer.resetBuf_buf, BatsBuffer.cut_made,
        BatsBuffer.set_made, ne_eq, Option.some.injEq]
      omega
    · simp only [enough, decide_false, Bool.false_eq_true, if_false]
      exact filled.take [] nofun false

theorem handleTimeoutBuffer_prefix (hop : Hop) : hop.taken <+: (hop.handleTimeoutBuffer cfg).taken := by
  unfold Hop.handleTimeoutBuffer
  split
  · exact List.prefix_refl _
  · split_ifs
    · exact List.prefix_refl _
    · exact List.prefix_append _ _

/-- No section touches a buffer that was taken out before, nor leaves one that it has taken
out itself as the current one. -/
theorem Frozen.step (old : hop.Frozen) {act : CollectorAct} (next : act.step cfg hop = some after) :
    after.Frozen ∧ hop.taken <+: after.taken := by
  cases act with
  | bufferingData msg => exact old.bufferingData next
  | forceRelayData msg => exact old.forceRelayData next
  | handleTimeoutBuffer =>
    cases Option.some.inj next
    exact ⟨old.handleTimeoutBuffer, handleTimeoutBuffer_prefix hop⟩

end Hop

namespace CollectorMap

/-- What was taken out for a next hop. -/
def taken (s : CollectorMap) (nexthop : String) : List Taken :=
  match s.batsBufferMap nexthop with
  | some hop => hop.taken
  | none => []

/-- The buffer object that a pointer names, as it is now. -/
def buffer (s : CollectorMap) (nexthop : String) (i : Nat) : BaseMsg :=
  match s.batsBufferMap nexthop with
  | some hop => hop.batsBuffer.bufs i
  | none => .init 0

end CollectorMap

/-- The next hop whose buffer the call works on. -/
def CollectorCall.nexthop (routeMatch : UInt32 → String) : CollectorCall → String
  | .handleMsg msg => routeMatch msg.dstAddr
  | .handleTimeoutBuffer nexthop => nexthop

/-- A buffer in the hands of a thread, or given to `Dispatch` by it. -/
structure Handled (ι : Type*) where
  thread : ι
  nexthop : String
  msg : BaseMsg
  deriving DecidableEq

/-- The collector with its threads: its workers, and the worker of its timer manager. What a
section takes out is in the hands of its thread when it unlocks `mutex_`, and is dispatched
then. The last two fields record it: as it was at the unlock, and as it was dispatched. -/
structure CollectorThreads (ι : Type*) where
  map : CollectorMap
  hands : ι → List (String × Nat)
  took : List (Handled ι)
  dispatched : List (Handled ι)

inductive CollectorThreadAct (ι : Type*)
  | call (t : ι) (call : CollectorCall)
  | dispatch (t : ι)
  deriving DecidableEq, Repr

namespace CollectorThreads

open Machine

variable {ι : Type*} [DecidableEq ι]

def init : CollectorThreads ι := ⟨.init, fun _ => [], [], []⟩

variable (cfg : CollectorConfig) (eager : Bool) (routeMatch : UInt32 → String)

def step (s : CollectorThreads ι) : CollectorThreadAct ι → Option (CollectorThreads ι)
  | .call t call =>
    if s.hands t = [] then
      (s.map.step cfg eager routeMatch call).map fun map =>
        let nexthop := call.nexthop routeMatch
        let new := (map.taken nexthop).drop (s.map.taken nexthop).length
        { s with
          map := map
          hands := Function.update s.hands t (new.map fun e => (nexthop, e.buffer))
          took := s.took ++ new.map fun e => ⟨t, nexthop, e.msg⟩ }
    else none
  | .dispatch t =>
    match s.hands t with
    | [] => none
    | (nexthop, i) :: rest =>
      some { s with
        hands := Function.update s.hands t rest
        dispatched := s.dispatched ++ [⟨t, nexthop, s.map.buffer nexthop i⟩] }

/-- What a thread has in its hands, as it is now. -/
def holding (s : CollectorThreads ι) (t : ι) : List (Handled ι) :=
  (s.hands t).map fun p => ⟨t, p.1, s.map.buffer p.1 p.2⟩

variable {cfg eager routeMatch} {s u : CollectorThreads ι}

/-- All hops have their buffers frozen. -/
def Frozen (map : CollectorMap) : Prop := ∀ nexthop hop, map.batsBufferMap nexthop = some hop → hop.Frozen

theorem Frozen.buffer {map : CollectorMap} (frozen : Frozen map) {nexthop : String} {e : Taken}
    (member : e ∈ map.taken nexthop) : map.buffer nexthop e.buffer = e.msg := by
  unfold CollectorMap.taken at member
  unfold CollectorMap.buffer
  cases found : map.batsBufferMap nexthop with
  | none =>
    rw [found] at member
    cases member
  | some hop =>
    rw [found] at member
    exact (frozen nexthop hop found).same e member

theorem nexthop_of_act {call : CollectorCall} {nexthop : String} {act : CollectorAct}
    (mine : call.act? routeMatch nexthop = some act) : call.nexthop routeMatch = nexthop := by
  cases call with
  | handleMsg msg => exact (Option.ite_none_right_eq_some.mp mine).1.2
  | handleTimeoutBuffer other => exact (Option.ite_none_right_eq_some.mp mine).1

/-- A hop in the place of another one, which has taken out what that one had and more. -/
theorem Frozen.update {map after : CollectorMap} {nexthop : String} {hop : Hop} (frozen : Frozen map)
    (placed : after.batsBufferMap = Function.update map.batsBufferMap nexthop (some hop)) (mine : hop.Frozen)
    (more : map.taken nexthop <+: hop.taken) :
    Frozen after ∧ (∀ other, other ≠ nexthop → after.taken other = map.taken other) ∧
      ∃ new, after.taken nexthop = map.taken nexthop ++ new := by
  refine ⟨?_, ?_, ?_⟩
  · intro other found there
    rw [placed] at there
    by_cases same : other = nexthop
    · rw [same, Function.update_self] at there
      cases Option.some.inj there
      exact mine
    · rw [Function.update_of_ne same] at there
      exact frozen other found there
  · intro other ne
    unfold CollectorMap.taken
    rw [placed, Function.update_of_ne ne]
  · obtain ⟨new, rest⟩ := more
    refine ⟨new, ?_⟩
    rw [rest]
    unfold CollectorMap.taken
    rw [placed, Function.update_self]

/-- What a call does: the buffers of its next hop stay frozen, with some more taken out. -/
theorem call_frozen {map after : CollectorMap} {call : CollectorCall} (frozen : Frozen map)
    (next : map.step cfg eager routeMatch call = some after) :
    Frozen after ∧ (∀ nexthop, nexthop ≠ call.nexthop routeMatch → after.taken nexthop = map.taken nexthop) ∧
      ∃ new, after.taken (call.nexthop routeMatch) = map.taken (call.nexthop routeMatch) ++ new := by
  rcases CollectorMap.step_cases next with
    ⟨msg, rfl, _, rfl⟩ | ⟨nexthop, act, hop, stepped, mine, _, _, ran, ⟨found, rfl⟩ | ⟨missing, rfl, rfl⟩⟩
  · exact ⟨frozen, fun _ _ => rfl, [], (List.append_nil _).symm⟩
  · obtain ⟨kept, more⟩ := (frozen nexthop hop found).step ran
    rw [nexthop_of_act mine]
    refine frozen.update rfl kept ?_
    rwa [CollectorMap.taken, found]
  · obtain ⟨kept, _⟩ := (Hop.Frozen.init cfg eager).step ran
    rw [nexthop_of_act mine]
    refine frozen.update rfl kept ?_
    rw [CollectorMap.taken, missing]
    exact List.nil_prefix

/-- Each thread has dispatched what it took out, in order, up to what it still holds; no buffer
has changed in between. -/
structure Exact (s : CollectorThreads ι) : Prop where
  frozen : Frozen s.map
  listed : ∀ t, ∀ p ∈ s.hands t, ∃ e ∈ s.map.taken p.1, e.buffer = p.2
  threads : ∀ t, s.took.filter (·.thread = t) = s.dispatched.filter (·.thread = t) ++ s.holding t
  hops : ∀ nexthop, (s.took.filter (·.nexthop = nexthop)).map Handled.msg = (s.map.taken nexthop).map Taken.msg

theorem Exact.init : Exact (init : CollectorThreads ι) where
  frozen _ _ found := by cases found
  listed _ _ member := by cases member
  threads _ := rfl
  hops _ := rfl

theorem Exact.dispatch (old : s.Exact) {t : ι} (next : s.step cfg eager routeMatch (.dispatch t) = some u) : u.Exact := by
  simp only [step] at next
  split at next
  · cases next
  · rename_i nexthop i rest held
    cases Option.some.inj next
    refine ⟨old.frozen, ?_, ?_, old.hops⟩
    · intro other p member
      dsimp only at member
      by_cases same : other = t
      · subst other
        rw [Function.update_self] at member
        exact old.listed t p (by rw [held]; exact List.mem_cons_of_mem _ member)
      · rw [Function.update_of_ne same] at member
        exact old.listed other p member
    · intro other
      have before := old.threads other
      by_cases same : other = t
      · subst other
        simp only [holding, held, List.map_cons] at before
        simp [holding, before, List.filter_append]
      · simp only [holding] at before
        simp [holding, before, List.filter_append, Function.update_of_ne same, Ne.symm same]

theorem Exact.call (old : s.Exact) {t : ι} {call : CollectorCall}
    (next : s.step cfg eager routeMatch (.call t call) = some u) : u.Exact := by
  obtain ⟨idle, ran⟩ := Option.ite_none_right_eq_some.mp next
  obtain ⟨map, stepped, rfl⟩ := Option.map_eq_some_iff.mp ran
  obtain ⟨frozen, others, new, more⟩ := call_frozen old.frozen stepped
  have drop : (map.taken (call.nexthop routeMatch)).drop (s.map.taken (call.nexthop routeMatch)).length = new := by
    rw [more, List.drop_left]
  have kept (nexthop : String) : ∀ e ∈ s.map.taken nexthop, e ∈ map.taken nexthop := by
    intro e member
    by_cases same : nexthop = call.nexthop routeMatch
    · rw [same] at member ⊢
      rw [more]
      exact List.mem_append_left _ member
    · rwa [others nexthop same]
  have unchanged (other : ι) : (s.hands other).map (fun p => (⟨other, p.1, map.buffer p.1 p.2⟩ : Handled ι)) =
      s.holding other := by
    refine List.map_congr_left fun p member => ?_
    obtain ⟨e, listed, same⟩ := old.listed other p member
    rw [← same, frozen.buffer (kept p.1 e listed), old.frozen.buffer listed]
  refine ⟨frozen, ?_, ?_, ?_⟩
  · intro other p member
    dsimp only at member
    rw [drop] at member
    by_cases same : other = t
    · rw [same, Function.update_self] at member
      obtain ⟨e, listed, rfl⟩ := List.mem_map.mp member
      exact ⟨e, by rw [more]; exact List.mem_append_right _ listed, rfl⟩
    · rw [Function.update_of_ne same] at member
      obtain ⟨e, listed, mine⟩ := old.listed other p member
      exact ⟨e, kept p.1 e listed, mine⟩
  · intro other
    dsimp only
    rw [drop, List.filter_append, old.threads other]
    by_cases same : other = t
    · subst other
      have contents : new.map (fun e => (⟨t, call.nexthop routeMatch, map.buffer (call.nexthop routeMatch) e.buffer⟩ :
          Handled ι)) = new.map fun e => ⟨t, call.nexthop routeMatch, e.msg⟩ := by
        refine List.map_congr_left fun e member => ?_
        rw [frozen.buffer (by rw [more]; exact List.mem_append_right _ member)]
      simp [holding, idle, List.filter_map, Function.comp_def, contents]
    · have mine := unchanged other
      simp [holding, List.filter_map, Function.comp_def, Ne.symm same, Function.update_of_ne same, mine]
  · intro nexthop
    dsimp only
    rw [drop, List.filter_append, List.map_append, old.hops nexthop]
    by_cases same : nexthop = call.nexthop routeMatch
    · subst nexthop
      rw [more, List.map_append]
      simp [List.filter_map, Function.comp_def]
    · rw [others nexthop same]
      simp [List.filter_map, Function.comp_def, Ne.symm same]

/-- The timer comes between the unlock of a worker and its `Dispatch`, and overtakes it. -/
def overtaking : List (CollectorThreadAct Nat) :=
  [.call 0 (.handleMsg ⟨[1, 2, 3, 4, 5], 1, true⟩), .call 1 (.handleMsg ⟨[6], 1, true⟩),
    .call 2 (.handleTimeoutBuffer "10.0.0.2"), .dispatch 2, .dispatch 0]

end CollectorThreads

end ServicesFramework
