import ServicesFramework.CollectorSections

namespace ServicesFramework.Hop

open Machine

/-- What a dispatched buffer carries for the receiver: a raw one without its header room. -/
def payload (protocolOverhead : Nat) (t : Taken) : List Octet :=
  if t.raw then t.msg.contents.drop protocolOverhead else t.msg.contents

theorem Coded.payload {bytes : List Octet} {t : Taken} (coded : Coded bytes t) (overhead : Nat) :
    Hop.payload overhead t = bytes := by
  simp [Hop.payload, coded.raw, coded.contents]

theorem Raw.payload_eq {overhead : Nat} {msg : List Octet} {t : Taken} (raw : Raw overhead msg t) :
    Hop.payload overhead t = msg := by
  simp [Hop.payload, raw.raw, raw.payload]

/-- The message that a section sends on raw. -/
def relayed? : CollectorAct → Option (List Octet)
  | .forceRelayData msg => some msg
  | _ => none

/-- A buffer leaves as one raw message, or coded with at most `bound` bytes; never empty. -/
def WellSized (cfg : CollectorConfig) (bound : Nat) (t : Taken) : Prop :=
  t.msg.contents ≠ [] ∧
    if t.raw then t.msg.needCoded = false ∧ t.msg.contents.length = cfg.protocolOverhead + (payload cfg.protocolOverhead t).length
    else t.msg.needCoded = true ∧ t.msg.contents.length ≤ bound

theorem Coded.wellSized {cfg : CollectorConfig} {bound : Nat} {bytes : List Octet} {t : Taken}
    (coded : Coded bytes t) (nonempty : bytes ≠ []) (short : bytes.length ≤ bound) : WellSized cfg bound t := by
  refine ⟨by rw [coded.contents]; exact nonempty, ?_⟩
  simp only [coded.raw, Bool.false_eq_true, if_false]
  exact ⟨coded.needCoded, by rw [coded.contents]; exact short⟩

theorem Raw.wellSized {cfg : CollectorConfig} {bound : Nat} {msg : List Octet} {t : Taken}
    (raw : Raw cfg.protocolOverhead msg t) (nonempty : 1 ≤ msg.length) : WellSized cfg bound t := by
  have length := raw.length
  refine ⟨fun empty => ?_, ?_⟩
  · rw [empty, List.length_nil] at length
    omega
  · simp only [raw.raw, if_true]
    exact ⟨raw.needCoded, by rw [raw.payload_eq]; exact length⟩

/-- What holds between two sections, for the sections that have run. -/
structure Traffic (cfg : CollectorConfig) (L : Nat) (acts : List CollectorAct) (filled : List Octet) (hop : Hop) :
    Prop where
  stores : Stores cfg.maxBlockSize filled hop
  short : filled.length ≤ cfg.codingThreshold
  conserved : hop.taken.flatMap (payload cfg.protocolOverhead) ++ filled = (acts.filterMap CollectorAct.msg?).flatten
  relays : (hop.taken.filter Taken.raw).map (payload cfg.protocolOverhead) = acts.filterMap relayed?
  sized : ∀ t ∈ hop.taken, WellSized cfg (cfg.codingThreshold + L) t

variable {cfg : CollectorConfig} {L : Nat} {acts : List CollectorAct} {filled msg : List Octet} {hop : Hop}

/-- Taking out what waits changes neither the bytes in flight nor the raw packets. -/
theorem Flushes.traffic {before after : List Taken} (flushes : Flushes filled before after)
    (short : filled.length ≤ cfg.codingThreshold)
    (sized : ∀ t ∈ before, WellSized cfg (cfg.codingThreshold + L) t) :
    after.flatMap (payload cfg.protocolOverhead) = before.flatMap (payload cfg.protocolOverhead) ++ filled ∧
      after.filter Taken.raw = before.filter Taken.raw ∧
      ∀ t ∈ after, WellSized cfg (cfg.codingThreshold + L) t := by
  rcases flushes with ⟨rfl, rfl⟩ | ⟨nonempty, t, rfl, coded⟩
  · exact ⟨by simp, rfl, sized⟩
  · refine ⟨by simp [coded.payload], by simp [coded.raw], ?_⟩
    intro u member
    rcases List.mem_append.mp member with earlier | new
    · exact sized u earlier
    · cases List.mem_singleton.mp new
      exact coded.wellSized nonempty (by omega)

theorem Traffic.bufferingData (old : Traffic cfg L acts filled hop)
    (room : cfg.codingThreshold + L ≤ cfg.maxBlockSize) (nonempty : 1 ≤ msg.length) (short : msg.length ≤ L) :
    ∃ next left, hop.bufferingData cfg msg = some next ∧
      Traffic cfg L (acts ++ [.bufferingData msg]) left next := by
  have waiting := old.short
  obtain ⟨next, run, result⟩ := bufferingData_room cfg old.stores
    (show filled.length + msg.length ≤ cfg.maxBlockSize by omega)
  split at result
  · obtain ⟨stores, t, taken, coded⟩ := result
    have bytes : filled ++ msg ≠ [] := by
      intro empty
      rw [(List.append_eq_nil_iff.mp empty).2] at nonempty
      simp at nonempty
    refine ⟨next, [], run, stores, Nat.zero_le _, ?_, ?_, ?_⟩
    · simp [taken, coded.payload, ← old.conserved, CollectorAct.msg?]
    · simp [taken, coded.raw, old.relays, relayed?]
    · intro u member
      rw [taken] at member
      rcases List.mem_append.mp member with earlier | new
      · exact old.sized u earlier
      · cases List.mem_singleton.mp new
        exact coded.wellSized bytes (by simp; omega)
  · obtain ⟨stores, taken⟩ := result
    refine ⟨next, filled ++ msg, run, stores, by simp; omega, ?_, ?_, by rw [taken]; exact old.sized⟩
    · simp [taken, ← old.conserved, CollectorAct.msg?]
    · simp [taken, old.relays, relayed?]

theorem Traffic.forceRelayData (old : Traffic cfg L acts filled hop)
    (room : cfg.protocolOverhead + L ≤ cfg.maxBlockSize) (nonempty : 1 ≤ msg.length) (short : msg.length ≤ L) :
    ∃ next, hop.forceRelayData cfg msg = some next ∧ Traffic cfg L (acts ++ [.forceRelayData msg]) [] next := by
  obtain ⟨next, run, stores, flushed, t, taken, flushes, raw⟩ :=
    forceRelayData_relays cfg old.stores (show cfg.protocolOverhead + msg.length ≤ cfg.maxBlockSize by omega)
  obtain ⟨bytes, same, sized⟩ := flushes.traffic old.short old.sized
  refine ⟨next, run, stores, Nat.zero_le _, ?_, ?_, ?_⟩
  · simp [taken, bytes, raw.payload_eq, ← old.conserved, CollectorAct.msg?]
  · simp [taken, same, raw.raw, raw.payload_eq, old.relays, relayed?]
  · intro u member
    rw [taken] at member
    rcases List.mem_append.mp member with earlier | new
    · exact sized u earlier
    · cases List.mem_singleton.mp new
      exact raw.wellSized nonempty

theorem Traffic.handleTimeoutBuffer (old : Traffic cfg L acts filled hop) :
    Traffic cfg L (acts ++ [.handleTimeoutBuffer]) [] (hop.handleTimeoutBuffer cfg) := by
  obtain ⟨stores, flushes⟩ := handleTimeoutBuffer_flushes cfg old.stores
  obtain ⟨bytes, same, sized⟩ := flushes.traffic old.short old.sized
  refine ⟨stores, Nat.zero_le _, ?_, ?_, sized⟩
  · simp [bytes, ← old.conserved, CollectorAct.msg?]
  · simp [same, old.relays, relayed?]

/-- Over any interleaving of the three sections, with blocks that have room for one message
above the threshold, the collector conserves the traffic of a next hop. -/
theorem collector_conserves_traffic (cfg : CollectorConfig) (L : Nat) (eager : Bool) (acts : List CollectorAct)
    (room : cfg.codingThreshold + L ≤ cfg.maxBlockSize) (headerRoom : cfg.protocolOverhead + L ≤ cfg.maxBlockSize)
    (sized : ∀ msg ∈ acts.filterMap CollectorAct.msg?, 1 ≤ msg.length ∧ msg.length ≤ L) :
    ∃ hop, run (CollectorAct.step cfg) (init cfg eager) acts = some hop ∧
      hop.taken.flatMap (payload cfg.protocolOverhead) ++ hop.filled = (acts.filterMap CollectorAct.msg?).flatten ∧
      (hop.taken.map Taken.buffer).Nodup ∧
      (hop.taken.filter Taken.raw).map (payload cfg.protocolOverhead) = acts.filterMap relayed? ∧
      ∀ t ∈ hop.taken, WellSized cfg (cfg.codingThreshold + L) t := by
  suffices traffic : ∃ hop filled, run (CollectorAct.step cfg) (init cfg eager) acts = some hop ∧
      Traffic cfg L acts filled hop by
    obtain ⟨hop, filled, reach, traffic⟩ := traffic
    exact ⟨hop, reach, by rw [traffic.stores.filled_eq, traffic.conserved], traffic.stores.distinct,
      traffic.relays, traffic.sized⟩
  induction acts using List.reverseRecOn with
  | nil => exact ⟨init cfg eager, [], rfl, .init cfg eager, Nat.zero_le _, rfl, rfl, by simp [init]⟩
  | append_singleton acts act ih =>
    rw [List.filterMap_append] at sized
    obtain ⟨hop, filled, reach, old⟩ := ih (fun msg member => sized msg (List.mem_append_left _ member))
    cases act with
    | bufferingData msg =>
      obtain ⟨nonempty, short⟩ := sized msg (List.mem_append_right _ (by simp [CollectorAct.msg?]))
      obtain ⟨next, left, step, traffic⟩ := old.bufferingData room nonempty short
      exact ⟨next, left, run_snoc.mpr ⟨hop, reach, step⟩, traffic⟩
    | forceRelayData msg =>
      obtain ⟨nonempty, short⟩ := sized msg (List.mem_append_right _ (by simp [CollectorAct.msg?]))
      obtain ⟨next, step, traffic⟩ := old.forceRelayData headerRoom nonempty short
      exact ⟨next, [], run_snoc.mpr ⟨hop, reach, step⟩, traffic⟩
    | handleTimeoutBuffer =>
      exact ⟨_, [], run_snoc.mpr ⟨hop, reach, rfl⟩, old.handleTimeoutBuffer⟩

theorem collector_conserves_traffic_shipped :
    ∃ hop, run (CollectorAct.step ⟨65540, 30000, 16⟩) (init ⟨65540, 30000, 16⟩ false)
        [.bufferingData [1, 2], .forceRelayData [3], .bufferingData [4], .handleTimeoutBuffer] = some hop ∧
      hop.taken.flatMap (payload 16) ++ hop.filled = [1, 2, 3, 4] := by
  obtain ⟨hop, reach, bytes, _⟩ := collector_conserves_traffic ⟨65540, 30000, 16⟩ 2048 false
    [.bufferingData [1, 2], .forceRelayData [3], .bufferingData [4], .handleTimeoutBuffer]
    (by decide) (by decide) (by decide)
  exact ⟨hop, reach, bytes⟩

end ServicesFramework.Hop
