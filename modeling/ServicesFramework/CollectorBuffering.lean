import ServicesFramework.CollectorSections

namespace ServicesFramework.Hop

open Machine

/-- The bytes that wait in the current buffer after these messages, by their lengths alone:
none as soon as the sum passes the threshold. -/
def carried (codingThreshold : Nat) (msgs : List (List Octet)) : Nat :=
  msgs.foldl (fun waiting msg =>
    if waiting + msg.length > codingThreshold then 0 else waiting + msg.length) 0

theorem carried_snoc (T : Nat) (msgs : List (List Octet)) (msg : List Octet) :
    carried T (msgs ++ [msg]) =
      if carried T msgs + msg.length > T then 0 else carried T msgs + msg.length := by
  simp [carried, List.foldl_append]

/-- No message finds too little room left in a block of `maxBlockSize` bytes. -/
def AlwaysRoom (cfg : CollectorConfig) (msgs : List (List Octet)) : Prop :=
  ∀ before msg after, msgs = before ++ msg :: after →
    carried cfg.codingThreshold before + msg.length ≤ cfg.maxBlockSize

theorem alwaysRoom_snoc {cfg : CollectorConfig} {msgs : List (List Octet)} {msg : List Octet} :
    AlwaysRoom cfg (msgs ++ [msg]) ↔
      AlwaysRoom cfg msgs ∧ carried cfg.codingThreshold msgs + msg.length ≤ cfg.maxBlockSize := by
  constructor
  · intro all
    refine ⟨fun before first after split => all before first (after ++ [msg]) ?_, all msgs msg [] rfl⟩
    rw [split, List.append_assoc, List.cons_append]
  · rintro ⟨earlier, last⟩ before first after split
    rcases snoc_eq_append_cons.mp split with ⟨_, rfl, rfl⟩ | ⟨rest, _, same⟩
    · exact last
    · exact earlier before first rest same

/-- The sequence of `BufferingData` calls, one after the other. -/
def bufferingRun (cfg : CollectorConfig) (eager : Bool) (msgs : List (List Octet)) : Option Hop :=
  run (CollectorAct.step cfg) (init cfg eager) (msgs.map .bufferingData)

/-- Nothing lost, duplicated or corrupted: the dispatched buffers and then the current one
hold the messages in order, no buffer is dispatched twice, and no assertion failed. -/
def BuffersFaithfully (cfg : CollectorConfig) (eager : Bool) (msgs : List (List Octet)) : Prop :=
  ∃ hop, bufferingRun cfg eager msgs = some hop ∧
    hop.taken.flatMap (fun t => t.msg.contents) ++ hop.filled = msgs.flatten ∧
    (hop.taken.map Taken.buffer).Nodup

theorem bufferingRun_snoc {cfg : CollectorConfig} {eager : Bool} {msgs : List (List Octet)}
    {msg : List Octet} {hop : Hop} : bufferingRun cfg eager (msgs ++ [msg]) = some hop ↔
      ∃ before, bufferingRun cfg eager msgs = some before ∧ before.bufferingData cfg msg = some hop := by
  rw [bufferingRun, List.map_append, List.map_singleton, run_snoc]
  rfl

/-- The calls keep going exactly as long as there is room, and what they have done by then. -/
theorem bufferingRun_spec (cfg : CollectorConfig) (eager : Bool) (msgs : List (List Octet)) :
    (AlwaysRoom cfg msgs → ∃ hop, bufferingRun cfg eager msgs = some hop) ∧
      ∀ hop, bufferingRun cfg eager msgs = some hop → AlwaysRoom cfg msgs ∧
        ∃ filled, Stores cfg.maxBlockSize filled hop ∧ filled.length = carried cfg.codingThreshold msgs ∧
          hop.taken.flatMap (fun t => t.msg.contents) ++ filled = msgs.flatten := by
  induction msgs using List.reverseRecOn with
  | nil =>
    refine ⟨fun _ => ⟨_, rfl⟩, fun hop here => ⟨by simp [AlwaysRoom], [], ?_⟩⟩
    cases Option.some.inj here
    exact ⟨.init cfg eager, rfl, rfl⟩
  | append_singleton msgs msg ih =>
    constructor
    · intro room
      obtain ⟨earlier, last⟩ := alwaysRoom_snoc.mp room
      obtain ⟨hop, reach⟩ := ih.1 earlier
      obtain ⟨_, filled, stores, length, _⟩ := ih.2 hop reach
      have fits : filled.length + msg.length ≤ cfg.maxBlockSize := by omega
      obtain ⟨next, run, _⟩ := bufferingData_room cfg stores fits
      exact ⟨next, bufferingRun_snoc.mpr ⟨hop, reach, run⟩⟩
    · intro next reach
      obtain ⟨hop, reach, run⟩ := bufferingRun_snoc.mp reach
      obtain ⟨earlier, filled, stores, length, bytes⟩ := ih.2 hop reach
      have room : filled.length + msg.length ≤ cfg.maxBlockSize := by
        by_contra full
        have fails := bufferingData_full cfg stores (Nat.lt_of_not_le full)
        rw [fails] at run
        cases run
      refine ⟨alwaysRoom_snoc.mpr ⟨earlier, by omega⟩, ?_⟩
      obtain ⟨same, run', result⟩ := bufferingData_room cfg stores room
      cases Option.some.inj (run.symm.trans run')
      rw [carried_snoc, ← length, List.flatten_append, List.flatten_singleton, ← bytes]
      split at result
      · rename_i enough
        obtain ⟨stores, t, taken, coded⟩ := result
        exact ⟨[], stores, by simp [enough], by simp [taken, coded.contents]⟩
      · rename_i few
        obtain ⟨stores, taken⟩ := result
        exact ⟨filled ++ msg, stores, by simp [few], by rw [taken, List.append_assoc]⟩

/-- Buffering is faithful exactly while no call takes the branch for a full buffer. -/
theorem buffersFaithfully_iff (cfg : CollectorConfig) (eager : Bool) (msgs : List (List Octet)) :
    BuffersFaithfully cfg eager msgs ↔
      ∀ before msg after, msgs = before ++ msg :: after →
        carried cfg.codingThreshold before + msg.length ≤ cfg.maxBlockSize := by
  constructor
  · rintro ⟨hop, reach, _⟩
    exact ((bufferingRun_spec cfg eager msgs).2 hop reach).1
  · intro room
    obtain ⟨hop, reach⟩ := (bufferingRun_spec cfg eager msgs).1 room
    obtain ⟨_, filled, stores, _, bytes⟩ := (bufferingRun_spec cfg eager msgs).2 hop reach
    exact ⟨hop, reach, by rw [stores.filled_eq, bytes], stores.distinct⟩

/-- A block of 4 bytes with 2 bytes waiting is asked for 3 more: the old buffer is given
away, and the message is then filled into that same buffer, which has no room for it. -/
theorem bufferingData_loses_message :
    ¬ ∀ (cfg : CollectorConfig) (eager : Bool) (msgs : List (List Octet)), 0 < cfg.maxBlockSize →
      (∀ msg ∈ msgs, 1 ≤ msg.length ∧ msg.length ≤ cfg.maxBlockSize) → BuffersFaithfully cfg eager msgs := by
  intro claim
  obtain ⟨hop, reach, _⟩ := claim ⟨4, 2, 0⟩ false [[1, 2], [3, 4, 5]] (by decide) (by decide)
  have stops : bufferingRun ⟨4, 2, 0⟩ false [[1, 2], [3, 4, 5]] = none := rfl
  rw [stops] at reach
  cases reach

end ServicesFramework.Hop
