import ServicesFramework.Collector

namespace ServicesFramework

namespace BatsBuffer

@[simp] theorem set_bufs_self (bats : BatsBuffer) (i : Nat) (buffer : BaseMsg) :
    (bats.set i buffer).bufs i = buffer := by
  simp [set]

@[simp] theorem set_set (bats : BatsBuffer) (i : Nat) (first second : BaseMsg) :
    (bats.set i first).set i second = bats.set i second := by
  simp [set]

@[simp] theorem set_made (bats : BatsBuffer) (i : Nat) (buffer : BaseMsg) :
    (bats.set i buffer).made = bats.made := rfl

@[simp] theorem cut_set (bats : BatsBuffer) (i : Nat) (buffer : BaseMsg) :
    (bats.set i buffer).cut i = bats.set i (buffer.resize buffer.filledBytes) := by
  simp [cut]

theorem resetBuf_set {bats : BatsBuffer} {i : Nat} (B : Nat) (buffer : BaseMsg) (made : i < bats.made) :
    ((bats.set i buffer).resetBuf B).bufs i = buffer := by
  simp [resetBuf, set, Nat.ne_of_lt made]

end BatsBuffer

namespace Hop

open BaseMsg

/-- The current buffer of a hop is object `i`, with `filled` in it and nothing else done to
it, and no object was taken out twice. -/
structure Ready (B : Nat) (filled : List Octet) (bats : BatsBuffer) (i : Nat) (taken : List Taken) : Prop where
  buf : bats.buf = some i
  made : i < bats.made
  holds : Holds B filled (bats.bufs i)
  coded : (bats.bufs i).needCoded = true
  below : ∀ t ∈ taken, t.buffer < bats.made ∧ t.buffer ≠ i
  distinct : (taken.map Taken.buffer).Nodup

variable {B : Nat} {filled more : List Octet} {bats : BatsBuffer} {i : Nat} {taken : List Taken} {buffer : BaseMsg}

theorem Ready.set (old : Ready B filled bats i taken) (holds : Holds B more buffer)
    (coded : buffer.needCoded = true) : Ready B more (bats.set i buffer) i taken where
  buf := old.buf
  made := old.made
  holds := by simpa using holds
  coded := by simpa using coded
  below := old.below
  distinct := old.distinct

/-- Taking out the current object, whatever was done to it, and replacing it by a fresh one. -/
theorem Ready.takeOut (old : Ready B filled bats i taken) (buffer : BaseMsg) (raw : Bool) :
    Ready B [] ((bats.set i buffer).resetBuf B) bats.made (taken ++ [⟨i, buffer, raw⟩]) where
  buf := rfl
  made := Nat.lt_succ_self _
  holds := by simpa [BatsBuffer.resetBuf] using init_holds B
  coded := by simp [BatsBuffer.resetBuf, BaseMsg.init]
  below := by
    intro t member
    rcases List.mem_append.mp member with earlier | new
    · have bound := (old.below t earlier).1
      exact ⟨Nat.lt_succ_of_lt bound, Nat.ne_of_lt bound⟩
    · cases List.mem_singleton.mp new
      exact ⟨Nat.lt_succ_of_lt old.made, Nat.ne_of_lt old.made⟩
  distinct := by
    rw [List.map_append, List.map_singleton]
    refine List.nodup_append.mpr ⟨old.distinct, List.nodup_singleton _, ?_⟩
    intro x earlier y new
    obtain ⟨t, member, rfl⟩ := List.mem_map.mp earlier
    rw [List.mem_singleton.mp new]
    exact (old.below t member).2

/-- A hop between two sections: its current buffer holds `filled`, or there is none yet. -/
def Stores (B : Nat) (filled : List Octet) (hop : Hop) : Prop :=
  (∃ i, Ready B filled hop.batsBuffer i hop.taken) ∨
    (hop.batsBuffer.buf = none ∧ filled = [] ∧ (∀ t ∈ hop.taken, t.buffer < hop.batsBuffer.made) ∧
      (hop.taken.map Taken.buffer).Nodup)

theorem Stores.init (cfg : CollectorConfig) (eager : Bool) : Stores cfg.maxBlockSize [] (init cfg eager) := by
  cases eager with
  | false => exact Or.inr ⟨rfl, rfl, by simp [Hop.init], List.nodup_nil⟩
  | true =>
    refine Or.inl ⟨0, rfl, Nat.zero_lt_one, ?_, rfl, by simp [Hop.init], List.nodup_nil⟩
    simpa [Hop.init, BatsBuffer.init, BatsBuffer.resetBuf] using init_holds cfg.maxBlockSize

theorem Stores.current {hop : Hop} (stores : Stores B filled hop) :
    ∃ bats i, hop.batsBuffer.current B = (bats, i) ∧ Ready B filled bats i hop.taken := by
  rcases stores with ⟨i, ready⟩ | ⟨null, rfl, below, distinct⟩
  · exact ⟨hop.batsBuffer, i, by rw [BatsBuffer.current, ready.buf], ready⟩
  · refine ⟨_, _, by rw [BatsBuffer.current, null], rfl, Nat.lt_succ_self _, ?_, ?_, ?_, distinct⟩
    · simpa [BatsBuffer.resetBuf] using init_holds B
    · simp [BatsBuffer.resetBuf, BaseMsg.init]
    · intro t member
      exact ⟨Nat.lt_succ_of_lt (below t member), Nat.ne_of_lt (below t member)⟩

theorem Stores.distinct {hop : Hop} (stores : Stores B filled hop) : (hop.taken.map Taken.buffer).Nodup := by
  rcases stores with ⟨_, ready⟩ | ⟨_, _, _, distinct⟩
  · exact ready.distinct
  · exact distinct

theorem Stores.filled_eq {hop : Hop} (stores : Stores B filled hop) : hop.filled = filled := by
  rcases stores with ⟨i, ready⟩ | ⟨null, rfl, _⟩
  · have holds := ready.holds
    have whole : (hop.batsBuffer.bufs i).data.size = B := holds.size
    simp only [Hop.filled, ready.buf, contents, filledBytes, GrowArray.contents, List.take_take, holds.tail, whole]
    rw [Nat.min_eq_left holds.within, holds.bytes]
  · simp [Hop.filled, null]

/-- A coded buffer taken out with exactly these bytes. -/
structure Coded (bytes : List Octet) (t : Taken) : Prop where
  raw : t.raw = false
  needCoded : t.msg.needCoded = true
  contents : t.msg.contents = bytes

/-- A raw buffer taken out: header room, then one message. -/
structure Raw (overhead : Nat) (msg : List Octet) (t : Taken) : Prop where
  raw : t.raw = true
  needCoded : t.msg.needCoded = false
  length : t.msg.contents.length = overhead + msg.length
  payload : t.msg.contents.drop overhead = msg

/-- What was waiting is taken out as one coded buffer, if anything was. -/
def Flushes (bytes : List Octet) (before after : List Taken) : Prop :=
  (bytes = [] ∧ after = before) ∨ (bytes ≠ [] ∧ ∃ t, after = before ++ [t] ∧ Coded bytes t)

variable (cfg : CollectorConfig) {hop : Hop} {msg : List Octet}

/-- The branch for a full buffer keeps writing to the buffer it has just given away, and
that buffer has no room. -/
theorem bufferingData_full (stores : Stores cfg.maxBlockSize filled hop)
    (full : cfg.maxBlockSize < filled.length + msg.length) : hop.bufferingData cfg msg = none := by
  obtain ⟨bats, i, current, ready⟩ := stores.current
  have holds := ready.holds
  have branch : (bats.bufs i).filledBytes + msg.length > (bats.bufs i).size := by
    rw [filledBytes, holds.tail, holds.size]
    exact full
  have shrink : (bats.bufs i).tail ≤ (bats.bufs i).data.size := by
    rw [holds.tail, show (bats.bufs i).data.size = cfg.maxBlockSize from holds.size]
    exact holds.within
  have fails : ((bats.bufs i).resize (bats.bufs i).filledBytes).fill msg = none := by
    apply fill_eq_none
    simp only [BaseMsg.resize, filledBytes, GrowArray.capacity, GrowArray.resize_store_of_le 0 shrink]
    rw [show (bats.bufs i).data.store.length = cfg.maxBlockSize from holds.capacity, holds.tail]
    exact full
  simp [bufferingData, current, branch, BatsBuffer.cut, BatsBuffer.resetBuf_set _ _ ready.made, fails]

/-- With room for the message: it is appended, and the buffer is taken out once it holds
more than the threshold. -/
theorem bufferingData_room (stores : Stores cfg.maxBlockSize filled hop)
    (room : filled.length + msg.length ≤ cfg.maxBlockSize) :
    ∃ next, hop.bufferingData cfg msg = some next ∧
      if filled.length + msg.length > cfg.codingThreshold then
        Stores cfg.maxBlockSize [] next ∧ ∃ t, next.taken = hop.taken ++ [t] ∧ Coded (filled ++ msg) t
      else Stores cfg.maxBlockSize (filled ++ msg) next ∧ next.taken = hop.taken := by
  obtain ⟨bats, i, current, ready⟩ := stores.current
  have holds := ready.holds
  have branch : ¬ (bats.bufs i).filledBytes + msg.length > (bats.bufs i).size := by
    rw [filledBytes, holds.tail, holds.size]
    omega
  obtain ⟨buffer, fill, holdsMore, coded⟩ := holds.fill room
  have length : buffer.filledBytes = filled.length + msg.length := by
    rw [filledBytes, holdsMore.tail, List.length_append]
  have readyMore := ready.set holdsMore (coded.trans ready.coded)
  by_cases enough : filled.length + msg.length > cfg.codingThreshold
  · have out := readyMore.takeOut (buffer.resize buffer.filledBytes) false
    rw [BatsBuffer.set_set] at out
    refine ⟨⟨(bats.set i (buffer.resize buffer.filledBytes)).resetBuf cfg.maxBlockSize,
      hop.taken ++ [⟨i, buffer.resize buffer.filledBytes, false⟩]⟩, ?_, ?_⟩
    · simp [bufferingData, current, branch, fill, length, enough, BatsBuffer.resetBuf_set _ _ ready.made]
    · rw [if_pos enough]
      exact ⟨Or.inl ⟨bats.made, out⟩, _, rfl, rfl, coded.trans ready.coded, holdsMore.resize_contents⟩
  · refine ⟨⟨bats.set i buffer, hop.taken⟩, ?_, ?_⟩
    · simp [bufferingData, current, branch, fill, length, enough]
    · rw [if_neg enough]
      exact ⟨Or.inl ⟨i, readyMore⟩, rfl⟩

theorem Ready.filledBytes_pos (ready : Ready B filled bats i taken) :
    0 < (bats.bufs i).filledBytes ↔ filled ≠ [] := by
  rw [filledBytes, ready.holds.tail, List.length_pos_iff]

theorem Ready.coded_cut (ready : Ready B filled bats i taken) : Coded filled ⟨i, (bats.cut i).bufs i, false⟩ where
  raw := rfl
  needCoded := by simpa [BatsBuffer.cut, BaseMsg.resize] using ready.coded
  contents := by simpa [BatsBuffer.cut] using ready.holds.resize_contents

theorem Ready.takeOut_cut (ready : Ready B filled bats i taken) :
    Ready B [] ((bats.cut i).resetBuf B) (bats.cut i).made (taken ++ [⟨i, (bats.cut i).bufs i, false⟩]) := by
  simpa [BatsBuffer.cut] using ready.takeOut ((bats.bufs i).resize (bats.bufs i).filledBytes) false

theorem handleTimeoutBuffer_flushes (stores : Stores cfg.maxBlockSize filled hop) :
    Stores cfg.maxBlockSize [] (hop.handleTimeoutBuffer cfg) ∧
      Flushes filled hop.taken (hop.handleTimeoutBuffer cfg).taken := by
  rcases stores with ⟨i, ready⟩ | ⟨null, rfl, below, distinct⟩
  · by_cases empty : filled = []
    · subst filled
      have idle : (hop.batsBuffer.bufs i).filledBytes ≤ 0 := by
        have none := ready.filledBytes_pos
        simpa using none
      simp only [handleTimeoutBuffer, ready.buf, idle, if_true]
      exact ⟨Or.inl ⟨i, ready⟩, Or.inl ⟨rfl, rfl⟩⟩
    · have busy : ¬ (hop.batsBuffer.bufs i).filledBytes ≤ 0 := by
        have some := ready.filledBytes_pos.mpr empty
        omega
      simp only [handleTimeoutBuffer, ready.buf, busy, if_false]
      exact ⟨Or.inl ⟨_, ready.takeOut_cut⟩, Or.inr ⟨empty, _, rfl, ready.coded_cut⟩⟩
  · simp only [handleTimeoutBuffer, null]
    exact ⟨Or.inr ⟨null, rfl, below, distinct⟩, Or.inl ⟨rfl, rfl⟩⟩

/-- From an untouched buffer on: the header room, the message, and out. -/
theorem Ready.relay (ready : Ready cfg.maxBlockSize [] bats i taken)
    (room : cfg.protocolOverhead + msg.length ≤ cfg.maxBlockSize) :
    ∃ buffer, ((bats.bufs i).reserveHeader cfg.protocolOverhead).2.fill msg = some buffer ∧
      Raw cfg.protocolOverhead msg
        ⟨i, (buffer.resize buffer.filledBytes).setNeedCoded false, true⟩ := by
  obtain ⟨reserved, length⟩ := ready.holds.reserveHeader (show cfg.protocolOverhead ≤ cfg.maxBlockSize by omega)
  have fits : ((bats.bufs i).data.store.take cfg.protocolOverhead).length + msg.length ≤ cfg.maxBlockSize := by omega
  obtain ⟨buffer, fill, holds, _⟩ := reserved.fill fits
  refine ⟨buffer, fill, rfl, rfl, ?_, ?_⟩
  · change (buffer.resize buffer.filledBytes).contents.length = _
    rw [holds.resize_contents, List.length_append, length]
  · change (buffer.resize buffer.filledBytes).contents.drop _ = _
    rw [holds.resize_contents, List.drop_left' length]

theorem forceRelayData_relays (stores : Stores cfg.maxBlockSize filled hop)
    (room : cfg.protocolOverhead + msg.length ≤ cfg.maxBlockSize) :
    ∃ next, hop.forceRelayData cfg msg = some next ∧ Stores cfg.maxBlockSize [] next ∧
      ∃ flushed t, next.taken = flushed ++ [t] ∧ Flushes filled hop.taken flushed ∧
        Raw cfg.protocolOverhead msg t := by
  obtain ⟨bats, i, current, ready⟩ := stores.current
  by_cases empty : filled = []
  · subst filled
    have idle : ¬ 0 < (bats.bufs i).filledBytes := fun busy => ready.filledBytes_pos.mp busy rfl
    obtain ⟨buffer, fill, raw⟩ := ready.relay cfg room
    have out := ready.takeOut ((buffer.resize buffer.filledBytes).setNeedCoded false) true
    refine ⟨⟨(bats.set i _).resetBuf _, _⟩, ?_, Or.inl ⟨_, out⟩, _, _, rfl, Or.inl ⟨rfl, rfl⟩, raw⟩
    simp [forceRelayData, current, idle, fill]
  · have busy := ready.filledBytes_pos.mpr empty
    obtain ⟨buffer, fill, raw⟩ := ready.takeOut_cut.relay cfg room
    have out := ready.takeOut_cut.takeOut ((buffer.resize buffer.filledBytes).setNeedCoded false) true
    refine ⟨⟨BatsBuffer.resetBuf (BatsBuffer.set _ _ _) _, _⟩, ?_, Or.inl ⟨_, out⟩, _, _, rfl,
      Or.inr ⟨empty, _, rfl, ready.coded_cut⟩, raw⟩
    simp [forceRelayData, current, busy, fill]

end Hop

end ServicesFramework
