import ServicesFramework.CollectorTraffic
import ServicesFramework.TunFrames

namespace ServicesFramework.Hop

open Machine Tun

/-- A buffer that was taken out carries these messages, whole and in this order: one of them if
it goes out raw. -/
structure Carries (cfg : CollectorConfig) (t : Taken) (group : List (List Octet)) : Prop where
  payload : payload cfg.protocolOverhead t = group.flatten
  nonempty : group ≠ []
  single : t.raw = true → group.length = 1
  coded : t.msg.needCoded = !t.raw

/-- What holds between two sections for the messages that they were given: they are in the
buffers taken out, group by group, and in the current buffer. -/
structure Packed (cfg : CollectorConfig) (msgs : List (List Octet)) (groups : List (List (List Octet)))
    (waiting : List (List Octet)) (hop : Hop) : Prop where
  stores : Stores cfg.maxBlockSize waiting.flatten hop
  short : waiting.flatten.length ≤ cfg.codingThreshold
  order : groups.flatten ++ waiting = msgs
  carries : List.Forall₂ (Carries cfg) hop.taken groups

variable {cfg : CollectorConfig} {L : Nat} {msgs waiting : List (List Octet)} {groups : List (List (List Octet))}
  {hop : Hop} {msg : List Octet}

theorem Packed.init (cfg : CollectorConfig) (eager : Bool) : Packed cfg [] [] [] (init cfg eager) where
  stores := .init cfg eager
  short := Nat.zero_le _
  order := rfl
  carries := .nil

theorem Coded.carries {group : List (List Octet)} {t : Taken} (coded : Coded group.flatten t) (nonempty : group ≠ []) :
    Carries cfg t group where
  payload := coded.payload _
  nonempty := nonempty
  single raw := by rw [coded.raw] at raw; cases raw
  coded := by rw [coded.needCoded, coded.raw]; rfl

theorem Raw.carries {msg : List Octet} {t : Taken} (raw : Raw cfg.protocolOverhead msg t) : Carries cfg t [msg] where
  payload := by simp [raw.payload_eq]
  nonempty := List.cons_ne_nil _ _
  single _ := rfl
  coded := by rw [raw.needCoded, raw.raw]; rfl

theorem carries_snoc {taken : List Taken} {t : Taken} {group : List (List Octet)}
    (old : List.Forall₂ (Carries cfg) taken groups) (new : Carries cfg t group) :
    List.Forall₂ (Carries cfg) (taken ++ [t]) (groups ++ [group]) :=
  List.rel_append old (.cons new .nil)

/-- Taking out what waits moves the waiting messages into one more group, if there are any. -/
theorem Packed.flush (old : Packed cfg msgs groups waiting hop) (sized : ∀ p ∈ msgs, 1 ≤ p.length)
    {after : List Taken} (flushes : Flushes waiting.flatten hop.taken after) :
    ∃ more, List.Forall₂ (Carries cfg) after more ∧ more.flatten = msgs := by
  rcases flushes with ⟨empty, rfl⟩ | ⟨some, t, rfl, coded⟩
  · have idle : waiting = [] := by
      rw [List.eq_nil_iff_forall_not_mem]
      intro p member
      have long := sized p (by rw [← old.order]; exact List.mem_append_right _ member)
      rw [List.flatten_eq_nil_iff.mp empty p member] at long
      simp at long
    refine ⟨groups, old.carries, ?_⟩
    rw [← old.order, idle, List.append_nil]
  · have busy : waiting ≠ [] := by
      rintro rfl
      exact some rfl
    refine ⟨groups ++ [waiting], carries_snoc old.carries (coded.carries busy), ?_⟩
    rw [← old.order, List.flatten_append, List.flatten_singleton]

theorem Packed.bufferingData (old : Packed cfg msgs groups waiting hop)
    (room : cfg.codingThreshold + L ≤ cfg.maxBlockSize) (short : msg.length ≤ L) :
    ∃ next more left, hop.bufferingData cfg msg = some next ∧ Packed cfg (msgs ++ [msg]) more left next := by
  have low := old.short
  obtain ⟨next, run, result⟩ := bufferingData_room cfg old.stores
    (show waiting.flatten.length + msg.length ≤ cfg.maxBlockSize by omega)
  have joined : waiting.flatten ++ msg = (waiting ++ [msg]).flatten := by
    rw [List.flatten_append, List.flatten_singleton]
  split at result
  · obtain ⟨stores, t, taken, coded⟩ := result
    rw [joined] at coded
    refine ⟨next, groups ++ [waiting ++ [msg]], [], run, stores, Nat.zero_le _, ?_, ?_⟩
    · rw [← old.order]
      simp
    · rw [taken]
      exact carries_snoc old.carries (coded.carries (by simp))
  · rename_i few
    obtain ⟨stores, taken⟩ := result
    rw [joined] at stores
    refine ⟨next, groups, waiting ++ [msg], run, stores, ?_, ?_, by rw [taken]; exact old.carries⟩
    · rw [← joined, List.length_append]
      omega
    · rw [← old.order, List.append_assoc]

theorem Packed.forceRelayData (old : Packed cfg msgs groups waiting hop) (sized : ∀ p ∈ msgs, 1 ≤ p.length)
    (room : cfg.protocolOverhead + L ≤ cfg.maxBlockSize) (short : msg.length ≤ L) :
    ∃ next more, hop.forceRelayData cfg msg = some next ∧ Packed cfg (msgs ++ [msg]) more [] next := by
  obtain ⟨next, run, stores, flushed, t, taken, flushes, raw⟩ :=
    forceRelayData_relays cfg old.stores (show cfg.protocolOverhead + msg.length ≤ cfg.maxBlockSize by omega)
  obtain ⟨more, carries, all⟩ := old.flush sized flushes
  refine ⟨next, more ++ [[msg]], run, stores, Nat.zero_le _, ?_, ?_⟩
  · rw [List.append_nil, List.flatten_append, all, List.flatten_singleton]
  · rw [taken]
    exact carries_snoc carries raw.carries

theorem Packed.handleTimeoutBuffer (old : Packed cfg msgs groups waiting hop) (sized : ∀ p ∈ msgs, 1 ≤ p.length) :
    ∃ more, Packed cfg msgs more [] (hop.handleTimeoutBuffer cfg) := by
  obtain ⟨stores, flushes⟩ := handleTimeoutBuffer_flushes cfg old.stores
  obtain ⟨more, carries, all⟩ := old.flush sized flushes
  exact ⟨more, stores, Nat.zero_le _, by rw [List.append_nil, all], carries⟩

/-- One section, for a hop that the messages so far went through. -/
theorem Packed.step (old : Packed cfg msgs groups waiting hop) (sized : ∀ p ∈ msgs, 1 ≤ p.length)
    (room : cfg.codingThreshold + L ≤ cfg.maxBlockSize) (headerRoom : cfg.protocolOverhead + L ≤ cfg.maxBlockSize)
    (act : CollectorAct) (short : ∀ msg, act.msg? = some msg → msg.length ≤ L) :
    ∃ next more left, act.step cfg hop = some next ∧ Packed cfg (msgs ++ act.msg?.toList) more left next := by
  cases act with
  | bufferingData msg => exact old.bufferingData room (short msg rfl)
  | forceRelayData msg =>
    obtain ⟨next, more, run, packed⟩ := old.forceRelayData sized headerRoom (short msg rfl)
    exact ⟨next, more, [], run, packed⟩
  | handleTimeoutBuffer =>
    obtain ⟨more, packed⟩ := old.handleTimeoutBuffer sized
    refine ⟨_, more, [], rfl, ?_⟩
    simpa [CollectorAct.msg?] using packed

/-- Over any interleaving of the sections the messages stay whole and in order. -/
theorem packed_of_run (cfg : CollectorConfig) (L : Nat) (eager : Bool) (acts : List CollectorAct)
    (room : cfg.codingThreshold + L ≤ cfg.maxBlockSize) (headerRoom : cfg.protocolOverhead + L ≤ cfg.maxBlockSize)
    (sized : ∀ msg ∈ acts.filterMap CollectorAct.msg?, 1 ≤ msg.length ∧ msg.length ≤ L) :
    ∃ hop groups waiting, run (CollectorAct.step cfg) (init cfg eager) acts = some hop ∧
      Packed cfg (acts.filterMap CollectorAct.msg?) groups waiting hop := by
  induction acts using List.reverseRecOn with
  | nil => exact ⟨init cfg eager, [], [], rfl, .init cfg eager⟩
  | append_singleton acts act ih =>
    rw [List.filterMap_append] at sized
    obtain ⟨hop, groups, waiting, reach, old⟩ := ih fun msg member => sized msg (List.mem_append_left _ member)
    obtain ⟨next, more, left, step, packed⟩ := old.step
      (fun p member => (sized p (List.mem_append_left _ member)).1) room headerRoom act
      fun msg given => (sized msg (List.mem_append_right _ (by simp [given]))).2
    refine ⟨next, more, left, run_snoc.mpr ⟨hop, reach, step⟩, ?_⟩
    rw [List.filterMap_append]
    cases given : act.msg? with
    | none => simpa [given] using packed
    | some msg => simpa [given] using packed

/-- What `Tun::FDWrite` makes of a buffer at the other end, with the padding that a block may
have got on its way. -/
theorem Carries.fdWrites {t : Taken} {group : List (List Octet)} (carries : Carries cfg t group)
    (valid : ∀ p ∈ group, IPv4Packet p) (m : Nat) (past : Nat → Octet) (written : List (List Octet)) :
    FdWrites (Hop.payload cfg.protocolOverhead t ++ List.replicate m 0) past written ↔
      written = if LastHeaderOnly group m then group.dropLast else group := by
  rw [fdWrites_iff, carries.payload, returns_packets group valid carries.nonempty 0 [] written rfl, List.nil_append]

/-- The tunnel is transparent for IPv4 packets of at most `L` bytes, where a block has room for a
packet beyond the coding threshold, and for a packet and the header room: in every run of the
sections each buffer taken out holds whole packets, a raw one a single packet, and `FDWrite` of the
buffers in turn writes the packets in the order in which they came. The one packet it misses is a
bare header that ends a block of several packets without padding. With such room a buffer is taken
out before it is full, so `BufferingData` never takes its branch for a full one. -/
theorem tunnel_delivers_packets (cfg : CollectorConfig) (L : Nat) (eager : Bool) (acts : List CollectorAct)
    (room : cfg.codingThreshold + L ≤ cfg.maxBlockSize) (headerRoom : cfg.protocolOverhead + L ≤ cfg.maxBlockSize)
    (valid : ∀ p ∈ acts.filterMap CollectorAct.msg?, IPv4Packet p ∧ p.length ≤ L) :
    ∃ hop groups waiting, run (CollectorAct.step cfg) (init cfg eager) acts = some hop ∧
      groups.flatten ++ waiting = acts.filterMap CollectorAct.msg? ∧ hop.filled = waiting.flatten ∧
      List.Forall₂ (fun t group => (t.raw = true → group.length = 1) ∧
        ∀ m past written, FdWrites (payload cfg.protocolOverhead t ++ List.replicate m 0) past written ↔
          written = if LastHeaderOnly group m then group.dropLast else group) hop.taken groups := by
  obtain ⟨hop, groups, waiting, reach, packed⟩ := packed_of_run cfg L eager acts room headerRoom fun p member => by
    obtain ⟨packet, short⟩ := valid p member
    have header := packet.header
    exact ⟨by omega, short⟩
  refine ⟨hop, groups, waiting, reach, packed.order, packed.stores.filled_eq, ?_⟩
  have inside : ∀ group ∈ groups, ∀ p ∈ group, IPv4Packet p := by
    intro group listed p member
    have given : p ∈ acts.filterMap CollectorAct.msg? := by
      rw [← packed.order]
      exact List.mem_append_left _ (List.mem_flatten.mpr ⟨group, listed, member⟩)
    exact (valid p given).1
  refine List.forall₂_iff_zip.mpr ⟨packed.carries.length_eq, ?_⟩
  intro t group paired
  have carries : Carries cfg t group := List.forall₂_zip packed.carries paired
  exact ⟨carries.single, carries.fdWrites (inside group (List.of_mem_zip paired).2)⟩

/-- Two bare headers in one block, and one that goes out raw. -/
theorem tunnel_delivers_packets_shipped :
    ∃ (hop : Hop) (groups : List (List (List Octet))) (waiting : List (List Octet)), run (CollectorAct.step ⟨65540, 30000, 16⟩) (init ⟨65540, 30000, 16⟩ false)
        [.bufferingData bareHeader, .bufferingData bareHeader, .forceRelayData bareHeader] = some hop ∧
      groups.flatten ++ waiting = [bareHeader, bareHeader, bareHeader] ∧ hop.filled = waiting.flatten ∧
      hop.taken.length = groups.length := by
  obtain ⟨hop, groups, waiting, reach, order, filled, carries⟩ := tunnel_delivers_packets ⟨65540, 30000, 16⟩ 2048 false
    [.bufferingData bareHeader, .bufferingData bareHeader, .forceRelayData bareHeader] (by decide) (by decide)
    fun p member => by
      have same : p = bareHeader := by simpa [CollectorAct.msg?] using member
      rw [same]
      exact ⟨bareHeader_packet, by decide⟩
  exact ⟨hop, groups, waiting, reach, order, filled, carries.length_eq⟩

end ServicesFramework.Hop
