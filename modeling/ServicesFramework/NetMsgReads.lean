import ServicesFramework.NetMsg

namespace ServicesFramework.NetworkMsg

open Probe

variable {size : Nat} {memory : Nat → Octet} {msg : NetworkMsg}

theorem isIPv4_iff : (isIPv4 size).run memory = true ↔ 20 ≤ size ∧ (memory 0).toNat / 16 = 4 := by
  by_cases short : size < minIpHeaderLen
  · rw [isIPv4, if_pos short]
    unfold minIpHeaderLen at short
    simp only [run_pure, Bool.false_eq_true, false_iff]
    omega
  · rw [isIPv4, if_neg short]
    unfold minIpHeaderLen at short
    simp only [ipV, run_bind, run_cell, run_pure, decide_eq_true_eq]
    omega

/-- The text that `decode` composes of the addresses and ports. -/
def flowText (srcIp dstIp : UInt32) (srcPort dstPort : UInt16) : Str :=
  inetNtoa srcIp ++ colon ++ inetNtoa dstIp ++ colon ++ Settings.printNat srcPort.toNat ++ colon ++
    Settings.printNat dstPort.toNat

/-- What `decode` makes of an IPv4 packet: every field is set, whatever it was before. -/
theorem run_decode (v4 : (isIPv4 size).run memory = true) :
    (decode size msg).run memory =
      { srcIp := ipSrc.run memory
        dstIp := ipDst.run memory
        srcIpStr := inetNtoa (ipSrc.run memory)
        dstIpStr := inetNtoa (ipDst.run memory)
        flowindex := flowText (ipSrc.run memory) (ipDst.run memory) (decodePorts.run memory).2
          (decodePorts.run memory).1
        srcPort := (decodePorts.run memory).2
        dstPort := (decodePorts.run memory).1
        protocol := memory 9 } := by
  obtain ⟨long, version⟩ := isIPv4_iff.mp v4
  have header : ¬ size < minIpHeaderLen := by
    unfold minIpHeaderLen
    omega
  rw [decode, if_neg header]
  simp only [ipV, ipP, run_bind, run_cell, run_pure, version, ne_eq, not_true, if_false, flowText]

/-- The protocols whose ports `decode` looks up. -/
def HasPorts (protocol : UInt8) : Prop := protocol = ipProtoUdp ∨ protocol = ipProtoTcp

instance (protocol : UInt8) : Decidable (HasPorts protocol) := inferInstanceAs (Decidable (_ ∨ _))

theorem mem_reads_sAddr (i j : Nat) : i ∈ (sAddr j).reads memory ↔ j ≤ i ∧ i < j + 4 := by
  simp only [sAddr, reads_bind, reads_cell, reads_pure, List.mem_append, List.mem_singleton,
    List.not_mem_nil, or_false]
  omega

theorem mem_reads_ports (i : Nat) : i ∈ ports.reads memory ↔
    i = 0 ∨ ((memory 0).toNat % 16 * 4 ≤ i ∧ i < (memory 0).toNat % 16 * 4 + 4) := by
  simp only [ports, ntohs, ipHl, run_bind, run_cell, run_pure, reads_bind, reads_cell, reads_pure,
    List.mem_append, List.mem_singleton, List.not_mem_nil, or_false]
  omega

theorem mem_reads_decodePorts (i : Nat) : i ∈ decodePorts.reads memory ↔
    i = 9 ∨ HasPorts (memory 9) ∧ i ∈ ports.reads memory := by
  change i ∈ 9 :: (if memory 9 = ipProtoUdp then ports else if memory 9 = ipProtoTcp then ports
    else pure (0, 0)).reads memory ↔ _
  rw [List.mem_cons]
  apply or_congr_right
  by_cases udp : memory 9 = ipProtoUdp
  · rw [if_pos udp]
    exact (and_iff_right (.inl udp)).symm
  by_cases tcp : memory 9 = ipProtoTcp
  · rw [if_neg udp, if_pos tcp]
    exact (and_iff_right (.inr tcp)).symm
  · rw [if_neg udp, if_neg tcp]
    constructor
    · exact fun none => absurd none List.not_mem_nil
    · rintro ⟨has, _⟩
      exact absurd has (not_or.mpr ⟨udp, tcp⟩)

/-- The bytes that `decode` looks at in an IPv4 packet. -/
theorem mem_reads_decode (v4 : (isIPv4 size).run memory = true) (i : Nat) :
    i ∈ (decode size msg).reads memory ↔ i = 0 ∨ i = 9 ∨ (12 ≤ i ∧ i < 20) ∨
      HasPorts (memory 9) ∧ (memory 0).toNat % 16 * 4 ≤ i ∧ i < (memory 0).toNat % 16 * 4 + 4 := by
  obtain ⟨long, version⟩ := isIPv4_iff.mp v4
  have header : ¬ size < minIpHeaderLen := by
    unfold minIpHeaderLen
    omega
  rw [decode, if_neg header]
  simp only [ipV, ipP, run_bind, run_cell, run_pure, version, ne_eq, not_true, if_false, reads_bind, reads_cell,
    reads_pure, List.mem_append, List.mem_singleton, List.not_mem_nil, or_false, ipSrc, ipDst, mem_reads_sAddr,
    mem_reads_decodePorts, mem_reads_ports]
  by_cases has : HasPorts (memory 9)
  · simp only [has, true_and]
    omega
  · simp only [has, false_and, or_false]
    omega

open Tun

variable {packet : List Octet} {past : Nat → Octet}

theorem begin_of_lt {i : Nat} (within : i < packet.length) : begin packet past i = packet.getD i 0 := by
  simp only [begin, List.getD_eq_getElem?_getD, List.getElem?_eq_getElem within, Option.getD_some]

theorem isIPv4_begin_iff : (isIPv4 packet.length).run (begin packet past) = true ↔
    20 ≤ packet.length ∧ (packet.getD 0 0).toNat / 16 = 4 := by
  rw [isIPv4_iff]
  apply and_congr_right
  intro long
  rw [begin_of_lt (by omega)]

/-- The packet alone decides: no byte behind it is looked at, and what is decoded and dispatched
depends neither on these bytes nor on what the fields were before. -/
structure LooksInside (packet : List Octet) : Prop where
  reads : ∀ past msg, ∀ i ∈ (decode packet.length msg).reads (begin packet past), i < packet.length
  decoded : ∀ past past' msg msg',
    (decode packet.length msg).run (begin packet past) = (decode packet.length msg').run (begin packet past')
  dispatched : ∀ past past' fresh fresh', fdRecv fresh past (some packet) = fdRecv fresh' past' (some packet)

/-- Where all bytes that are looked at lie in the packet, the rest follows. -/
theorem looksInside_of_reads (v4 : (isIPv4 packet.length).run (begin packet past) = true)
    (reads : ∀ past msg, ∀ i ∈ (decode packet.length msg).reads (begin packet past), i < packet.length) :
    LooksInside packet := by
  have passes (past : Nat → Octet) : (isIPv4 packet.length).run (begin packet past) = true :=
    isIPv4_begin_iff.mpr (isIPv4_begin_iff.mp v4)
  have decoded : ∀ past past' msg msg',
      (decode packet.length msg).run (begin packet past) = (decode packet.length msg').run (begin packet past') := by
    intro past past' msg msg'
    have behind : (decode packet.length msg).run (begin packet past) =
        (decode packet.length msg).run (begin packet past') := by
      apply run_eq_of_agree
      intro i read
      rw [begin_of_lt (reads past msg i read), begin_of_lt (reads past msg i read)]
    rw [behind, run_decode (passes past'), run_decode (passes past')]
  refine ⟨reads, decoded, ?_⟩
  intro past past' fresh fresh'
  simp only [fdRecv, passes, if_true]
  rw [decoded past past' fresh fresh']

/-- `decode` stays inside an IPv4 packet exactly when the packet has no ports, or is long enough
to hold them behind the header length that it states. -/
theorem decode_looksInside_iff (packet : List Octet) (past : Nat → Octet)
    (v4 : (isIPv4 packet.length).run (begin packet past) = true) :
    LooksInside packet ↔
      (packet.getD 9 0 ≠ ipProtoUdp ∧ packet.getD 9 0 ≠ ipProtoTcp) ∨
        (packet.getD 0 0).toNat % 16 * 4 + 4 ≤ packet.length := by
  obtain ⟨long, -⟩ := isIPv4_begin_iff.mp v4
  have protocol (past : Nat → Octet) : begin packet past 9 = packet.getD 9 0 := begin_of_lt (by omega)
  have first (past : Nat → Octet) : begin packet past 0 = packet.getD 0 0 := begin_of_lt (by omega)
  have member (past : Nat → Octet) (msg : NetworkMsg) (i : Nat) :
      i ∈ (decode packet.length msg).reads (begin packet past) ↔ _ :=
    mem_reads_decode (isIPv4_begin_iff.mpr (isIPv4_begin_iff.mp v4)) i
  constructor
  · intro inside
    rw [← not_or, Classical.or_iff_not_imp_left, not_not]
    intro has
    have last := inside.reads past ⟨0, 0, [], [], [], 0, 0, 0⟩ ((packet.getD 0 0).toNat % 16 * 4 + 3) (by
      rw [member, protocol, first]
      exact .inr (.inr (.inr ⟨has, by omega, by omega⟩)))
    omega
  · intro fits
    apply looksInside_of_reads v4
    intro past msg i read
    rw [member, protocol, first] at read
    rcases read with rfl | rfl | address | ⟨has, low, high⟩
    · omega
    · omega
    · omega
    · rcases fits with none | fits
      · exact absurd has (not_or.mpr none)
      · omega

/-- A UDP header with its two ports behind an IPv4 header of 20 bytes. -/
def udpPacket : List Octet :=
  [0x45, 0, 0, 24, 0, 0, 0, 0, 64, 17, 0, 0, 10, 0, 0, 1, 10, 0, 0, 2, 0x13, 0x88, 0, 53]

theorem udpPacket_looksInside :
    (isIPv4 udpPacket.length).run (begin udpPacket fun _ => 0) = true ∧ LooksInside udpPacket :=
  ⟨by decide, (decode_looksInside_iff udpPacket (fun _ => 0) (by decide)).mpr (.inr (by decide))⟩

/-- The same packet cut off after the IPv4 header: the ports are read from behind it. -/
theorem decode_looks_behind :
    ¬ ∀ (packet : List Octet) (past : Nat → Octet),
      (isIPv4 packet.length).run (begin packet past) = true → LooksInside packet := by
  intro claim
  have v4 : (isIPv4 (udpPacket.take 20).length).run (begin (udpPacket.take 20) fun _ => 0) = true := by decide
  have inside := (claim (udpPacket.take 20) (fun _ => 0) v4).reads (fun _ => 0) ⟨0, 0, [], [], [], 0, 0, 0⟩ 20
  exact absurd (inside (by decide)) (by decide)

end ServicesFramework.NetworkMsg
