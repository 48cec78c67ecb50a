import ServicesFramework.NetMsgReads

namespace ServicesFramework.NetworkMsg

open Settings Probe Tun

theorem notMem_printNat {c : Ch} (other : Ch.isdigit c = false) (n : Nat) : c ∉ printNat n := by
  intro member
  simp [printNat_isdigit n c member] at other

/-- The four numbers that `inet_ntoa` prints. -/
def addrBytes (addr : UInt32) : List Nat :=
  [addr.toNat % 0x100, addr.toNat / 0x100 % 0x100, addr.toNat / 0x10000 % 0x100, addr.toNat / 0x1000000]

theorem inetNtoa_injective : Function.Injective inetNtoa := by
  intro addr other same
  have undotted (addr : UInt32) : ∀ p ∈ (addrBytes addr).map printNat, Ch.dot ∉ p := by
    intro p member
    obtain ⟨n, _, rfl⟩ := List.mem_map.mp member
    exact notMem_printNat rfl n
  have printed : (addrBytes addr).map printNat = (addrBytes other).map printNat :=
    Text.intercalate_injective (undotted addr) (List.cons_ne_nil _ _) (undotted other) (List.cons_ne_nil _ _) same
  have bytes : addrBytes addr = addrBytes other := List.map_injective_iff.mpr printNat_injective printed
  simp only [addrBytes, List.cons.injEq, and_true] at bytes
  apply UInt32.toNat_inj.mp
  omega

theorem notMem_inetNtoa {c : Ch} (other : Ch.isdigit c = false) (notDot : c ≠ Ch.dot) (addr : UInt32) :
    c ∉ inetNtoa addr := by
  have none (n : Nat) : c ∉ printNat n := notMem_printNat other n
  simp only [inetNtoa, Text.intercalate_cons, List.flatMap_cons, List.flatMap_nil, List.mem_append,
    List.mem_cons, none, notDot, or_self, List.not_mem_nil, not_false_eq_true]

/-- The parts of a flow index, between its colons. -/
def flowParts (srcIp dstIp : UInt32) (srcPort dstPort : UInt16) : List Str :=
  [inetNtoa srcIp, inetNtoa dstIp, printNat srcPort.toNat, printNat dstPort.toNat]

theorem flowText_eq (srcIp dstIp : UInt32) (srcPort dstPort : UInt16) :
    flowText srcIp dstIp srcPort dstPort = [Ch.colon].intercalate (flowParts srcIp dstIp srcPort dstPort) := by
  simp [flowText, flowParts, colon]

theorem colon_notMem_flowParts (srcIp dstIp : UInt32) (srcPort dstPort : UInt16) :
    ∀ p ∈ flowParts srcIp dstIp srcPort dstPort, Ch.colon ∉ p := by
  intro p member
  simp only [flowParts, List.mem_cons, List.not_mem_nil, or_false] at member
  rcases member with rfl | rfl | rfl | rfl
  · exact notMem_inetNtoa rfl (by decide) srcIp
  · exact notMem_inetNtoa rfl (by decide) dstIp
  · exact notMem_printNat rfl _
  · exact notMem_printNat rfl _

/-- The text determines the addresses and the ports. -/
theorem flowText_injective {srcIp dstIp srcIp' dstIp' : UInt32} {srcPort dstPort srcPort' dstPort' : UInt16}
    (same : flowText srcIp dstIp srcPort dstPort = flowText srcIp' dstIp' srcPort' dstPort') :
    srcIp = srcIp' ∧ dstIp = dstIp' ∧ srcPort = srcPort' ∧ dstPort = dstPort' := by
  rw [flowText_eq, flowText_eq] at same
  have parts := Text.intercalate_injective (colon_notMem_flowParts _ _ _ _) (List.cons_ne_nil _ _)
    (colon_notMem_flowParts _ _ _ _) (List.cons_ne_nil _ _) same
  simp only [flowParts, List.cons.injEq, and_true] at parts
  obtain ⟨src, dst, sport, dport⟩ := parts
  exact ⟨inetNtoa_injective src, inetNtoa_injective dst, UInt16.toNat_inj.mp (printNat_injective sport),
    UInt16.toNat_inj.mp (printNat_injective dport)⟩

/-- After `decode` the flow index is that of the fields it has set. -/
theorem decode_flowindex {size : Nat} {memory : Nat → Octet} {msg : NetworkMsg}
    (v4 : (isIPv4 size).run memory = true) :
    ((decode size msg).run memory).flowindex =
      flowText ((decode size msg).run memory).srcIp ((decode size msg).run memory).dstIp
        ((decode size msg).run memory).srcPort ((decode size msg).run memory).dstPort := by
  rw [run_decode v4]

/-- Two decoded IPv4 packets have the same flow index exactly when they have the same addresses
and ports. -/
theorem flowindex_eq_iff (packet packet' : List Octet) (past past' : Nat → Octet) (msg msg' : NetworkMsg)
    (v4 : (isIPv4 packet.length).run (begin packet past) = true)
    (v4' : (isIPv4 packet'.length).run (begin packet' past') = true) :
    ((decode packet.length msg).run (begin packet past)).flowindex =
        ((decode packet'.length msg').run (begin packet' past')).flowindex ↔
      ((decode packet.length msg).run (begin packet past)).srcIp =
          ((decode packet'.length msg').run (begin packet' past')).srcIp ∧
        ((decode packet.length msg).run (begin packet past)).dstIp =
          ((decode packet'.length msg').run (begin packet' past')).dstIp ∧
        ((decode packet.length msg).run (begin packet past)).srcPort =
          ((decode packet'.length msg').run (begin packet' past')).srcPort ∧
        ((decode packet.length msg).run (begin packet past)).dstPort =
          ((decode packet'.length msg').run (begin packet' past')).dstPort := by
  rw [decode_flowindex v4, decode_flowindex v4']
  constructor
  · exact flowText_injective
  · rintro ⟨src, dst, sport, dport⟩
    rw [src, dst, sport, dport]

/-- The payload does not belong to the flow. -/
theorem flowindex_eq_payload :
    ((decode udpPacket.length ⟨0, 0, [], [], [], 0, 0, 0⟩).run (begin udpPacket fun _ => 0)).flowindex =
      ((decode (udpPacket ++ [1, 2]).length ⟨0, 0, [], [], [], 0, 0, 0⟩).run
        (begin (udpPacket ++ [1, 2]) fun _ => 0)).flowindex :=
  (flowindex_eq_iff udpPacket (udpPacket ++ [1, 2]) (fun _ => 0) (fun _ => 0) ⟨0, 0, [], [], [], 0, 0, 0⟩
    ⟨0, 0, [], [], [], 0, 0, 0⟩ (by decide) (by decide)).mpr (by decide)

end ServicesFramework.NetworkMsg
