import ServicesFramework.Tun

namespace ServicesFramework.Tun

open Loop

theorem fdWrites_iff {msg : List Octet} {past : Nat → Octet} {written : List (List Octet)} :
    FdWrites msg past written ↔ Returns (frameLoop (begin msg past) msg.length) (0, []) written := by
  simp [FdWrites, Returns, fdWrite]

/-- Inside the message the memory is the message: byte `i` of the part that starts at `o`. -/
theorem begin_add {msg rest : List Octet} {past : Nat → Octet} {o i : Nat}
    (here : msg.drop o = rest) (within : i < rest.length) : begin msg past (o + i) = rest.getD i 0 := by
  subst rest
  rw [List.length_drop] at within
  simp [begin, List.getD_eq_getElem?_getD, List.getElem?_drop, List.getElem?_eq_getElem (show o + i < msg.length by omega)]

theorem frame_begin {msg p rest : List Octet} {past : Nat → Octet} {o : Nat}
    (here : msg.drop o = p ++ rest) : frame (begin msg past) o p.length = p := by
  apply List.ext_getElem (by simp [frame])
  intro i _ within
  simp only [frame, List.getElem_map, List.getElem_range]
  rw [begin_add here (by simp; omega)]
  simp [List.getD_eq_getElem?_getD, List.getElem?_append_left within, within]

/-- At a packet boundary the loop writes that packet, whatever follows it. -/
theorem frameLoop_packet {msg p rest : List Octet} {o : Nat} (past : Nat → Octet)
    (written : List (List Octet)) (here : msg.drop o = p ++ rest) (packet : IPv4Packet p) :
    frameLoop (begin msg past) msg.length (o, written) =
      if rest.length ≤ 20 then .done (written ++ [p]) else .again (o + p.length, written ++ [p]) := by
  have long := packet.header
  have byte (i : Nat) (within : i < 20) : begin msg past (o + i) = p.getD i 0 := by
    rw [begin_add here (by simp; omega)]
    simp [List.getD_eq_getElem?_getD, List.getElem?_append_left (show i < p.length by omega)]
  have first : begin msg past o = p.getD 0 0 := byte 0 (by omega)
  have version : ipV (begin msg past) o = 4 := by
    rw [ipV, first, packet.version]
  have size : ipLen (begin msg past) o = p.length := by
    rw [ipLen, byte 2 (by omega), byte 3 (by omega), packet.totalLength]
  have nonzero : begin msg past o ≠ 0 := by
    intro zero
    simp [ipV, zero] at version
  have total : o + (p.length + rest.length) = msg.length := by
    have lengths := congrArg List.length here
    simp only [List.length_drop, List.length_append] at lengths
    omega
  simp only [frameLoop, nonzero, version, size, if_false, or_false, frame_begin here]
  rw [if_neg (by simp), if_neg (by omega)]
  congr 1
  exact propext ⟨by omega, by omega⟩

/-- The boundary where the remaining-length test gives up one packet too early: a bare
header as the last of several packets, with no padding behind it. -/
def LastHeaderOnly (packets : List (List Octet)) (m : Nat) : Prop :=
  2 ≤ packets.length ∧ packets.getLast?.map List.length = some 20 ∧ m = 0

instance (packets : List (List Octet)) (m : Nat) : Decidable (LastHeaderOnly packets m) :=
  inferInstanceAs (Decidable (_ ∧ _ ∧ _))

theorem lastHeaderOnly_cons {p q r : List Octet} {ps : List (List Octet)} {m : Nat} :
    LastHeaderOnly (p :: q :: r :: ps) m ↔ LastHeaderOnly (q :: r :: ps) m := by
  simp [LastHeaderOnly, List.getLast?_cons_cons]

/-- The loop from a packet boundary to its end, over all remaining packets. -/
theorem returns_packets {past : Nat → Octet} {m : Nat} {msg : List Octet} (packets : List (List Octet))
    (valid : ∀ p ∈ packets, IPv4Packet p) (nonempty : packets ≠ []) :
    ∀ o written result, msg.drop o = packets.flatten ++ List.replicate m 0 →
      (Returns (frameLoop (begin msg past) msg.length) (o, written) result ↔
        result = written ++ if LastHeaderOnly packets m then packets.dropLast else packets) := by
  induction packets with
  | nil => exact absurd rfl nonempty
  | cons p ps ih =>
    intro o written result here
    have packet := valid p (List.mem_cons_self ..)
    rw [List.flatten_cons, List.append_assoc] at here
    have step := frameLoop_packet past written here packet
    have later : msg.drop (o + p.length) = ps.flatten ++ List.replicate m 0 := by
      rw [← List.drop_drop, here, List.drop_left]
    cases ps with
    | nil =>
      rw [if_neg (by simp [LastHeaderOnly])]
      by_cases few : m ≤ 20
      · rw [if_pos (by simpa using few)] at step
        exact returns_done step
      · rw [if_neg (by simpa using few)] at step
        rw [returns_again step]
        have zero : begin msg past (o + p.length) = 0 := by
          rw [show o + p.length = o + p.length + 0 from rfl, begin_add later (by simp; omega)]
          simp [show 0 < m by omega]
        exact returns_done (by simp [frameLoop, zero])
    | cons q qs =>
      have head := (valid q (by simp)).header
      have tail : ∀ r ∈ q :: qs, IPv4Packet r := fun r member => valid r (List.mem_cons_of_mem _ member)
      by_cases few : ((q :: qs).flatten ++ List.replicate m (0 : Octet)).length ≤ 20
      · rw [if_pos few] at step
        simp only [List.flatten_cons, List.length_append, List.length_replicate] at few
        have alone : qs = [] := by
          cases qs with
          | nil => rfl
          | cons r rs =>
            have second := (valid r (by simp)).header
            simp only [List.flatten_cons, List.length_append] at few
            omega
        subst qs
        have bare : LastHeaderOnly [p, q] m := ⟨by simp, by simp; omega, by omega⟩
        rw [if_pos bare]
        exact returns_done step
      · rw [if_neg few] at step
        rw [returns_again step, ih tail (by simp) _ _ _ later, List.append_assoc, List.singleton_append]
        cases qs with
        | nil =>
          simp only [List.flatten_cons, List.flatten_nil, List.append_nil, List.length_append,
            List.length_replicate] at few
          rw [if_neg (by simp [LastHeaderOnly]), if_neg (by simp [LastHeaderOnly]; omega)]
        | cons r rs =>
          simp only [lastHeaderOnly_cons, List.dropLast_cons_cons]
          split <;> rfl

/-- The loop undoes the concatenation exactly when the boundary it misjudges does not occur. -/
theorem fdWrite_undoes_concat_iff (packets : List (List Octet)) (m : Nat) (past : Nat → Octet)
    (nonempty : packets ≠ []) (valid : ∀ p ∈ packets, IPv4Packet p) :
    FdWrites (packets.flatten ++ List.replicate m 0) past packets ↔
      ¬ (2 ≤ packets.length ∧ packets.getLast?.map List.length = some 20 ∧ m = 0) := by
  rw [fdWrites_iff, returns_packets packets valid nonempty 0 [] packets rfl, List.nil_append]
  change _ ↔ ¬ LastHeaderOnly packets m
  constructor
  · intro all bare
    rw [if_pos bare] at all
    have shorter := congrArg List.length all
    have long := bare.1
    rw [List.length_dropLast] at shorter
    omega
  · intro fine
    rw [if_neg fine]

/-- A packet that is only a header. -/
def bareHeader : List Octet := [0x45, 0, 0, 20] ++ List.replicate 16 0

theorem bareHeader_packet : IPv4Packet bareHeader where
  header := by decide
  short := by decide
  version := by decide
  totalLength := by decide

theorem fdWrite_undoes_concat_padded :
    IPv4Packet bareHeader ∧
      FdWrites ([bareHeader, bareHeader].flatten ++ List.replicate 3 0) (fun _ => 0xff) [bareHeader, bareHeader] :=
  ⟨bareHeader_packet, (fdWrite_undoes_concat_iff [bareHeader, bareHeader] 3 (fun _ => 0xff) (by simp)
    (by simp [bareHeader_packet])).mpr (by decide)⟩

/-- Two bare headers: after the first one exactly 20 bytes remain, and the second is dropped. -/
theorem fdWrite_drops_last_header :
    ¬ ∀ (packets : List (List Octet)) (m : Nat) (past : Nat → Octet), packets ≠ [] →
      (∀ p ∈ packets, IPv4Packet p) → FdWrites (packets.flatten ++ List.replicate m 0) past packets := by
  intro claim
  have valid : ∀ p ∈ [bareHeader, bareHeader], IPv4Packet p := by simp [bareHeader_packet]
  have all := fdWrites_iff.mp (claim [bareHeader, bareHeader] 0 (fun _ => 0) (by simp) valid)
  rw [returns_packets _ valid (by simp) 0 [] _ rfl, if_pos (by decide)] at all
  exact absurd all (by decide)

end ServicesFramework.Tun
