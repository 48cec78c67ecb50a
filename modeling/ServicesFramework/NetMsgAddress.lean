import ServicesFramework.NetMsgFlow
import ServicesFramework.SettingsText

namespace ServicesFramework

namespace Ch

def isodigit (c : Ch) : Bool := decide (48 ≤ c.val ∧ c.val ≤ 55)

def isxdigit (c : Ch) : Bool :=
  isdigit c || decide (97 ≤ c.val ∧ c.val ≤ 102) || decide (65 ≤ c.val ∧ c.val ≤ 70)

/-- `x` or `X`. -/
def isx (c : Ch) : Bool := decide (c.val = 120 ∨ c.val = 88)

/-- The value of a digit, in any base up to 16. -/
def digitVal (c : Ch) : Nat :=
  if isdigit c then c.val - 48 else if 97 ≤ c.val then c.val - 87 else c.val - 55

end Ch

namespace Util

open Settings

/-- `strtoul` with base 0, of a text that begins with a digit: the value, and what follows the
number. `0x` begins a hexadecimal number only where a digit follows it. -/
def strtoul (text : Str) : Nat × Str :=
  let (base, digit, number) : Nat × (Ch → Bool) × Str :=
    if text.head? = some Ch.zero then
      if text[1]?.any Ch.isx ∧ text[2]?.any Ch.isxdigit then (16, Ch.isxdigit, text.drop 2)
      else (8, Ch.isodigit, text)
    else (10, Ch.isdigit, text)
  ((number.takeWhile digit).foldl (fun n c => base * n + c.digitVal) 0, number.dropWhile digit)

/-- The loop of `inet_aton`, with the number of dots it still allows: the bytes before the last
dot, the number behind it, and what follows. -/
def collect (dots : Nat) (text : Str) : Option (List Nat × Nat × Str) :=
  match text.head? with
  | none => none
  | some c =>
    if !Ch.isdigit c then none
    else
      let (val, rest) := strtoul text
      if val > 0xffffffff then none
      else if rest.head? = some Ch.dot then
        match dots with
        | 0 => none
        | dots + 1 => if val > 0xff then none else (collect dots rest.tail).map fun (bytes, last) => (val :: bytes, last)
      else some ([], val, rest)

def htonl (val : Nat) : Nat :=
  val / 0x1000000 % 0x100 + 0x100 * (val / 0x10000 % 0x100) + 0x10000 * (val / 0x100 % 0x100) + 0x1000000 * (val % 0x100)

/-- `inet_aton`: the last number fills the bytes that are left, and only blanks may end the
number. A C string ends at the first NUL. -/
def inetAton (ip : Str) : Option UInt32 :=
  (collect 3 (ip.takeWhile (·.val ≠ 0))).bind fun (bytes, val, rest) =>
    if rest.head?.any fun c => !Ch.isspace c then none
    else if val > 0xffffffff / 0x100 ^ bytes.length then none
    else some (UInt32.ofNat (bytes.foldr (fun b word => b + 0x100 * word) 0 ||| htonl val))

/-- `IpStringToInt`, which does not look at the result of `inet_aton`; `uninit` is what lies in
its local variable. -/
def ipStringToInt (uninit : UInt32) (ip : Str) : UInt32 := (inetAton ip).getD uninit

/-- `IntToIpString`. -/
def intToIpString (value : UInt32) : Str := NetworkMsg.inetNtoa value

theorem printNat_head {n : Nat} (positive : n ≠ 0) : (printNat n).head? ≠ some Ch.zero := by
  unfold printNat
  rw [if_neg positive]
  intro zero
  rw [List.head?_map, List.head?_reverse] at zero
  obtain ⟨d, last, same⟩ := Option.map_eq_some_iff.mp zero
  have nonempty : Nat.digits 10 n ≠ [] := Nat.digits_ne_nil_iff_ne_zero.mpr positive
  have leading := Nat.getLast_digit_ne_zero 10 positive
  rw [List.getLast?_eq_some_getLast nonempty, Option.some.injEq] at last
  rw [last] at leading
  have small : d < 10 := Nat.digits_lt_base (by decide) (last ▸ List.getLast_mem nonempty)
  interval_cases d <;> simp_all [Ch.zero]

/-- Where a printed number can end. -/
def Ends (rest : Str) : Prop := rest = [] ∨ rest.head? = some Ch.dot

theorem digitVal_printNat (n : Nat) : (printNat n).foldl (fun n c => 10 * n + c.digitVal) 0 = n := by
  have same : (printNat n).foldl (fun n c => 10 * n + c.digitVal) 0 =
      (printNat n).foldl (fun n c => 10 * n + (c.val - 48)) 0 := by
    refine List.foldl_ext _ _ _ fun k c member => ?_
    rw [Ch.digitVal, if_pos (printNat_isdigit n c member)]
  rw [same, foldl_printNat]

theorem takeWhile_ends {rest : Str} (ends : Ends rest) {digit : Ch → Bool} (dot : digit Ch.dot = false) :
    rest.takeWhile digit = [] ∧ rest.dropWhile digit = rest := by
  cases rest with
  | nil => exact ⟨rfl, rfl⟩
  | cons c rest =>
    rcases ends with none | first
    · cases none
    · cases Option.some.inj first
      simp [dot]

theorem strtoul_zero {rest : Str} (ends : Ends rest) : strtoul (Ch.zero :: rest) = (0, rest) := by
  obtain ⟨none, all⟩ := takeWhile_ends ends (rfl : Ch.isodigit Ch.dot = false)
  have decimal : rest[0]?.any Ch.isx = false := by
    rw [← List.head?_eq_getElem?]
    rcases ends with empty | dotted
    · rw [empty]
      rfl
    · rw [dotted]
      rfl
  have octal : Ch.isodigit Ch.zero = true := rfl
  have value : Ch.zero.digitVal = 0 := rfl
  simp [strtoul, decimal, octal, none, all, value]

/-- `strtoul` reads back a printed number: only 0 is printed with a leading zero. -/
theorem strtoul_printNat (n : Nat) {rest : Str} (ends : Ends rest) : strtoul (printNat n ++ rest) = (n, rest) := by
  by_cases zero : n = 0
  · subst n
    exact strtoul_zero ends
  · obtain ⟨none, all⟩ := takeWhile_ends ends (rfl : Ch.isdigit Ch.dot = false)
    have leading : (printNat n ++ rest).head? ≠ some Ch.zero := by
      rw [List.head?_append_of_ne_nil _ (printNat_ne_nil n)]
      exact printNat_head zero
    simp only [strtoul, if_neg leading]
    rw [List.takeWhile_append_of_pos (printNat_isdigit n), List.dropWhile_append_of_pos (printNat_isdigit n), none, all,
      List.append_nil, digitVal_printNat]

theorem printNat_first (n : Nat) (rest : Str) : ∃ c, (printNat n ++ rest).head? = some c ∧ Ch.isdigit c = true := by
  obtain ⟨c, more, shape⟩ := List.exists_cons_of_ne_nil (printNat_ne_nil n)
  refine ⟨c, by rw [shape]; rfl, printNat_isdigit n c ?_⟩
  rw [shape]
  exact List.mem_cons_self

/-- A byte and a dot, where one is allowed. -/
theorem collect_byte {n dots : Nat} (byte : n < 0x100) (rest : Str) :
    collect (dots + 1) (printNat n ++ Ch.dot :: rest) = (collect dots rest).map fun (bytes, last) => (n :: bytes, last) := by
  obtain ⟨c, first, digit⟩ := printNat_first n (Ch.dot :: rest)
  have small : ¬ n > 0xffffffff := by omega
  have fits : ¬ n > 0xff := by omega
  have read : strtoul (printNat n ++ Ch.dot :: rest) = (n, Ch.dot :: rest) := strtoul_printNat n (.inr rfl)
  rw [collect, first]
  simp [digit, read, small, fits]

theorem collect_last {n : Nat} (dots : Nat) (byte : n < 0x100) : collect dots (printNat n) = some ([], n, []) := by
  obtain ⟨c, first, digit⟩ := printNat_first n []
  have read : strtoul (printNat n) = (n, []) := by
    have whole := strtoul_printNat n (.inl rfl)
    rwa [List.append_nil] at whole
  have small : ¬ n > 0xffffffff := by omega
  rw [List.append_nil] at first
  rw [collect.eq_def, first]
  simp [digit, read, small]

theorem inetNtoa_no_nul (addr : UInt32) : (NetworkMsg.inetNtoa addr).takeWhile (·.val ≠ 0) = NetworkMsg.inetNtoa addr := by
  refine List.takeWhile_eq_self_iff.mpr fun c member => ?_
  rw [decide_eq_true_iff]
  intro nul
  cases Fin.val_eq_zero_iff.mp nul
  exact NetworkMsg.notMem_inetNtoa rfl (by decide) addr member

/-- `inet_aton` undoes `inet_ntoa`. -/
theorem inetAton_inetNtoa (addr : UInt32) : inetAton (NetworkMsg.inetNtoa addr) = some addr := by
  have bound := addr.toNat_lt
  have read : collect 3 (NetworkMsg.inetNtoa addr) =
      some ([addr.toNat % 0x100, addr.toNat / 0x100 % 0x100, addr.toNat / 0x10000 % 0x100], addr.toNat / 0x1000000, []) := by
    have text : NetworkMsg.inetNtoa addr = printNat (addr.toNat % 0x100) ++ Ch.dot :: (printNat (addr.toNat / 0x100 % 0x100) ++
        Ch.dot :: (printNat (addr.toNat / 0x10000 % 0x100) ++ Ch.dot :: printNat (addr.toNat / 0x1000000))) := by
      simp [NetworkMsg.inetNtoa]
    rw [text, collect_byte (by omega), collect_byte (by omega), collect_byte (by omega), collect_last 0 (by omega)]
    rfl
  have word : addr.toNat % 0x100 + 0x100 * (addr.toNat / 0x100 % 0x100 + 0x100 * (addr.toNat / 0x10000 % 0x100)) <
      2 ^ 24 := by omega
  have last : htonl (addr.toNat / 0x1000000) = 2 ^ 24 * (addr.toNat / 0x1000000) := by
    unfold htonl
    omega
  have fits : ¬ addr.toNat / 0x1000000 > 0xff := by omega
  rw [inetAton, inetNtoa_no_nul, read]
  simp only [Option.bind_some, List.head?_nil, Option.any_none, Bool.false_eq_true, if_false, List.length_cons,
    List.length_nil, List.foldr_cons, List.foldr_nil, last]
  have disjoint : ∀ w, w < 2 ^ 24 → w ||| 2 ^ 24 * (addr.toNat / 0x1000000) = 2 ^ 24 * (addr.toNat / 0x1000000) + w := by
    intro w small
    rw [Nat.two_pow_add_eq_or_of_lt small, Nat.or_comm]
  rw [if_neg (by norm_num; omega), Nat.mul_zero, Nat.add_zero, disjoint _ word]
  have whole : 2 ^ 24 * (addr.toNat / 0x1000000) +
      (addr.toNat % 0x100 + 0x100 * (addr.toNat / 0x100 % 0x100 + 0x100 * (addr.toNat / 0x10000 % 0x100))) = addr.toNat := by
    omega
  rw [whole, UInt32.ofNat_toNat]

/-- `std::stoi` of a port. -/
theorem stoi_port (port : UInt16) : stoi (printNat port.toNat) = some (Int32.ofNat port.toNat) := by
  have bound := port.toNat_lt
  have value : (Int32.ofNat port.toNat).toInt = port.toNat := Int32.toInt_ofNat_of_lt (by omega)
  have printed : printInt (Int32.ofNat port.toNat) = printNat port.toNat := by
    rw [printInt, value, if_neg (by omega)]
    rfl
  rw [← printed, stoi_printInt]

end Util

namespace NetworkMsg

open Settings Util Tun

theorem split_flowText (srcIp dstIp : UInt32) (srcPort dstPort : UInt16) :
    split (flowText srcIp dstIp srcPort dstPort) colon = some (flowParts srcIp dstIp srcPort dstPort) := by
  have nonempty : flowText srcIp dstIp srcPort dstPort ≠ [] := by simp [flowText, colon]
  rw [colon, split_singleton Ch.colon nonempty, flowText_eq,
    List.splitOn_intercalate Ch.colon (colon_notMem_flowParts _ _ _ _) (List.cons_ne_nil _ _)]

/-- The flow index can be taken apart again: for every IPv4 packet `split` at the colons gives
four parts, from which `IpStringToInt` and `Stoi` make the addresses and the ports that `decode`
has found; the first two are the address strings of the message, which `IntToIpString` makes too. -/
theorem flow_index_reads_back (packet : List Octet) (past : Nat → Octet) (fresh : NetworkMsg) (uninit : UInt32)
    (v4 : (isIPv4 packet.length).run (begin packet past) = true) :
    ∃ msg src dst sport dport, (decode packet.length fresh).run (begin packet past) = msg ∧
      split msg.flowindex colon = some [src, dst, sport, dport] ∧ msg.srcIpStr = src ∧ msg.dstIpStr = dst ∧
      ipStringToInt uninit src = msg.srcIp ∧ ipStringToInt uninit dst = msg.dstIp ∧
      intToIpString msg.srcIp = src ∧ intToIpString msg.dstIp = dst ∧
      stoi sport = some (Int32.ofNat msg.srcPort.toNat) ∧ stoi dport = some (Int32.ofNat msg.dstPort.toNat) := by
  have address (addr : UInt32) : ipStringToInt uninit (inetNtoa addr) = addr := by
    rw [ipStringToInt, inetAton_inetNtoa, Option.getD_some]
  rw [run_decode v4]
  refine ⟨_, _, _, _, _, rfl, ?_, rfl, rfl, address _, address _, rfl, rfl, stoi_port _, stoi_port _⟩
  exact split_flowText _ _ _ _

theorem flow_index_reads_back_udp :
    ∃ msg src dst sport dport,
      (decode udpPacket.length ⟨0, 0, [], [], [], 0, 0, 0⟩).run (begin udpPacket fun _ => 0) = msg ∧
        split msg.flowindex colon = some [src, dst, sport, dport] ∧ ipStringToInt 7 src = msg.srcIp := by
  obtain ⟨msg, src, dst, sport, dport, decoded, parts, _, _, source, _⟩ :=
    flow_index_reads_back udpPacket (fun _ => 0) ⟨0, 0, [], [], [], 0, 0, 0⟩ 7 (by decide)
  exact ⟨msg, src, dst, sport, dport, decoded, parts, source⟩

end NetworkMsg

end ServicesFramework
