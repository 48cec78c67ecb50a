import ServicesFramework.Lib.Probe
import ServicesFramework.SettingsNumbers
import ServicesFramework.Tun

namespace ServicesFramework

/-- The fields that `NetworkMsg` adds to its message. -/
structure NetworkMsg where
  srcIp : UInt32
  dstIp : UInt32
  srcIpStr : Str
  dstIpStr : Str
  flowindex : Str
  srcPort : UInt16
  dstPort : UInt16
  protocol : UInt8
  deriving DecidableEq

namespace NetworkMsg

open Probe

/-- `colon`. -/
def colon : Str := [Ch.colon]

/-- `MIN_IPHEADER_LEN`. -/
def minIpHeaderLen : Nat := 20

/-- `IPPROTO_UDP`. -/
def ipProtoUdp : UInt8 := 17

/-- `IPPROTO_TCP`. -/
def ipProtoTcp : UInt8 := 6

/-- `ip_header->ip_v`. -/
def ipV : Probe Octet Nat := do
  let first ← cell 0
  return first.toNat / 16

/-- `ip_header->ip_hl`. -/
def ipHl : Probe Octet Nat := do
  let first ← cell 0
  return first.toNat % 16

/-- `ip_header->ip_p`. -/
def ipP : Probe Octet UInt8 := cell 9

/-- The `s_addr` of an address field: its four bytes as a little-endian machine loads them. -/
def sAddr (i : Nat) : Probe Octet UInt32 := do
  let a ← cell i
  let b ← cell (i + 1)
  let c ← cell (i + 2)
  let d ← cell (i + 3)
  return UInt32.ofNat (a.toNat + 0x100 * b.toNat + 0x10000 * c.toNat + 0x1000000 * d.toNat)

/-- `ip_header->ip_src.s_addr`. -/
def ipSrc : Probe Octet UInt32 := sAddr 12

/-- `ip_header->ip_dst.s_addr`. -/
def ipDst : Probe Octet UInt32 := sAddr 16

/-- `ntohs` of the 16-bit field at `i`. -/
def ntohs (i : Nat) : Probe Octet UInt16 := do
  let high ← cell i
  let low ← cell (i + 1)
  return UInt16.ofNat (0x100 * high.toNat + low.toNat)

/-- The `dest` and the `source` field of the `udphdr` or `tcphdr` behind the header, which lie at
the same places in both. -/
def ports : Probe Octet (UInt16 × UInt16) := do
  let dest ← ntohs ((← ipHl) * 4 + 2)
  let source ← ntohs ((← ipHl) * 4)
  return (dest, source)

/-- The branches of `decode` that set `dst_port_` and `src_port_`. -/
def decodePorts : Probe Octet (UInt16 × UInt16) := do
  let protocol ← ipP
  if protocol = ipProtoUdp then ports
  else if protocol = ipProtoTcp then ports
  -- ICMP
  else return (0, 0)

/-- `inet_ntoa`: the bytes of the address in the order in which they lie in memory. -/
def inetNtoa (addr : UInt32) : Str :=
  [Ch.dot].intercalate [Settings.printNat (addr.toNat % 0x100), Settings.printNat (addr.toNat / 0x100 % 0x100),
    Settings.printNat (addr.toNat / 0x10000 % 0x100), Settings.printNat (addr.toNat / 0x1000000)]

/-- `NetworkMsg::decode` of a message of this size. -/
def decode (size : Nat) (msg : NetworkMsg) : Probe Octet NetworkMsg := do
  if size < minIpHeaderLen then return msg
  if 0x4 ≠ (← ipV) then return msg
  let (dstPort, srcPort) ← decodePorts
  let protocol ← ipP
  let dstIp ← ipDst
  let srcIp ← ipSrc
  let srcIpStr := inetNtoa (← ipSrc)
  let dstIpStr := inetNtoa (← ipDst)
  let flowindex := srcIpStr ++ colon ++ dstIpStr ++ colon ++ Settings.printNat srcPort.toNat ++ colon ++
    Settings.printNat dstPort.toNat
  return { srcIp, dstIp, srcIpStr, dstIpStr, flowindex, srcPort, dstPort, protocol }

/-- `NetworkMsg::IsIPv4` of a message of this size. -/
def isIPv4 (size : Nat) : Probe Octet Bool := do
  if size < minIpHeaderLen then return false
  return 0x4 = (← ipV)

end NetworkMsg

/-- `Tun::FDRecv`, where `read` has put `received` at the start of the buffer and `past` lies
behind it, or has failed: the value returned, and the message dispatched. -/
def Tun.fdRecv (fresh : NetworkMsg) (past : Nat → Octet) :
    Option (List Octet) → Int × Option (List Octet × NetworkMsg)
  | none => (-1, none)
  | some received =>
    let data := begin received past
    let msg := (NetworkMsg.decode received.length fresh).run data
    if (NetworkMsg.isIPv4 received.length).run data then (received.length, some (received, msg)) else (0, none)

end ServicesFramework
