import Mathlib.Tactic
import ServicesFramework.Lib.Loop
import ServicesFramework.Msg

namespace ServicesFramework

namespace Tun

open Loop

/-- The memory behind `msg->begin()`: the bytes of the message, and after its end whatever
lies there. -/
def begin (msg : List Octet) (past : Nat → Octet) (i : Nat) : Octet :=
  msg.getD i (past i)

/-- `iph->ip_v`: the high nibble of the first header byte. -/
def ipV (data : Nat → Octet) (frameStart : Nat) : Nat :=
  (data frameStart).toNat / 16

/-- `ntohs(iph->ip_len)`: the big-endian length at bytes 2 and 3 of the header. -/
def ipLen (data : Nat → Octet) (frameStart : Nat) : Nat :=
  (data (frameStart + 2)).toNat * 256 + (data (frameStart + 3)).toNat

/-- The bytes that `write(fd_, frame_start, frame_size)` hands to the interface. -/
def frame (data : Nat → Octet) (frameStart frameSize : Nat) : List Octet :=
  (List.range frameSize).map fun i => data (frameStart + i)

/-- One pass of the loop in `Tun::FDWrite`: the offset of `frame_start` and the frames
written so far. A failed write is only logged, so its result is left out. A message is built
with an `int` length, so `size` is the exact value of `msg->size()`. -/
def frameLoop (data : Nat → Octet) (size : Nat) :
    Nat × List (List Octet) → Iter (Nat × List (List Octet)) (List (List Octet))
  | (frameStart, written) =>
    if data frameStart = 0 then .done written
    else if 4 ≠ ipV data frameStart ∧ 6 ≠ ipV data frameStart then .done written
    else if frameStart + ipLen data frameStart > size ∨ data frameStart = 0 then .done written
    else
      let frameSize := ipLen data frameStart
      let written := written ++ [frame data frameStart frameSize]
      let frameStart := frameStart + frameSize
      if size - frameStart ≤ 20 then .done written else .again (frameStart, written)

/-- `Tun::FDWrite`: its return value and the frames it wrote, within `fuel` passes. -/
def fdWrite (fuel : Nat) (msg : Option (List Octet)) (past : Nat → Octet) :
    Option (Int × List (List Octet)) :=
  match msg with
  | none => some (-1, [])
  | some msg =>
    (exec (frameLoop (begin msg past) msg.length) fuel (0, [])).map fun written => (msg.length, written)

/-- The call returns after writing exactly these frames, in this order. -/
def FdWrites (msg : List Octet) (past : Nat → Octet) (written : List (List Octet)) : Prop :=
  ∃ fuel ret, fdWrite fuel (some msg) past = some (ret, written)

/-- An IPv4 packet as the interface delivers it: version 4, and a total length that is its
own. -/
structure IPv4Packet (p : List Octet) : Prop where
  header : 20 ≤ p.length
  short : p.length ≤ 65535
  version : (p.getD 0 0).toNat / 16 = 4
  totalLength : (p.getD 2 0).toNat * 256 + (p.getD 3 0).toNat = p.length

end Tun

end ServicesFramework
