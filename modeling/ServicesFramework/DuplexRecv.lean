import ServicesFramework.NetMsg

namespace ServicesFramework

open Loop

/-- What one `read` or `recvfrom` on a non-blocking descriptor comes to: the bytes it has put
at the start of the buffer, or the `errno` of its failure. -/
abbrev Reading := Except Int (List Octet)

/-- `EAGAIN`. -/
def eagain : Int := 11

/-- `EWOULDBLOCK`, which Linux defines as `EAGAIN`. -/
def ewouldblock : Int := 11

/-- `EPOLLIN`. -/
def epollin : UInt32 := 0x001

/-- `Udp::FDRecv`, where `recvfrom` has received these bytes or has failed: the value
returned, and what is dispatched. `decode` belongs to a message that is not part of the
repository. -/
def Udp.fdRecv : Option (List Octet) → Int × Option (List Octet)
  | none => (-1, none)
  | some received => (received.length, if 0 < received.length then some received else none)

namespace NodeDuplex

variable {δ : Type*}

/-- The thread in the callback that `RegisterToPoller` installs: its `errno`, the calls of
`FDRecv` so far, and what they have dispatched. -/
structure Receiving (δ : Type*) where
  errno : Int
  calls : Nat
  dispatched : List δ

/-- One turn of the loop in the callback. A successful call leaves `errno` as it is; `fdRecv`
has the number of the call, as the memory behind a message may be different each time. -/
def recvLoop (fdRecv : Nat → Option (List Octet) → Int × Option δ) (reads : Nat → Reading) (self : Receiving δ) :
    Iter (Receiving δ) (List δ) :=
  let (ret, msg) := fdRecv self.calls (reads self.calls).toOption
  let errno := match reads self.calls with
    | .error errno => errno
    | .ok _ => self.errno
  let dispatched := self.dispatched ++ msg.toList
  if ret < 0 ∧ (errno = eagain ∨ errno = ewouldblock) then .done dispatched
  else .again ⟨errno, self.calls + 1, dispatched⟩

/-- The callback of `RegisterToPoller`, within `fuel` turns of its loop. -/
def callback (fdRecv : Nat → Option (List Octet) → Int × Option δ) (reads : Nat → Reading) (errno : Int)
    (events : UInt32) (fuel : Nat) : Option (List δ) :=
  if events &&& epollin ≠ 0 then exec (recvLoop fdRecv reads) fuel ⟨errno, 0, []⟩ else some []

/-- `FDRecv` returns a negative value exactly where its system call has failed. -/
def PassesFailures (fdRecv : Nat → Option (List Octet) → Int × Option δ) : Prop :=
  ∀ n received, (fdRecv n received).1 < 0 ↔ received = none

theorem udp_passesFailures : PassesFailures fun _ => Udp.fdRecv := by
  intro n received
  cases received with
  | none => simp [Udp.fdRecv]
  | some bytes => simp [Udp.fdRecv]

theorem tun_passesFailures (fresh : Nat → NetworkMsg) (past : Nat → Nat → Octet) :
    PassesFailures fun n => Tun.fdRecv (fresh n) (past n) := by
  intro n received
  cases received with
  | none => simp [Tun.fdRecv]
  | some bytes =>
    unfold Tun.fdRecv
    dsimp only
    split <;> simp

variable {fdRecv : Nat → Option (List Octet) → Int × Option δ} {reads : Nat → Reading} {self : Receiving δ}

end NodeDuplex

end ServicesFramework
