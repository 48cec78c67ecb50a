import ServicesFramework.DuplexRecv
import ServicesFramework.Lib.Potential

namespace ServicesFramework

open Loop Machine

namespace NodeDuplex

/-- The side of a duplex node that receives: the `FDRecv` it overrides, the size of the message
that `FDRecv` reads into, and which of the bytes it has read it dispatches. -/
structure Receiver (δ : Type*) where
  fdRecv : Nat → Option (List Octet) → Int × Option δ
  size : Nat
  accepts : List Octet → Bool
  bytes : δ → List Octet
  passes : PassesFailures fdRecv
  silent : ∀ n, (fdRecv n none).2 = none
  dispatches : ∀ n received,
    (fdRecv n (some received)).2.map bytes = if accepts received then some received else none

/-- A UDP node dispatches every datagram that is not empty. -/
def Receiver.udp (size : Nat) : Receiver (List Octet) where
  fdRecv _ := Udp.fdRecv
  size := size
  accepts received := 0 < received.length
  bytes := id
  passes := udp_passesFailures
  silent _ := rfl
  dispatches n received := by
    unfold Udp.fdRecv
    by_cases empty : 0 < received.length
    · simp [empty]
    · simp [empty]

/-- The packets that `IsIPv4` lets through. -/
def isIPv4Packet (received : List Octet) : Bool :=
  NetworkMsg.minIpHeaderLen ≤ received.length ∧ 0x4 = (received.headD 0).toNat / 16

theorem isIPv4_begin (received : List Octet) (past : Nat → Octet) :
    (NetworkMsg.isIPv4 received.length).run (Tun.begin received past) = isIPv4Packet received := by
  unfold NetworkMsg.isIPv4 isIPv4Packet
  by_cases short : received.length < NetworkMsg.minIpHeaderLen
  · simp [short]
  · cases received with
    | nil => exact absurd (by decide) short
    | cons first rest =>
      have long : NetworkMsg.minIpHeaderLen ≤ rest.length + 1 := Nat.not_lt.mp short
      rw [if_neg short]
      simp [long, NetworkMsg.ipV, Tun.begin]

/-- A TUN node dispatches every IPv4 packet. -/
def Receiver.tun (fresh : Nat → NetworkMsg) (past : Nat → Nat → Octet) (size : Nat) :
    Receiver (List Octet × NetworkMsg) where
  fdRecv n := Tun.fdRecv (fresh n) (past n)
  size := size
  accepts := isIPv4Packet
  bytes := Prod.fst
  passes := tun_passesFailures fresh past
  silent _ := rfl
  dispatches n received := by
    unfold Tun.fdRecv
    dsimp only
    rw [isIPv4_begin]
    by_cases packet : isIPv4Packet received = true
    · simp [packet]
    · simp [packet]

/-- A duplex node whose descriptor the poller watches with `EPOLLIN | EPOLLET`, the kernel's side
and that of the poller thread. `ready` is the edge that `epoll_wait` has not reported yet, and
`reported` the events of a response whose callback has still to be called; `calls` counts the calls
of `FDRecv` in the callbacks that have ended, and `dispatched` is what those have dispatched.
`arrived` only records. -/
structure Reception (δ : Type*) where
  socket : List (List Octet)
  registered : Bool
  ready : Bool
  reported : Option UInt32
  receiving : Option (Receiving δ)
  calls : Nat
  dispatched : List δ
  arrived : List (List Octet)

/-- `arrive` and `alarm` are the kernel's: a datagram, or a wake-up without one (an error on the
socket). The others are steps of the poller thread; a call of `FDRecv` may fail although there is
something to read, with an `errno` that does not end the loop. -/
inductive ReceptionAct
  | arrive (datagram : List Octet)
  | alarm
  | epollCtl
  | epollReturn (events : UInt32)
  | callback (errno : Int)
  | fdRecv (failure : Option Int)
  deriving DecidableEq

/-- The steps by which the poller thread comes closer to waiting again. -/
def ReceptionAct.advances : ReceptionAct → Bool
  | .epollReturn _ | .callback _ | .fdRecv none => true
  | .arrive _ | .alarm | .epollCtl | .fdRecv (some _) => false

namespace Reception

variable {δ : Type*}

/-- `Init` has succeeded, and nothing has arrived. -/
def start : Reception δ := ⟨[], false, false, none, none, 0, [], []⟩

/-- What `read` or `recvfrom` comes to, and what it leaves in the socket: a datagram is cut to the
size of the message. -/
def receive (size : Nat) (s : Reception δ) : Option Int → Option (Reading × List (List Octet))
  | some errno => if errno ≠ eagain ∧ errno ≠ ewouldblock then some (.error errno, s.socket) else none
  | none =>
    match s.socket with
    | [] => some (.error eagain, [])
    | datagram :: rest => some (.ok (datagram.take size), rest)

def step (node : Receiver δ) (s : Reception δ) : ReceptionAct → Option (Reception δ)
  | .arrive datagram =>
    some { s with
      socket := s.socket ++ [datagram]
      ready := s.ready || s.registered
      arrived := s.arrived ++ [datagram] }
  | .alarm => some { s with ready := s.ready || s.registered }
  | .epollCtl =>
    -- A descriptor that is added with something to read is ready at once.
    if s.reported = none ∧ s.receiving.isNone then
      some { s with registered := true, ready := s.ready || !s.socket.isEmpty }
    else none
  | .epollReturn events =>
    -- The events are those of the moment at which the edge is reported.
    if s.ready ∧ s.reported = none ∧ s.receiving.isNone ∧ (s.socket ≠ [] → events &&& epollin ≠ 0) then
      some { s with ready := false, reported := some events }
    else none
  | .callback errno =>
    s.reported.map fun events =>
      if events &&& epollin ≠ 0 then { s with reported := none, receiving := some ⟨errno, s.calls, []⟩ }
      else { s with reported := none }
  | .fdRecv failure =>
    s.receiving.bind fun self =>
      (s.receive node.size failure).map fun (reading, socket) =>
        match recvLoop node.fdRecv (fun _ => reading) self with
        | .again next => { s with socket, receiving := some next }
        | .done dispatched =>
          { s with socket, receiving := none, calls := self.calls + 1, dispatched := s.dispatched ++ dispatched }

/-- What has been dispatched, the callback that is running included. -/
def delivered (s : Reception δ) : List δ :=
  match s.receiving with
  | none => s.dispatched
  | some self => s.dispatched ++ self.dispatched

end Reception

section Turns

variable {δ : Type*} (node : Receiver δ) (self : Receiving δ)

/-- A turn that reads something goes on, with what `FDRecv` dispatches of it. -/
theorem recvLoop_received (received : List Octet) :
    recvLoop node.fdRecv (fun _ => .ok received) self =
      .again ⟨self.errno, self.calls + 1, self.dispatched ++ (node.fdRecv self.calls (some received)).2.toList⟩ := by
  have fine : ¬ (node.fdRecv self.calls (some received)).1 < 0 := by
    rw [node.passes]
    simp
  simp [recvLoop, Except.toOption, fine]

theorem recvLoop_failed {errno : Int} (other : errno ≠ eagain ∧ errno ≠ ewouldblock) :
    recvLoop node.fdRecv (fun _ => .error errno) self = .again ⟨errno, self.calls + 1, self.dispatched⟩ := by
  simp [recvLoop, Except.toOption, node.silent, other]

theorem recvLoop_blocked : recvLoop node.fdRecv (fun _ => .error eagain) self = .done self.dispatched := by
  have failed : (node.fdRecv self.calls none).1 < 0 := (node.passes _ _).mpr rfl
  simp [recvLoop, Except.toOption, node.silent, failed]

end Turns

namespace Reception

variable {δ : Type*} {node : Receiver δ} {s u : Reception δ} {a : ReceptionAct} {acts : List ReceptionAct}

/-- What a step can do. -/
inductive Effect (node : Receiver δ) (s : Reception δ) : ReceptionAct → Reception δ → Prop
  | arrive (datagram : List Octet) :
    Effect node s (.arrive datagram)
      { s with socket := s.socket ++ [datagram], ready := s.ready || s.registered, arrived := s.arrived ++ [datagram] }
  | alarm : Effect node s .alarm { s with ready := s.ready || s.registered }
  | epollCtl (free : s.reported = none) (idle : s.receiving = none) :
    Effect node s .epollCtl { s with registered := true, ready := s.ready || !s.socket.isEmpty }
  | epollReturn (events : UInt32) (edge : s.ready = true) (free : s.reported = none) (idle : s.receiving = none)
      (input : s.socket ≠ [] → events &&& epollin ≠ 0) :
    Effect node s (.epollReturn events) { s with ready := false, reported := some events }
  | called (errno : Int) (events : UInt32) (response : s.reported = some events) (input : events &&& epollin ≠ 0) :
    Effect node s (.callback errno) { s with reported := none, receiving := some ⟨errno, s.calls, []⟩ }
  | passed (errno : Int) (events : UInt32) (response : s.reported = some events) (other : ¬ events &&& epollin ≠ 0) :
    Effect node s (.callback errno) { s with reported := none }
  | received (self : Receiving δ) (running : s.receiving = some self) (datagram : List Octet)
      (rest : List (List Octet)) (queued : s.socket = datagram :: rest) :
    Effect node s (.fdRecv none)
      { s with
        socket := rest
        receiving := some ⟨self.errno, self.calls + 1,
          self.dispatched ++ (node.fdRecv self.calls (some (datagram.take node.size))).2.toList⟩ }
  | failed (self : Receiving δ) (running : s.receiving = some self) (errno : Int) :
    Effect node s (.fdRecv (some errno)) { s with receiving := some ⟨errno, self.calls + 1, self.dispatched⟩ }
  | drained (self : Receiving δ) (running : s.receiving = some self) (empty : s.socket = []) :
    Effect node s (.fdRecv none)
      { s with
        socket := []
        receiving := none
        calls := self.calls + 1
        dispatched := s.dispatched ++ self.dispatched }

/-- A turn of the loop in the callback. -/
theorem fdRecv_effect {failure : Option Int} (next : s.step node (.fdRecv failure) = some u) :
    Effect node s (.fdRecv failure) u := by
  obtain ⟨self, running, reads⟩ := Option.bind_eq_some_iff.mp next
  obtain ⟨⟨reading, socket⟩, taken, rfl⟩ := Option.map_eq_some_iff.mp reads
  cases failure with
  | some errno =>
    simp only [receive] at taken
    split_ifs at taken with other
    cases Option.some.inj taken
    dsimp only
    rw [recvLoop_failed node self other]
    exact .failed self running errno
  | none =>
    unfold receive at taken
    cases queued : s.socket with
    | nil =>
      simp only [queued, Option.some.injEq, Prod.mk.injEq] at taken
      obtain ⟨rfl, rfl⟩ := taken
      dsimp only
      rw [recvLoop_blocked]
      exact .drained self running queued
    | cons datagram rest =>
      simp only [queued, Option.some.injEq, Prod.mk.injEq] at taken
      obtain ⟨rfl, rfl⟩ := taken
      dsimp only
      rw [recvLoop_received]
      exact .received self running datagram rest queued

theorem effect_of_step (next : s.step node a = some u) : Effect node s a u := by
  cases a with
  | arrive datagram =>
    cases Option.some.inj next
    exact .arrive datagram
  | alarm =>
    cases Option.some.inj next
    exact .alarm
  | epollCtl =>
    simp only [step, Option.isNone_iff_eq_none] at next
    split_ifs at next with allowed
    cases Option.some.inj next
    exact .epollCtl allowed.1 allowed.2
  | epollReturn events =>
    simp only [step, Option.isNone_iff_eq_none] at next
    split_ifs at next with allowed
    cases Option.some.inj next
    obtain ⟨edge, free, idle, input⟩ := allowed
    exact .epollReturn events edge free idle input
  | callback errno =>
    obtain ⟨events, response, rfl⟩ := Option.map_eq_some_iff.mp next
    split_ifs with input
    · exact .called errno events response input
    · exact .passed errno events response input
  | fdRecv failure => exact fdRecv_effect next

/-- The parts of the datagrams that a node dispatches. -/
def wanted (node : Receiver δ) (datagrams : List (List Octet)) : List (List Octet) :=
  (datagrams.map (List.take node.size)).filter node.accepts

theorem wanted_snoc (node : Receiver δ) (n : Nat) (datagrams : List (List Octet)) (datagram : List Octet) :
    wanted node (datagrams ++ [datagram]) = wanted node datagrams ++
      ((node.fdRecv n (some (datagram.take node.size))).2.map node.bytes).toList := by
  rw [node.dispatches, wanted, List.map_append, List.filter_append]
  by_cases accepted : node.accepts (datagram.take node.size) = true
  · simp [wanted, accepted]
  · simp [wanted, accepted]

/-- What holds between the steps: the datagrams that have left the socket have been dispatched, and
while others are in it the poller thread is not left to wait. -/
structure Watched (node : Receiver δ) (s : Reception δ) : Prop where
  taken : ∃ taken, s.arrived = taken ++ s.socket ∧ s.delivered.map node.bytes = wanted node taken
  noticed : s.registered = true → s.socket ≠ [] →
    s.ready = true ∨ (∃ events, s.reported = some events ∧ events &&& epollin ≠ 0) ∨ s.receiving.isSome
  apart : s.reported.isSome → s.receiving = none

/-- No step loses a datagram, dispatches it twice or reorders it. -/
theorem Watched.taken_step (old : s.Watched node) (next : Effect node s a u) :
    ∃ taken, u.arrived = taken ++ u.socket ∧ u.delivered.map node.bytes = wanted node taken := by
  obtain ⟨taken, split, sent⟩ := old.taken
  cases next with
  | arrive datagram =>
    refine ⟨taken, ?_, sent⟩
    rw [split, List.append_assoc]
  | alarm | epollCtl | epollReturn | passed => exact ⟨taken, split, sent⟩
  | called errno events response =>
    have idle := old.apart (by simp [response])
    refine ⟨taken, split, ?_⟩
    simpa [delivered, idle] using sent
  | received self running datagram rest queued =>
    refine ⟨taken ++ [datagram], by rw [split, queued]; simp, ?_⟩
    rw [wanted_snoc node self.calls, ← sent]
    simp only [delivered, running, List.map_append, List.append_assoc]
    cases (node.fdRecv self.calls (some (datagram.take node.size))).2 <;> simp
  | failed self running errno =>
    refine ⟨taken, split, ?_⟩
    simpa [delivered, running] using sent
  | drained self running empty =>
    refine ⟨taken, by rw [split, empty], ?_⟩
    simpa [delivered, running] using sent

/-- The poller thread is never left to wait with something in the socket: the callback ends only
on an empty socket, and whatever arrives after that is a new edge. -/
theorem Watched.noticed_step (old : s.Watched node) (next : Effect node s a u) (watched : u.registered = true)
    (queued : u.socket ≠ []) :
    u.ready = true ∨ (∃ events, u.reported = some events ∧ events &&& epollin ≠ 0) ∨ u.receiving.isSome := by
  cases next with
  | arrive datagram =>
    left
    simp [show s.registered = true from watched]
  | alarm =>
    left
    simp [show s.registered = true from watched]
  | epollCtl =>
    left
    simpa using .inr queued
  | epollReturn events edge free idle input => exact .inr (.inl ⟨events, rfl, input queued⟩)
  | called | received | failed => exact .inr (.inr rfl)
  | passed errno events response other =>
    rcases old.noticed watched queued with edge | ⟨same, seen, input⟩ | running
    · exact .inl edge
    · rw [response] at seen
      cases seen
      exact absurd input other
    · exact .inr (.inr running)
  | drained => exact absurd rfl queued

theorem Watched.step (old : s.Watched node) (next : s.step node a = some u) : u.Watched node where
  taken := old.taken_step (effect_of_step next)
  noticed := old.noticed_step (effect_of_step next)
  apart := by
    cases effect_of_step next with
    | arrive | alarm | epollCtl => exact old.apart
    | epollReturn events edge free idle => exact fun _ => idle
    | called | passed => simp
    | received self running | failed self running =>
      intro response
      rw [old.apart response] at running
      cases running
    | drained => exact fun _ => rfl

/-- What the poller thread has still to do: an edge costs the return of `epoll_wait`, the call of
the callback and its last turn. -/
def budget (s : Reception δ) : Nat :=
  s.socket.length + 3 * s.ready.toNat + 2 * s.reported.isSome.toNat + s.receiving.isSome.toNat

/-- With something in the socket, the poller thread has a step to take. -/
theorem Watched.enabled (kept : s.Watched node) (watched : s.registered = true) (queued : s.socket ≠ []) :
    ∃ a, a.advances = true ∧ (s.step node a).isSome := by
  cases running : s.receiving with
  | some self =>
    refine ⟨.fdRecv none, rfl, ?_⟩
    obtain ⟨datagram, rest, socket⟩ := List.exists_cons_of_ne_nil queued
    simp [Reception.step, running, receive, socket]
  | none =>
    cases response : s.reported with
    | some events => exact ⟨.callback 0, rfl, by simp [Reception.step, response]⟩
    | none =>
      refine ⟨.epollReturn epollin, rfl, ?_⟩
      rcases kept.noticed watched queued with edge | ⟨events, seen, _⟩ | called
      · have input : epollin ≠ 0 := by decide
        simp [Reception.step, edge, response, running, input]
      · rw [response] at seen
        cases seen
      · rw [running] at called
        cases called

end Reception

end NodeDuplex

end ServicesFramework
