import ServicesFramework.Poller

namespace ServicesFramework

/-- What the poller calls: the callback of `Init`, which empties the pipe, or a client's. -/
inductive PollCallback (κ : Type*)
  | drainPipe
  | client (callback : κ)
  deriving DecidableEq, Repr

/-- A client has no way to name the callback of `Init`. -/
def PollRequest.ofClient {κ : Type*} (req : PollRequest κ) : PollRequest (PollCallback κ) :=
  ⟨req.fd, req.events, req.timeoutMs, req.callback.map .client⟩

/-- `interval_ms` of `Poll`: the difference of two `uint64_t` readings in nanoseconds, cast
to `int`. -/
def intervalMs (before after : UInt64) : Int :=
  let interval := Int.bmod ((after - before) / 1000000).toNat 0x100000000
  if interval = 0 then 1 else interval

/-- The range of `int`. -/
def FitsInt (x : Int) : Prop := -0x80000000 ≤ x ∧ x < 0x80000000

instance (x : Int) : Decidable (FitsInt x) := inferInstanceAs (Decidable (_ ∧ _))

/-- What `epoll_wait` reports: descriptors with their events, never an empty mask. -/
structure ReadyEvents where
  events : List (Int × UInt32)
  nonzero : ∀ item ∈ events, item.2 ≠ 0
  deriving DecidableEq, Repr

/-- `EPOLLIN` on one descriptor. -/
def ReadyEvents.input (fd : Int) : ReadyEvents := ⟨[(fd, 0x001)], by simp⟩

/-- The responses of one `Poll`: the event mask for each descriptor, 0 for a timeout. -/
abbrev ResponseMap := AList fun _ : Int => UInt32

/-- The body of the countdown loop: whether the request is due, and the request after it. -/
def PollRequest.countdown {κ : Type*} (req : PollRequest κ) (interval : Int) : Bool × PollRequest κ :=
  let left := if 0 < req.timeoutMs then max (req.timeoutMs - interval) 0 else req.timeoutMs
  if left = 0 then (true, { req with timeoutMs := -1 }) else (false, { req with timeoutMs := left })

namespace Poller

variable {κ : Type*}

/-- The countdown passes over a request while an operation on its descriptor is pending. -/
def skips (p : Poller κ) (req : PollRequest κ) : Bool := (p.ctrlParams.lookup req.fd).isSome

/-- A request after one turn of the countdown loop. -/
def counting (p : Poller κ) (interval : Int) (req : PollRequest κ) : PollRequest κ :=
  if p.skips req then req else (req.countdown interval).2

/-- The requests after the countdown section of `Poll`. -/
def countdown (p : Poller κ) (interval : Int) : Poller κ :=
  { p with requests :=
      ⟨p.requests.entries.map (.map id fun _ req => p.counting interval req), p.requests.nodupKeys.map₂ _ _⟩ }

/-- The descriptors for which the countdown section makes a response. -/
def due (p : Poller κ) (interval : Int) : List Int :=
  (p.requests.entries.filter fun item => !p.skips item.2 && (item.2.countdown interval).1).map Sigma.fst

/-- The descriptors whose timeout is running and not passed over. -/
def counted (p : Poller κ) : List Int :=
  (p.requests.entries.filter fun item => !p.skips item.2 && decide (0 ≤ item.2.timeoutMs)).map Sigma.fst

/-- The responses of `Poll`: what `epoll_wait` has reported replaces a timeout. -/
def responses (p : Poller κ) (interval : Int) (ready : ReadyEvents) : ResponseMap :=
  ready.events.foldl (fun map item => map.insert item.1 item.2)
    ((p.due interval).foldl (fun map fd => map.insert fd 0) ∅)

/-- No subtraction of the countdown overflows. -/
def CountdownFits (p : Poller κ) (interval : Int) : Prop :=
  ∀ item ∈ p.requests.entries, p.skips item.2 = false → 0 < item.2.timeoutMs →
    FitsInt (item.2.timeoutMs - interval)

instance (p : Poller κ) (interval : Int) : Decidable (p.CountdownFits interval) :=
  inferInstanceAs (Decidable (∀ item ∈ p.requests.entries, _))

/-- `kPollTimeoutMs` is 100. -/
def getTimeoutMs (p : Poller κ) : Int :=
  p.requests.entries.foldl (fun timeout item =>
    if 0 ≤ item.2.timeoutMs ∧ item.2.timeoutMs < timeout then item.2.timeoutMs else timeout) 100

/-- The delivery section found a request: it is disarmed. -/
def disarm (p : Poller κ) (fd : Int) (req : PollRequest κ) : Poller κ :=
  { p with requests := p.requests.insert fd { req with timeoutMs := -1 } }

end Poller

/-- Where the poller thread stands in `ThreadFunc`. `epollCtl` is the loop of `HandleChanges`
after the swap, `respond` the loop over the responses that are left, `drain` the callback of
the pipe, which runs under `poll_mutex_`. -/
inductive PollerPc
  | handleChanges
  | epollCtl
  | getTimeoutMs
  | poll (timeoutMs : Int)
  | epollWait (timeoutMs : Int) (before : UInt64)
  | countdown (interval : Int) (ready : ReadyEvents)
  | respond (responses : ResponseMap)
  | drain (responses : ResponseMap)

/-- On to the next response, or around the loop of `ThreadFunc`. -/
def PollerPc.after (responses : ResponseMap) : PollerPc :=
  if responses.keys = [] then .handleChanges else .respond responses

/-- The responses that are computed and not yet delivered. -/
def PollerPc.pending : PollerPc → ResponseMap
  | .respond responses => responses
  | .drain responses => responses
  | .handleChanges | .epollCtl | .getTimeoutMs | .poll _ | .epollWait _ _ | .countdown _ _ => ∅

/-- The poller holds `poll_mutex_` from one step to the next. -/
def PollerPc.locks : PollerPc → Bool
  | .drain _ => true
  | .handleChanges | .epollCtl | .getTimeoutMs | .poll _ | .epollWait _ _ | .countdown _ _ | .respond _ => false

/-- The poller swaps `ctrl_params_` before it waits again. -/
def PollerPc.willSwap : PollerPc → Bool
  | .handleChanges | .countdown _ _ | .respond _ | .drain _ => true
  | .epollCtl | .getTimeoutMs | .poll _ | .epollWait _ _ => false

/-- Where a call of `Register` or `Unregister` stands once its locked section is over: before
the try-lock of `Notify`, before its `write`, before it unlocks. -/
inductive CallPc
  | idle
  | notify
  | write
  | unlock
  deriving DecidableEq, Repr

/-- What has happened to the requests: successful calls, the passes that counted a request,
and the callbacks that were called. -/
inductive PollerEvent (κ : Type*)
  | register (req : PollRequest κ)
  | unregister (fd : Int)
  | counted (fd : Int) (interval : Int)
  | callback (fd : Int) (events : UInt32)
  deriving DecidableEq, Repr

/-- The poller with its thread, the threads that call it, and the bytes in its pipe. The last
field only records. -/
structure PollerLoop (κ ι : Type*) where
  system : PollerSystem (PollCallback κ)
  pc : PollerPc
  pipe : Nat
  pipeMutex : Option ι
  callers : ι → CallPc
  history : List (PollerEvent κ)

/-- The steps of the calling threads, and those of the poller thread. `epoll_wait` returns
when it likes, with any descriptors. -/
inductive PollerLoopAct (κ ι : Type*)
  | register (t : ι) (req : PollRequest κ)
  | unregister (t : ι) (req : PollRequest κ)
  | notify (t : ι)
  | write (t : ι)
  | unlock (t : ι)
  | handleChanges
  | epollCtl (fd : Int)
  | getTimeoutMs
  | epollWait (before : UInt64)
  | epollReturn (after : UInt64) (ready : ReadyEvents)
  | countdown
  | deliver (fd : Int)
  | read
  deriving DecidableEq, Repr

namespace PollerLoop

variable {κ ι : Type*}

def init (pipeFd : Int) : PollerLoop κ ι where
  system := .init pipeFd .drainPipe
  pc := .handleChanges
  pipe := 0
  pipeMutex := none
  callers _ := .idle
  history := []

def setPoller (s : PollerLoop κ ι) (poller : Poller (PollCallback κ)) : PollerLoop κ ι :=
  { s with system := { s.system with poller := poller } }

/-- `HandleChanges` up to its loop. -/
def handleChanges (s : PollerLoop κ ι) : Option (PollerLoop κ ι) :=
  if s.system.poller.ctrlParams.keys = [] then some { s with pc := .getTimeoutMs }
  else (s.system.step .swap).map fun system => { s with system := system, pc := .epollCtl }

def epollCtl (s : PollerLoop κ ι) (fd : Int) : Option (PollerLoop κ ι) :=
  (s.system.step (.epollCtl fd)).map fun system =>
    { s with system := system, pc := if system.localParams.keys = [] then .getTimeoutMs else .epollCtl }

/-- The countdown section, and the local loop over the reported events. An overflow of `int`
has no defined outcome. -/
def countdown (s : PollerLoop κ ι) (interval : Int) (ready : ReadyEvents) : Option (PollerLoop κ ι) :=
  if s.system.poller.CountdownFits interval then
    some { s.setPoller (s.system.poller.countdown interval) with
      pc := .after (s.system.poller.responses interval ready)
      history := s.history ++ s.system.poller.counted.map (.counted · interval) }
  else none

/-- One turn of the loop over the responses. -/
def deliver (s : PollerLoop κ ι) (fd : Int) (events : UInt32) (rest : ResponseMap) : PollerLoop κ ι :=
  match s.system.poller.requests.lookup fd with
  | none => { s with pc := .after rest }
  | some req =>
    { s.setPoller (s.system.poller.disarm fd req) with
      pc := if req.callback matches some .drainPipe then .drain rest else .after rest
      history := s.history ++ [.callback fd events] }

variable [DecidableEq ι]

def setCaller (s : PollerLoop κ ι) (t : ι) (pc : CallPc) : PollerLoop κ ι :=
  { s with callers := Function.update s.callers t pc }

/-- The try-lock of `Notify`. -/
def notify (s : PollerLoop κ ι) (t : ι) : PollerLoop κ ι :=
  match s.pipeMutex with
  | some _ => s.setCaller t .idle
  | none => { s.setCaller t .write with pipeMutex := some t }

/-- A step, for a pipe that holds `capacity` bytes. -/
def step (capacity : Nat) (s : PollerLoop κ ι) : PollerLoopAct κ ι → Option (PollerLoop κ ι)
  | .register t req =>
    if s.callers t = .idle ∧ s.pc.locks = false then
      (s.system.step (.register req.ofClient)).map fun system =>
        { s.setCaller t .notify with system := system, history := s.history ++ [.register req] }
    else none
  | .unregister t req =>
    if s.callers t = .idle ∧ s.pc.locks = false then
      (s.system.step (.unregister req.ofClient)).map fun system =>
        { s.setCaller t .notify with system := system, history := s.history ++ [.unregister req.fd] }
    else none
  | .notify t => if s.callers t = .notify then some (s.notify t) else none
  | .write t =>
    if s.callers t = .write then some { s.setCaller t .unlock with pipe := min (s.pipe + 1) capacity } else none
  | .unlock t => if s.callers t = .unlock then some { s.setCaller t .idle with pipeMutex := none } else none
  | .handleChanges =>
    match s.pc with
    | .handleChanges => s.handleChanges
    | _ => none
  | .epollCtl fd =>
    match s.pc with
    | .epollCtl => s.epollCtl fd
    | _ => none
  | .getTimeoutMs =>
    match s.pc with
    | .getTimeoutMs => some { s with pc := .poll s.system.poller.getTimeoutMs }
    | _ => none
  | .epollWait before =>
    match s.pc with
    | .poll timeoutMs => some { s with pc := .epollWait timeoutMs before }
    | _ => none
  | .epollReturn after ready =>
    match s.pc with
    | .epollWait _ before => some { s with pc := .countdown (intervalMs before after) ready }
    | _ => none
  | .countdown =>
    match s.pc with
    | .countdown interval ready => s.countdown interval ready
    | _ => none
  | .deliver fd =>
    match s.pc with
    | .respond responses => (responses.lookup fd).map fun events => s.deliver fd events (responses.erase fd)
    | _ => none
  | .read =>
    match s.pc with
    | .drain responses =>
      if s.pipe = 0 then some { s with pc := .after responses } else some { s with pipe := s.pipe - 1 }
    | _ => none

end PollerLoop

end ServicesFramework
