import Mathlib.Data.List.AList
import ServicesFramework.Lib.Machine

namespace ServicesFramework

/-- `PollRequest`; `κ` is the type of callbacks, and `none` the null one. -/
structure PollRequest (κ : Type*) where
  fd : Int
  events : UInt32
  timeoutMs : Int
  callback : Option κ
  deriving DecidableEq, Repr

/-- The operations of `epoll_ctl`. -/
inductive EpollOp
  | add
  | mod
  | del
  deriving DecidableEq, Repr

/-- `PollCtrlParam`, with the two members of its `epoll_event` that are used. -/
structure PollCtrlParam where
  operation : EpollOp
  fd : Int
  events : UInt32
  dataFd : Int
  deriving DecidableEq, Repr

abbrev RequestMap (κ : Type*) := AList fun _ : Int => PollRequest κ

abbrev CtrlParamMap := AList fun _ : Int => PollCtrlParam

/-- The members of `Poller` that `poll_mutex_` protects, and its shutdown flag. -/
structure Poller (κ : Type*) where
  isShutdown : Bool
  requests : RequestMap κ
  ctrlParams : CtrlParamMap

namespace Poller

variable {κ : Type*}

/-- After `Init`: the read end of the pipe is the first request. `0x001` is `EPOLLIN`. -/
def init (pipeFd : Int) (callback : κ) : Poller κ where
  isShutdown := false
  requests := AList.insert pipeFd ⟨pipeFd, 0x001, -1, some callback⟩ ∅
  ctrlParams := AList.insert pipeFd ⟨.add, pipeFd, 0x001, pipeFd⟩ ∅

/-- `Poller::Register`: its result and the state after its locked section. -/
def register (p : Poller κ) (req : PollRequest κ) : Bool × Poller κ :=
  if p.isShutdown then (false, p)
  else if req.fd < 0 ∨ req.callback.isNone then (false, p)
  else
    let operation := if (p.requests.lookup req.fd).isNone then EpollOp.add else .mod
    (true, { p with
      requests := p.requests.insert req.fd req
      ctrlParams := p.ctrlParams.insert req.fd ⟨operation, req.fd, req.events, req.fd⟩ })

/-- `Poller::Unregister`. The event of its parameter is left uninitialised; `EPOLL_CTL_DEL`
does not read it. -/
def unregister (p : Poller κ) (req : PollRequest κ) : Bool × Poller κ :=
  if p.isShutdown then (false, p)
  else if req.fd < 0 ∨ req.callback.isNone then (false, p)
  else if (p.requests.lookup req.fd).isNone then (false, p)
  else
    (true, { p with
      requests := p.requests.erase req.fd
      ctrlParams := p.ctrlParams.insert req.fd ⟨.del, req.fd, 0, req.fd⟩ })

end Poller

/-- What `epoll_ctl` makes of one descriptor of the interest set: `ADD` works on an absent
one, `MOD` and `DEL` on a present one, and a failing call changes nothing. -/
def PollCtrlParam.apply (item : PollCtrlParam) (mask : Option UInt32) : Option UInt32 :=
  match item.operation, mask with
  | .add, none => some item.events
  | .add, some old => some old
  | .mod, none => none
  | .mod, some _ => some item.events
  | .del, _ => none

/-- The poller, the interest set of its epoll instance, and what the poller thread has
swapped out in `HandleChanges` and not yet applied. -/
structure PollerSystem (κ : Type*) where
  poller : Poller κ
  localParams : CtrlParamMap
  interest : Int → Option UInt32

/-- A successful call of a client, or a step of a `HandleChanges` pass: the swap under the
lock, then one `epoll_ctl` for each entry, in the order the hash map yields them. -/
inductive PollerAct (κ : Type*)
  | register (req : PollRequest κ)
  | unregister (req : PollRequest κ)
  | swap
  | epollCtl (fd : Int)
  deriving DecidableEq, Repr

namespace PollerSystem

variable {κ : Type*}

def init (pipeFd : Int) (callback : κ) : PollerSystem κ := ⟨.init pipeFd callback, ∅, fun _ => none⟩

def step (s : PollerSystem κ) : PollerAct κ → Option (PollerSystem κ)
  | .register req =>
    match s.poller.register req with
    | (true, poller) => some { s with poller := poller }
    | (false, _) => none
  | .unregister req =>
    match s.poller.unregister req with
    | (true, poller) => some { s with poller := poller }
    | (false, _) => none
  | .swap =>
    if s.localParams.keys = [] then
      some { s with poller := { s.poller with ctrlParams := ∅ }, localParams := s.poller.ctrlParams }
    else none
  | .epollCtl fd =>
    (s.localParams.lookup fd).map fun item =>
      { s with
        localParams := s.localParams.erase fd
        interest := Function.update s.interest item.fd (item.apply (s.interest item.fd)) }

/-- No operation is pending and the last pass has finished. -/
def Quiescent (s : PollerSystem κ) : Prop := s.poller.ctrlParams = ∅ ∧ s.localParams = ∅

/-- The interest set has exactly the registered descriptors, each with the mask of its
latest `Register`. -/
def Agrees (s : PollerSystem κ) : Prop :=
  ∀ fd, s.interest fd = (s.poller.requests.lookup fd).map PollRequest.events

/-- What the interest set will have for a descriptor once the running pass is over. -/
def settled (s : PollerSystem κ) (fd : Int) : Option UInt32 :=
  match s.localParams.lookup fd with
  | none => s.interest fd
  | some item => item.apply (s.interest fd)

/-- The operation that `Register` picks is the one the interest set needs: `MOD` for a
descriptor that will be there when the running pass is over, `ADD` for one that will not, or
that already has the wanted mask. -/
def RegisterFits (s : PollerSystem κ) (req : PollRequest κ) : Prop :=
  match s.poller.requests.lookup req.fd with
  | none => s.settled req.fd = none ∨ s.settled req.fd = some req.events
  | some _ => s.settled req.fd ≠ none

instance (s : PollerSystem κ) (req : PollRequest κ) : Decidable (s.RegisterFits req) :=
  match found : s.poller.requests.lookup req.fd with
  | none => decidable_of_iff (s.settled req.fd = none ∨ s.settled req.fd = some req.events)
      (by simp [RegisterFits, found])
  | some _ => decidable_of_iff (s.settled req.fd ≠ none) (by simp [RegisterFits, found])

/-- The condition on a step: only a `Register` has one. -/
def StepFits (s : PollerSystem κ) : PollerAct κ → Prop
  | .register req => s.RegisterFits req
  | .unregister _ | .swap | .epollCtl _ => True

instance (s : PollerSystem κ) : ∀ a, Decidable (s.StepFits a)
  | .register req => inferInstanceAs (Decidable (s.RegisterFits req))
  | .unregister _ | .swap | .epollCtl _ => isTrue trivial

end PollerSystem

end ServicesFramework
