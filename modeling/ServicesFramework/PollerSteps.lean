import Mathlib.Tactic
import ServicesFramework.PollerAgreement
import ServicesFramework.PollerLoop

namespace ServicesFramework

/-- A request without a timeout is passed over, one with a timeout is due or keeps the rest. -/
theorem PollRequest.countdown_cases {κ : Type*} (req : PollRequest κ) (interval : Int) :
    (req.timeoutMs < 0 ∧ req.countdown interval = (false, req)) ∨
      (0 ≤ req.timeoutMs ∧ (req.timeoutMs = 0 ∨ req.timeoutMs ≤ interval) ∧
        req.countdown interval = (true, { req with timeoutMs := -1 })) ∨
      (0 < req.timeoutMs ∧ interval < req.timeoutMs ∧
        req.countdown interval = (false, { req with timeoutMs := req.timeoutMs - interval })) := by
  unfold countdown
  rcases lt_trichotomy req.timeoutMs 0 with negative | zero | positive
  · left
    simp only [if_neg (not_lt.mpr negative.le), if_neg negative.ne]
    exact ⟨negative, trivial⟩
  · right; left
    simp [zero]
  · right
    by_cases due : req.timeoutMs ≤ interval
    · simp [positive, positive.le, due]
    · have left : max (req.timeoutMs - interval) 0 = req.timeoutMs - interval := by omega
      have rest : req.timeoutMs - interval ≠ 0 := by omega
      simp [positive, not_le.mp due, due, left, rest]

theorem lookup_of_erase {β : Type*} {map : AList fun _ : Int => β} {fd other : Int} {x : β}
    (found : (map.erase fd).lookup other = some x) : other ≠ fd ∧ map.lookup other = some x := by
  by_cases same : other = fd
  · rw [same, AList.lookup_erase] at found
    cases found
  · rw [AList.lookup_erase_ne same] at found
    exact ⟨same, found⟩

namespace Poller

variable {κ : Type*} {p : Poller κ} {fd interval : Int} {ready : ReadyEvents} {events : UInt32}

@[simp] theorem lookup_countdown : (p.countdown interval).requests.lookup fd =
    (p.requests.lookup fd).map (p.counting interval) :=
  List.dlookup_map₂ fd

/-- The countdown starts no timeout. -/
theorem running_of_countdown {req : PollRequest κ}
    (positive : 0 ≤ (p.counting interval req).timeoutMs) : 0 ≤ req.timeoutMs := by
  unfold counting at positive
  split at positive
  · exact positive
  · rcases req.countdown_cases interval with ⟨_, result⟩ | ⟨running, _⟩ | ⟨running, _⟩
    · rwa [result] at positive
    · exact running
    · exact running.le

theorem mem_due : fd ∈ p.due interval ↔ ∃ req, p.requests.lookup fd = some req ∧ p.skips req = false ∧
    (req.countdown interval).1 = true := by
  simp only [due, List.mem_map, List.mem_filter, Bool.and_eq_true, Bool.not_eq_true']
  constructor
  · rintro ⟨⟨_, req⟩, ⟨member, meets⟩, rfl⟩
    exact ⟨req, AList.mem_lookup_iff.mpr member, meets⟩
  · rintro ⟨req, found, meets⟩
    exact ⟨⟨fd, req⟩, ⟨AList.mem_lookup_iff.mp found, meets⟩, rfl⟩

theorem mem_counted : fd ∈ p.counted ↔ ∃ req, p.requests.lookup fd = some req ∧ p.skips req = false ∧
    0 ≤ req.timeoutMs := by
  simp only [counted, List.mem_map, List.mem_filter, Bool.and_eq_true, Bool.not_eq_true', decide_eq_true_eq]
  constructor
  · rintro ⟨⟨_, req⟩, ⟨member, meets⟩, rfl⟩
    exact ⟨req, AList.mem_lookup_iff.mpr member, meets⟩
  · rintro ⟨req, found, meets⟩
    exact ⟨⟨fd, req⟩, ⟨AList.mem_lookup_iff.mp found, meets⟩, rfl⟩

theorem counted_nodup : p.counted.Nodup :=
  (List.filter_sublist.map Sigma.fst).nodup p.requests.nodupKeys

theorem lookup_foldl_insert {items : List (Int × UInt32)} {map : ResponseMap}
    (found : (items.foldl (fun map item => map.insert item.1 item.2) map).lookup fd = some events) :
    (fd, events) ∈ items ∨ map.lookup fd = some events := by
  induction items generalizing map with
  | nil => exact Or.inr found
  | cons item items ih =>
    rcases ih found with later | now
    · exact Or.inl (List.mem_cons_of_mem _ later)
    · by_cases same : fd = item.1
      · subst fd
        rw [AList.lookup_insert] at now
        cases now
        exact Or.inl List.mem_cons_self
      · rw [AList.lookup_insert_ne same] at now
        exact Or.inr now

/-- A response without events is a timeout of this very pass. -/
theorem due_of_responses (found : (p.responses interval ready).lookup fd = some 0) : fd ∈ p.due interval := by
  rcases lookup_foldl_insert found with reported | timeout
  · exact absurd rfl (ready.nonzero _ reported)
  · have items : (p.due interval).foldl (fun map fd => map.insert fd 0) (∅ : ResponseMap) =
        ((p.due interval).map fun fd => (fd, (0 : UInt32))).foldl (fun map item => map.insert item.1 item.2) ∅ := by
      rw [List.foldl_map]
    rw [items] at timeout
    rcases lookup_foldl_insert timeout with member | absent
    · obtain ⟨_, listed, same⟩ := List.mem_map.mp member
      cases same
      exact listed
    · cases absent

end Poller

@[simp] theorem PollerPc.pending_after (responses : ResponseMap) :
    (PollerPc.after responses).pending = responses := by
  unfold PollerPc.after
  split
  · rename_i empty
    have none : responses = ∅ := AList.ext (List.map_eq_nil_iff.mp empty)
    exact none.symm
  · rfl

@[simp] theorem PollerPc.willSwap_after (responses : ResponseMap) :
    (PollerPc.after responses).willSwap = true := by
  unfold PollerPc.after
  split <;> rfl

namespace PollerLoop

variable {κ ι : Type*} [DecidableEq ι] {capacity : Nat} {s u : PollerLoop κ ι} {a : PollerLoopAct κ ι}

/-- Everything a step can do. A call leaves its operation in `ctrl_params_`, with the result
of its locked section; a response goes to the request that is there when it is delivered. -/
inductive Effect (capacity : Nat) (s : PollerLoop κ ι) : PollerLoopAct κ ι → PollerLoop κ ι → Prop
  | register (t : ι) (req : PollRequest κ) (ctrlParams : CtrlParamMap) : s.pc.locks = false →
      Effect capacity s (.register t req) { s.setCaller t .notify with
        system := { s.system with poller := { s.system.poller with
          requests := s.system.poller.requests.insert req.fd req.ofClient, ctrlParams := ctrlParams } }
        history := s.history ++ [.register req] }
  | unregister (t : ι) (req : PollRequest κ) (ctrlParams : CtrlParamMap) : s.pc.locks = false →
      Effect capacity s (.unregister t req) { s.setCaller t .notify with
        system := { s.system with poller := { s.system.poller with
          requests := s.system.poller.requests.erase req.fd, ctrlParams := ctrlParams } }
        history := s.history ++ [.unregister req.fd] }
  | skip (t owner : ι) : s.callers t = .notify → s.pipeMutex = some owner →
      Effect capacity s (.notify t) (s.setCaller t .idle)
  | lock (t : ι) : s.callers t = .notify → s.pipeMutex = none →
      Effect capacity s (.notify t) { s.setCaller t .write with pipeMutex := some t }
  | write (t : ι) : s.callers t = .write →
      Effect capacity s (.write t) { s.setCaller t .unlock with pipe := min (s.pipe + 1) capacity }
  | unlock (t : ι) : s.callers t = .unlock →
      Effect capacity s (.unlock t) { s.setCaller t .idle with pipeMutex := none }
  | unchanged : s.pc = .handleChanges → s.system.poller.ctrlParams.keys = [] →
      Effect capacity s .handleChanges { s with pc := .getTimeoutMs }
  | swap : s.pc = .handleChanges → Effect capacity s .handleChanges { s with
      system := { s.system with
        poller := { s.system.poller with ctrlParams := ∅ }, localParams := s.system.poller.ctrlParams }
      pc := .epollCtl }
  | epollCtl (fd : Int) (localParams : CtrlParamMap) (interest : Int → Option UInt32) (pc : PollerPc) :
      s.pc = .epollCtl → pc = .getTimeoutMs ∨ pc = .epollCtl → Effect capacity s (.epollCtl fd) { s with
        system := { s.system with localParams := localParams, interest := interest }, pc := pc }
  | getTimeoutMs : s.pc = .getTimeoutMs →
      Effect capacity s .getTimeoutMs { s with pc := .poll s.system.poller.getTimeoutMs }
  | epollWait (timeoutMs : Int) (before : UInt64) : s.pc = .poll timeoutMs →
      Effect capacity s (.epollWait before) { s with pc := .epollWait timeoutMs before }
  | epollReturn (timeoutMs : Int) (before after : UInt64) (ready : ReadyEvents) :
      s.pc = .epollWait timeoutMs before →
      Effect capacity s (.epollReturn after ready) { s with pc := .countdown (intervalMs before after) ready }
  | countdown (interval : Int) (ready : ReadyEvents) : s.pc = .countdown interval ready →
      Effect capacity s .countdown { s.setPoller (s.system.poller.countdown interval) with
        pc := .after (s.system.poller.responses interval ready)
        history := s.history ++ s.system.poller.counted.map (.counted · interval) }
  | gone (fd : Int) (events : UInt32) (responses : ResponseMap) : s.pc = .respond responses →
      responses.lookup fd = some events → s.system.poller.requests.lookup fd = none →
      Effect capacity s (.deliver fd) { s with pc := .after (responses.erase fd) }
  | deliver (fd : Int) (events : UInt32) (responses : ResponseMap) (req : PollRequest (PollCallback κ))
      (pc : PollerPc) : s.pc = .respond responses → responses.lookup fd = some events →
      s.system.poller.requests.lookup fd = some req →
      pc.pending = responses.erase fd → pc.willSwap = true →
      Effect capacity s (.deliver fd) { s.setPoller (s.system.poller.disarm fd req) with
        pc := pc, history := s.history ++ [.callback fd events] }
  | read (responses : ResponseMap) : s.pc = .drain responses →
      Effect capacity s .read { s with pipe := s.pipe - 1 }
  | drained (responses : ResponseMap) : s.pc = .drain responses →
      Effect capacity s .read { s with pc := .after responses }

theorem register_effect {t : ι} {req : PollRequest κ} (next : s.step capacity (.register t req) = some u) :
    Effect capacity s (.register t req) u := by
  simp only [step] at next
  split at next
  · rename_i free
    obtain ⟨system, stored, rfl⟩ := Option.map_eq_some_iff.mp next
    rcases PollerSystem.step_cases stored with ⟨_, same, rfl⟩ | ⟨_, wrong, _⟩ | ⟨wrong, _⟩ | ⟨_, _, wrong, _⟩
    · cases same
      exact .register t req _ free.2
    · cases wrong
    · cases wrong
    · cases wrong
  · cases next

theorem unregister_effect {t : ι} {req : PollRequest κ} (next : s.step capacity (.unregister t req) = some u) :
    Effect capacity s (.unregister t req) u := by
  simp only [step] at next
  split at next
  · rename_i free
    obtain ⟨system, stored, rfl⟩ := Option.map_eq_some_iff.mp next
    rcases PollerSystem.step_cases stored with ⟨_, wrong, _⟩ | ⟨_, same, rfl⟩ | ⟨wrong, _⟩ | ⟨_, _, wrong, _⟩
    · cases wrong
    · cases same
      exact .unregister t req _ free.2
    · cases wrong
    · cases wrong
  · cases next

theorem notify_effect {t : ι} (next : s.step capacity (.notify t) = some u) : Effect capacity s (.notify t) u := by
  simp only [step] at next
  split at next
  · rename_i here
    cases Option.some.inj next
    unfold notify
    split
    · rename_i owner taken
      exact .skip t owner here taken
    · rename_i free
      exact .lock t here free
  · cases next

theorem handleChanges_effect (next : s.step capacity .handleChanges = some u) :
    Effect capacity s .handleChanges u := by
  simp only [step] at next
  split at next
  · rename_i atPc
    simp only [handleChanges] at next
    split at next
    · rename_i empty
      cases Option.some.inj next
      exact .unchanged atPc empty
    · obtain ⟨system, swapped, rfl⟩ := Option.map_eq_some_iff.mp next
      rcases PollerSystem.step_cases swapped with ⟨_, wrong, _⟩ | ⟨_, wrong, _⟩ | ⟨_, _, rfl⟩ | ⟨_, _, wrong, _⟩
      · cases wrong
      · cases wrong
      · exact .swap atPc
      · cases wrong
  · cases next

theorem epollCtl_effect {fd : Int} (next : s.step capacity (.epollCtl fd) = some u) :
    Effect capacity s (.epollCtl fd) u := by
  simp only [step] at next
  split at next
  · rename_i atPc
    obtain ⟨system, applied, rfl⟩ := Option.map_eq_some_iff.mp next
    rcases PollerSystem.step_cases applied with ⟨_, wrong, _⟩ | ⟨_, wrong, _⟩ | ⟨wrong, _⟩ | ⟨_, _, _, _, rfl⟩
    · cases wrong
    · cases wrong
    · cases wrong
    · refine .epollCtl fd _ _ _ atPc ?_
      split
      · exact Or.inl rfl
      · exact Or.inr rfl
  · cases next

theorem deliver_effect {fd : Int} (next : s.step capacity (.deliver fd) = some u) :
    Effect capacity s (.deliver fd) u := by
  simp only [step] at next
  split at next
  · rename_i responses atPc
    obtain ⟨events, found, rfl⟩ := Option.map_eq_some_iff.mp next
    unfold deliver
    split
    · rename_i missing
      exact .gone fd events responses atPc found missing
    · rename_i req present
      refine .deliver fd events responses req _ atPc found present ?_ ?_
      · split
        · rfl
        · exact PollerPc.pending_after _
      · split
        · rfl
        · exact PollerPc.willSwap_after _
  · cases next

theorem step_effect (next : s.step capacity a = some u) : Effect capacity s a u := by
  cases a with
  | register t req => exact register_effect next
  | unregister t req => exact unregister_effect next
  | notify t => exact notify_effect next
  | write t =>
    obtain ⟨here, result⟩ := Option.ite_none_right_eq_some.mp next
    cases Option.some.inj result
    exact .write t here
  | unlock t =>
    obtain ⟨here, result⟩ := Option.ite_none_right_eq_some.mp next
    cases Option.some.inj result
    exact .unlock t here
  | handleChanges => exact handleChanges_effect next
  | epollCtl fd => exact epollCtl_effect next
  | getTimeoutMs =>
    simp only [step] at next
    split at next
    · rename_i atPc
      cases Option.some.inj next
      exact .getTimeoutMs atPc
    · cases next
  | epollWait before =>
    simp only [step] at next
    split at next
    · rename_i timeoutMs atPc
      cases Option.some.inj next
      exact .epollWait timeoutMs before atPc
    · cases next
  | epollReturn after ready =>
    simp only [step] at next
    split at next
    · rename_i timeoutMs before atPc
      cases Option.some.inj next
      exact .epollReturn timeoutMs before after ready atPc
    · cases next
  | countdown =>
    simp only [step] at next
    split at next
    · rename_i interval ready atPc
      obtain ⟨_, result⟩ := Option.ite_none_right_eq_some.mp next
      cases Option.some.inj result
      exact .countdown interval ready atPc
    · cases next
  | deliver fd => exact deliver_effect next
  | read =>
    simp only [step] at next
    split at next
    · rename_i responses atPc
      split at next
      · cases Option.some.inj next
        exact .drained responses atPc
      · cases Option.some.inj next
        exact .read responses atPc
    · cases next

/-- What a step does to the requests, to the responses that are not yet delivered, and to the
history. -/
inductive Change (s u : PollerLoop κ ι) : PollerLoopAct κ ι → Prop
  | same (a : PollerLoopAct κ ι) : u.system.poller.requests = s.system.poller.requests →
      u.pc.pending = s.pc.pending → u.history = s.history → Change s u a
  | register (t : ι) (req : PollRequest κ) :
      u.system.poller.requests = s.system.poller.requests.insert req.fd req.ofClient →
      u.pc.pending = s.pc.pending → u.history = s.history ++ [.register req] → Change s u (.register t req)
  | unregister (t : ι) (req : PollRequest κ) : u.system.poller.requests = s.system.poller.requests.erase req.fd →
      u.pc.pending = s.pc.pending → u.history = s.history ++ [.unregister req.fd] → Change s u (.unregister t req)
  | countdown (interval : Int) (ready : ReadyEvents) :
      u.system.poller.requests = (s.system.poller.countdown interval).requests →
      u.pc.pending = s.system.poller.responses interval ready →
      u.history = s.history ++ s.system.poller.counted.map (.counted · interval) → Change s u .countdown
  | gone (fd : Int) : u.system.poller.requests = s.system.poller.requests →
      u.pc.pending = s.pc.pending.erase fd → u.history = s.history → Change s u (.deliver fd)
  | deliver (fd : Int) (events : UInt32) (req : PollRequest (PollCallback κ)) :
      s.pc.pending.lookup fd = some events → s.system.poller.requests.lookup fd = some req →
      u.system.poller.requests = s.system.poller.requests.insert fd { req with timeoutMs := -1 } →
      u.pc.pending = s.pc.pending.erase fd → u.history = s.history ++ [.callback fd events] →
      Change s u (.deliver fd)

theorem step_change (next : s.step capacity a = some u) : Change s u a := by
  cases step_effect next with
  | register t req ctrlParams _ => exact .register t req rfl rfl rfl
  | unregister t req ctrlParams _ => exact .unregister t req rfl rfl rfl
  | skip | lock | write | unlock | read => exact .same _ rfl rfl rfl
  | unchanged atPc _ => exact .same _ rfl (by rw [atPc]; rfl) rfl
  | swap atPc => exact .same _ rfl (by rw [atPc]; rfl) rfl
  | epollCtl fd localParams interest pc atPc after =>
    refine .same _ rfl ?_ rfl
    rcases after with rfl | rfl
    · rw [atPc]
      rfl
    · rw [atPc]
  | getTimeoutMs atPc => exact .same _ rfl (by rw [atPc]; rfl) rfl
  | epollWait _ _ atPc => exact .same _ rfl (by rw [atPc]; rfl) rfl
  | epollReturn _ _ _ _ atPc => exact .same _ rfl (by rw [atPc]; rfl) rfl
  | countdown interval ready _ => exact .countdown interval ready rfl (PollerPc.pending_after _) rfl
  | gone fd events responses atPc _ _ => exact .gone fd rfl (by rw [atPc]; exact PollerPc.pending_after _) rfl
  | deliver fd events responses req pc atPc found present pending _ =>
    exact .deliver fd events req (by rw [atPc]; exact found) present rfl (by rw [atPc]; exact pending) rfl
  | drained responses atPc => exact .same _ rfl (by rw [atPc]; exact PollerPc.pending_after _) rfl

end PollerLoop

end ServicesFramework
