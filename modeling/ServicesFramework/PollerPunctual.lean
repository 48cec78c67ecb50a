import ServicesFramework.PollerTimeouts

namespace ServicesFramework

namespace PollerEvent

variable {κ : Type*}

/-- How an event changes whether the poller owes a descriptor a timeout: a `Register` with one
makes the debt, a call of the callback or an `Unregister` settles it. -/
def owes (fd : Int) : Bool → PollerEvent κ → Bool
  | debt, .register req => if req.fd = fd then 0 ≤ req.timeoutMs else debt
  | debt, .counted _ _ => debt
  | debt, .unregister other => if other = fd then false else debt
  | debt, .callback other _ => if other = fd then false else debt

end PollerEvent

namespace Poller

variable {κ : Type*} {p : Poller κ} {fd interval : Int} {ready : ReadyEvents}

theorem isSome_foldl_insert {items : List (Int × UInt32)} {map : ResponseMap}
    (found : (map.lookup fd).isSome ∨ fd ∈ items.map Prod.fst) :
    ((items.foldl (fun map item => map.insert item.1 item.2) map).lookup fd).isSome := by
  induction items generalizing map with
  | nil =>
    rcases found with here | none
    · exact here
    · cases none
  | cons item items ih =>
    refine ih ?_
    by_cases same : fd = item.1
    · exact .inl (by rw [same, AList.lookup_insert]; rfl)
    · rw [AList.lookup_insert_ne same]
      rcases found with here | listed
      · exact .inl here
      · rw [List.map_cons, List.mem_cons] at listed
        exact .inr (listed.resolve_left same)

/-- What is due in a pass gets a response in it. -/
theorem isSome_responses (due : fd ∈ p.due interval) : ((p.responses interval ready).lookup fd).isSome := by
  refine isSome_foldl_insert (.inl ?_)
  have items : (p.due interval).foldl (fun map fd => map.insert fd 0) (∅ : ResponseMap) =
      ((p.due interval).map fun fd => (fd, (0 : UInt32))).foldl (fun map item => map.insert item.1 item.2) ∅ := by
    rw [List.foldl_map]
  rw [items]
  refine isSome_foldl_insert (.inr ?_)
  simpa using due

/-- The wait that `GetTimeoutMs` allows: the shortest running timeout, and 100 ms at most. -/
theorem getTimeoutMs_spec (p : Poller κ) :
    0 ≤ p.getTimeoutMs ∧ p.getTimeoutMs ≤ 100 ∧
      (∀ item ∈ p.requests.entries, 0 ≤ item.2.timeoutMs → p.getTimeoutMs ≤ item.2.timeoutMs) ∧
      (p.getTimeoutMs = 100 ∨ ∃ item ∈ p.requests.entries, item.2.timeoutMs = p.getTimeoutMs) := by
  unfold getTimeoutMs
  generalize p.requests.entries = items
  induction items using List.reverseRecOn with
  | nil => simp
  | append_singleton items item ih =>
    obtain ⟨low, high, least, source⟩ := ih
    simp only [List.foldl_append, List.foldl_cons, List.foldl_nil]
    split
    · rename_i shorter
      refine ⟨shorter.1, by omega, ?_, .inr ⟨item, by simp, rfl⟩⟩
      intro other member running
      rcases List.mem_append.mp member with earlier | now
      · have bound := least other earlier running
        omega
      · cases List.mem_singleton.mp now
        exact le_rfl
    · rename_i longer
      refine ⟨low, high, ?_, ?_⟩
      · intro other member running
        rcases List.mem_append.mp member with earlier | now
        · exact least other earlier running
        · cases List.mem_singleton.mp now
          omega
      · rcases source with cap | ⟨other, earlier, same⟩
        · exact .inl cap
        · exact .inr ⟨other, List.mem_append_left _ earlier, same⟩

end Poller

namespace PollerLoop

open Machine

variable {κ ι : Type*}

/-- The last `Register` of the descriptor had a timeout, and nothing has come of it yet. -/
def owing (fd : Int) (history : List (PollerEvent κ)) : Bool := history.foldl (PollerEvent.owes fd) false

variable {s u : PollerLoop κ ι} {fd : Int}

theorem owing_snoc {history : List (PollerEvent κ)} (event : PollerEvent κ) :
    owing fd (history ++ [event]) = PollerEvent.owes fd (owing fd history) event := by
  simp [owing]

theorem owing_counted {history : List (PollerEvent κ)} {interval : Int} (fds : List Int) :
    owing fd (history ++ fds.map (.counted · interval)) = owing fd history := by
  induction fds using List.reverseRecOn with
  | nil => simp
  | append_singleton fds other ih =>
    rw [List.map_append, ← List.append_assoc, List.map_singleton, owing_snoc, ih]
    rfl

/-- What the poller does about a timeout `t` that it owes: it has what is left of it in the
request, or it has a response for the descriptor in hand. -/
structure Serves (s : PollerLoop κ ι) (fd t : Int) (passes : List Int) (req : PollRequest (PollCallback κ)) : Prop where
  found : s.system.poller.requests.lookup fd = some req
  nonneg : 0 ≤ t
  waits : ¬ Waited t passes → 0 ≤ req.timeoutMs ∧ req.timeoutMs = t - passes.sum
  answers : Waited t passes → (s.pc.pending.lookup fd).isSome

/-- Every timeout that is owed is served. -/
def Punctual (s : PollerLoop κ ι) : Prop :=
  ∀ fd, owing fd s.history = true → ∃ t passes req, installed fd s.history = some (t, passes) ∧ s.Serves fd t passes req

theorem Punctual.init (pipeFd : Int) : Punctual (init pipeFd : PollerLoop κ ι) := by
  intro fd debt
  cases debt

/-- Steps that touch neither the debt nor the request nor the response. -/
theorem Serves.frame {t : Int} {passes : List Int} {req : PollRequest (PollCallback κ)} (old : s.Serves fd t passes req)
    (requests : u.system.poller.requests.lookup fd = s.system.poller.requests.lookup fd)
    (pending : u.pc.pending.lookup fd = s.pc.pending.lookup fd) : u.Serves fd t passes req where
  found := requests.trans old.found
  nonneg := old.nonneg
  waits := old.waits
  answers waited := by rw [pending]; exact old.answers waited

theorem Punctual.frame (old : Punctual s) (fd : Int) (debt : owing fd u.history = true)
    (owing : owing fd u.history = owing fd s.history) (history : installed fd u.history = installed fd s.history)
    (requests : u.system.poller.requests.lookup fd = s.system.poller.requests.lookup fd)
    (pending : u.pc.pending.lookup fd = s.pc.pending.lookup fd) :
    ∃ t passes req, installed fd u.history = some (t, passes) ∧ u.Serves fd t passes req := by
  rw [owing] at debt
  obtain ⟨t, passes, req, last, serves⟩ := old fd debt
  exact ⟨t, passes, req, history.trans last, serves.frame requests pending⟩

theorem Punctual.register (old : Punctual s) {req : PollRequest κ}
    (requests : u.system.poller.requests = s.system.poller.requests.insert req.fd req.ofClient)
    (pending : u.pc.pending = s.pc.pending) (history : u.history = s.history ++ [.register req]) : Punctual u := by
  intro fd debt
  by_cases same : req.fd = fd
  · subst fd
    rw [history, owing_snoc] at debt
    have nonneg : 0 ≤ req.timeoutMs := by simpa [PollerEvent.owes] using debt
    refine ⟨req.timeoutMs, [], req.ofClient, ?_, ?_⟩
    · rw [history, installed_snoc]
      simp [PollerEvent.track]
    · refine ⟨by rw [requests, AList.lookup_insert], nonneg, fun _ => ⟨nonneg, ?_⟩, fun waited => ?_⟩
      · simp [PollRequest.ofClient]
      · exact absurd waited (not_waited_nil nonneg)
  · refine old.frame fd debt ?_ ?_ ?_ (by rw [pending])
    · rw [history, owing_snoc]
      simp [PollerEvent.owes, same]
    · rw [history, installed_snoc]
      simp [PollerEvent.track, same]
    · rw [requests, AList.lookup_insert_ne (Ne.symm same)]

/-- An event that settles the debt of one descriptor. -/
theorem Punctual.settle (old : Punctual s) {event : PollerEvent κ} {settled : Int}
    (history : u.history = s.history ++ [event])
    (mine : ∀ debt, PollerEvent.owes settled debt event = false)
    (others : ∀ fd, fd ≠ settled → ∀ debt, PollerEvent.owes fd debt event = debt)
    (same : ∀ fd last, PollerEvent.track fd last event = last)
    (requests : ∀ fd, fd ≠ settled → u.system.poller.requests.lookup fd = s.system.poller.requests.lookup fd)
    (pending : ∀ fd, fd ≠ settled → u.pc.pending.lookup fd = s.pc.pending.lookup fd) : Punctual u := by
  intro fd debt
  by_cases here : fd = settled
  · subst fd
    rw [history, owing_snoc, mine] at debt
    cases debt
  · refine old.frame fd debt ?_ ?_ (requests fd here) (pending fd here)
    · rw [history, owing_snoc, others fd here]
    · rw [history, installed_snoc, same]

/-- One pass over a request that is not passed over. -/
theorem Serves.counted {t interval : Int} {passes : List Int} {req : PollRequest (PollCallback κ)}
    (old : s.Serves fd t passes req) (early : ¬ Waited t passes) (counts : s.system.poller.skips req = false)
    (requests : u.system.poller.requests.lookup fd = some (req.countdown interval).2)
    (answers : fd ∈ s.system.poller.due interval → (u.pc.pending.lookup fd).isSome) :
    u.Serves fd t (passes ++ [interval]) (req.countdown interval).2 := by
  obtain ⟨running, left⟩ := old.waits early
  have total : (passes ++ [interval]).sum = passes.sum + interval := by simp
  have later : Waited t (passes ++ [interval]) ↔ t = 0 ∨ t ≤ passes.sum + interval := by
    unfold Waited
    split
    · rename_i zero
      simp [zero]
    · rename_i nonzero
      rw [total, or_iff_right nonzero]
  have soon : t ≠ 0 → passes.sum < t := by
    intro nonzero
    rw [Waited, if_neg nonzero] at early
    omega
  have fresh : t = 0 → req.timeoutMs = 0 := by
    rintro rfl
    have none : passes = [] := by simpa [Waited] using early
    rw [left, none]
    rfl
  rcases req.countdown_cases interval with ⟨negative, _⟩ | ⟨_, enough, result⟩ | ⟨positive, more, result⟩
  · omega
  · have due : fd ∈ s.system.poller.due interval := Poller.mem_due.mpr ⟨req, old.found, counts, by rw [result]⟩
    refine ⟨requests, old.nonneg, fun still => absurd (later.mpr ?_) still, fun _ => answers due⟩
    by_cases zero : t = 0
    · exact .inl zero
    · have bound := soon zero
      exact .inr (by omega)
  · refine ⟨requests, old.nonneg, fun _ => ?_, fun waited => ?_⟩
    · rw [result, total]
      exact ⟨show 0 ≤ req.timeoutMs - interval by omega, show req.timeoutMs - interval = _ by omega⟩
    · rcases later.mp waited with zero | long
      · have none := fresh zero
        omega
      · omega

theorem Punctual.countdown (old : Punctual s) {interval : Int} {ready : ReadyEvents} (idle : s.pc.pending = ∅)
    (requests : u.system.poller.requests = (s.system.poller.countdown interval).requests)
    (pending : u.pc.pending = s.system.poller.responses interval ready)
    (history : u.history = s.history ++ s.system.poller.counted.map (.counted · interval)) : Punctual u := by
  intro fd debt
  rw [history, owing_counted] at debt
  obtain ⟨t, passes, req, last, serves⟩ := old fd debt
  have early : ¬ Waited t passes := by
    intro waited
    have answered := serves.answers waited
    rw [idle] at answered
    cases answered
  have after : u.system.poller.requests.lookup fd = some (s.system.poller.counting interval req) := by
    rw [requests, Poller.lookup_countdown, serves.found]
    rfl
  cases skips : s.system.poller.skips req with
  | true =>
    have absent : fd ∉ s.system.poller.counted := by
      intro member
      obtain ⟨other, same, counts, _⟩ := Poller.mem_counted.mp member
      cases Option.some.inj (serves.found.symm.trans same)
      rw [skips] at counts
      cases counts
    refine ⟨t, passes, req, by rw [history, installed_counted_of_notMem absent, last], ?_⟩
    refine ⟨?_, serves.nonneg, serves.waits, fun waited => absurd waited early⟩
    rw [after, Poller.counting, if_pos skips]
  | false =>
    have member : fd ∈ s.system.poller.counted :=
      Poller.mem_counted.mpr ⟨req, serves.found, skips, (serves.waits early).1⟩
    refine ⟨t, passes ++ [interval], _, ?_, serves.counted early skips ?_ ?_⟩
    · rw [history, installed_counted Poller.counted_nodup member, last]
      rfl
    · rw [after, Poller.counting, if_neg (by simp [skips])]
    · intro due
      rw [pending]
      exact Poller.isSome_responses due

section Steps

variable [DecidableEq ι] {capacity : Nat} {a : PollerLoopAct κ ι}

theorem pending_countdown (next : s.step capacity .countdown = some u) : s.pc.pending = ∅ := by
  cases step_effect next with
  | countdown interval ready atPc => rw [atPc]; rfl

/-- A response goes to nobody only where the request is gone. -/
theorem missing_of_deliver (next : s.step capacity (.deliver fd) = some u) (quiet : u.history = s.history) :
    s.system.poller.requests.lookup fd = none := by
  cases step_effect next with
  | gone _ events responses _ _ missing => exact missing
  | deliver _ events responses req pc _ _ _ _ _ => simp at quiet

theorem Punctual.step (old : Punctual s) (next : s.step capacity a = some u) : Punctual u := by
  cases step_change next with
  | same _ requests pending history =>
    intro fd debt
    exact old.frame fd debt (by rw [history]) (by rw [history]) (by rw [requests]) (by rw [pending])
  | register t req requests pending history => exact old.register requests pending history
  | unregister t req requests pending history =>
    refine old.settle history (fun debt => if_pos rfl) (fun fd ne debt => if_neg (Ne.symm ne)) (fun _ _ => rfl) ?_ ?_
    · intro fd ne
      rw [requests, AList.lookup_erase_ne ne]
    · intro fd _
      rw [pending]
  | countdown interval ready requests pending history =>
    exact old.countdown (pending_countdown next) requests pending history
  | gone fd requests pending history =>
    have missing := missing_of_deliver next history
    intro other debt
    by_cases same : other = fd
    · subst other
      rw [history] at debt
      obtain ⟨t, passes, req, last, serves⟩ := old fd debt
      rw [serves.found] at missing
      cases missing
    · refine old.frame other debt (by rw [history]) (by rw [history]) (by rw [requests]) ?_
      rw [pending, AList.lookup_erase_ne same]
  | deliver fd events req response found requests pending history =>
    refine old.settle history (fun debt => if_pos rfl) (fun fd ne debt => if_neg (Ne.symm ne)) (fun _ _ => rfl) ?_ ?_
    · intro other ne
      rw [requests, AList.lookup_insert_ne ne]
    · intro other ne
      rw [pending, AList.lookup_erase_ne ne]

theorem punctual_of_run {pipeFd : Int} {acts : List (PollerLoopAct κ ι)}
    (reach : run (step capacity) (init pipeFd) acts = some s) : Punctual s :=
  run_invariant (fun _ _ _ old next => old.step next) (.init pipeFd) reach

/-- A running timeout is one that is owed. -/
def OnlyOwed (s : PollerLoop κ ι) : Prop :=
  ∀ fd req, s.system.poller.requests.lookup fd = some req → 0 ≤ req.timeoutMs → owing fd s.history = true

theorem OnlyOwed.step (old : OnlyOwed s) (next : s.step capacity a = some u) : OnlyOwed u := by
  intro fd req found running
  cases step_change next with
  | same _ requests pending history =>
    rw [requests] at found
    rw [history]
    exact old fd req found running
  | register t new requests pending history =>
    rw [requests] at found
    rw [history, owing_snoc]
    by_cases same : fd = new.fd
    · subst fd
      rw [AList.lookup_insert] at found
      cases found
      simpa [PollerEvent.owes, PollRequest.ofClient] using running
    · rw [AList.lookup_insert_ne same] at found
      simpa [PollerEvent.owes, Ne.symm same] using old fd req found running
  | unregister t gone requests pending history =>
    rw [requests] at found
    obtain ⟨ne, found⟩ := lookup_of_erase found
    rw [history, owing_snoc]
    simpa [PollerEvent.owes, Ne.symm ne] using old fd req found running
  | countdown interval ready requests pending history =>
    rw [requests, Poller.lookup_countdown] at found
    obtain ⟨before, there, rfl⟩ := Option.map_eq_some_iff.mp found
    rw [history, owing_counted]
    exact old fd before there (Poller.running_of_countdown running)
  | gone other requests pending history =>
    rw [requests] at found
    rw [history]
    exact old fd req found running
  | deliver other events called response there requests pending history =>
    rw [requests] at found
    rw [history, owing_snoc]
    by_cases same : fd = other
    · subst fd
      rw [AList.lookup_insert] at found
      cases found
      cases running
    · rw [AList.lookup_insert_ne same] at found
      simpa [PollerEvent.owes, Ne.symm same] using old fd req found running

theorem onlyOwed_of_run {pipeFd : Int} {acts : List (PollerLoopAct κ ι)}
    (reach : run (step capacity) (init pipeFd) acts = some s) : OnlyOwed s := by
  refine run_invariant (fun _ _ _ old next => old.step next) ?_ reach
  intro fd req found running
  rw [lookup_init found] at running
  cases running

/-- A timeout is not late: in every run, as soon as the passes that counted a `Register` are
enough for its timeout, the poller has a response for the descriptor in hand, which it delivers
before it waits again; until then the request keeps exactly what is left. -/
theorem timeout_never_late (capacity : Nat) (pipeFd : Int) (acts : List (PollerLoopAct κ ι)) (s : PollerLoop κ ι)
    (reach : run (step capacity) (init pipeFd) acts = some s) (fd : Int) (debt : owing fd s.history = true) :
    ∃ t passes req, installed fd s.history = some (t, passes) ∧ s.system.poller.requests.lookup fd = some req ∧
      (Waited t passes → (s.pc.pending.lookup fd).isSome) ∧
      (¬ Waited t passes → 0 ≤ req.timeoutMs ∧ req.timeoutMs = t - passes.sum) ∧
      (s.pc.pending = ∅ → ¬ Waited t passes) := by
  obtain ⟨t, passes, req, last, serves⟩ := punctual_of_run reach fd debt
  refine ⟨t, passes, req, last, serves.found, serves.answers, serves.waits, fun idle waited => ?_⟩
  have answered := serves.answers waited
  rw [idle] at answered
  cases answered

/-- The poller sleeps until the next timeout: whenever it has computed how long to wait, that is
the least that is left of any timeout it owes, or 100 ms where that is less. -/
theorem poll_sleeps_until_next_timeout (capacity : Nat) (pipeFd : Int) (acts : List (PollerLoopAct κ ι))
    (s u : PollerLoop κ ι) (reach : run (step capacity) (init pipeFd) acts = some s)
    (next : s.step capacity .getTimeoutMs = some u) :
    ∃ wait, u.pc = .poll wait ∧ 0 ≤ wait ∧ wait ≤ 100 ∧
      (∀ fd, owing fd s.history = true → ∃ t passes, installed fd s.history = some (t, passes) ∧
        wait ≤ t - passes.sum) ∧
      (wait = 100 ∨ ∃ fd t passes, owing fd s.history = true ∧ installed fd s.history = some (t, passes) ∧
        wait = t - passes.sum) := by
  have punctual := punctual_of_run reach
  have only := onlyOwed_of_run reach
  obtain ⟨low, high, least, source⟩ := s.system.poller.getTimeoutMs_spec
  cases step_effect next with
  | getTimeoutMs atPc =>
    have left (fd : Int) (debt : owing fd s.history = true) : ∃ t passes req,
        installed fd s.history = some (t, passes) ∧ s.system.poller.requests.lookup fd = some req ∧
          0 ≤ req.timeoutMs ∧ req.timeoutMs = t - passes.sum := by
      obtain ⟨t, passes, req, last, serves⟩ := punctual fd debt
      have early : ¬ Waited t passes := by
        intro waited
        have answered := serves.answers waited
        rw [atPc] at answered
        cases answered
      exact ⟨t, passes, req, last, serves.found, serves.waits early⟩
    refine ⟨_, rfl, low, high, ?_, ?_⟩
    · intro fd debt
      obtain ⟨t, passes, req, last, found, running, rest⟩ := left fd debt
      refine ⟨t, passes, last, ?_⟩
      rw [← rest]
      exact least ⟨fd, req⟩ (AList.mem_lookup_iff.mp found) running
    · rcases source with cap | ⟨⟨fd, req⟩, member, same⟩
      · exact .inl cap
      · have found : s.system.poller.requests.lookup fd = some req := AList.mem_lookup_iff.mpr member
        have running : 0 ≤ req.timeoutMs := by
          rw [show req.timeoutMs = _ from same]
          exact low
        obtain ⟨t, passes, other, last, there, _, rest⟩ := left fd (only fd req found running)
        cases Option.some.inj (found.symm.trans there)
        exact .inr ⟨fd, t, passes, only fd req found running, last, by rw [← rest]; exact same.symm⟩

/-- Descriptor 5 with a timeout of 40 ms, of which a pass has counted 15. -/
def waitingForty : List (PollerLoopAct Unit Nat) :=
  pass 40 1000000 16000000 ++ [.deliver 3, .read, .read, .handleChanges]

theorem timeout_never_late_forty :
    ∃ s, run (step 65536) (init 3) waitingForty = some s ∧
      ∃ t passes req, installed 5 s.history = some (t, passes) ∧ s.system.poller.requests.lookup 5 = some req ∧
        ¬ Waited t passes ∧ req.timeoutMs = t - passes.sum := by
  obtain ⟨s, reach, debt, idle⟩ : ∃ s, run (step 65536) (init 3) waitingForty = some s ∧
      owing 5 s.history = true ∧ s.pc.pending = ∅ := ⟨_, rfl, by decide, rfl⟩
  obtain ⟨t, passes, req, last, found, _, waits, early⟩ := timeout_never_late 65536 3 waitingForty s reach 5 debt
  exact ⟨s, reach, t, passes, req, last, found, early idle, (waits (early idle)).2⟩

theorem poll_sleeps_until_next_timeout_forty :
    ∃ s u, run (step 65536) (init 3) waitingForty = some s ∧ s.step 65536 .getTimeoutMs = some u ∧
      ∃ wait, u.pc = .poll wait ∧ wait ≤ 100 := by
  obtain ⟨s, u, reach, next⟩ : ∃ s u, run (step 65536) (init 3) waitingForty = some s ∧
      s.step 65536 .getTimeoutMs = some u := ⟨_, _, rfl, rfl⟩
  obtain ⟨wait, atPc, _, high, _⟩ := poll_sleeps_until_next_timeout 65536 3 waitingForty s u reach next
  exact ⟨s, u, reach, next, wait, atPc, high⟩

end Steps

end PollerLoop

end ServicesFramework
