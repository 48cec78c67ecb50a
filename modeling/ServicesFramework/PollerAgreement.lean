import Mathlib.Tactic
import ServicesFramework.Poller

namespace ServicesFramework.PollerSystem

open Machine

variable {κ : Type*} {s u : PollerSystem κ} {req : PollRequest κ} {fd : Int}

/-- Everything a step can do. A successful `Register` stores the request and one operation
in place of whatever was pending for the descriptor. -/
theorem step_cases {a : PollerAct κ} (next : s.step a = some u) :
    (∃ req, a = .register req ∧ u = { s with poller := { s.poller with
        requests := s.poller.requests.insert req.fd req
        ctrlParams := s.poller.ctrlParams.insert req.fd
          ⟨if (s.poller.requests.lookup req.fd).isNone then .add else .mod, req.fd, req.events, req.fd⟩ } }) ∨
      (∃ req, a = .unregister req ∧ u = { s with poller := { s.poller with
        requests := s.poller.requests.erase req.fd
        ctrlParams := s.poller.ctrlParams.insert req.fd ⟨.del, req.fd, 0, req.fd⟩ } }) ∨
      (a = .swap ∧ s.localParams = ∅ ∧ u = { s with
        poller := { s.poller with ctrlParams := ∅ }, localParams := s.poller.ctrlParams }) ∨
      (∃ fd item, a = .epollCtl fd ∧ s.localParams.lookup fd = some item ∧ u = { s with
        localParams := s.localParams.erase fd
        interest := Function.update s.interest item.fd (item.apply (s.interest item.fd)) }) := by
  cases a with
  | register req =>
    simp only [step, Poller.register] at next
    split at next
    · rename_i success
      split at success
      · simp at success
      · split at success
        · simp at success
        · cases success
          exact Or.inl ⟨req, rfl, (Option.some.inj next).symm⟩
    · cases next
  | unregister req =>
    simp only [step, Poller.unregister] at next
    split at next
    · rename_i success
      split at success
      · simp at success
      · split at success
        · simp at success
        · split at success
          · simp at success
          · cases success
            exact Or.inr (Or.inl ⟨req, rfl, (Option.some.inj next).symm⟩)
    · cases next
  | swap =>
    simp only [step] at next
    split at next
    · rename_i done
      refine Or.inr (Or.inr (Or.inl ⟨rfl, ?_, (Option.some.inj next).symm⟩))
      exact AList.ext (List.map_eq_nil_iff.mp done)
    · cases next
  | epollCtl fd =>
    obtain ⟨item, found, rfl⟩ := Option.map_eq_some_iff.mp next
    exact Or.inr (Or.inr (Or.inr ⟨fd, item, rfl, found, rfl⟩))

/-- Every pending operation is filed under its own descriptor. -/
def Keyed (params : CtrlParamMap) : Prop :=
  ∀ fd item, params.lookup fd = some item → item.fd = fd

theorem Keyed.insert {params : CtrlParamMap} (keyed : Keyed params) {item : PollCtrlParam} (own : item.fd = fd) :
    Keyed (params.insert fd item) := by
  intro other found lookup
  by_cases same : other = fd
  · subst other
    rw [AList.lookup_insert] at lookup
    cases Option.some.inj lookup
    exact own
  · rw [AList.lookup_insert_ne same] at lookup
    exact keyed other found lookup

theorem Keyed.erase {params : CtrlParamMap} (keyed : Keyed params) : Keyed (params.erase fd) := by
  intro other found lookup
  by_cases same : other = fd
  · subst other
    simp at lookup
  · rw [AList.lookup_erase_ne same] at lookup
    exact keyed other found lookup

/-- What the interest set will have once everything pending has been applied. -/
def predicted (s : PollerSystem κ) (fd : Int) : Option UInt32 :=
  match s.poller.ctrlParams.lookup fd with
  | none => s.settled fd
  | some item => item.apply (s.settled fd)

def InSync (s : PollerSystem κ) (fd : Int) : Prop :=
  s.predicted fd = (s.poller.requests.lookup fd).map PollRequest.events

theorem predicted_of_quiescent (quiet : s.Quiescent) : s.predicted fd = s.interest fd := by
  simp [predicted, settled, quiet.1, quiet.2]

theorem inSync_register (next : s.step (.register req) = some u) : u.InSync req.fd ↔ s.RegisterFits req := by
  rcases step_cases next with ⟨r, same, rfl⟩ | ⟨_, wrong, _⟩ | ⟨wrong, _⟩ | ⟨_, _, wrong, _⟩
  · cases same
    simp only [InSync, predicted, settled, RegisterFits, AList.lookup_insert, Option.map_some]
    cases s.poller.requests.lookup req.fd with
    | none =>
      simp only [Option.isNone_none, if_true, PollCtrlParam.apply]
      split <;> simp_all
    | some old =>
      simp only [Option.isNone_some, Bool.false_eq_true, if_false, PollCtrlParam.apply]
      split <;> simp_all
  · cases wrong
  · cases wrong
  · cases wrong

theorem inSync_unregister (next : s.step (.unregister req) = some u) : u.InSync req.fd := by
  rcases step_cases next with ⟨_, wrong, _⟩ | ⟨r, same, rfl⟩ | ⟨wrong, _⟩ | ⟨_, _, wrong, _⟩
  · cases wrong
  · cases same
    simp [InSync, predicted, PollCtrlParam.apply]
  · cases wrong
  · cases wrong

/-- The descriptor a call is about; a pass of the poller thread is about none. -/
def callFd : PollerAct κ → Option Int
  | .register req => some req.fd
  | .unregister req => some req.fd
  | .swap => none
  | .epollCtl _ => none

/-- Calls on other descriptors and the poller thread itself change no prediction. -/
theorem inSync_other {a : PollerAct κ} (next : s.step a = some u) (other : callFd a ≠ some fd)
    (keyed : Keyed s.localParams) : u.InSync fd ↔ s.InSync fd := by
  rcases step_cases next with ⟨req, rfl, rfl⟩ | ⟨req, rfl, rfl⟩ | ⟨rfl, empty, rfl⟩ | ⟨now, item, rfl, found, rfl⟩
  · have ne : fd ≠ req.fd := fun same => other (by rw [callFd, same])
    simp only [InSync, predicted, settled, AList.lookup_insert_ne ne]
  · have ne : fd ≠ req.fd := fun same => other (by rw [callFd, same])
    simp only [InSync, predicted, settled, AList.lookup_insert_ne ne, AList.lookup_erase_ne ne]
  · cases pending : s.poller.ctrlParams.lookup fd with
    | none => simp [InSync, predicted, settled, empty, pending]
    | some item => simp [InSync, predicted, settled, empty, pending]
  · have own := keyed now item found
    simp only [InSync, predicted, settled]
    by_cases same : fd = now
    · subst fd
      simp [own, found]
    · simp [AList.lookup_erase_ne same, own, same]

def AllKeyed (s : PollerSystem κ) : Prop := Keyed s.poller.ctrlParams ∧ Keyed s.localParams

theorem AllKeyed.step {a : PollerAct κ} (keyed : s.AllKeyed) (next : s.step a = some u) : u.AllKeyed := by
  rcases step_cases next with ⟨req, _, rfl⟩ | ⟨req, _, rfl⟩ | ⟨_, _, rfl⟩ | ⟨now, item, _, _, rfl⟩
  · exact ⟨keyed.1.insert rfl, keyed.2⟩
  · exact ⟨keyed.1.insert rfl, keyed.2⟩
  · exact ⟨by simp [Keyed], keyed.1⟩
  · exact ⟨keyed.1, keyed.2.erase⟩

theorem AllKeyed.init (pipeFd : Int) (callback : κ) : (init pipeFd callback).AllKeyed :=
  ⟨Keyed.insert (by simp [Keyed]) rfl, by simp [Keyed, PollerSystem.init]⟩

/-- The last call on `fd`, where it is a `Register`, was made in a state that it fits. -/
def LastRegisterFits (start : PollerSystem κ) (acts : List (PollerAct κ)) (fd : Int) : Prop :=
  ∀ before req after mid, acts = before ++ .register req :: after → req.fd = fd →
    (∀ a ∈ after, callFd a ≠ some fd) → run step start before = some mid → mid.RegisterFits req

variable {start : PollerSystem κ} {acts : List (PollerAct κ)} {a : PollerAct κ}

theorem lastRegisterFits_snoc_other (other : callFd a ≠ some fd) :
    LastRegisterFits start (acts ++ [a]) fd ↔ LastRegisterFits start acts fd := by
  constructor
  · intro fits before req after mid split own quiet reach
    refine fits before req (after ++ [a]) mid (by simp [split]) own ?_ reach
    intro b member
    rcases List.mem_append.mp member with earlier | last
    · exact quiet b earlier
    · rwa [List.mem_singleton.mp last]
  · intro fits before req after mid split own quiet reach
    rcases snoc_eq_append_cons.mp split with ⟨_, _, rfl⟩ | ⟨rest, rfl, same⟩
    · exact absurd (congrArg some own) other
    · exact fits before req rest mid same own (fun b member => quiet b (List.mem_append_left _ member)) reach

theorem lastRegisterFits_snoc_register (reach : run step start acts = some s) :
    LastRegisterFits start (acts ++ [.register req]) req.fd ↔ s.RegisterFits req := by
  constructor
  · intro fits
    exact fits acts req [] s rfl rfl (by simp) reach
  · intro fits before other after mid split _ quiet otherReach
    rcases snoc_eq_append_cons.mp split with ⟨_, rfl, same⟩ | ⟨rest, rfl, _⟩
    · cases same
      cases Option.some.inj (reach.symm.trans otherReach)
      exact fits
    · exact absurd rfl (quiet (.register req) (by simp))

theorem lastRegisterFits_snoc_unregister :
    LastRegisterFits start (acts ++ [.unregister req]) req.fd := by
  intro before other after mid split _ quiet _
  rcases snoc_eq_append_cons.mp split with ⟨_, _, same⟩ | ⟨rest, rfl, _⟩
  · cases same
  · exact absurd rfl (quiet (.unregister req) (by simp))

/-- A descriptor is in sync exactly when its last call left it so, at every point of a run. -/
theorem inSync_iff_lastRegisterFits (acts : List (PollerAct κ)) (started : start.AllKeyed)
    (synced : ∀ fd, start.InSync fd) (fd : Int) :
    ∀ s, run step start acts = some s → s.AllKeyed ∧ (s.InSync fd ↔ LastRegisterFits start acts fd) := by
  induction acts using List.reverseRecOn with
  | nil =>
    intro s reach
    cases Option.some.inj reach
    exact ⟨started, fun _ => by simp [LastRegisterFits], fun _ => synced fd⟩
  | append_singleton acts a ih =>
    intro u reach
    obtain ⟨s, earlier, next⟩ := run_snoc.mp reach
    obtain ⟨keyed, sync⟩ := ih s earlier
    refine ⟨keyed.step next, ?_⟩
    by_cases mine : callFd a = some fd
    · cases a with
      | register req =>
        cases Option.some.inj mine
        rw [inSync_register next, lastRegisterFits_snoc_register earlier]
      | unregister req =>
        cases Option.some.inj mine
        exact ⟨fun _ => lastRegisterFits_snoc_unregister, fun _ => inSync_unregister next⟩
      | swap => cases mine
      | epollCtl _ => cases mine
    · rw [inSync_other next mine keyed.2, sync, lastRegisterFits_snoc_other mine]

theorem init_inSync (pipeFd : Int) (callback : κ) (fd : Int) : (init pipeFd callback).InSync fd := by
  by_cases same : fd = pipeFd
  · subst fd
    simp only [InSync, predicted, settled, init, Poller.init, AList.lookup_insert]
    rfl
  · simp only [InSync, predicted, settled, init, Poller.init, AList.lookup_insert_ne same]
    rfl

/-- In every quiescent state of every run, the interest set agrees with the requests exactly
when, for each descriptor, the last `Register` was made while the operation it picked was the
right one. A run in which every `Register` is so keeps agreeing. -/
theorem interest_agrees_iff (pipeFd : Int) (callback : κ) (acts : List (PollerAct κ)) (s : PollerSystem κ)
    (reach : run step (init pipeFd callback) acts = some s) (quiet : s.Quiescent) :
    (s.Agrees ↔ ∀ fd, LastRegisterFits (init pipeFd callback) acts fd) ∧
      (Along step StepFits (init pipeFd callback) acts → s.Agrees) := by
  have sync (fd : Int) := (inSync_iff_lastRegisterFits acts (.init pipeFd callback)
    (init_inSync pipeFd callback) fd s reach).2
  have agrees : s.Agrees ↔ ∀ fd, LastRegisterFits (init pipeFd callback) acts fd := by
    simp only [← sync, InSync, predicted_of_quiescent quiet]
    rfl
  refine ⟨agrees, fun fits => agrees.mpr ?_⟩
  intro fd before req after mid split _ _ earlier
  have meets : mid.StepFits (.register req) := along_split fits split earlier
  exact meets

/-- Descriptor 5, waiting for input, as a client of a poller with its pipe at descriptor 3. -/
def client : PollRequest Unit := ⟨5, 0x001, -1, some ()⟩

/-- The two calls are separated by a pass, as in the unit test. -/
def separated : List (PollerAct Unit) :=
  [.register client, .swap, .epollCtl 5, .epollCtl 3, .register client, .swap, .epollCtl 5]

/-- The second call comes before the first pass, and its `MOD` replaces the pending `ADD`. -/
def adjacent : List (PollerAct Unit) :=
  [.register client, .register client, .swap, .epollCtl 5, .epollCtl 3]

theorem interest_agrees_separated :
    ∃ s, run step (init 3 ()) separated = some s ∧ s.Quiescent ∧ s.Agrees := by
  obtain ⟨s, reach, quiet⟩ : ∃ s, run step (init 3 ()) separated = some s ∧ s.Quiescent :=
    ⟨_, rfl, rfl, rfl⟩
  exact ⟨s, reach, quiet, (interest_agrees_iff 3 () separated s reach quiet).2 (by decide)⟩

theorem adjacent_registers_lost :
    ¬ ∀ (pipeFd : Int) (callback : Unit) (acts : List (PollerAct Unit)) (s : PollerSystem Unit),
      run step (init pipeFd callback) acts = some s → s.Quiescent → s.Agrees := by
  intro claim
  obtain ⟨s, reach, quiet, absent, requested⟩ : ∃ s, run step (init 3 ()) adjacent = some s ∧
      s.Quiescent ∧ s.interest 5 = none ∧ s.poller.requests.lookup 5 = some client :=
    ⟨_, rfl, ⟨rfl, rfl⟩, rfl, rfl⟩
  have agrees := claim 3 () adjacent s reach quiet 5
  rw [absent, requested] at agrees
  cases agrees

end ServicesFramework.PollerSystem
