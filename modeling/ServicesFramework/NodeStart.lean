import ServicesFramework.NodeShutdown

namespace ServicesFramework

/-- The head of `DoWork` runs through: the assertion of `IncThreads` holds, and the index it
returns is within the list that `GetChannel` looks into. -/
def Node.CanBegin (node : Node) : Prop :=
  ∃ chnIndex counted channel, node.incThreads = some (chnIndex, counted) ∧
    counted.getChannel chnIndex .chnIn = some channel

theorem Node.canBegin_iff (node : Node) : node.CanBegin ↔ node.channels .chnIn ≠ [] := by
  unfold CanBegin incThreads getChannelNum
  constructor
  · rintro ⟨chnIndex, counted, channel, passed, _⟩ none
    rw [none, if_pos List.length_nil] at passed
    cases passed
  · intro some
    have positive : 0 < (node.channels .chnIn).length := List.length_pos_iff.mpr some
    have below : node.workerCnt % (node.channels .chnIn).length < (node.channels .chnIn).length :=
      Nat.mod_lt _ positive
    exact ⟨_, _, _, if_neg positive.ne', List.getElem?_eq_getElem below⟩

namespace NodeManager

open Machine

variable {ν : Type*} [DecidableEq ν] {m u : NodeManager ν} {n : ν} {num : Int} {a : ManagerAct ν}

/-- What `RunAsThreads` refuses with its last test: a node that it has already entered. -/
def Bare (m : NodeManager ν) (n : ν) (num : Int) : Prop :=
  ¬ ((m.nodes n).type = .fullDuplex ∧ num > 1) ∧ m.nodeList.lookup (m.nodes n).name = none ∧ ∀ ct, m.chns n ct = []

omit [DecidableEq ν] in
theorem runAsThreads_bare (bare : m.Bare n num) :
    m.runAsThreads n num = (.error "node has no available channels.",
      { m with nodeList := m.nodeList ++ [((m.nodes n).name, (m.nodes n).type, n)] }) := by
  obtain ⟨fits, free, empty⟩ := bare
  have none : (m.nodes n).getChannelNum .chnIn + (m.nodes n).getChannelNum .chnOut ≤ 0 := by
    have noInput : (m.nodes n).channels .chnIn = [] := empty .chnIn
    have noOutput : (m.nodes n).channels .chnOut = [] := empty .chnOut
    simp [Node.getChannelNum, noInput, noOutput]
  simp only [runAsThreads]
  rw [if_neg fits, if_neg (by simp [free]), if_pos none]

omit [DecidableEq ν] in
/-- Every other refusal comes before the node is entered. -/
theorem runAsThreads_refused (clean : ¬ m.Bare n num) {text : String}
    (refused : (m.runAsThreads n num).1 = .error text) :
    (m.runAsThreads n num).2 = m ∧ text ≠ "node has no available channels." := by
  unfold runAsThreads at refused ⊢
  dsimp only at refused ⊢
  split at refused
  · rename_i twice
    cases refused
    rw [if_pos twice]
    exact ⟨rfl, by decide⟩
  · rename_i fits
    split at refused
    · rename_i taken
      cases refused
      rw [if_neg fits, if_pos taken]
      exact ⟨rfl, by decide⟩
    · rename_i free
      split at refused
      · rename_i none
        refine absurd ⟨fits, Option.not_isSome_iff_eq_none.mp free, ?_⟩ clean
        simp only [Node.getChannelNum, Nat.le_zero, Nat.add_eq_zero_iff, List.length_eq_zero_iff] at none
        intro ct
        cases ct with
        | chnIn => exact none.1
        | chnOut => exact none.2
      · cases refused

/-- A call of `RunAsThreads` that throws leaves both lists as they were, and a node refused
for having no channels starts once it has been connected. -/
def RefusesCleanly (m : NodeManager ν) (n : ν) (num : Int) : Prop :=
  ∀ text, (m.runAsThreads n num).1 = .error text →
    (m.runAsThreads n num).2.nodeList = m.nodeList ∧ (m.runAsThreads n num).2.workerList = m.workerList ∧
      (text = "node has no available channels." → ∀ calls ct,
        ((m.runAsThreads n num).2.connectAll calls).chns n ct ≠ [] →
          (((m.runAsThreads n num).2.connectAll calls).runAsThreads n num).1 = .ok true)

omit [DecidableEq ν] in
theorem not_bare_iff : ¬ m.Bare n num ↔
    (m.nodes n).type = .fullDuplex ∧ num > 1 ∨ (m.nodeList.lookup (m.nodes n).name).isSome ∨
      ∃ ct, m.chns n ct ≠ [] := by
  constructor
  · intro clean
    by_contra none
    refine clean ⟨fun twice => none (.inl twice), ?_, ?_⟩
    · exact Option.not_isSome_iff_eq_none.mp fun taken => none (.inr (.inl taken))
    · intro ct
      by_contra some
      exact none (.inr (.inr ⟨ct, some⟩))
  · rintro (twice | taken | ⟨ct, some⟩) ⟨fits, free, empty⟩
    · exact fits twice
    · simp [free] at taken
    · exact some (empty ct)

/-- The one refusal that leaves something behind is that of a node without channels whose
name is new: it stays in `node_list_`. -/
theorem refusesCleanly_iff (m : NodeManager ν) (n : ν) (num : Int) :
    m.RefusesCleanly n num ↔
      (m.nodes n).type = .fullDuplex ∧ num > 1 ∨ (m.nodeList.lookup (m.nodes n).name).isSome ∨
        ∃ ct, m.chns n ct ≠ [] := by
  rw [← not_bare_iff]
  constructor
  · intro cleanly bare
    have left := (cleanly _ (congrArg Prod.fst (runAsThreads_bare bare))).1
    rw [runAsThreads_bare bare] at left
    simp at left
  · intro clean text refused
    obtain ⟨same, other⟩ := runAsThreads_refused clean refused
    rw [same]
    exact ⟨rfl, rfl, fun now => absurd now other⟩

/-- The encoder is refused, connected to the collector, and refused again. -/
theorem refused_node_stays_listed :
    ¬ ∀ (nodes : Nat → Node) (calls : List (Connection Nat)) (n : Nat) (num : Int),
      (∀ n ct, (nodes n).channels ct = []) → ((init nodes).connectAll calls).RefusesCleanly n num := by
  intro claim
  have cleanly := claim services [] 3 1 services_fresh "node has no available channels." (by decide)
  exact absurd (cleanly.2.2 rfl [⟨2, 3, true⟩] .chnIn (by decide)) (by decide)

theorem step_name (next : m.step a = some u) (n : ν) : (u.nodes n).name = (m.nodes n).name :=
  step_field Node.name (fun _ _ => rfl) (fun _ _ => rfl) Node.addChannel_name next n

/-- Names are never taken out of `node_list_`. -/
theorem step_listed {name : String} (next : m.step a = some u) (listed : (m.nodeList.lookup name).isSome) :
    (u.nodeList.lookup name).isSome := by
  cases a with
  | connect up down reuseChn =>
    cases Option.some.inj next
    rw [(connect_rest m up down reuseChn).1]
    exact listed
  | runAsThreads other num =>
    cases Option.some.inj next
    rcases m.runAsThreads_cases other num with ⟨_, _, result⟩ | ⟨_, _, _, result⟩ | ⟨_, _, result⟩
    · rwa [result]
    · rw [result]
      exact lookup_append_isSome listed
    · rw [result]
      exact lookup_append_isSome listed
  | pickChannel i =>
    obtain ⟨w, c, _, _, _, rfl⟩ := pickChannel_cases next
    exact listed
  | stopSignal _ | stopNode _ =>
    cases Option.some.inj next
    exact listed
  | shutdown =>
    cases Option.some.inj next
    rw [m.shutdown_rest.1]
    exact listed

/-- The name of a node stays taken. -/
theorem step_taken (next : m.step a = some u) (taken : (m.nodeList.lookup (m.nodes n).name).isSome) :
    (u.nodeList.lookup (u.nodes n).name).isSome := by
  rw [step_name next]
  exact step_listed next taken

/-- A node that was refused for having no channels is refused in every later state, whatever
it has been connected to in the meantime. -/
theorem bare_never_starts (bare : m.Bare n num) {later : List (ManagerAct ν)}
    (reach : run step (m.runAsThreads n num).2 later = some u) (again : Int) :
    ∃ text, (u.runAsThreads n again).1 = .error text := by
  rw [runAsThreads_bare bare] at reach
  have taken : (u.nodeList.lookup (u.nodes n).name).isSome := by
    refine run_invariant (I := fun m => (m.nodeList.lookup (m.nodes n).name).isSome) ?_ ?_ reach
    · intro m a u old next
      exact step_taken next old
    · simp [List.lookup_append]
  rcases u.runAsThreads_cases n again with ⟨_, refused, _⟩ | ⟨_, refused, _⟩ | ⟨runs, _⟩
  · exact refused
  · exact refused
  · simp [runs.2.1] at taken

/-- Channels are never taken out of a node's lists. -/
theorem step_chns {c : Nat} {ct : ChnType} (next : m.step a = some u) (member : c ∈ m.chns n ct) :
    c ∈ u.chns n ct := by
  cases a with
  | connect up down reuseChn =>
    cases Option.some.inj next
    exact connect_keeps m up down reuseChn member
  | runAsThreads _ _ | pickChannel _ | stopSignal _ | stopNode _ =>
    rw [chns_of_starts (by trivial) next]
    exact member
  | shutdown =>
    cases Option.some.inj next
    unfold chns
    rw [m.shutdown_rest.2.1]
    exact member

/-- A worker that has not called `IncThreads` was there before the step, or the step is the
`RunAsThreads` that starts it and takes its name. -/
theorem waiting_worker_origin (next : m.step a = some u) {w : Worker ν} (member : w ∈ u.workerList)
    (waiting : w.channel = none) :
    w ∈ m.workerList ∨ m.nodeList.lookup (m.nodes w.node).name = none ∧
      (u.nodeList.lookup (m.nodes w.node).name).isSome := by
  cases a with
  | connect up down reuseChn =>
    cases Option.some.inj next
    rw [(connect_rest m up down reuseChn).2.1] at member
    exact Or.inl member
  | runAsThreads other num =>
    cases Option.some.inj next
    rcases m.runAsThreads_cases other num with ⟨_, _, result⟩ | ⟨_, _, _, result⟩ | ⟨runs, _, result⟩
    · rw [result] at member
      exact Or.inl member
    · rw [result] at member
      exact Or.inl member
    · rw [result] at member
      rcases List.mem_append.mp member with earlier | now
      · exact Or.inl earlier
      · cases List.eq_of_mem_replicate now
        rw [result]
        exact Or.inr ⟨runs.2.1, by simp [List.lookup_append]⟩
  | pickChannel i =>
    obtain ⟨v, c, _, _, _, rfl⟩ := pickChannel_cases next
    rcases List.mem_or_eq_of_mem_set member with earlier | rfl
    · exact Or.inl earlier
    · cases waiting
  | stopSignal _ | stopNode _ =>
    cases Option.some.inj next
    exact Or.inl member
  | shutdown =>
    cases Option.some.inj next
    exact Or.inl (m.shutdown_rest.2.2.1 w member)

/-- The name of the node is taken, and none of its workers has still to call `IncThreads`. -/
def Settled (n : ν) (m : NodeManager ν) : Prop :=
  (m.nodeList.lookup (m.nodes n).name).isSome ∧ ∀ w ∈ m.workerList, w.channel = none → w.node ≠ n

theorem Settled.step (old : m.Settled n) (next : m.step a = some u) : u.Settled n := by
  obtain ⟨taken, none⟩ := old
  refine ⟨?_, ?_⟩
  · exact step_taken next taken
  · intro w member waiting
    rcases waiting_worker_origin next member waiting with earlier | ⟨free, _⟩
    · exact none w earlier waiting
    · rintro rfl
      simp [free] at taken

/-- Where a worker has still to call `IncThreads`, the name of its node is taken. -/
def Listed (m : NodeManager ν) : Prop :=
  ∀ w ∈ m.workerList, w.channel = none → (m.nodeList.lookup (m.nodes w.node).name).isSome

theorem Listed.step (old : m.Listed) (next : m.step a = some u) : u.Listed := by
  intro w member waiting
  rcases waiting_worker_origin next member waiting with earlier | ⟨_, entered⟩
  · exact step_taken next (old w earlier waiting)
  · rwa [step_name next]

theorem listed_of_run {nodes : ν → Node} {acts : List (ManagerAct ν)}
    (reach : run step (init nodes) acts = some m) : m.Listed :=
  run_invariant (fun _ _ _ old next => old.step next) (fun w member => by cases member) reach

/-- The workers that `RunAsThreads` starts can begin, at whatever time they are scheduled, if
the node has an input channel; the test of `RunAsThreads` is content with an output channel. -/
theorem accepted_can_begin_iff (nodes : ν → Node) (acts : List (ManagerAct ν)) (m : NodeManager ν)
    (reach : run step (init nodes) acts = some m) (n : ν) (num : Int)
    (accepted : (m.runAsThreads n num).1 = .ok true) :
    (∀ later u, run step (m.runAsThreads n num).2 later = some u →
      ∀ w ∈ u.workerList, w.node = n → w.channel = none → (u.nodes n).CanBegin) ↔
    m.chns n .chnIn ≠ [] ∨ num ≤ 0 := by
  obtain ⟨runs, result⟩ : m.Runs n num ∧ (m.runAsThreads n num).2 = { m with
      nodeList := m.nodeList ++ [((m.nodes n).name, (m.nodes n).type, n)]
      workerList := m.workerList ++ List.replicate num.toNat ⟨n, none⟩
      log := m.log ++ [.started n] } := by
    rcases m.runAsThreads_cases n num with ⟨_, ⟨_, fails⟩, _⟩ | ⟨_, ⟨_, fails⟩, _⟩ | ⟨runs, _, result⟩
    · rw [fails] at accepted
      cases accepted
    · rw [fails] at accepted
      cases accepted
    · exact ⟨runs, result⟩
  rw [result]
  constructor
  · intro begins
    by_contra none
    rw [not_or, not_not, not_le] at none
    obtain ⟨empty, positive⟩ := none
    obtain ⟨k, count⟩ := Nat.exists_eq_succ_of_ne_zero (show num.toNat ≠ 0 by omega)
    have worker : (⟨n, none⟩ : Worker ν) ∈ m.workerList ++ List.replicate num.toNat ⟨n, none⟩ := by simp [count]
    exact (Node.canBegin_iff _).mp (begins [] _ rfl _ worker rfl rfl) empty
  · rintro (some | never) later u laterReach w member rfl waiting
    · obtain ⟨c, here⟩ := List.exists_mem_of_ne_nil _ some
      have kept : c ∈ u.chns w.node .chnIn :=
        run_invariant (I := fun m => c ∈ m.chns w.node .chnIn) (fun _ _ _ old next => step_chns next old) here laterReach
      exact (Node.canBegin_iff _).mpr (List.ne_nil_of_mem kept)
    · have start : Settled w.node { m with
          nodeList := m.nodeList ++ [((m.nodes w.node).name, (m.nodes w.node).type, w.node)]
          workerList := m.workerList ++ List.replicate num.toNat ⟨w.node, none⟩
          log := m.log ++ [.started w.node] } := by
        refine ⟨by simp [List.lookup_append], ?_⟩
        rw [show num.toNat = 0 by omega]
        intro v earlier unbound same
        have taken := listed_of_run reach v (by simpa using earlier) unbound
        simp [same, runs.2.1] at taken
      have settled : u.Settled w.node := run_invariant (fun _ _ _ old next => old.step next) start laterReach
      exact absurd rfl (settled.2 w member waiting)

/-- Two workers of the collector, which both duplex nodes feed. -/
theorem accepted_can_begin_two_workers :
    ∃ m, run step (init services) [.connect 0 2 false, .connect 1 2 false] = some m ∧ m.chns 2 .chnIn = [0, 1] ∧
      ∀ later u, run step (m.runAsThreads 2 2).2 later = some u →
        ∀ w ∈ u.workerList, w.node = 2 → w.channel = none → (u.nodes 2).CanBegin := by
  obtain ⟨m, reach, inputs, accepted⟩ : ∃ m,
      run step (init services) [.connect 0 2 false, .connect 1 2 false] = some m ∧ m.chns 2 .chnIn = [0, 1] ∧
      (m.runAsThreads 2 2).1 = .ok true := ⟨_, rfl, by decide, by decide⟩
  exact ⟨m, reach, inputs, (accepted_can_begin_iff services _ m reach 2 2 accepted).mpr (.inl (by simp [inputs]))⟩

/-- The collector at the head of a chain has no input channel, and is started all the same. -/
theorem accepted_head_cannot_begin :
    ¬ ∀ (nodes : Nat → Node) (calls : List (Connection Nat)) (n : Nat) (num : Int) (m : NodeManager Nat),
      (∀ n ct, (nodes n).channels ct = []) → (∀ n, (nodes n).workerCnt = 0) →
      ((init nodes).connectAll calls).runAsThreads n num = (.ok true, m) →
      ∀ w ∈ m.workerList, w.node = n → w.channel = none → (m.nodes n).CanBegin := by
  intro claim
  have begins := claim services [⟨2, 3, true⟩] 2 1 _ services_fresh services_idle rfl ⟨2, none⟩ (by decide) rfl rfl
  exact (Node.canBegin_iff _).mp begins (by decide)

end NodeManager

end ServicesFramework
