import Mathlib.Tactic
import ServicesFramework.NodeTopology

namespace ServicesFramework.NodeManager

open Machine

variable {ν : Type*} [DecidableEq ν] {m u : NodeManager ν} {n : ν} {num : Int}

/-- `RunAsThreads` returns `true`: the node may have that many threads, its name is not
taken, and it has a channel. -/
def Runs (m : NodeManager ν) (n : ν) (num : Int) : Prop :=
  ¬ ((m.nodes n).type = .fullDuplex ∧ num > 1) ∧ m.nodeList.lookup (m.nodes n).name = none ∧
    ∃ ct, m.chns n ct ≠ []

instance (m : NodeManager ν) (n : ν) (num : Int) : Decidable (m.Runs n num) :=
  decidable_of_iff (¬ ((m.nodes n).type = .fullDuplex ∧ num > 1) ∧ (m.nodeList.lookup (m.nodes n).name).isNone ∧
    (m.chns n .chnIn ≠ [] ∨ m.chns n .chnOut ≠ [])) (by
      simp only [Runs, Option.isNone_iff_eq_none]
      refine and_congr_right fun _ => and_congr_right fun _ => ⟨?_, ?_⟩
      · rintro (some | some)
        · exact ⟨.chnIn, some⟩
        · exact ⟨.chnOut, some⟩
      · rintro ⟨ct, some⟩
        cases ct with
        | chnIn => exact Or.inl some
        | chnOut => exact Or.inr some)

omit [DecidableEq ν] in
/-- What `RunAsThreads` leaves behind: everything as it was, or the node entered in
`node_list_`, with or without its workers. -/
theorem runAsThreads_cases (m : NodeManager ν) (n : ν) (num : Int) :
    (¬ m.Runs n num ∧ (∃ text, (m.runAsThreads n num).1 = .error text) ∧ (m.runAsThreads n num).2 = m) ∨
      (¬ m.Runs n num ∧ (∃ text, (m.runAsThreads n num).1 = .error text) ∧
        m.nodeList.lookup (m.nodes n).name = none ∧
        (m.runAsThreads n num).2 = { m with nodeList := m.nodeList ++ [((m.nodes n).name, (m.nodes n).type, n)] }) ∨
      (m.Runs n num ∧ (m.runAsThreads n num).1 = .ok true ∧
        (m.runAsThreads n num).2 = { m with
          nodeList := m.nodeList ++ [((m.nodes n).name, (m.nodes n).type, n)]
          workerList := m.workerList ++ List.replicate num.toNat ⟨n, none⟩
          log := m.log ++ [.started n] }) := by
  unfold runAsThreads
  dsimp only
  split
  · rename_i twice
    exact Or.inl ⟨fun runs => runs.1 twice, ⟨_, rfl⟩, rfl⟩
  · rename_i fits
    split
    · rename_i taken
      exact Or.inl ⟨fun runs => by simp [runs.2.1] at taken, ⟨_, rfl⟩, rfl⟩
    · rename_i free
      have absent : m.nodeList.lookup (m.nodes n).name = none := Option.not_isSome_iff_eq_none.mp free
      split
      · rename_i bare
        refine Or.inr (Or.inl ⟨?_, ⟨_, rfl⟩, absent, rfl⟩)
        rintro ⟨_, _, ct, some⟩
        simp only [Node.getChannelNum, Nat.le_zero, Nat.add_eq_zero_iff, List.length_eq_zero_iff] at bare
        cases ct with
        | chnIn => exact some bare.1
        | chnOut => exact some bare.2
      · rename_i full
        refine Or.inr (Or.inr ⟨⟨fits, absent, ?_⟩, rfl, rfl⟩)
        by_contra none
        simp only [ne_eq, not_exists, not_not, chns] at none
        simp [Node.getChannelNum, none] at full

theorem pickChannel_cases {i : Nat} (pick : m.pickChannel i = some u) :
    ∃ w c, m.workerList[i]? = some w ∧ w.channel = none ∧
      (m.chns w.node .chnIn)[(m.nodes w.node).workerCnt % (m.chns w.node .chnIn).length]? = some c ∧
      u = { m.setNode w.node { m.nodes w.node with workerCnt := (m.nodes w.node).workerCnt + 1 } with
        workerList := m.workerList.set i { w with channel := some c } } := by
  obtain ⟨w, atWorker, pick⟩ := Option.bind_eq_some_iff.mp pick
  split at pick
  · cases pick
  · rename_i unbound
    obtain ⟨⟨index, node⟩, counted, pick⟩ := Option.bind_eq_some_iff.mp pick
    obtain ⟨c, atIndex, rfl⟩ := Option.map_eq_some_iff.mp pick
    unfold Node.incThreads at counted
    split at counted
    · cases counted
    · obtain ⟨rfl, rfl⟩ := Prod.mk.inj (Option.some.inj counted)
      exact ⟨w, c, atWorker, by simpa using unbound, atIndex, rfl⟩

/-- The actions that start nodes and let their workers go on, without changing the topology. -/
def Starts : ManagerAct ν → Prop
  | .connect _ _ _ | .shutdown => False
  | .runAsThreads _ _ | .pickChannel _ | .stopSignal _ | .stopNode _ => True

theorem field_of_update {β : Type*} (f : Node → β) {other : ν} {node : Node}
    (nodes : u.nodes = Function.update m.nodes other node) (same : f node = f (m.nodes other)) (n : ν) :
    f (u.nodes n) = f (m.nodes n) := by
  rw [nodes]
  by_cases now : n = other
  · subst n
    rw [Function.update_self, same]
  · rw [Function.update_of_ne now]

/-- Such an action changes nothing of a node but its flag and its counter. -/
theorem field_of_starts {β : Type*} (f : Node → β) (flag : ∀ node : Node, f { node with isStop := true } = f node)
    (count : ∀ (node : Node) k, f { node with workerCnt := k } = f node) {a : ManagerAct ν} (starts : Starts a)
    (next : m.step a = some u) (n : ν) : f (u.nodes n) = f (m.nodes n) := by
  cases a with
  | connect _ _ _ => exact False.elim starts
  | shutdown => exact False.elim starts
  | runAsThreads other num =>
    cases Option.some.inj next
    rcases m.runAsThreads_cases other num with ⟨_, _, result⟩ | ⟨_, _, _, result⟩ | ⟨_, _, result⟩ <;> rw [result]
  | pickChannel i =>
    obtain ⟨w, c, _, _, _, rfl⟩ := pickChannel_cases next
    exact field_of_update f rfl (count _ _) n
  | stopSignal other =>
    cases Option.some.inj next
    exact field_of_update f rfl (flag _) n
  | stopNode other =>
    cases Option.some.inj next
    exact field_of_update f rfl (flag _) n

theorem chns_of_starts {a : ManagerAct ν} (starts : Starts a) (next : m.step a = some u) (n : ν) (ct : ChnType) :
    u.chns n ct = m.chns n ct :=
  field_of_starts (fun node => node.channels ct) (fun _ => rfl) (fun _ _ => rfl) starts next n

theorem name_of_starts {a : ManagerAct ν} (starts : Starts a) (next : m.step a = some u) (n : ν) :
    (u.nodes n).name = (m.nodes n).name :=
  field_of_starts Node.name (fun _ => rfl) (fun _ _ => rfl) starts next n

/-- Some worker of the node is bound to this channel. -/
def Reads (m : NodeManager ν) (n : ν) (c : Nat) : Prop :=
  ∃ w ∈ m.workerList, w.node = n ∧ w.channel = some c

/-- The workers of the node that have not called `IncThreads` yet. -/
def unbound (m : NodeManager ν) (n : ν) : Nat :=
  m.workerList.countP fun w => w.node = n ∧ w.channel = none

/-- What holds of every node before it is started, and of the names of those that were. -/
structure Registered (m : NodeManager ν) : Prop where
  named : ∀ w ∈ m.workerList, (m.nodeList.lookup (m.nodes w.node).name).isSome
  idle : ∀ n, (∀ w ∈ m.workerList, w.node ≠ n) → (m.nodes n).workerCnt = 0

omit [DecidableEq ν] in
theorem lookup_append_isSome {l rest : List (String × NodeType × ν)} {name : String}
    (found : (l.lookup name).isSome) :
    ((l ++ rest).lookup name).isSome := by
  rw [List.lookup_append]
  cases atName : l.lookup name with
  | none => simp [atName] at found
  | some _ => rfl

omit [DecidableEq ν] in
/-- Picking a channel leaves the nodes of the workers as they are. -/
theorem exists_node_set {l : List (Worker ν)} {i : Nat} {w : Worker ν} (atWorker : l[i]? = some w)
    (channel : Option Nat) (n : ν) :
    (∃ v ∈ l.set i { w with channel := channel }, v.node = n) ↔ ∃ v ∈ l, v.node = n := by
  have same : (l.set i { w with channel := channel }).map Worker.node = l.map Worker.node := by
    have atNode : (l.map Worker.node)[i]? = some w.node := by rw [List.getElem?_map, atWorker]; rfl
    obtain ⟨below, here⟩ := List.getElem?_eq_some_iff.mp atNode
    rw [List.map_set, ← here, List.set_getElem_self]
  rw [← List.mem_map, ← List.mem_map, same]

theorem Registered.step {a : ManagerAct ν} (old : Registered m) (starts : Starts a) (next : m.step a = some u) :
    Registered u := by
  have name := name_of_starts starts next
  cases a with
  | connect _ _ _ => exact False.elim starts
  | shutdown => exact False.elim starts
  | runAsThreads other num =>
    cases Option.some.inj next
    rcases m.runAsThreads_cases other num with ⟨_, _, result⟩ | ⟨_, _, _, result⟩ | ⟨_, _, result⟩
    · rw [result]
      exact old
    · rw [result]
      exact ⟨fun w member => lookup_append_isSome (old.named w member), old.idle⟩
    · rw [result]
      refine ⟨?_, fun n none => old.idle n fun w member => none w (List.mem_append_left _ member)⟩
      intro w member
      rcases List.mem_append.mp member with earlier | now
      · exact lookup_append_isSome (old.named w earlier)
      · cases List.eq_of_mem_replicate now
        simp [List.lookup_append]
  | pickChannel i =>
    obtain ⟨w, c, atWorker, _, _, rfl⟩ := pickChannel_cases next
    constructor
    · intro v member
      obtain ⟨earlier, listed, same⟩ := (exists_node_set atWorker _ v.node).mp ⟨v, member, rfl⟩
      rw [name v.node, ← same]
      exact old.named earlier listed
    · intro n none
      have before : ∀ v ∈ m.workerList, v.node ≠ n := by
        intro v member same
        obtain ⟨later, listed, sameLater⟩ := (exists_node_set atWorker _ n).mpr ⟨v, member, same⟩
        exact none later listed sameLater
      have other : n ≠ w.node := fun same => before w (List.mem_of_getElem? atWorker) same.symm
      simp only [setNode, Function.update_of_ne other]
      exact old.idle n before
  | stopSignal other =>
    cases Option.some.inj next
    refine ⟨fun w member => by rw [name]; exact old.named w member, fun n none => ?_⟩
    rw [field_of_update Node.workerCnt rfl (by rfl)]
    exact old.idle n none
  | stopNode other =>
    cases Option.some.inj next
    refine ⟨fun w member => by rw [name]; exact old.named w member, fun n none => ?_⟩
    rw [field_of_update Node.workerCnt rfl (by rfl)]
    exact old.idle n none

/-- Every node that was started has its name in `node_list_`, on every run that only starts
nodes. -/
theorem registered_of_run {acts : List (ManagerAct ν)} (old : Registered m) (starts : ∀ a ∈ acts, Starts a)
    (reach : run step m acts = some u) : Registered u :=
  run_invariant_along (fun _ _ _ old starts next => old.step starts next) old
    (along_of_forall fun a member _ => starts a member) reach

/-- A started node with the input channels `inputs`: as many of its workers are bound as
`worker_cnt_` says, to the channels from the head of the list on, round and round. -/
structure Serving (n : ν) (inputs : List Nat) (num : Nat) (m : NodeManager ν) : Prop where
  list : m.chns n .chnIn = inputs
  taken : (m.nodeList.lookup (m.nodes n).name).isSome
  count : (m.nodes n).workerCnt + m.unbound n = num
  reads : ∀ c, m.Reads n c ↔ ∃ i < (m.nodes n).workerCnt, inputs[i % inputs.length]? = some c

variable {inputs : List Nat} {k : Nat}

theorem Serving.start (old : Registered m) (runs : m.Runs n num) :
    Serving n (m.chns n .chnIn) num.toNat (m.runAsThreads n num).2 := by
  have unstarted : ∀ w ∈ m.workerList, w.node ≠ n := by
    intro w member same
    have named := old.named w member
    rw [same, runs.2.1] at named
    simp at named
  have idle := old.idle n unstarted
  rcases m.runAsThreads_cases n num with ⟨fails, _⟩ | ⟨fails, _⟩ | ⟨_, _, result⟩
  · exact absurd runs fails
  · exact absurd runs fails
  · rw [result]
    refine ⟨rfl, by simp [List.lookup_append], ?_, ?_⟩
    · simp only [unbound, idle, List.countP_append, List.countP_replicate]
      have others : m.workerList.countP (fun w => decide (w.node = n ∧ w.channel = none)) = 0 :=
        List.countP_eq_zero.mpr fun w member => by simp [unstarted w member]
      rw [others]
      simp
    · intro c
      simp only [Reads, idle, Nat.not_lt_zero, false_and, exists_false, iff_false]
      rintro ⟨w, member, mine, bound⟩
      rcases List.mem_append.mp member with earlier | now
      · exact unstarted w earlier mine
      · cases List.eq_of_mem_replicate now
        cases bound

theorem set_split {α : Type*} {l : List α} {i : Nat} {old : α} (atIndex : l[i]? = some old) (new : α) :
    ∃ front back, l = front ++ old :: back ∧ l.set i new = front ++ new :: back := by
  obtain ⟨below, rfl⟩ := List.getElem?_eq_some_iff.mp atIndex
  refine ⟨l.take i, l.drop (i + 1), ?_, ?_⟩
  · rw [List.getElem_cons_drop, List.take_append_drop]
  · rw [List.set_eq_take_append_cons_drop, if_pos below]

omit [DecidableEq ν] in
/-- A worker that picks a channel becomes one reader more. -/
theorem exists_reader_set {l front back : List (Worker ν)} {w : Worker ν} (before : l = front ++ w :: back)
    (free : w.channel = none) (n : ν) (c x : Nat) :
    (∃ v ∈ front ++ { w with channel := some c } :: back, v.node = n ∧ v.channel = some x) ↔
      (∃ v ∈ l, v.node = n ∧ v.channel = some x) ∨ w.node = n ∧ c = x := by
  simp only [before, List.mem_append, List.mem_cons]
  constructor
  · rintro ⟨v, inFront | rfl | inBack, mine, bound⟩
    · exact Or.inl ⟨v, Or.inl inFront, mine, bound⟩
    · exact Or.inr ⟨mine, Option.some.inj bound⟩
    · exact Or.inl ⟨v, Or.inr (Or.inr inBack), mine, bound⟩
  · rintro (⟨v, inFront | rfl | inBack, mine, bound⟩ | ⟨mine, rfl⟩)
    · exact ⟨v, Or.inl inFront, mine, bound⟩
    · rw [free] at bound
      cases bound
    · exact ⟨v, Or.inr (Or.inr inBack), mine, bound⟩
    · exact ⟨_, Or.inr (Or.inl rfl), mine, rfl⟩

theorem Serving.pickChannel {i : Nat} (old : Serving n inputs k m) (next : m.pickChannel i = some u) :
    Serving n inputs k u := by
  have sameList := (chns_of_starts (a := .pickChannel i) trivial next n .chnIn).trans old.list
  have name := name_of_starts (a := .pickChannel i) trivial next n
  obtain ⟨w, c, atWorker, free, picked, rfl⟩ := pickChannel_cases next
  obtain ⟨front, back, before, after⟩ := set_split atWorker { w with channel := some c }
  have reads (x : Nat) : (∃ v ∈ front ++ { w with channel := some c } :: back, v.node = n ∧ v.channel = some x) ↔
      m.Reads n x ∨ w.node = n ∧ c = x := exists_reader_set before free n c x
  have count := old.count
  simp only [unbound, before, List.countP_append, List.countP_cons] at count
  by_cases mine : w.node = n
  · have grown : (Function.update m.nodes w.node
        { m.nodes w.node with workerCnt := (m.nodes w.node).workerCnt + 1 } n).workerCnt =
        (m.nodes n).workerCnt + 1 := by rw [mine, Function.update_self]
    refine ⟨sameList, by rw [name]; exact old.taken, ?_, ?_⟩
    · simp only [unbound, after, setNode, List.countP_append, List.countP_cons, grown]
      simp only [mine, free] at count
      simp at count ⊢
      omega
    · intro x
      simp only [Reads, after, setNode, grown]
      rw [reads x, old.reads x]
      rw [mine, old.list] at picked
      constructor
      · rintro (⟨j, below, atIndex⟩ | ⟨_, rfl⟩)
        · exact ⟨j, by omega, atIndex⟩
        · exact ⟨(m.nodes n).workerCnt, by omega, picked⟩
      · rintro ⟨j, below, atIndex⟩
        rcases Nat.lt_succ_iff_lt_or_eq.mp below with earlier | rfl
        · exact Or.inl ⟨j, earlier, atIndex⟩
        · exact Or.inr ⟨mine, Option.some.inj (picked.symm.trans atIndex)⟩
  · have same : Function.update m.nodes w.node
        { m.nodes w.node with workerCnt := (m.nodes w.node).workerCnt + 1 } n = m.nodes n :=
      Function.update_of_ne (Ne.symm mine) ..
    refine ⟨sameList, by rw [name]; exact old.taken, ?_, ?_⟩
    · simp only [unbound, after, setNode, List.countP_append, List.countP_cons, same]
      simpa [mine] using count
    · intro x
      simp only [Reads, after, setNode, same]
      rw [reads x, ← old.reads x]
      simp [mine]

theorem Serving.step {a : ManagerAct ν} (old : Serving n inputs k m) (starts : Starts a)
    (next : m.step a = some u) : Serving n inputs k u := by
  have sameList := (chns_of_starts starts next n .chnIn).trans old.list
  have name := name_of_starts starts next n
  cases a with
  | connect _ _ _ => exact False.elim starts
  | shutdown => exact False.elim starts
  | pickChannel i => exact old.pickChannel next
  | runAsThreads other num =>
    cases Option.some.inj next
    rcases m.runAsThreads_cases other num with ⟨_, _, result⟩ | ⟨_, _, _, result⟩ | ⟨runs, _, result⟩
    · rw [result]
      exact old
    · rw [result]
      exact ⟨old.list, lookup_append_isSome old.taken, old.count, old.reads⟩
    · rw [result]
      -- the name of a served node is taken, so another one is being started
      have ne : other ≠ n := by
        rintro rfl
        have taken := old.taken
        rw [runs.2.1] at taken
        simp at taken
      refine ⟨old.list, lookup_append_isSome old.taken, ?_, ?_⟩
      · simpa [unbound, List.countP_append, List.countP_replicate, ne] using old.count
      · intro c
        rw [← old.reads c]
        simp only [Reads, List.mem_append]
        constructor
        · rintro ⟨w, earlier | now, mine, bound⟩
          · exact ⟨w, earlier, mine, bound⟩
          · cases List.eq_of_mem_replicate now
            cases bound
        · rintro ⟨w, member, bound⟩
          exact ⟨w, Or.inl member, bound⟩
  | stopSignal other =>
    cases Option.some.inj next
    have same := field_of_update (u := m.setNode other { m.nodes other with isStop := true }) Node.workerCnt rfl
      (by rfl) n
    exact ⟨sameList, by rw [name]; exact old.taken, by rw [same]; exact old.count, by rw [same]; exact old.reads⟩
  | stopNode other =>
    cases Option.some.inj next
    have same := field_of_update (u := m.stopNode other) Node.workerCnt rfl (by rfl) n
    exact ⟨sameList, by rw [name]; exact old.taken, by rw [same]; exact old.count, by rw [same]; exact old.reads⟩

/-- Going round a list `k` times reaches exactly its first `k` entries. -/
theorem mem_take_iff_round {α : Type*} {l : List α} {x : α} {k : Nat} :
    x ∈ l.take k ↔ ∃ i < k, l[i % l.length]? = some x := by
  rw [List.mem_take_iff_getElem]
  constructor
  · rintro ⟨i, below, rfl⟩
    have : i < l.length := by omega
    exact ⟨i, by omega, by rw [Nat.mod_eq_of_lt this, List.getElem?_eq_getElem this]⟩
  · rintro ⟨i, below, atIndex⟩
    obtain ⟨inside, rfl⟩ := List.getElem?_eq_some_iff.mp atIndex
    have : i % l.length ≤ i := Nat.mod_le _ _
    exact ⟨i % l.length, by omega, rfl⟩

/-- Once all workers of a started node are bound, the input channels that they read are the
first `num` entries of its list and no others. -/
theorem readers_of_first_channels (nodes : ν → Node) (idle : ∀ n, (nodes n).workerCnt = 0)
    (calls : List (Connection ν)) (before after : List (ManagerAct ν)) (n : ν) (num : Int) (mid m : NodeManager ν)
    (quietBefore : ∀ a ∈ before, Starts a) (quietAfter : ∀ a ∈ after, Starts a)
    (built : run step ((init nodes).connectAll calls) before = some mid)
    (started : (mid.runAsThreads n num).1 = .ok true)
    (reach : run step (mid.runAsThreads n num).2 after = some m)
    (bound : ∀ w ∈ m.workerList, w.node = n → w.channel.isSome) (c : Nat) :
    m.Reads n c ↔ c ∈ (m.chns n .chnIn).take num.toNat := by
  have fresh : Registered ((init nodes).connectAll calls) := by
    constructor
    · intro w member
      rw [connectAll_workerList] at member
      cases member
    · intro n _
      rw [connectAll_field Node.workerCnt Node.addChannel_workerCnt]
      exact idle n
  have registered := registered_of_run fresh quietBefore built
  have runs : mid.Runs n num := by
    rcases mid.runAsThreads_cases n num with ⟨_, ⟨_, fails⟩, _⟩ | ⟨_, ⟨_, fails⟩, _⟩ | ⟨runs, _, _⟩
    · rw [fails] at started
      cases started
    · rw [fails] at started
      cases started
    · exact runs
  have serving : Serving n (mid.chns n .chnIn) num.toNat m :=
    run_invariant_along (fun _ _ _ old starts next => old.step starts next) (.start registered runs)
      (along_of_forall fun a member _ => quietAfter a member) reach
  have all : m.unbound n = 0 := by
    refine List.countP_eq_zero.mpr fun w member => ?_
    simp only [decide_eq_true_eq]
    rintro ⟨mine, free⟩
    simpa [free] using bound w member mine
  have count := serving.count
  rw [all, Nat.add_zero] at count
  rw [serving.reads c, count, serving.list, mem_take_iff_round]

/-- Both duplex nodes feed the collector, each over a channel of its own. -/
def fanIn : List (Connection Nat) := [⟨0, 2, false⟩, ⟨1, 2, false⟩]

theorem services_idle (n : Nat) : (services n).workerCnt = 0 := by
  unfold services
  split <;> rfl

theorem readers_of_first_channels_two_workers :
    ∃ m, run step ((init services).connectAll fanIn) [.runAsThreads 2 2, .pickChannel 1, .pickChannel 0] = some m ∧
      m.chns 2 .chnIn = [0, 1] ∧ m.Reads 2 0 ∧ m.Reads 2 1 := by
  have started : (((init services).connectAll fanIn).runAsThreads 2 2).1 = .ok true := by decide
  obtain ⟨m, reach, inputs, bound⟩ : ∃ m, run step (((init services).connectAll fanIn).runAsThreads 2 2).2
      [.pickChannel 1, .pickChannel 0] = some m ∧ m.chns 2 .chnIn = [0, 1] ∧
      ∀ w ∈ m.workerList, w.node = 2 → w.channel.isSome := ⟨_, rfl, by decide, by decide⟩
  have readers := readers_of_first_channels services services_idle fanIn [] [.pickChannel 1, .pickChannel 0] 2 2
    _ m (by simp) (by simp [Starts]) rfl started reach bound
  exact ⟨m, reach, inputs, (readers 0).mpr (by rw [inputs]; decide), (readers 1).mpr (by rw [inputs]; decide)⟩

/-- With one worker the second of the two channels is never read. -/
theorem one_worker_leaves_channel :
    ¬ ∀ (nodes : Nat → Node) (calls : List (Connection Nat)) (n : Nat) (num : Int) (after : List (ManagerAct Nat))
      (m : NodeManager Nat), (∀ n ct, (nodes n).channels ct = []) → (∀ n, (nodes n).workerCnt = 0) → num ≥ 1 →
      (((init nodes).connectAll calls).runAsThreads n num).1 = .ok true → (∀ a ∈ after, Starts a) →
      run step (((init nodes).connectAll calls).runAsThreads n num).2 after = some m →
      m.chns n .chnIn ≠ [] → (∀ w ∈ m.workerList, w.node = n → w.channel.isSome) →
      ∀ c ∈ m.chns n .chnIn, m.Reads n c := by
  intro claim
  obtain ⟨m, reach, inputs, bound, only⟩ : ∃ m, run step (((init services).connectAll fanIn).runAsThreads 2 1).2
      [.pickChannel 0] = some m ∧ m.chns 2 .chnIn = [0, 1] ∧
      (∀ w ∈ m.workerList, w.node = 2 → w.channel.isSome) ∧ m.workerList = [⟨2, some 0⟩] :=
    ⟨_, rfl, by decide, by decide, by decide⟩
  obtain ⟨w, member, _, reads⟩ := claim services fanIn 2 1 [.pickChannel 0] m services_fresh services_idle
    (by decide) (by decide) (by simp [Starts]) reach (by simp [inputs]) bound 1 (by simp [inputs])
  rw [only] at member
  cases List.mem_singleton.mp member
  cases reads

end ServicesFramework.NodeManager
