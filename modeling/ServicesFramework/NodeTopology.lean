import Mathlib.Tactic
import ServicesFramework.NodeManager

namespace ServicesFramework.NodeManager

variable {ν : Type*} [DecidableEq ν] {m u : NodeManager ν} {up down n : ν} {c x : Nat} {ct : ChnType}

@[simp] theorem setNode_self {node : Node} : (m.setNode n node).nodes n = node := Function.update_self ..

theorem setNode_other {node : Node} {other : ν} (ne : other ≠ n) : (m.setNode n node).nodes other = m.nodes other :=
  Function.update_of_ne ne ..

@[simp] theorem addChannel_made : (m.addChannel n c ct).made = m.made := rfl

@[simp] theorem addChannel_channelList : (m.addChannel n c ct).channelList = m.channelList := rfl

theorem mem_addChannel {node : ν} {list : ChnType} :
    x ∈ (m.addChannel n c ct).chns node list ↔ x ∈ m.chns node list ∨ node = n ∧ list = ct ∧ x = c := by
  unfold chns addChannel
  by_cases same : node = n
  · subst node
    rw [setNode_self, Node.channels_addChannel]
    split <;> simp_all
  · rw [setNode_other same]
    simp [same]

/-- What a `Connect` that does not throw does to the channel lists, seen as sets: one channel
is put at both ends, whichever branch finds or makes it. -/
def Joins (m u : NodeManager ν) (up down : ν) (c : Nat) : Prop :=
  ∀ x n ct, x ∈ u.chns n ct ↔ x ∈ m.chns n ct ∨ x = c ∧ (n = up ∧ ct = .chnOut ∨ n = down ∧ ct = .chnIn)

theorem joins_create : Joins m (m.create up down) up down m.made := by
  intro x n ct
  have lists : x ∈ (m.create up down).chns n ct ↔
      (x ∈ m.chns n ct ∨ n = up ∧ ct = .chnOut ∧ x = m.made) ∨ n = down ∧ ct = .chnIn ∧ x = m.made := by
    rw [← mem_addChannel, ← mem_addChannel]
    rfl
  rw [lists]
  tauto

theorem joins_addChannel_down (member : c ∈ m.chns up .chnOut) :
    Joins m (m.addChannel down c .chnIn) up down c := by
  intro x n ct
  rw [mem_addChannel]
  constructor
  · rintro (old | ⟨node, list, same⟩)
    · exact Or.inl old
    · exact Or.inr ⟨same, Or.inr ⟨node, list⟩⟩
  · rintro (old | ⟨rfl, ⟨rfl, rfl⟩ | ⟨rfl, rfl⟩⟩)
    · exact Or.inl old
    · exact Or.inl member
    · exact Or.inr ⟨rfl, rfl, rfl⟩

theorem joins_addChannel_up (member : c ∈ m.chns down .chnIn) : Joins m (m.addChannel up c .chnOut) up down c := by
  intro x n ct
  rw [mem_addChannel]
  constructor
  · rintro (old | ⟨node, list, same⟩)
    · exact Or.inl old
    · exact Or.inr ⟨same, Or.inl ⟨node, list⟩⟩
  · rintro (old | ⟨rfl, ⟨rfl, rfl⟩ | ⟨rfl, rfl⟩⟩)
    · exact Or.inl old
    · exact Or.inr ⟨rfl, rfl, rfl⟩
    · exact Or.inl member

/-- The state after a `Connect`, branch by branch. -/
theorem connect_cases (m : NodeManager ν) (up down : ν) (reuseChn : Bool) :
    (¬ m.Accepts up down ∧ (m.connect up down reuseChn).2 = m) ∨
      (m.Accepts up down ∧ ∃ c ∈ m.chns up .chnOut, reuseChn = true ∧
        (m.connect up down reuseChn).2 = m.addChannel down c .chnIn) ∨
      (m.Accepts up down ∧ ∃ c ∈ m.chns down .chnIn, reuseChn = true ∧ m.chns up .chnOut = [] ∧
        (m.connect up down reuseChn).2 = m.addChannel up c .chnOut) ∨
      (m.Accepts up down ∧ (reuseChn = false ∨ m.chns up .chnOut = [] ∧ m.chns down .chnIn = []) ∧
        (m.connect up down reuseChn).2 = m.create up down) := by
  unfold connect Accepts
  split
  · exact Or.inl ⟨fun accepts => accepts.1 (by assumption), rfl⟩
  · rename_i upFits
    split
    · exact Or.inl ⟨fun accepts => accepts.2 (by assumption), rfl⟩
    · rename_i downFits
      refine Or.inr ?_
      cases reuseChn with
      | false => exact Or.inr (Or.inr ⟨⟨upFits, downFits⟩, Or.inl rfl, rfl⟩)
      | true =>
        cases atUp : m.chns up .chnOut with
        | cons c rest =>
          refine Or.inl ⟨⟨upFits, downFits⟩, c, by simp, rfl, ?_⟩
          have full : c ∈ (m.addChannel down c .chnIn).chns up .chnOut :=
            mem_addChannel.mpr (Or.inl (by simp [atUp]))
          have some : ((m.addChannel down c .chnIn).nodes up).getChannelNum .chnOut ≠ 0 :=
            List.ne_nil_of_mem full ∘ List.length_eq_zero_iff.mp
          simp [reuse, atUp, some]
        | nil =>
          cases atDown : m.chns down .chnIn with
          | cons c rest =>
            refine Or.inr (Or.inl ⟨⟨upFits, downFits⟩, c, by simp, rfl, rfl, ?_⟩)
            have full : c ∈ (m.addChannel up c .chnOut).chns down .chnIn :=
              mem_addChannel.mpr (Or.inl (by simp [atDown]))
            have some : ((m.addChannel up c .chnOut).nodes down).getChannelNum .chnIn ≠ 0 :=
              List.ne_nil_of_mem full ∘ List.length_eq_zero_iff.mp
            simp [reuse, atUp, atDown, some]
          | nil =>
            refine Or.inr (Or.inr ⟨⟨upFits, downFits⟩, Or.inr ⟨rfl, rfl⟩, ?_⟩)
            have noneUp : (m.nodes up).getChannelNum .chnOut = 0 := List.length_eq_zero_iff.mpr atUp
            have noneDown : (m.nodes down).getChannelNum .chnIn = 0 := List.length_eq_zero_iff.mpr atDown
            simp [reuse, atUp, atDown, noneUp, noneDown]

/-- A `Connect` that does not throw joins its two nodes by a new channel or by one that
either of them has. -/
theorem connect_joins (accepts : m.Accepts up down) (reuseChn : Bool) :
    ∃ c, Joins m (m.connect up down reuseChn).2 up down c ∧
      ((c = m.made ∧ (m.connect up down reuseChn).2.made = m.made + 1 ∧
          (m.connect up down reuseChn).2.channelList = m.channelList ++ [m.made]) ∨
        ((c ∈ m.chns up .chnOut ∨ c ∈ m.chns down .chnIn) ∧ (m.connect up down reuseChn).2.made = m.made ∧
          (m.connect up down reuseChn).2.channelList = m.channelList)) := by
  rcases m.connect_cases up down reuseChn with ⟨rejects, _⟩ | ⟨_, c, member, _, result⟩ |
    ⟨_, c, member, _, _, result⟩ | ⟨_, _, result⟩
  · exact absurd accepts rejects
  · rw [result]
    exact ⟨c, joins_addChannel_down member, Or.inr ⟨Or.inl member, rfl, rfl⟩⟩
  · rw [result]
    exact ⟨c, joins_addChannel_up member, Or.inr ⟨Or.inr member, rfl, rfl⟩⟩
  · rw [result]
    exact ⟨m.made, joins_create, Or.inl ⟨rfl, rfl, rfl⟩⟩

/-- `Connect` changes nothing of a node but its channel lists. -/
theorem connect_field {β : Type*} (f : Node → β)
    (keeps : ∀ (node : Node) (c : Nat) (ct : ChnType), f (node.addChannel c ct) = f node)
    (m : NodeManager ν) (up down n : ν) (reuseChn : Bool) :
    f ((m.connect up down reuseChn).2.nodes n) = f (m.nodes n) := by
  have added (m : NodeManager ν) (node : ν) (c : Nat) (ct : ChnType) :
      f ((m.addChannel node c ct).nodes n) = f (m.nodes n) := by
    unfold addChannel
    by_cases same : n = node
    · subst n
      rw [setNode_self, keeps]
    · rw [setNode_other same]
  rcases m.connect_cases up down reuseChn with ⟨_, result⟩ | ⟨_, _, _, _, result⟩ |
    ⟨_, _, _, _, _, result⟩ | ⟨_, _, result⟩
  · rw [result]
  · rw [result, added]
  · rw [result, added]
  · rw [result]
    exact (added _ _ _ _).trans (added _ _ _ _)

/-- `Connect` starts and stops nothing. -/
theorem connect_rest (m : NodeManager ν) (up down : ν) (reuseChn : Bool) :
    (m.connect up down reuseChn).2.nodeList = m.nodeList ∧ (m.connect up down reuseChn).2.workerList = m.workerList ∧
      (m.connect up down reuseChn).2.stop = m.stop ∧ (m.connect up down reuseChn).2.log = m.log := by
  rcases m.connect_cases up down reuseChn with ⟨_, result⟩ | ⟨_, _, _, _, result⟩ |
    ⟨_, _, _, _, _, result⟩ | ⟨_, _, result⟩ <;> rw [result] <;> exact ⟨rfl, rfl, rfl, rfl⟩

@[simp] theorem connectAll_nil : m.connectAll [] = m := rfl

theorem connectAll_snoc (calls : List (Connection ν)) (call : Connection ν) :
    m.connectAll (calls ++ [call]) = ((m.connectAll calls).connect call.up call.down call.reuseChn).2 := by
  simp [connectAll]

theorem connectAll_field {β : Type*} (f : Node → β)
    (keeps : ∀ (node : Node) (c : Nat) (ct : ChnType), f (node.addChannel c ct) = f node)
    (m : NodeManager ν) (calls : List (Connection ν)) (n : ν) :
    f ((m.connectAll calls).nodes n) = f (m.nodes n) := by
  induction calls using List.reverseRecOn with
  | nil => rfl
  | append_singleton calls call ih => rw [connectAll_snoc, connect_field f keeps, ih]

theorem connectAll_workerList (m : NodeManager ν) (calls : List (Connection ν)) :
    (m.connectAll calls).workerList = m.workerList := by
  induction calls using List.reverseRecOn with
  | nil => rfl
  | append_singleton calls call ih => rw [connectAll_snoc, (connect_rest _ _ _ _).2.1, ih]

theorem accepts_connectAll {calls : List (Connection ν)} :
    (m.connectAll calls).Accepts up down ↔ m.Accepts up down := by
  simp only [Accepts, connectAll_field Node.type Node.addChannel_type]

/-- The shape of every topology that `Connect` builds. -/
structure Wired (m : NodeManager ν) : Prop where
  heard : ∀ u c, c ∈ m.chns u .chnOut → ∃ d, c ∈ m.chns d .chnIn
  fed : ∀ d c, c ∈ m.chns d .chnIn → ∃ u, c ∈ m.chns u .chnOut
  made : ∀ n ct c, c ∈ m.chns n ct → c < m.made
  listed : m.channelList = List.range m.made

omit [DecidableEq ν] in
theorem Wired.init {nodes : ν → Node} (fresh : ∀ n ct, (nodes n).channels ct = []) : Wired (init nodes) where
  heard u c member := by simp [chns, NodeManager.init, fresh] at member
  fed d c member := by simp [chns, NodeManager.init, fresh] at member
  made n ct c member := by simp [chns, NodeManager.init, fresh] at member
  listed := rfl

theorem Wired.connect (old : Wired m) (up down : ν) (reuseChn : Bool) : Wired (m.connect up down reuseChn).2 := by
  by_cases accepts : m.Accepts up down
  · obtain ⟨c, joins, origin⟩ := connect_joins accepts reuseChn
    have atUp : c ∈ (m.connect up down reuseChn).2.chns up .chnOut := (joins _ _ _).mpr (Or.inr ⟨rfl, by simp⟩)
    have atDown : c ∈ (m.connect up down reuseChn).2.chns down .chnIn := (joins _ _ _).mpr (Or.inr ⟨rfl, by simp⟩)
    refine ⟨?_, ?_, ?_, ?_⟩
    · intro u x member
      rcases (joins x u .chnOut).mp member with earlier | ⟨rfl, _⟩
      · obtain ⟨d, reads⟩ := old.heard u x earlier
        exact ⟨d, (joins x d .chnIn).mpr (Or.inl reads)⟩
      · exact ⟨down, atDown⟩
    · intro d x member
      rcases (joins x d .chnIn).mp member with earlier | ⟨rfl, _⟩
      · obtain ⟨u, writes⟩ := old.fed d x earlier
        exact ⟨u, (joins x u .chnOut).mpr (Or.inl writes)⟩
      · exact ⟨up, atUp⟩
    · intro n ct x member
      rcases (joins x n ct).mp member with earlier | ⟨rfl, _⟩
      · have bound := old.made n ct x earlier
        rcases origin with ⟨_, made, _⟩ | ⟨_, made, _⟩ <;> omega
      · rcases origin with ⟨same, made, _⟩ | ⟨writes | reads, made, _⟩
        · omega
        · rw [made]
          exact old.made _ _ x writes
        · rw [made]
          exact old.made _ _ x reads
    · rcases origin with ⟨_, made, listed⟩ | ⟨_, made, listed⟩
      · rw [made, listed, old.listed, List.range_succ]
      · rw [made, listed, old.listed]
  · rcases m.connect_cases up down reuseChn with ⟨_, result⟩ | ⟨now, _⟩ | ⟨now, _⟩ | ⟨now, _⟩
    · rw [result]
      exact old
    all_goals exact absurd now accepts

theorem connect_keeps (m : NodeManager ν) (up down : ν) (reuseChn : Bool) (member : c ∈ m.chns n ct) :
    c ∈ (m.connect up down reuseChn).2.chns n ct := by
  by_cases accepts : m.Accepts up down
  · obtain ⟨_, joins, _⟩ := connect_joins accepts reuseChn
    exact (joins c n ct).mpr (Or.inl member)
  · rcases m.connect_cases up down reuseChn with ⟨_, result⟩ | ⟨now, _⟩ | ⟨now, _⟩ | ⟨now, _⟩
    · rwa [result]
    all_goals exact absurd now accepts

theorem wired_connectAll (wired : Wired m) (calls : List (Connection ν)) : Wired (m.connectAll calls) := by
  induction calls using List.reverseRecOn with
  | nil => exact wired
  | append_singleton calls call ih =>
    rw [connectAll_snoc]
    exact ih.connect _ _ _

/-- A pair that was connected shares a channel from then on. -/
theorem connectAll_shares {calls : List (Connection ν)} {call : Connection ν} (member : call ∈ calls)
    (accepts : m.Accepts call.up call.down) :
    ∃ c, c ∈ (m.connectAll calls).chns call.up .chnOut ∧ c ∈ (m.connectAll calls).chns call.down .chnIn := by
  induction calls using List.reverseRecOn with
  | nil => cases member
  | append_singleton calls last ih =>
    rw [connectAll_snoc]
    rcases List.mem_append.mp member with earlier | now
    · obtain ⟨c, atUp, atDown⟩ := ih earlier
      exact ⟨c, connect_keeps _ _ _ _ atUp, connect_keeps _ _ _ _ atDown⟩
    · cases List.mem_singleton.mp now
      obtain ⟨c, joins, _⟩ := connect_joins (accepts_connectAll.mpr accepts) call.reuseChn
      exact ⟨c, (joins _ _ _).mpr (Or.inr ⟨rfl, by simp⟩), (joins _ _ _).mpr (Or.inr ⟨rfl, by simp⟩)⟩

theorem creates_eq (m : NodeManager ν) (call : Connection ν) :
    (m.connect call.up call.down call.reuseChn).2.made = m.made + (m.creates call).toList.length ∧
      ∀ c, m.creates call = some c → c = m.made := by
  have grows : (m.connect call.up call.down call.reuseChn).2.made = m.made ∨
      (m.connect call.up call.down call.reuseChn).2.made = m.made + 1 := by
    rcases m.connect_cases call.up call.down call.reuseChn with ⟨_, result⟩ | ⟨_, _, _, _, result⟩ |
      ⟨_, _, _, _, _, result⟩ | ⟨_, _, result⟩
    · exact Or.inl (by rw [result])
    · exact Or.inl (by rw [result]; rfl)
    · exact Or.inl (by rw [result]; rfl)
    · exact Or.inr (by rw [result]; rfl)
  unfold creates
  rcases grows with same | grown
  · simp [same]
  · simp [grown, eq_comm]

/-- Call number `i` of the sequence is the one that made channel `c`. -/
def MadeBy (m : NodeManager ν) (calls : List (Connection ν)) (i c : Nat) : Prop :=
  ∃ call, calls[i]? = some call ∧ (m.connectAll (calls.take i)).creates call = some c

theorem madeBy_snoc {calls : List (Connection ν)} {call : Connection ν} {i : Nat} :
    MadeBy m (calls ++ [call]) i c ↔
      MadeBy m calls i c ∨ i = calls.length ∧ (m.connectAll calls).creates call = some c := by
  unfold MadeBy
  rcases Nat.lt_trichotomy i calls.length with before | same | after
  · rw [List.getElem?_append_left before, List.take_append_of_le_length before.le]
    simp [before.ne]
  · subst i
    simp
  · have beyond : (calls ++ [call])[i]? = none := List.getElem?_eq_none (by simp; omega)
    have beyondBefore : calls[i]? = none := List.getElem?_eq_none after.le
    simp [beyond, beyondBefore, after.ne']

theorem existsUnique_madeBy (start : m.made = 0) (calls : List (Connection ν)) :
    (∀ c < (m.connectAll calls).made, ∃! i, MadeBy m calls i c) ∧
      ∀ i c, MadeBy m calls i c → c < (m.connectAll calls).made := by
  induction calls using List.reverseRecOn with
  | nil => simp [start, MadeBy]
  | append_singleton calls call ih =>
    obtain ⟨unique, bound⟩ := ih
    obtain ⟨count, fresh⟩ := (m.connectAll calls).creates_eq call
    rw [connectAll_snoc]
    constructor
    · intro c below
      by_cases earlier : c < (m.connectAll calls).made
      · obtain ⟨i, made, only⟩ := unique c earlier
        refine ⟨i, madeBy_snoc.mpr (Or.inl made), ?_⟩
        intro j again
        rcases madeBy_snoc.mp again with before | ⟨_, now⟩
        · exact only j before
        · have := fresh c now
          omega
      · have now : (m.connectAll calls).creates call = some c := by
          cases made : (m.connectAll calls).creates call with
          | none =>
            rw [count, made] at below
            exact absurd below (by simpa using earlier)
          | some d =>
            have same := fresh d made
            rw [count, made] at below
            simp only [Option.toList_some, List.length_singleton] at below
            rw [show c = d by omega]
        refine ⟨calls.length, madeBy_snoc.mpr (Or.inr ⟨rfl, now⟩), ?_⟩
        intro j again
        rcases madeBy_snoc.mp again with before | ⟨same, _⟩
        · exact absurd (bound j c before) earlier
        · exact same
    · intro i c made
      rcases madeBy_snoc.mp made with before | ⟨_, now⟩
      · have := bound i c before
        omega
      · have := fresh c now
        rw [count, now]
        simp only [Option.toList_some, List.length_singleton]
        omega

/-- Whatever is connected to whatever, in any order: every connected pair shares a channel,
every channel has both ends, and was made by one call, which put it in `channel_list_`. -/
theorem connect_topology (nodes : ν → Node) (fresh : ∀ n ct, (nodes n).channels ct = [])
    (calls : List (Connection ν)) (m : NodeManager ν) (built : m = (init nodes).connectAll calls) :
    (∀ call ∈ calls, (nodes call.up).type ≠ .sink → (nodes call.down).type ≠ .source →
      ∃ c, c ∈ m.chns call.up .chnOut ∧ c ∈ m.chns call.down .chnIn) ∧
    (∀ c, (∃ u, c ∈ m.chns u .chnOut) ↔ ∃ d, c ∈ m.chns d .chnIn) ∧
    (∀ n ct c, c ∈ m.chns n ct → (∃! i, MadeBy (init nodes) calls i c) ∧ m.channelList.count c = 1) := by
  subst built
  have wired := wired_connectAll (.init fresh) calls
  refine ⟨?_, ?_, ?_⟩
  · intro call member up down
    exact connectAll_shares member ⟨up, down⟩
  · intro c
    exact ⟨fun ⟨u, writes⟩ => wired.heard u c writes, fun ⟨d, reads⟩ => wired.fed d c reads⟩
  · intro n ct c member
    have below := wired.made n ct c member
    refine ⟨(existsUnique_madeBy rfl calls).1 c below, ?_⟩
    rw [wired.listed]
    exact List.count_eq_one_of_mem List.nodup_range (List.mem_range.mpr below)

/-- A UDP node, a TUN node and two relays, before any of them is connected. -/
def services : Nat → Node
  | 0 => .init "UDP" .fullDuplex false
  | 1 => .init "TUN" .fullDuplex false
  | 2 => .init "collector" .relay false
  | _ => .init "encoder" .relay false

theorem services_fresh (n : Nat) (ct : ChnType) : (services n).channels ct = [] := by
  unfold services
  split <;> cases ct <;> rfl

theorem connect_topology_duplex :
    ∃ c, c ∈ ((init services).connectAll [⟨0, 1, true⟩, ⟨1, 0, false⟩, ⟨1, 1, true⟩]).chns 1 .chnOut ∧
      c ∈ ((init services).connectAll [⟨0, 1, true⟩, ⟨1, 0, false⟩, ⟨1, 1, true⟩]).chns 1 .chnIn :=
  (connect_topology services services_fresh [⟨0, 1, true⟩, ⟨1, 0, false⟩, ⟨1, 1, true⟩] _ rfl).1
    ⟨1, 1, true⟩ (by simp) (by decide) (by decide)

/-- The pairs that are joined by a chain of asked-for pairs, each sharing an end with the
next: `u` to `d₁`, back to `u₁`, on to `d₂`, and so on to `d`. -/
inductive Linked (asked : ν → ν → Prop) : ν → ν → Prop
  | asked {u d : ν} : asked u d → Linked asked u d
  | through {u v e d : ν} : Linked asked u e → Linked asked v e → Linked asked v d → Linked asked u d

omit [DecidableEq ν] in
theorem Linked.mono {asked more : ν → ν → Prop} {u d : ν} (weaker : ∀ u d, asked u d → more u d)
    (linked : Linked asked u d) : Linked more u d := by
  induction linked with
  | asked pair => exact .asked (weaker _ _ pair)
  | through _ _ _ first back last => exact .through first back last

/-- `Connect(u, d)` was called and channel `c` is used from `u` to `d`. -/
def AskedVia (m : NodeManager ν) (calls : List (Connection ν)) (c : Nat) (u d : ν) : Prop :=
  (∃ call ∈ calls, call.up = u ∧ call.down = d) ∧ c ∈ m.chns u .chnOut ∧ c ∈ m.chns d .chnIn

/-- One call more: what was asked for via a channel still is, and so is the pair of the call. -/
theorem linked_connect {calls : List (Connection ν)} {call : Connection ν} (wired : Wired m)
    (accepts : m.Accepts call.up call.down)
    (old : ∀ c u d, c ∈ m.chns u .chnOut → c ∈ m.chns d .chnIn → Linked (AskedVia m calls c) u d)
    {u d : ν} (writes : c ∈ (m.connect call.up call.down call.reuseChn).2.chns u .chnOut)
    (reads : c ∈ (m.connect call.up call.down call.reuseChn).2.chns d .chnIn) :
    Linked (AskedVia (m.connect call.up call.down call.reuseChn).2 (calls ++ [call]) c) u d := by
  obtain ⟨x, joins, origin⟩ := connect_joins accepts call.reuseChn
  have keeps : ∀ u d, c ∈ m.chns u .chnOut → c ∈ m.chns d .chnIn →
      Linked (AskedVia (m.connect call.up call.down call.reuseChn).2 (calls ++ [call]) c) u d := by
    intro u d writes reads
    refine (old c u d writes reads).mono ?_
    rintro v e ⟨⟨earlier, member, ends⟩, writes, reads⟩
    exact ⟨⟨earlier, List.mem_append_left _ member, ends⟩, connect_keeps _ _ _ _ writes,
      connect_keeps _ _ _ _ reads⟩
  have now (same : c = x) : Linked (AskedVia (m.connect call.up call.down call.reuseChn).2 (calls ++ [call]) c)
      call.up call.down := by
    refine .asked ⟨⟨call, by simp, rfl, rfl⟩, ?_, ?_⟩
    · exact (joins _ _ _).mpr (Or.inr ⟨same, by simp⟩)
    · exact (joins _ _ _).mpr (Or.inr ⟨same, by simp⟩)
  rcases (joins c u .chnOut).mp writes with writesOld | ⟨same, ⟨rfl, _⟩ | ⟨_, wrong⟩⟩
  · rcases (joins c d .chnIn).mp reads with readsOld | ⟨same, ⟨_, wrong⟩ | ⟨rfl, _⟩⟩
    · exact keeps u d writesOld readsOld
    · cases wrong
    · subst x
      -- `down` is a new reader: it is linked through `up`, which writes `c` already
      rcases origin with ⟨rfl, _⟩ | ⟨writesUp | readsDown, _⟩
      · exact absurd (wired.made _ _ _ writesOld) (lt_irrefl _)
      · obtain ⟨e, readsE⟩ := wired.heard _ _ writesUp
        exact .through (keeps u e writesOld readsE) (keeps _ e writesUp readsE) (now rfl)
      · exact keeps u _ writesOld readsDown
  · subst x
    rcases (joins c d .chnIn).mp reads with readsOld | ⟨_, ⟨_, wrong⟩ | ⟨rfl, _⟩⟩
    · -- `up` is a new writer: it is linked through `down`, which reads `c` already
      rcases origin with ⟨rfl, _⟩ | ⟨writesUp | readsDown, _⟩
      · exact absurd (wired.made _ _ _ readsOld) (lt_irrefl _)
      · exact keeps _ d writesUp readsOld
      · obtain ⟨v, writesV⟩ := wired.fed _ _ readsDown
        exact .through (now rfl) (keeps v _ writesV readsDown) (keeps v d writesV readsOld)
    · cases wrong
    · exact now rfl
  · cases wrong

theorem linked_connectAll {nodes : ν → Node} (fresh : ∀ n ct, (nodes n).channels ct = [])
    (calls : List (Connection ν)) :
    ∀ c u d, c ∈ ((init nodes).connectAll calls).chns u .chnOut → c ∈ ((init nodes).connectAll calls).chns d .chnIn →
      Linked (AskedVia ((init nodes).connectAll calls) calls c) u d := by
  induction calls using List.reverseRecOn with
  | nil =>
    intro c u d writes _
    simp [chns, init, fresh] at writes
  | append_singleton calls call ih =>
    intro c u d writes reads
    rw [connectAll_snoc] at writes reads ⊢
    by_cases accepts : ((init nodes).connectAll calls).Accepts call.up call.down
    · exact linked_connect (wired_connectAll (.init fresh) calls) accepts ih writes reads
    · rcases ((init nodes).connectAll calls).connect_cases call.up call.down call.reuseChn with
        ⟨_, result⟩ | ⟨now, _⟩ | ⟨now, _⟩ | ⟨now, _⟩
      · rw [result] at writes reads ⊢
        refine (ih c u d writes reads).mono ?_
        rintro v e ⟨⟨earlier, member, ends⟩, via⟩
        exact ⟨⟨earlier, List.mem_append_left _ member, ends⟩, via⟩
      all_goals exact absurd now accepts

/-- The collector is connected to both duplex nodes, the encoder to the UDP node only. -/
def sharing : List (Connection Nat) := [⟨2, 0, true⟩, ⟨2, 1, true⟩, ⟨3, 0, true⟩]

/-- A channel leads only to nodes that are linked to its writer by calls of `Connect` over
this very channel, and so does every message that the writer dispatches. -/
theorem delivery_along_links (nodes : ν → Node) (fresh : ∀ n ct, (nodes n).channels ct = [])
    (calls : List (Connection ν)) (m : NodeManager ν) (built : m = (init nodes).connectAll calls) :
    (∀ c u d, c ∈ m.chns u .chnOut → c ∈ m.chns d .chnIn → Linked (AskedVia m calls c) u d) ∧
    ∀ msg c u d, (m.nodes u).dispatch msg = some c → c ∈ m.chns d .chnIn → Linked (AskedVia m calls c) u d := by
  subst built
  have linked := linked_connectAll fresh calls
  exact ⟨linked, fun msg c u d target reads => linked c u d (Node.dispatch_mem target) reads⟩

theorem delivery_along_links_shared :
    Linked (AskedVia ((init services).connectAll sharing) sharing 0) 3 1 :=
  (delivery_along_links services services_fresh sharing _ rfl).1 0 3 1 (by decide) (by decide)

/-- The encoder finds the UDP node's input channel and takes it over, and the TUN node reads
it too. -/
theorem reuse_joins_strangers :
    ¬ ∀ (nodes : Nat → Node) (calls : List (Connection Nat)) (c u d : Nat),
      (∀ n ct, (nodes n).channels ct = []) → (∀ call ∈ calls, call.reuseChn = true) →
      c ∈ ((init nodes).connectAll calls).chns u .chnOut → c ∈ ((init nodes).connectAll calls).chns d .chnIn →
      ∃ call ∈ calls, call.up = u ∧ call.down = d := by
  intro claim
  obtain ⟨call, member, ends⟩ := claim services sharing 0 3 1 services_fresh (by decide) (by decide) (by decide)
  simp only [sharing, List.mem_cons, List.not_mem_nil, or_false] at member
  rcases member with rfl | rfl | rfl <;> simp at ends

end ServicesFramework.NodeManager
