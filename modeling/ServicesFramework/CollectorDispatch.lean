import Mathlib.Tactic
import ServicesFramework.Lib.Machine
import ServicesFramework.Msg

namespace ServicesFramework

/-- The members of `Collector` that `Dispatch` works on. A channel pointer is the number of
the channel object. `written` only records the calls of `WriteMessage`. -/
structure Collector where
  downChannels : List Nat
  udpChannel : Option Nat
  encodeChannles : List Nat
  dispathChnInit : Bool
  written : List (Nat × BaseMsg)
  deriving DecidableEq, Repr

namespace Collector

def init (down : List Nat) : Collector := ⟨down, none, [], false, []⟩

/-- `find(":UDP")` does not return `npos`. -/
def namesUdp (name : String) : Bool := ":UDP".toList <:+: name.toList

variable (name : Nat → String)

/-- The body of the loop that fills the routing table; `name` is `chn->Name()`. -/
def classify (c : Collector) (chn : Nat) : Collector :=
  if namesUdp (name chn) then { c with udpChannel := some chn, dispathChnInit := true }
  else { c with encodeChannles := c.encodeChannles ++ [chn] }

/-- The lazy initialisation at the head of `Dispatch`. -/
def prepare (c : Collector) : Collector :=
  if !c.dispathChnInit then c.downChannels.foldl (classify name) c else c

def write (c : Collector) (chn : Nat) (msg : BaseMsg) : Collector := { c with written := c.written ++ [(chn, msg)] }

/-- `Collector::Dispatch`, or `none` where it divides by the size of an empty table or writes
to a null channel. -/
def dispatch (c : Collector) (msg : BaseMsg) : Option Collector :=
  if c.downChannels = [] then some c
  else
    let c := c.prepare name
    if msg.needCoded then
      if c.encodeChannles.length = 0 then none
      else (c.encodeChannles[msg.id.toNat % c.encodeChannles.length]?).map fun chn => c.write chn msg
    else c.udpChannel.map fun chn => c.write chn msg

/-- The channels that do not lead to the UDP node, in list order. -/
def encoders (down : List Nat) : List Nat := down.filter fun chn => !namesUdp (name chn)

/-- The channels that lead to the UDP node, in list order. -/
def udps (down : List Nat) : List Nat := down.filter fun chn => namesUdp (name chn)

variable {name} {down : List Nat} {n : Nat} {c c' : Collector} {msg : BaseMsg} {msgs : List BaseMsg}

/-- What one run of the loop adds to the tables. -/
theorem foldl_classify (down : List Nat) (c : Collector) :
    down.foldl (classify name) c = { c with
      udpChannel := (udps name down).getLast?.or c.udpChannel
      encodeChannles := c.encodeChannles ++ encoders name down
      dispathChnInit := c.dispathChnInit || !(udps name down).isEmpty } := by
  induction down using List.reverseRecOn with
  | nil => simp [udps, encoders]
  | append_singleton down chn ih =>
    rw [List.foldl_append, ih, List.foldl_cons, List.foldl_nil, classify]
    by_cases udp : namesUdp (name chn) = true
    · simp [udps, encoders, List.filter_append, udp]
    · simp [udps, encoders, List.filter_append, udp]

/-- How the tables look after `n` calls: without a UDP channel the flag is never set, and
every call appends the whole list once more. -/
structure Built (name : Nat → String) (down : List Nat) (n : Nat) (c : Collector) : Prop where
  list : c.downChannels = down
  encode : c.encodeChannles =
    (List.replicate (if udps name down = [] then n else min n 1) (encoders name down)).flatten
  udp : c.udpChannel = if n = 0 then none else (udps name down).getLast?
  init : c.dispathChnInit = true ↔ 0 < n ∧ udps name down ≠ []

theorem Built.start (down : List Nat) : Built name down 0 (.init down) where
  list := rfl
  encode := by simp [Collector.init]
  udp := rfl
  init := by simp [Collector.init]

theorem Built.prepare (built : Built name down n c) : Built name down (n + 1) (c.prepare name) := by
  unfold Collector.prepare
  cases flag : c.dispathChnInit with
  | true =>
    obtain ⟨positive, some⟩ := built.init.mp flag
    refine ⟨built.list, ?_, ?_, ?_⟩
    · simp only [Bool.not_true, Bool.false_eq_true, if_false]
      rw [built.encode, if_neg some, if_neg some, min_eq_right positive, min_eq_right (by omega)]
    · simp only [Bool.not_true, Bool.false_eq_true, if_false]
      rw [built.udp, if_neg positive.ne', if_neg (by omega)]
    · simp [flag, some]
  | false =>
    -- with a UDP channel the flag is set by the first call
    have first (some : udps name down ≠ []) : n = 0 := by
      by_contra called
      exact absurd (built.init.mpr ⟨Nat.pos_of_ne_zero called, some⟩) (by simp [flag])
    simp only [Bool.not_false, if_true]
    rw [foldl_classify, built.list]
    refine ⟨rfl, ?_, ?_, ?_⟩
    · simp only
      rw [built.encode]
      by_cases none : udps name down = []
      · rw [if_pos none, if_pos none, List.replicate_succ', List.flatten_append, List.flatten_singleton]
      · obtain rfl := first none
        simp [none]
    · simp only
      rw [built.udp, if_neg (Nat.succ_ne_zero n)]
      by_cases none : udps name down = []
      · rw [none]
        split <;> rfl
      · obtain rfl := first none
        simp
    · simp [flag]

theorem Built.write (built : Built name down n c) (chn : Nat) (msg : BaseMsg) : Built name down n (c.write chn msg) :=
  ⟨built.list, built.encode, built.udp, built.init⟩

/-- Everything that a call which returns can do, on a list of channels that is not empty. -/
theorem dispatch_cases (any : c.downChannels ≠ []) (next : c.dispatch name msg = some c') :
    ∃ chn, c' = (c.prepare name).write chn msg ∧
      (msg.needCoded = true ∧ (c.prepare name).encodeChannles[msg.id.toNat % (c.prepare name).encodeChannles.length]? =
          some chn ∨
        msg.needCoded = false ∧ (c.prepare name).udpChannel = some chn) := by
  unfold dispatch at next
  rw [if_neg any] at next
  dsimp only at next
  cases coded : msg.needCoded with
  | true =>
    rw [if_pos coded] at next
    split at next
    · cases next
    · obtain ⟨chn, here, rfl⟩ := Option.map_eq_some_iff.mp next
      exact ⟨chn, rfl, Or.inl ⟨rfl, here⟩⟩
  | false =>
    rw [if_neg (by simp [coded])] at next
    obtain ⟨chn, here, rfl⟩ := Option.map_eq_some_iff.mp next
    exact ⟨chn, rfl, Or.inr ⟨rfl, here⟩⟩

theorem Built.dispatch (built : Built name down n c) (any : down ≠ []) (next : c.dispatch name msg = some c') :
    Built name down (n + 1) c' := by
  obtain ⟨chn, rfl, _⟩ := dispatch_cases (by rwa [built.list]) next
  exact built.prepare.write chn msg

theorem built_of_run (any : down ≠ []) (reach : Machine.run (dispatch name) (init down) msgs = some c) :
    Built name down msgs.length c := by
  induction msgs using List.reverseRecOn generalizing c with
  | nil =>
    cases Option.some.inj reach
    exact .start down
  | append_singleton msgs msg ih =>
    obtain ⟨before, reach, next⟩ := Machine.run_snoc.mp reach
    rw [List.length_append, List.length_singleton]
    exact (ih reach).dispatch any next

/-- The routing table as the comments of the class have it. -/
def Routed (name : Nat → String) (down : List Nat) (c : Collector) : Prop :=
  c.encodeChannles = encoders name down ∧ c.udpChannel = (udps name down).getLast?

theorem Built.routed_iff (built : Built name down n c) (called : n ≠ 0) (any : down ≠ []) :
    c.Routed name down ↔ udps name down ≠ [] ∨ n = 1 := by
  have udp : c.udpChannel = (udps name down).getLast? := by rw [built.udp, if_neg called]
  rw [Routed, built.encode, and_iff_left udp]
  by_cases none : udps name down = []
  · have all : encoders name down = down := by
      refine List.filter_eq_self.mpr fun chn member => ?_
      have other := List.filter_eq_nil_iff.mp none chn member
      simpa using other
    rw [if_pos none, all]
    constructor
    · intro same
      have size := congrArg List.length same
      rw [List.length_flatten, List.map_replicate, List.sum_replicate, smul_eq_mul] at size
      exact Or.inr (Nat.eq_of_mul_eq_mul_right (List.length_pos_iff.mpr any) (by omega))
    · rintro (udps | rfl)
      · exact absurd none udps
      · simp
  · have once : min n 1 = 1 := min_eq_right (Nat.pos_of_ne_zero called)
    simp [none, once]

/-- The table is built once exactly where some channel sets the flag, or where there was one
call. -/
theorem routing_table_built_once_iff (name : Nat → String) (down : List Nat) (any : down ≠ []) (msgs : List BaseMsg)
    (last : Collector) (returned : Machine.run (dispatch name) (init down) msgs = some last) :
    (∀ before after c, msgs = before ++ after → before ≠ [] →
      Machine.run (dispatch name) (init down) before = some c →
        c.encodeChannles = down.filter (fun chn => !namesUdp (name chn)) ∧
          c.udpChannel = (down.filter fun chn => namesUdp (name chn)).getLast?) ↔
    (∃ chn ∈ down, namesUdp (name chn) = true) ∨ msgs.length ≤ 1 := by
  have udp : (∃ chn ∈ down, namesUdp (name chn) = true) ↔ udps name down ≠ [] := by
    rw [udps, ne_eq, List.filter_eq_nil_iff]
    simp
  rw [udp]
  constructor
  · intro routed
    by_contra neither
    rw [not_or, not_not, not_le] at neither
    obtain ⟨none, two⟩ := neither
    -- the state after the second call is already wrong
    have split : msgs = msgs.take 2 ++ msgs.drop 2 := (List.take_append_drop 2 msgs).symm
    have size : (msgs.take 2).length = 2 := List.length_take_of_le two
    obtain ⟨c, reach, _⟩ := Machine.run_append.mp (split ▸ returned)
    have called : msgs.take 2 ≠ [] := List.length_pos_iff.mp (by omega)
    have built := built_of_run any reach
    rcases (built.routed_iff (by omega) any).mp (routed _ _ c split called reach) with udps | one
    · exact udps none
    · omega
  · rintro condition before after c rfl called reach
    have positive : before.length ≠ 0 := mt List.length_eq_zero_iff.mp called
    refine ((built_of_run any reach).routed_iff positive any).mpr (condition.imp_right fun short => ?_)
    rw [List.length_append] at short
    omega

/-- Channel 2 leads from the collector to the UDP node, every other one to an encoder. -/
def topology (chn : Nat) : String := if chn = 2 then "collector:UDP" else "collector:encoder"

/-- A coded message with this id. -/
def coded (id : UInt32) : BaseMsg := { BaseMsg.init 0 with id := id }

theorem routing_table_built_once_two_calls :
    ∃ c, Machine.run (dispatch topology) (init [0, 2, 1]) [coded 0, coded 1] = some c ∧ c.encodeChannles = [0, 1] := by
  obtain ⟨c, reach⟩ : ∃ c, Machine.run (dispatch topology) (init [0, 2, 1]) [coded 0, coded 1] = some c := ⟨_, rfl⟩
  have routed := (routing_table_built_once_iff topology [0, 2, 1] (by decide) _ c reach).mpr (.inl (by decide))
  exact ⟨c, reach, (routed _ [] c (by simp) (by simp) reach).1⟩

/-- Without a UDP channel the second call appends the encoder once more. -/
theorem routing_table_grows :
    ¬ ∀ (name : Nat → String) (down : List Nat) (msgs : List BaseMsg) (c : Collector), down ≠ [] → msgs ≠ [] →
      Machine.run (dispatch name) (init down) msgs = some c →
        c.encodeChannles = down.filter (fun chn => !namesUdp (name chn)) ∧
          c.udpChannel = (down.filter fun chn => namesUdp (name chn)).getLast? := by
  intro claim
  have routed := claim topology [0] [coded 0, coded 1] _ (by decide) (by simp) rfl
  exact absurd routed.1 (by decide)

/-- A position in a list that is repeated is a position in the list. -/
theorem getElem?_flatten_replicate {α : Type*} (l : List α) {j i : Nat} (below : i < j * l.length) :
    (List.replicate j l).flatten[i]? = l[i % l.length]? := by
  induction j generalizing i with
  | zero => omega
  | succ j ih =>
    rw [List.replicate_succ, List.flatten_cons]
    by_cases first : i < l.length
    · rw [List.getElem?_append_left first, Nat.mod_eq_of_lt first]
    · rw [Nat.succ_mul] at below
      rw [List.getElem?_append_right (by omega), ih (by omega), ← Nat.mod_eq_sub_mod (by omega)]

/-- However often the list has been appended, the modulus is a multiple of its length. -/
theorem Built.encoder (built : Built name down n c) (called : n ≠ 0) (any : encoders name down ≠ []) (id : Nat) :
    c.encodeChannles.length ≠ 0 ∧
      c.encodeChannles[id % c.encodeChannles.length]? = (encoders name down)[id % (encoders name down).length]? := by
  obtain ⟨j, positive, table⟩ : ∃ j, 0 < j ∧ c.encodeChannles = (List.replicate j (encoders name down)).flatten := by
    refine ⟨_, ?_, built.encode⟩
    split <;> omega
  have size : c.encodeChannles.length = j * (encoders name down).length := by
    rw [table, List.length_flatten, List.map_replicate, List.sum_replicate, smul_eq_mul]
  have room : 0 < j * (encoders name down).length := Nat.mul_pos positive (List.length_pos_iff.mpr any)
  refine ⟨by omega, ?_⟩
  rw [size, table, getElem?_flatten_replicate _ (Nat.mod_lt _ room), Nat.mod_mod_of_dvd _ (Nat.dvd_mul_left _ _)]

/-- Where a message goes. -/
def route (name : Nat → String) (down : List Nat) (msg : BaseMsg) : Option Nat :=
  if msg.needCoded then (encoders name down)[msg.id.toNat % (encoders name down).length]?
  else (udps name down).getLast?

theorem route_mem {chn : Nat} (target : route name down msg = some chn) : chn ∈ down := by
  unfold route at target
  split at target
  · exact List.mem_of_mem_filter (List.mem_of_getElem? target)
  · exact List.mem_of_mem_filter (List.mem_of_getLast? target)

/-- A call, after any others: it fails where the tables have no channel for the message. -/
theorem Built.dispatch_eq (built : Built name down n c) (any : down ≠ []) (msg : BaseMsg) :
    c.dispatch name msg = (route name down msg).map fun chn => (c.prepare name).write chn msg := by
  have prepared := built.prepare
  rw [Collector.dispatch, if_neg (by rwa [built.list]), route]
  dsimp only
  cases msg.needCoded with
  | true =>
    rw [if_pos rfl, if_pos rfl]
    by_cases none : encoders name down = []
    · rw [if_pos (by rw [prepared.encode, none]; simp), none]
      rfl
    · obtain ⟨room, same⟩ := prepared.encoder (Nat.succ_ne_zero n) none msg.id.toNat
      rw [if_neg room, same]
  | false =>
    rw [if_neg Bool.false_ne_true, if_neg Bool.false_ne_true, prepared.udp, if_neg (Nat.succ_ne_zero n)]

theorem exists_route (any : encoders name down ≠ []) (raw : msg.needCoded = false → udps name down ≠ []) :
    ∃ chn, route name down msg = some chn := by
  unfold route
  split
  · exact ⟨_, List.getElem?_eq_getElem (Nat.mod_lt _ (List.length_pos_iff.mpr any))⟩
  · rename_i uncoded
    exact ⟨_, List.getLast?_eq_getLast_of_ne_nil (raw (Bool.eq_false_iff.mpr uncoded))⟩

theorem prepare_written : (c.prepare name).written = c.written := by
  unfold Collector.prepare
  split
  · rw [foldl_classify]
  · rfl

/-- Calls for messages that have a channel return, and write each message to its channel. -/
theorem run_of_routes {entries : List (Nat × BaseMsg)}
    (routes : ∀ entry ∈ entries, route name down entry.2 = some entry.1) :
    ∃ c, Machine.run (dispatch name) (init down) (entries.map Prod.snd) = some c ∧
      Built name down entries.length c ∧ c.written = entries := by
  induction entries using List.reverseRecOn with
  | nil => exact ⟨init down, rfl, .start down, rfl⟩
  | append_singleton entries entry ih =>
    obtain ⟨c, reach, built, all⟩ := ih fun other member => routes other (List.mem_append_left _ member)
    have target := routes entry (List.mem_append_right _ List.mem_cons_self)
    have next : c.dispatch name entry.2 = some ((c.prepare name).write entry.1 entry.2) := by
      rw [built.dispatch_eq (List.ne_nil_of_mem (route_mem target)), target, Option.map_some]
    refine ⟨(c.prepare name).write entry.1 entry.2, ?_, ?_, ?_⟩
    · rw [List.map_append]
      exact Machine.run_snoc.mpr ⟨c, reach, next⟩
    · rw [List.length_append, List.length_singleton]
      exact built.prepare.write entry.1 entry.2
    · rw [Collector.write, prepare_written, all]

/-- The messages are written one by one, each to its own channel. -/
theorem run_routes (any : encoders name down ≠ [])
    (raw : ∀ msg ∈ msgs, msg.needCoded = false → udps name down ≠ []) :
    ∃ c, Machine.run (dispatch name) (init down) msgs = some c ∧ Built name down msgs.length c ∧
      c.written.map Prod.snd = msgs ∧ ∀ entry ∈ c.written, route name down entry.2 = some entry.1 := by
  have routes : ∀ entry ∈ msgs.map fun msg => ((route name down msg).getD 0, msg),
      route name down entry.2 = some entry.1 := by
    intro entry member
    obtain ⟨msg, listed, rfl⟩ := List.mem_map.mp member
    obtain ⟨chn, target⟩ := exists_route any (raw msg listed)
    simp [target]
  have same : (msgs.map fun msg => ((route name down msg).getD 0, msg)).map Prod.snd = msgs := by
    rw [List.map_map]
    exact List.map_id msgs
  obtain ⟨c, reach, built, written⟩ := run_of_routes routes
  rw [same] at reach
  rw [List.length_map] at built
  refine ⟨c, reach, built, ?_, ?_⟩
  · rw [written, same]
  · rw [written]
    exact routes

/-- Every message of a sequence of calls is written once, in the order of the calls, and a
coded message with id `i` goes to the encoder number `i` modulo their number, for ever. Only a
message that is not coded needs a UDP channel. -/
theorem coded_messages_keep_encoder (name : Nat → String) (down : List Nat) (any : encoders name down ≠ [])
    (msgs : List BaseMsg)
    (raw : ∀ msg ∈ msgs, msg.needCoded = false → ∃ chn ∈ down, namesUdp (name chn) = true) :
    ∃ c, Machine.run (dispatch name) (init down) msgs = some c ∧ c.written.map Prod.snd = msgs ∧
      ∀ chn msg, (chn, msg) ∈ c.written → msg.needCoded = true →
        (encoders name down)[msg.id.toNat % (encoders name down).length]? = some chn := by
  obtain ⟨c, reach, _, all, routes⟩ := run_routes any fun msg member uncoded => by
    obtain ⟨chn, listed, udp⟩ := raw msg member uncoded
    exact List.ne_nil_of_mem (List.mem_filter.mpr ⟨listed, udp⟩)
  refine ⟨c, reach, all, ?_⟩
  intro chn msg member coded
  have here := routes (chn, msg) member
  rwa [route, if_pos coded] at here

/-- Two encoders and no UDP channel: the third message still goes to the first encoder, with
six entries in the table. -/
theorem coded_messages_keep_encoder_two :
    ∃ c, Machine.run (dispatch topology) (init [0, 1]) [coded 0, coded 1, coded 4] = some c ∧
      c.written.map Prod.snd = [coded 0, coded 1, coded 4] ∧
      ∀ chn msg, (chn, msg) ∈ c.written → msg.needCoded = true →
        (encoders topology [0, 1])[msg.id.toNat % (encoders topology [0, 1]).length]? = some chn :=
  coded_messages_keep_encoder topology [0, 1] (by decide) [coded 0, coded 1, coded 4] (by decide)

end Collector

end ServicesFramework
