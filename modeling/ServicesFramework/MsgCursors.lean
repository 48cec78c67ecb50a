import ServicesFramework.Lib.Machine
import ServicesFramework.Msg

namespace ServicesFramework

open Machine

/-- The calls that move the cursors of a message. -/
inductive MsgCall
  | reserveHeader (size : Nat)
  | pushHeader (size : Nat)
  | fill (buf : List Octet)
  deriving DecidableEq, Repr

namespace MsgCall

def reserves : MsgCall → Nat
  | .reserveHeader size => size
  | .pushHeader _ | .fill _ => 0

def pushes : MsgCall → Nat
  | .pushHeader size => size
  | .reserveHeader _ | .fill _ => 0

def fills : MsgCall → Nat
  | .fill buf => buf.length
  | .reserveHeader _ | .pushHeader _ => 0

/-- The bytes reserved by all of the calls. -/
def reserved (calls : List MsgCall) : Nat := (calls.map reserves).sum

/-- The bytes of all pushed headers. -/
def pushed (calls : List MsgCall) : Nat := (calls.map pushes).sum

/-- The bytes filled by all of the calls. -/
def filled (calls : List MsgCall) : Nat := (calls.map fills).sum

/-- The bytes reserved before the first byte is filled. -/
def headroom : List MsgCall → Nat
  | [] => 0
  | call :: rest => if call.fills = 0 then call.reserves + headroom rest else 0

theorem headroom_append (calls rest : List MsgCall) :
    headroom (calls ++ rest) = headroom calls + if filled calls = 0 then headroom rest else 0 := by
  induction calls with
  | nil => simp [headroom, filled]
  | cons call calls ih =>
    have total : filled (call :: calls) = call.fills + filled calls := by simp [filled]
    by_cases none : call.fills = 0
    · simp only [List.cons_append, headroom, none, if_true, ih, total, Nat.zero_add]
      omega
    · have some : filled (call :: calls) ≠ 0 := by omega
      simp [headroom, none, some]

theorem reserved_append (calls rest : List MsgCall) : reserved (calls ++ rest) = reserved calls + reserved rest := by
  simp [reserved]

theorem pushed_append (calls rest : List MsgCall) : pushed (calls ++ rest) = pushed calls + pushed rest := by
  simp [pushed]

theorem filled_append (calls rest : List MsgCall) : filled (calls ++ rest) = filled calls + filled rest := by
  simp [filled]

/-- What one more call adds to each of the sums. -/
theorem snoc_eq (calls : List MsgCall) (call : MsgCall) :
    reserved (calls ++ [call]) = reserved calls + call.reserves ∧
      pushed (calls ++ [call]) = pushed calls + call.pushes ∧ filled (calls ++ [call]) = filled calls + call.fills ∧
      headroom (calls ++ [call]) = headroom calls + if filled calls = 0 ∧ call.fills = 0 then call.reserves else 0 := by
  refine ⟨?_, ?_, ?_, ?_⟩
  · simp [reserved]
  · simp [pushed]
  · simp [filled]
  · rw [headroom_append, ite_and]
    simp [headroom]

end MsgCall

/-- Two stretches of bytes, each an offset and a length, have no byte in common. -/
def Apart (a b : Nat × Nat) : Prop := ∀ i, ¬ (a.1 ≤ i ∧ i < a.1 + a.2 ∧ b.1 ≤ i ∧ i < b.1 + b.2)

/-- A message, the headers that `pushHeader` has handed out, and the bytes that `fill` has
written, as offsets and lengths. The last two only record. -/
structure MsgUse where
  msg : BaseMsg
  headers : List (Nat × Nat)
  fills : List (Nat × Nat)

namespace MsgUse

def init (len : Nat) : MsgUse := ⟨.init len, [], []⟩

/-- One call, if it reports success. -/
def step (s : MsgUse) : MsgCall → Option MsgUse
  | .reserveHeader size =>
    match s.msg.reserveHeader size with
    | (true, msg) => some { s with msg := msg }
    | (false, _) => none
  | .pushHeader size =>
    (s.msg.pushHeader size).map fun (offset, msg) => { s with msg := msg, headers := s.headers ++ [(offset, size)] }
  | .fill buf =>
    (s.msg.fill buf).map fun msg => { s with msg := msg, fills := s.fills ++ [(s.msg.tail, buf.length)] }

/-- The cursors are in order, and the headers lie inside the buffer, apart from one another
and from the data. -/
structure InOrder (s : MsgUse) : Prop where
  cursors : s.msg.head ≤ s.msg.curr ∧ s.msg.curr ≤ s.msg.tail ∧ s.msg.tail ≤ s.msg.data.capacity
  inside : ∀ header ∈ s.headers, header.1 + header.2 ≤ s.msg.data.capacity
  headers : s.headers.Pairwise Apart
  data : ∀ header ∈ s.headers, ∀ fill ∈ s.fills, Apart header fill

open MsgCall

variable {len : Nat} {calls : List MsgCall} {call : MsgCall} {s u : MsgUse}

/-- Everything that a successful call does. -/
theorem step_cases (next : s.step call = some u) :
    (∃ size, call = .reserveHeader size ∧
      u = { s with msg := { s.msg with curr := s.msg.curr + size, tail := s.msg.tail + size } }) ∨
    (∃ size, call = .pushHeader size ∧ s.msg.head + size ≤ s.msg.curr ∧
      u = { s with msg := { s.msg with head := s.msg.head + size }, headers := s.headers ++ [(s.msg.head, size)] }) ∨
    (∃ buf data, call = .fill buf ∧ data.capacity = s.msg.data.capacity ∧
      s.msg.tail + buf.length ≤ s.msg.data.capacity ∧
      u = { s with
        msg := { s.msg with data := data, tail := s.msg.tail + buf.length },
        fills := s.fills ++ [(s.msg.tail, buf.length)] }) := by
  cases call with
  | reserveHeader size =>
    left
    simp only [step, BaseMsg.reserveHeader] at next
    split_ifs at next
    cases next
    exact ⟨size, rfl, rfl⟩
  | pushHeader size =>
    right; left
    simp only [step, BaseMsg.pushHeader] at next
    split_ifs at next with fits
    · cases next
      exact ⟨size, rfl, fits, rfl⟩
    · cases next
  | fill buf =>
    right; right
    simp only [step, BaseMsg.fill] at next
    split_ifs at next with fits
    · cases next
      exact ⟨buf, _, rfl, GrowArray.write_capacity _ _ _ fits, fits, rfl⟩
    · cases next

/-- The state, read off the calls: each cursor is a sum of sizes, the headers cover the bytes
up to `head_`, and the data begins where the headroom ends. -/
structure Tracked (len : Nat) (calls : List MsgCall) (s : MsgUse) : Prop where
  capacity : s.msg.data.capacity = len
  head : s.msg.head = pushed calls
  curr : s.msg.curr = reserved calls
  tail : s.msg.tail = reserved calls + filled calls
  room : pushed calls ≤ reserved calls
  below : ∀ header ∈ s.headers, header.1 + header.2 ≤ pushed calls
  apart : s.headers.Pairwise Apart
  covered : ∀ i < pushed calls, ∃ header ∈ s.headers, header.1 ≤ i ∧ i < header.1 + header.2
  unfilled : filled calls = 0 → headroom calls = reserved calls ∧ ∀ fill ∈ s.fills, fill.2 = 0
  within : headroom calls ≤ reserved calls
  above : ∀ fill ∈ s.fills, fill.2 ≠ 0 → headroom calls ≤ fill.1
  first : filled calls ≠ 0 → ∃ fill ∈ s.fills, fill.1 = headroom calls ∧ 0 < fill.2

theorem Tracked.start (len : Nat) : Tracked len [] (init len) where
  capacity := by simp [MsgUse.init, BaseMsg.init]
  head := rfl
  curr := rfl
  tail := rfl
  room := le_rfl
  below := nofun
  apart := .nil
  covered := nofun
  unfilled _ := ⟨rfl, nofun⟩
  within := le_rfl
  above := nofun
  first some := absurd rfl some

theorem Tracked.reserveHeader (old : Tracked len calls s) (size : Nat) :
    Tracked len (calls ++ [.reserveHeader size])
      { s with msg := { s.msg with curr := s.msg.curr + size, tail := s.msg.tail + size } } := by
  obtain ⟨reserves, pushes, fills, room⟩ := snoc_eq calls (.reserveHeader size)
  simp only [MsgCall.reserves, MsgCall.pushes, MsgCall.fills, Nat.add_zero, and_true] at reserves pushes fills room
  -- once a byte has been filled, a reservation adds nothing to the headroom
  have headroomKept (some : filled calls ≠ 0) : headroom (calls ++ [.reserveHeader size]) = headroom calls := by
    rw [room, if_neg some, Nat.add_zero]
  refine ⟨old.capacity, ?_, ?_, ?_, ?_, ?_, old.apart, ?_, ?_, ?_, ?_, ?_⟩
  · rw [pushes]
    exact old.head
  · rw [reserves, ← old.curr]
  · change s.msg.tail + size = _
    rw [reserves, fills, old.tail]
    omega
  · have before := old.room
    omega
  · rw [pushes]
    exact old.below
  · rw [pushes]
    exact old.covered
  · intro none
    rw [fills] at none
    rw [room, reserves, if_pos none, (old.unfilled none).1]
    exact ⟨rfl, (old.unfilled none).2⟩
  · have before := old.within
    split_ifs at room <;> omega
  · intro fill member some
    by_cases none : filled calls = 0
    · exact absurd ((old.unfilled none).2 fill member) some
    · rw [headroomKept none]
      exact old.above fill member some
  · intro some
    rw [fills] at some
    rw [headroomKept some]
    exact old.first some

theorem Tracked.pushHeader (old : Tracked len calls s) (size : Nat) (fits : s.msg.head + size ≤ s.msg.curr) :
    Tracked len (calls ++ [.pushHeader size])
      { s with msg := { s.msg with head := s.msg.head + size }, headers := s.headers ++ [(s.msg.head, size)] } := by
  obtain ⟨reserves, pushes, fills, room⟩ := snoc_eq calls (.pushHeader size)
  simp only [MsgCall.reserves, MsgCall.pushes, MsgCall.fills, Nat.add_zero, ite_self] at reserves pushes fills room
  rw [old.head, old.curr] at fits
  refine ⟨old.capacity, ?_, ?_, ?_, by omega, ?_, ?_, ?_, ?_, ?_, ?_, ?_⟩
  · rw [pushes, ← old.head]
  · rw [reserves]
    exact old.curr
  · rw [reserves, fills]
    exact old.tail
  · intro header member
    rw [pushes]
    rcases List.mem_append.mp member with earlier | now
    · exact (old.below header earlier).trans (Nat.le_add_right _ _)
    · cases List.mem_singleton.mp now
      exact (congrArg (· + size) old.head).le
  · refine List.pairwise_append.mpr ⟨old.apart, List.pairwise_singleton _ _, ?_⟩
    intro header earlier last now i
    cases List.mem_singleton.mp now
    have under := old.below header earlier
    have here := old.head
    dsimp only
    omega
  · intro i inside
    rw [pushes] at inside
    by_cases earlier : i < pushed calls
    · obtain ⟨header, member, lower, upper⟩ := old.covered i earlier
      exact ⟨header, List.mem_append_left _ member, lower, upper⟩
    · refine ⟨_, List.mem_append_right _ List.mem_cons_self, ?_⟩
      dsimp only
      rw [old.head]
      omega
  · rw [fills, room, reserves]
    exact old.unfilled
  · rw [room, reserves]
    exact old.within
  · rw [room]
    exact old.above
  · rw [fills, room]
    exact old.first

theorem Tracked.fill (old : Tracked len calls s) (buf : List Octet) {data : GrowArray Octet}
    (same : data.capacity = s.msg.data.capacity) :
    Tracked len (calls ++ [.fill buf])
      { s with
        msg := { s.msg with data := data, tail := s.msg.tail + buf.length },
        fills := s.fills ++ [(s.msg.tail, buf.length)] } := by
  obtain ⟨reserves, pushes, fills, sum⟩ := snoc_eq calls (.fill buf)
  simp only [MsgCall.reserves, MsgCall.pushes, MsgCall.fills, Nat.add_zero] at reserves pushes fills
  have room : headroom (calls ++ [.fill buf]) = headroom calls := by
    rw [sum]
    split <;> rfl
  refine ⟨same.trans old.capacity, ?_, ?_, ?_, ?_, ?_, old.apart, ?_, ?_, ?_, ?_, ?_⟩
  · rw [pushes]
    exact old.head
  · rw [reserves]
    exact old.curr
  · rw [reserves, fills, ← Nat.add_assoc, ← old.tail]
  · rw [pushes, reserves]
    exact old.room
  · rw [pushes]
    exact old.below
  · rw [pushes]
    exact old.covered
  · intro none
    rw [fills] at none
    obtain ⟨whole, empty⟩ := old.unfilled (by omega)
    refine ⟨by rw [room, reserves, whole], ?_⟩
    intro fill member
    rcases List.mem_append.mp member with earlier | now
    · exact empty fill earlier
    · cases List.mem_singleton.mp now
      exact (show buf.length = 0 by omega)
  · rw [room, reserves]
    exact old.within
  · intro fill member some
    rw [room]
    rcases List.mem_append.mp member with earlier | now
    · exact old.above fill earlier some
    · cases List.mem_singleton.mp now
      dsimp only
      rw [old.tail]
      exact old.within.trans (Nat.le_add_right _ _)
  · intro some
    rw [fills] at some
    rw [room]
    by_cases none : filled calls = 0
    · refine ⟨_, List.mem_append_right _ List.mem_cons_self, ?_, ?_⟩
      · dsimp only
        rw [old.tail, none, (old.unfilled none).1, Nat.add_zero]
      · dsimp only
        omega
    · obtain ⟨fill, member, here, positive⟩ := old.first none
      exact ⟨fill, List.mem_append_left _ member, here, positive⟩

theorem tracked_of_run (reach : run step (init len) calls = some s) : Tracked len calls s := by
  induction calls using List.reverseRecOn generalizing s with
  | nil =>
    cases Option.some.inj reach
    exact .start len
  | append_singleton calls call ih =>
    obtain ⟨before, reach, next⟩ := run_snoc.mp reach
    have old := ih reach
    rcases step_cases next with ⟨size, rfl, rfl⟩ | ⟨size, rfl, fits, rfl⟩ | ⟨buf, data, rfl, same, _, rfl⟩
    · exact old.reserveHeader size
    · exact old.pushHeader size fits
    · exact old.fill buf same

theorem Tracked.inOrder (tracked : Tracked len calls s) (fits : reserved calls + filled calls ≤ len)
    (below : pushed calls ≤ headroom calls) : s.InOrder := by
  have room := tracked.room
  refine ⟨?_, ?_, tracked.apart, ?_⟩
  · rw [tracked.head, tracked.curr, tracked.tail, tracked.capacity]
    omega
  · intro header member
    have under := tracked.below header member
    rw [tracked.capacity]
    omega
  · intro header member fill written i overlap
    have under := tracked.below header member
    have above := tracked.above fill written (by omega)
    omega

/-- The byte at the end of the headroom is in the data, and in a header as well if more is
pushed than the headroom holds. -/
theorem InOrder.pushed_le (inOrder : s.InOrder) (tracked : Tracked len calls s) : pushed calls ≤ headroom calls := by
  by_cases none : filled calls = 0
  · rw [(tracked.unfilled none).1]
    exact tracked.room
  · by_contra beyond
    obtain ⟨header, member, lower, upper⟩ := tracked.covered (headroom calls) (by omega)
    obtain ⟨fill, written, here, positive⟩ := tracked.first none
    exact inOrder.data header member fill written (headroom calls) ⟨lower, upper, by omega, by omega⟩

/-- A sequence of successful calls keeps the message in order all the way exactly when what it
reserves and fills fits into the buffer, and what it pushes into the room that was reserved
before any data was filled. -/
theorem cursors_in_order_iff (len : Nat) (calls : List MsgCall) (last : MsgUse)
    (succeed : run step (init len) calls = some last) :
    (∀ before after s, calls = before ++ after → run step (init len) before = some s → s.InOrder) ↔
      reserved calls + filled calls ≤ len ∧ pushed calls ≤ headroom calls := by
  constructor
  · intro always
    have inOrder := always calls [] last (List.append_nil calls).symm succeed
    have tracked := tracked_of_run succeed
    refine ⟨?_, inOrder.pushed_le tracked⟩
    rw [← tracked.tail, ← tracked.capacity]
    exact inOrder.cursors.2.2
  · rintro ⟨fits, below⟩ before after s rfl reach
    have tracked := tracked_of_run reach
    rw [reserved_append, filled_append] at fits
    refine tracked.inOrder (by omega) ?_
    by_cases none : filled before = 0
    · rw [(tracked.unfilled none).1]
      exact tracked.room
    · rw [pushed_append, headroom_append, if_neg none] at below
      omega

/-- Room for a header of four bytes, two bytes of data, and the header. -/
theorem cursors_in_order_packet :
    ∃ last, run step (init 8) [.reserveHeader 4, .fill [1, 2], .pushHeader 4] = some last ∧ last.InOrder := by
  obtain ⟨last, reach⟩ : ∃ last, run step (init 8) [.reserveHeader 4, .fill [1, 2], .pushHeader 4] = some last :=
    ⟨_, rfl⟩
  have always := (cursors_in_order_iff 8 _ last reach).mpr ⟨by decide, by decide⟩
  exact ⟨last, reach, always _ [] last (List.append_nil _).symm reach⟩

/-- Room that is reserved behind the data: the header is pushed over it. -/
theorem header_over_data :
    ¬ ∀ (len : Nat) (calls : List MsgCall) (s : MsgUse), run step (init len) calls = some s → s.InOrder := by
  intro claim
  have inOrder := claim 8 [.fill [1, 2], .reserveHeader 4, .pushHeader 4] _ rfl
  exact inOrder.data (0, 4) (by decide) (0, 2) (by decide) 0 (by decide)

end MsgUse

end ServicesFramework
