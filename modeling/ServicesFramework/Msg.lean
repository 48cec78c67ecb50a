import ServicesFramework.Lib.GrowArray

namespace ServicesFramework

abbrev Octet := UInt8

/-- `MSG_TYPE`. -/
inductive MsgType
  | data
  | ipv4Data
  | ipv6Data
  | signal
  deriving DecidableEq, Repr

/-- `MSG_SIGNAL`. -/
inductive MsgSignal
  | none
  | stop
  deriving DecidableEq, Repr

/-- `BaseMsg`, with the `NeedCoded` flag that the derived coded message adds. The cursors
are `int`s that no caller makes negative. -/
structure BaseMsg where
  type : MsgType
  signal : MsgSignal
  data : GrowArray Octet
  id : UInt32
  seq : UInt32
  head : Nat
  curr : Nat
  tail : Nat
  needCoded : Bool
  deriving DecidableEq, Repr

namespace BaseMsg

/-- `BaseMsg(len)`, marked as a message to be coded. -/
def init (len : Nat) : BaseMsg where
  type := .data
  signal := .none
  data := .replicate len 0
  id := 0
  seq := 0
  head := 0
  curr := 0
  tail := 0
  needCoded := true

def size (msg : BaseMsg) : Nat := msg.data.size

def contents (msg : BaseMsg) : List Octet := msg.data.contents

def resize (msg : BaseMsg) (sz : Nat) : BaseMsg := { msg with data := msg.data.resize sz 0 }

/-- `FilledBytes()` of the derived message. -/
def filledBytes (msg : BaseMsg) : Nat := msg.tail

/-- `NeedCoded() = needCoded`. -/
def setNeedCoded (msg : BaseMsg) (needCoded : Bool) : BaseMsg := { msg with needCoded := needCoded }

/-- `reserveHeader`: the size is held against the whole capacity, not against what is left. -/
def reserveHeader (msg : BaseMsg) (size : Nat) : Bool × BaseMsg :=
  if size > msg.data.capacity then (false, msg)
  else (true, { msg with curr := msg.curr + size, tail := msg.tail + size })

/-- `pushHeader`: the offset of the bytes it hands out, or `none` for the null pointer. -/
def pushHeader (msg : BaseMsg) (size : Nat) : Option (Nat × BaseMsg) :=
  if msg.head + size ≤ msg.curr then some (msg.head, { msg with head := msg.head + size }) else none

/-- `fill`, or `none` where its assertion fails. -/
def fill (msg : BaseMsg) (buf : List Octet) : Option BaseMsg :=
  if fits : msg.tail + buf.length ≤ msg.data.capacity then
    some { msg with data := msg.data.write msg.tail buf fits, tail := msg.tail + buf.length }
  else none

/-- A buffer of `B` bytes whose first ones have been filled with `filled`. -/
structure Holds (B : Nat) (filled : List Octet) (msg : BaseMsg) : Prop where
  size : msg.size = B
  capacity : msg.data.capacity = B
  tail : msg.tail = filled.length
  within : filled.length ≤ B
  bytes : msg.data.store.take filled.length = filled

theorem init_holds (B : Nat) : Holds B [] (init B) where
  size := by simp [size, init]
  capacity := by simp [init]
  tail := rfl
  within := Nat.zero_le B
  bytes := rfl

theorem Holds.fill {B : Nat} {filled buf : List Octet} {msg : BaseMsg} (old : Holds B filled msg)
    (room : filled.length + buf.length ≤ B) :
    ∃ new, msg.fill buf = some new ∧ Holds B (filled ++ buf) new ∧ new.needCoded = msg.needCoded := by
  have fits : msg.tail + buf.length ≤ msg.data.capacity := by rw [old.tail, old.capacity]; exact room
  refine ⟨{ msg with data := msg.data.write msg.tail buf fits, tail := msg.tail + buf.length },
    dif_pos fits, ⟨old.size, ?_, ?_, ?_, ?_⟩, rfl⟩
  · exact (GrowArray.write_capacity _ _ _ fits).trans old.capacity
  · simp only [old.tail, List.length_append]
  · rw [List.length_append]; exact room
  · rw [List.length_append, ← old.tail, GrowArray.write_take fits, old.tail, old.bytes]

/-- Reserving a header in an untouched buffer counts the bytes that lie there as filled. -/
theorem Holds.reserveHeader {B size : Nat} {msg : BaseMsg} (old : Holds B [] msg) (room : size ≤ B) :
    Holds B (msg.data.store.take size) (msg.reserveHeader size).2 ∧
      (msg.data.store.take size).length = size := by
  have stored : msg.data.store.length = B := old.capacity
  have length : (msg.data.store.take size).length = size := by simp; omega
  have fits : ¬ size > msg.data.capacity := by rw [old.capacity]; omega
  refine ⟨?_, length⟩
  rw [BaseMsg.reserveHeader, if_neg fits]
  exact ⟨old.size, old.capacity, by rw [old.tail, length]; simp, by rw [length]; exact room, by rw [length]⟩

theorem fill_eq_none {buf : List Octet} {msg : BaseMsg} (full : msg.data.capacity < msg.tail + buf.length) :
    msg.fill buf = none := by
  rw [fill, dif_neg (by omega)]

/-- Cutting a buffer to its filled bytes leaves exactly these. -/
theorem Holds.resize_contents {B : Nat} {filled : List Octet} {msg : BaseMsg} (old : Holds B filled msg) :
    (msg.resize msg.filledBytes).contents = filled := by
  have shrink : msg.tail ≤ msg.data.size := by
    rw [old.tail, show msg.data.size = B from old.size]
    exact old.within
  simp only [resize, contents, filledBytes, GrowArray.contents, GrowArray.resize_size]
  rw [GrowArray.resize_store_of_le 0 shrink, old.tail, old.bytes]

end BaseMsg

end ServicesFramework
