import ServicesFramework.Lib.Machine
import ServicesFramework.Msg

namespace ServicesFramework

open Machine

/-- A call of `fill` or of `resize`. -/
inductive FillCall
  | fill (buf : List Octet)
  | resize (n : Nat)
  deriving DecidableEq, Repr

namespace FillCall

/-- One call: a `fill` that succeeds, or a `resize` that leaves room for what is filled. -/
def step (msg : BaseMsg) : FillCall → Option BaseMsg
  | .fill buf => msg.fill buf
  | .resize n => if msg.tail ≤ n then some (msg.resize n) else none

def bytes : FillCall → List Octet
  | .fill buf => buf
  | .resize _ => []

/-- Everything that was filled, in order. -/
def filled (calls : List FillCall) : List Octet := calls.flatMap bytes

/-- What a `fill` writes behind the last element of the vector is zero, as the next `resize`
makes it. -/
def HidesNothing (msg : BaseMsg) : FillCall → Prop
  | .fill buf => ∀ b ∈ buf.drop (msg.size - msg.tail), b = 0
  | .resize _ => True

instance (msg : BaseMsg) (call : FillCall) : Decidable (HidesNothing msg call) :=
  match call with
  | .fill buf => List.decidableBAll (· = 0) (buf.drop (msg.size - msg.tail))
  | .resize _ => isTrue trivial

/-- What is left of a buffer of which only the first `room` bytes are elements. -/
def cut (room : Nat) (buf : List Octet) : List Octet := buf.take room ++ List.replicate (buf.length - room) 0

theorem cut_length (room : Nat) (buf : List Octet) : (cut room buf).length = buf.length := by
  simp [cut]
  omega

theorem cut_getElem?_of_lt {room i : Nat} (buf : List Octet) (below : i < room) (inside : i < buf.length) :
    (cut room buf)[i]? = buf[i]? := by
  have length : i < (buf.take room).length := by
    rw [List.length_take]
    omega
  rw [cut, List.getElem?_append_left length, List.getElem?_take_of_lt below]

theorem cut_getElem?_of_le {room i : Nat} (buf : List Octet) (above : room ≤ i) (inside : i < buf.length) :
    (cut room buf)[i]? = some 0 := by
  have length : (buf.take room).length = room := List.length_take_of_le (by omega)
  rw [cut, List.getElem?_append_right (by omega), length, List.getElem?_replicate_of_lt (by omega)]

theorem cut_eq_self_iff (room : Nat) (buf : List Octet) : cut room buf = buf ↔ ∀ b ∈ buf.drop room, b = 0 := by
  have split : cut room buf = buf ↔
      buf.take room ++ List.replicate (buf.length - room) 0 = buf.take room ++ buf.drop room := by
    rw [List.take_append_drop, cut]
  rw [split, List.append_right_inj, eq_comm, List.eq_replicate_iff, List.length_drop, and_iff_right rfl]

/-- The message holds `kept`: its elements are those of `kept`, and behind the elements `kept`
is zero, as the next `resize` will make it. -/
structure Keeps (kept : List Octet) (msg : BaseMsg) : Prop where
  length : kept.length = msg.tail
  elements : ∀ i < msg.tail, i < msg.size → msg.data.store[i]? = kept[i]?
  behind : ∀ i < msg.tail, msg.size ≤ i → kept[i]? = some 0

variable {kept : List Octet} {msg u : BaseMsg} {buf : List Octet} {n : Nat} {calls : List FillCall}

theorem Keeps.start (len : Nat) : Keeps [] (.init len) where
  length := rfl
  elements := nofun
  behind := nofun

theorem Keeps.resized (keeps : Keeps kept msg) (room : msg.tail ≤ n) :
    ∀ i < msg.tail, (msg.resize n).data.store[i]? = kept[i]? := by
  intro i below
  rw [BaseMsg.resize, GrowArray.resize_getElem? msg.data 0 (Nat.lt_of_lt_of_le below room)]
  split_ifs with element
  · exact keeps.elements i below element
  · exact (keeps.behind i below (Nat.le_of_not_lt element)).symm

theorem Keeps.resize (keeps : Keeps kept msg) (room : msg.tail ≤ n) : Keeps kept (msg.resize n) where
  length := keeps.length
  elements i below _ := keeps.resized room i below
  behind i below above := by
    rw [BaseMsg.size, BaseMsg.resize, GrowArray.resize_size] at above
    exact absurd (Nat.lt_of_lt_of_le below room) (Nat.not_lt.mpr above)

/-- A `fill` adds its bytes, as far as they are elements. -/
theorem Keeps.fill (keeps : Keeps kept msg) (next : msg.fill buf = some u) :
    Keeps (kept ++ cut (msg.size - msg.tail) buf) u := by
  unfold BaseMsg.fill at next
  split_ifs at next with fits
  cases next
  have length := keeps.length
  refine ⟨?_, ?_, ?_⟩
  · rw [List.length_append, cut_length, length]
  · intro i below element
    change i < msg.tail + buf.length at below
    change i < msg.size at element
    rw [GrowArray.write_getElem? _ _ _ _ i below]
    split_ifs with old
    · rw [List.getElem?_append_left (by omega)]
      exact keeps.elements i old element
    · rw [List.getElem?_append_right (by omega), length]
      exact (cut_getElem?_of_lt buf (by omega) (by omega)).symm
  · intro i below above
    change i < msg.tail + buf.length at below
    change msg.size ≤ i at above
    by_cases old : i < msg.tail
    · rw [List.getElem?_append_left (by omega)]
      exact keeps.behind i old above
    · rw [List.getElem?_append_right (by omega), length]
      exact cut_getElem?_of_le buf (by omega) (by omega)

/-- The final `resize` shows what was kept. -/
theorem Keeps.contents (keeps : Keeps kept msg) : (msg.resize msg.tail).contents = kept := by
  have cut : (msg.resize msg.tail).contents = (msg.resize msg.tail).data.store.take msg.tail := by
    rw [BaseMsg.contents, GrowArray.contents, BaseMsg.resize, GrowArray.resize_size]
  rw [cut]
  refine List.ext_getElem? fun i => ?_
  by_cases below : i < msg.tail
  · rw [List.getElem?_take_of_lt below]
    exact keeps.resized le_rfl i below
  · rw [List.getElem?_eq_none (by rw [List.length_take]; omega), List.getElem?_eq_none (by rw [keeps.length]; omega)]

/-- What is kept is what was filled as long as no `fill` hides anything. -/
theorem kept_of_run {len : Nat} (reach : run step (.init len) calls = some msg) :
    ∃ kept, Keeps kept msg ∧ kept.length = (filled calls).length ∧
      (kept = filled calls ↔ Along step HidesNothing (.init len) calls) := by
  induction calls using List.reverseRecOn generalizing msg with
  | nil =>
    cases Option.some.inj reach
    exact ⟨[], .start len, rfl, iff_of_true rfl trivial⟩
  | append_singleton calls call ih =>
    obtain ⟨before, first, next⟩ := run_snoc.mp reach
    obtain ⟨kept, keeps, size, same⟩ := ih first
    have along : Along step HidesNothing (.init len) (calls ++ [call]) ↔
        Along step HidesNothing (.init len) calls ∧ HidesNothing before call := by
      rw [along_snoc]
      simp [first]
    rw [along, ← same]
    cases call with
    | resize n =>
      simp only [step] at next
      split_ifs at next with room
      cases next
      refine ⟨kept, keeps.resize room, by simpa [filled, bytes] using size, ?_⟩
      simp [filled, bytes, HidesNothing]
    | fill buf =>
      have all : filled (calls ++ [.fill buf]) = filled calls ++ buf := by simp [filled, bytes]
      refine ⟨_, keeps.fill next, by rw [all, List.length_append, List.length_append, cut_length, size], ?_⟩
      rw [all, HidesNothing, ← cut_eq_self_iff]
      constructor
      · intro equal
        exact List.append_inj equal size
      · rintro ⟨earlier, now⟩
        rw [earlier, now]

/-- After any sequence of successful `fill`s and of `resize`s that leave room for them, the
final `resize` shows everything that was filled exactly when no `fill` has written anything
but zeros behind the last element. -/
theorem filled_bytes_survive_iff (len : Nat) (calls : List FillCall) (msg : BaseMsg)
    (reach : run step (.init len) calls = some msg) :
    (msg.resize msg.tail).contents = filled calls ↔ Along step HidesNothing (.init len) calls := by
  obtain ⟨kept, keeps, _, same⟩ := kept_of_run reach
  rw [keeps.contents, same]

/-- Four bytes, room for eight more, and two of them. -/
theorem filled_bytes_survive_growth :
    ∃ msg, run step (.init 4) [.fill [1, 2, 3, 4], .resize 12, .fill [5, 6]] = some msg ∧
      (msg.resize msg.tail).contents = [1, 2, 3, 4, 5, 6] := by
  obtain ⟨msg, reach⟩ : ∃ msg, run step (.init 4) [.fill [1, 2, 3, 4], .resize 12, .fill [5, 6]] = some msg :=
    ⟨_, rfl⟩
  exact ⟨msg, reach, (filled_bytes_survive_iff 4 _ msg reach).mpr (by decide)⟩

/-- The buffer is cut to two bytes, filled with three, and the third one is lost. -/
theorem filled_byte_lost :
    ¬ ∀ (len : Nat) (calls : List FillCall) (msg : BaseMsg), run step (.init len) calls = some msg →
      (msg.resize msg.tail).contents = filled calls := by
  intro claim
  exact absurd (claim 4 [.resize 2, .fill [1, 2, 3]] _ rfl) (by decide)

end FillCall

end ServicesFramework
