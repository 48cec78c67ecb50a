import ServicesFramework.TunFrames

namespace ServicesFramework.Tun

open Loop

/-- Where the frames start: each length field says where the next one does. -/
def offset (data : Nat → Octet) : Nat → Nat
  | 0 => 0
  | i + 1 => offset data i + ipLen data (offset data i)

/-- What the loop asks of a frame before it writes it. -/
structure FrameAt (data : Nat → Octet) (size o : Nat) : Prop where
  nonzero : data o ≠ 0
  version : ipV data o = 4 ∨ ipV data o = 6
  fits : o + ipLen data o ≤ size

variable {data : Nat → Octet} {size o : Nat} {written : List (List Octet)}

/-- Everything that one pass can do. -/
theorem frameLoop_cases (data : Nat → Octet) (size o : Nat) (written : List (List Octet)) :
    (¬ FrameAt data size o ∧ frameLoop data size (o, written) = .done written) ∨
      (FrameAt data size o ∧ frameLoop data size (o, written) =
        if size - (o + ipLen data o) ≤ 20 then .done (written ++ [frame data o (ipLen data o)])
        else .again (o + ipLen data o, written ++ [frame data o (ipLen data o)])) := by
  by_cases zero : data o = 0
  · exact .inl ⟨fun accepted => accepted.nonzero zero, by rw [frameLoop, if_pos zero]⟩
  rw [frameLoop, if_neg zero]
  by_cases unknown : 4 ≠ ipV data o ∧ 6 ≠ ipV data o
  · refine .inl ⟨?_, if_pos unknown⟩
    intro accepted
    rcases accepted.version with four | six
    · exact unknown.1 four.symm
    · exact unknown.2 six.symm
  rw [if_neg unknown]
  by_cases long : o + ipLen data o > size ∨ data o = 0
  · refine .inl ⟨?_, if_pos long⟩
    intro accepted
    rcases long with long | zero
    · exact absurd accepted.fits (by omega)
    · exact accepted.nonzero zero
  · rw [if_neg long]
    exact .inr ⟨⟨zero, by omega, by omega⟩, rfl⟩

/-- A frame that fits is written from the message alone. -/
theorem frame_eq_extract {msg : List Octet} {past : Nat → Octet} {o len : Nat} (fits : o + len ≤ msg.length) :
    frame (begin msg past) o len = msg.extract o (o + len) := by
  have whole : (msg.extract o (o + len)).length = len := by
    simp only [List.extract_eq_take_drop, List.length_take, List.length_drop]
    omega
  have here : msg.drop o = msg.extract o (o + len) ++ msg.drop (o + len) := by
    rw [List.extract_eq_take_drop, Nat.add_sub_cancel_left, ← List.drop_drop, List.take_append_drop]
  have same : frame (begin msg past) o (msg.extract o (o + len)).length = _ := frame_begin here
  rwa [whole] at same

/-- The frames written so far are the slices between consecutive offsets. -/
structure Slices (msg : List Octet) (past : Nat → Octet) (written : List (List Octet)) : Prop where
  within : ∀ i ≤ written.length, offset (begin msg past) i ≤ msg.length
  framed : ∀ i < written.length, FrameAt (begin msg past) msg.length (offset (begin msg past) i)
  slice : ∀ i < written.length, written[i]? =
    some (msg.extract (offset (begin msg past) i) (offset (begin msg past) (i + 1)))

variable {msg : List Octet} {past : Nat → Octet}

theorem Slices.nil : Slices msg past [] where
  within i none := by
    rw [Nat.le_zero.mp none]
    exact Nat.zero_le _
  framed i none := absurd none (Nat.not_lt_zero i)
  slice i none := absurd none (Nat.not_lt_zero i)

theorem Slices.snoc (slices : Slices msg past written)
    (framed : FrameAt (begin msg past) msg.length (offset (begin msg past) written.length)) :
    Slices msg past (written ++ [frame (begin msg past) (offset (begin msg past) written.length)
      (ipLen (begin msg past) (offset (begin msg past) written.length))]) where
  within i bound := by
    rw [List.length_append, List.length_singleton] at bound
    rcases Nat.lt_or_eq_of_le bound with earlier | rfl
    · exact slices.within i (by omega)
    · exact framed.fits
  framed i bound := by
    rw [List.length_append, List.length_singleton] at bound
    rcases Nat.lt_or_eq_of_le (Nat.le_of_lt_succ bound) with earlier | rfl
    · exact slices.framed i earlier
    · exact framed
  slice i bound := by
    rw [List.length_append, List.length_singleton] at bound
    rcases Nat.lt_or_eq_of_le (Nat.le_of_lt_succ bound) with earlier | rfl
    · rw [List.getElem?_append_left earlier]
      exact slices.slice i earlier
    · rw [List.getElem?_concat_length, frame_eq_extract framed.fits]
      rfl

theorem Slices.flatten_take (slices : Slices msg past written) (n : Nat) (bound : n ≤ written.length) :
    (written.take n).flatten = msg.take (offset (begin msg past) n) := by
  induction n with
  | zero => rfl
  | succ n ih =>
    have inRange := slices.within (n + 1) bound
    rw [List.take_add_one, List.flatten_append, ih (by omega), slices.slice n (by omega)]
    simp only [Option.toList_some, List.flatten_singleton, List.extract_eq_take_drop, offset,
      Nat.add_sub_cancel_left]
    exact List.take_add.symm

theorem Slices.flatten (slices : Slices msg past written) :
    written.flatten = msg.take (offset (begin msg past) written.length) := by
  have whole := slices.flatten_take written.length (Nat.le_refl _)
  rwa [List.take_length] at whole

/-- The invariant of the loop: a running pass stands where the frames written so far end. -/
def Running (msg : List Octet) (past : Nat → Octet) : Nat × List (List Octet) → Prop
  | (o, written) => o = offset (begin msg past) written.length ∧ Slices msg past written

theorem frameLoop_slices (state : Nat × List (List Octet)) (running : Running msg past state) :
    (frameLoop (begin msg past) msg.length state).Holds (Running msg past) (Slices msg past) := by
  obtain ⟨o, written⟩ := state
  obtain ⟨rfl, slices⟩ := running
  rcases frameLoop_cases (begin msg past) msg.length (offset (begin msg past) written.length) written with
    ⟨_, stop⟩ | ⟨framed, pass⟩
  · rw [stop]
    exact slices
  · rw [pass]
    split
    · exact slices.snoc framed
    · refine ⟨?_, slices.snoc framed⟩
      rw [List.length_append, List.length_singleton]
      rfl

/-- What has gone to the interface after `k` passes, or all of it when the loop ended before. -/
def writtenAfter (k : Nat) (msg : List Octet) (past : Nat → Octet) : List (List Octet) :=
  match passes (frameLoop (begin msg past) msg.length) k (0, []) with
  | .again (_, written) => written
  | .done written => written

theorem FdWrites.after (writes : FdWrites msg past written) : ∃ k, writtenAfter k msg past = written := by
  obtain ⟨k, run⟩ := fdWrites_iff.mp writes
  refine ⟨k, ?_⟩
  rw [writtenAfter, exec_eq_some_iff.mp run]

theorem writtenAfter_slices (k : Nat) (msg : List Octet) (past : Nat → Octet) :
    Slices msg past (writtenAfter k msg past) := by
  have kept : (passes (frameLoop (begin msg past) msg.length) k (0, [])).Holds (Running msg past) (Slices msg past) :=
    passes_invariant ⟨rfl, Slices.nil⟩ frameLoop_slices k
  unfold writtenAfter
  split
  · next o written now =>
    rw [now] at kept
    exact kept.2
  · next written now =>
    rw [now] at kept
    exact kept

/-- After any number of passes the interface has got consecutive slices of the message from its
start on, cut where the length fields say, and nothing else. -/
theorem fdWrite_consecutive_slices (msg : List Octet) (past : Nat → Octet) (k : Nat) :
    (∀ i ≤ (writtenAfter k msg past).length, offset (begin msg past) i ≤ msg.length) ∧
      (∀ i < (writtenAfter k msg past).length,
        begin msg past (offset (begin msg past) i) ≠ 0 ∧
          (ipV (begin msg past) (offset (begin msg past) i) = 4 ∨
            ipV (begin msg past) (offset (begin msg past) i) = 6) ∧
          (writtenAfter k msg past)[i]? =
            some (msg.extract (offset (begin msg past) i) (offset (begin msg past) (i + 1)))) ∧
      (writtenAfter k msg past).flatten <+: msg := by
  have slices := writtenAfter_slices k msg past
  refine ⟨slices.within, ?_, ?_⟩
  · intro i bound
    exact ⟨(slices.framed i bound).nonzero, (slices.framed i bound).version, slices.slice i bound⟩
  · rw [slices.flatten]
    exact List.take_prefix _ _

theorem offset_mono (data : Nat → Octet) {i j : Nat} (order : i ≤ j) : offset data i ≤ offset data j := by
  induction order with
  | refl => exact Nat.le_refl _
  | step _ ih => exact ih.trans (Nat.le_add_right _ _)

/-- Following the length fields, the loop comes to a frame of length 0 that it does not refuse. -/
structure Stalls (data : Nat → Octet) (size n : Nat) : Prop where
  version : ∀ i ≤ n, ipV data (offset data i) = 4 ∨ ipV data (offset data i) = 6
  room : offset data n + 20 < size
  zero : ipLen data (offset data n) = 0

/-- Up to the frame of length 0 the loop goes on, and there it stays. -/
theorem Stalls.never_returns {n : Nat} (stalls : Stalls data size n) (result : List (List Octet)) :
    ¬ Returns (frameLoop data size) (0, []) result := by
  apply not_returns (fun state => ∃ i ≤ n, state.1 = offset data i) ⟨0, Nat.zero_le n, rfl⟩
  rintro ⟨_, written⟩ ⟨i, bound, rfl⟩
  have next : ∃ j ≤ n, offset data i + ipLen data (offset data i) = offset data j := by
    rcases Nat.lt_or_eq_of_le bound with earlier | rfl
    · exact ⟨i + 1, earlier, rfl⟩
    · exact ⟨i, Nat.le_refl i, by rw [stalls.zero, Nat.add_zero]⟩
  obtain ⟨j, before, next⟩ := next
  have room : offset data i + ipLen data (offset data i) + 20 < size := by
    rw [next]
    exact Nat.lt_of_le_of_lt (Nat.add_le_add_right (offset_mono data before) 20) stalls.room
  have framed : FrameAt data size (offset data i) := by
    refine ⟨?_, stalls.version i bound, by omega⟩
    intro zero
    have version := stalls.version i bound
    simp [ipV, zero] at version
  rcases frameLoop_cases data size (offset data i) written with ⟨refused, _⟩ | ⟨_, pass⟩
  · exact absurd framed refused
  · rw [if_neg (by omega)] at pass
    exact ⟨_, pass, j, before, next⟩

/-- A running pass has only frames of a known version behind it. -/
def Known (data : Nat → Octet) : Nat × List (List Octet) → Prop
  | (o, written) => o = offset data written.length ∧
      ∀ i < written.length, ipV data (offset data i) = 4 ∨ ipV data (offset data i) = 6

/-- Away from such a frame every pass that goes on moves forward. -/
theorem returns_of_not_stalls (moves : ¬ ∃ n, Stalls data size n) :
    ∃ result, Returns (frameLoop data size) (0, []) result := by
  refine returns_of_measure (fun state => size - state.1) (Known data) ?_ ?_
  · exact ⟨rfl, fun i none => absurd none (Nat.not_lt_zero i)⟩
  rintro ⟨_, written⟩ next ⟨rfl, version⟩ step
  rcases frameLoop_cases data size (offset data written.length) written with ⟨_, stop⟩ | ⟨framed, pass⟩
  · rw [stop] at step
    cases step
  rw [pass] at step
  split at step
  · cases step
  · next room =>
    cases step
    have known : ∀ i ≤ written.length, ipV data (offset data i) = 4 ∨ ipV data (offset data i) = 6 := by
      intro i bound
      rcases Nat.lt_or_eq_of_le bound with earlier | rfl
      · exact version i earlier
      · exact framed.version
    have positive : ipLen data (offset data written.length) ≠ 0 := by
      intro zero
      exact moves ⟨written.length, known, by omega, zero⟩
    have fits := framed.fits
    refine ⟨⟨?_, ?_⟩, ?_⟩
    · rw [List.length_append, List.length_singleton]
      rfl
    · intro i bound
      rw [List.length_append, List.length_singleton] at bound
      exact known i (by omega)
    · change size - (offset data written.length + _) < size - offset data written.length
      omega

/-- The loop ends exactly when following the length fields over frames of a known version does
not lead to a frame of length 0 with more than 20 bytes to the end. -/
theorem fdWrite_returns_iff (msg : List Octet) (past : Nat → Octet) :
    (∃ written, FdWrites msg past written) ↔
      ¬ ∃ n, (∀ i ≤ n, ipV (begin msg past) (offset (begin msg past) i) = 4 ∨
          ipV (begin msg past) (offset (begin msg past) i) = 6) ∧
        offset (begin msg past) n + 20 < msg.length ∧
        ipLen (begin msg past) (offset (begin msg past) n) = 0 := by
  simp only [fdWrites_iff]
  constructor
  · rintro ⟨written, returns⟩ ⟨n, version, room, zero⟩
    exact Stalls.never_returns ⟨version, room, zero⟩ written returns
  · intro moves
    apply returns_of_not_stalls
    rintro ⟨n, stalls⟩
    exact moves ⟨n, stalls.version, stalls.room, stalls.zero⟩

/-- A header whose length field is 0, with one byte behind it. -/
theorem fdWrite_not_total :
    ¬ ∀ (msg : List Octet) (past : Nat → Octet), ∃ written, FdWrites msg past written := by
  intro total
  obtain ⟨written, writes⟩ := total (0x45 :: List.replicate 20 0) (fun _ => 0)
  have stalls : Stalls (begin (0x45 :: List.replicate 20 0) (fun _ => 0)) 21 0 := by
    refine ⟨?_, by decide, by decide⟩
    intro i none
    rw [Nat.le_zero.mp none]
    exact .inl (by decide)
  exact stalls.never_returns written (fdWrites_iff.mp writes)

end ServicesFramework.Tun
