import Mathlib.Data.List.Basic
import ServicesFramework.Lib.Loop
import ServicesFramework.Msg

namespace ServicesFramework.Shell

open Loop

/-- What `exe_shell_ret` has done at its end: the string that it returns, where the program
still has a meaning, and the indexes at which it has written a terminator. -/
structure Answer where
  rst : Option (List Octet)
  written : List Nat
  deriving DecidableEq, Repr

/-- `exe_shell_ret` between two turns of its loop: what the pipe still holds, and the
end-of-file indicator of `fp`. -/
structure Reader where
  rest : List Octet
  eof : Bool
  rst : List Octet
  written : List Nat

/-- The array `buf` after `fread`. It is not initialised, so past the bytes read it has what
the stack held. -/
def buf (rest : List Octet) (past : Nat → Octet) : List Octet :=
  (List.range 128).map fun i => rest[i]?.getD (past i)

/-- The characters of an array up to its terminator, which `rst += buf` appends. -/
def cString (buf : List Octet) : List Octet := buf.takeWhile (· ≠ 0)

/-- `bytes - 1` as a `size_t`. -/
def terminator (bytes : Nat) : Nat := (bytes + 2 ^ 64 - 1) % 2 ^ 64

/-- One turn of the loop. `fread` gives full chunks as long as there are some, and sets the
end-of-file indicator on a short one. -/
def readLoop (past : Nat → Nat → Octet) (self : Reader) : Iter Reader Answer :=
  if self.eof then .done ⟨some self.rst, self.written⟩
  else
    let bytes := min 128 self.rest.length
    let i := terminator bytes
    let written := self.written ++ [i]
    -- a write outside of `buf` leaves nothing to say about the rest of the call
    if i < 128 then
      .again ⟨self.rest.drop 128, bytes < 128,
        self.rst ++ cString ((buf self.rest (past self.written.length)).set i 0), written⟩
    else .done ⟨none, written⟩

/-- `exe_shell_ret`, within `fuel` turns of its loop, where `popen` has failed or has started
a command with this output. -/
def exeShellRet (past : Nat → Nat → Octet) (fuel : Nat) : Option (List Octet) → Option Answer
  | none => some ⟨some [], []⟩
  | some output => exec (readLoop past) fuel ⟨output, false, [], []⟩

/-- The character `'\n'`. -/
def newline : Octet := 10

/-- The call returns the whole output, or all of it but one newline at its end, and stays
inside of `buf`. -/
def ReturnsOutput (past : Nat → Nat → Octet) (output : List Octet) : Prop :=
  ∃ fuel answer, exeShellRet past fuel (some output) = some answer ∧ (∀ i ∈ answer.written, i < 128) ∧
    ∃ rst, answer.rst = some rst ∧ (rst = output ∨ rst ++ [newline] = output)

variable {past : Nat → Nat → Octet} {output rest rst : List Octet} {written : List Nat} {answer : Answer}

theorem terminator_zero : terminator 0 = 2 ^ 64 - 1 := by decide

theorem terminator_eq {bytes : Nat} (read : 0 < bytes) (fits : bytes ≤ 128) : terminator bytes = bytes - 1 := by
  unfold terminator
  omega

theorem buf_length (rest : List Octet) (past : Nat → Octet) : (buf rest past).length = 128 := by
  simp [buf]

theorem take_buf {n : Nat} (rest : List Octet) (past : Nat → Octet) (fits : n ≤ 128) (read : n ≤ rest.length) :
    (buf rest past).take n = rest.take n := by
  apply List.ext_getElem
  · simp only [List.length_take, buf_length]
    omega
  · intro i left right
    have inside : i < rest.length := by
      simp only [List.length_take] at right
      omega
    simp [buf, List.getElem?_eq_getElem inside]

/-- A chunk of text that was cut short at `n` comes out as the bytes before. -/
theorem cString_set {n : Nat} (text : (0 : Octet) ∉ rest) (past : Nat → Octet) (fits : n < 128)
    (read : n ≤ rest.length) : cString ((buf rest past).set n 0) = rest.take n := by
  have inside : n < (buf rest past).length := by rwa [buf_length]
  have plain : ∀ c ∈ rest.take n, decide (c ≠ 0) = true := by
    intro c mem
    have nonzero : c ≠ 0 := fun zero => text (zero ▸ List.mem_of_mem_take mem)
    exact decide_eq_true nonzero
  rw [cString, List.set_eq_take_append_cons_drop, if_pos inside, take_buf rest past fits.le read,
    List.takeWhile_append_of_pos plain, List.takeWhile_cons_of_neg (by simp), List.append_nil]

-- The three kinds of turns: nothing is left, a short chunk, a full chunk.

theorem returns_nothing :
    Returns (readLoop past) ⟨[], false, rst, written⟩ answer ↔ answer = ⟨none, written ++ [2 ^ 64 - 1]⟩ := by
  apply returns_done
  simp [readLoop, terminator_zero]

theorem returns_short (text : (0 : Octet) ∉ rest) (nonempty : 0 < rest.length) (short : rest.length < 128) :
    Returns (readLoop past) ⟨rest, false, rst, written⟩ answer ↔
      answer = ⟨some (rst ++ rest.dropLast), written ++ [rest.length - 1]⟩ := by
  have index := terminator_eq nonempty short.le
  have turn : readLoop past ⟨rest, false, rst, written⟩ =
      .again ⟨rest.drop 128, true, rst ++ rest.dropLast, written ++ [rest.length - 1]⟩ := by
    have chunk := cString_set text (past written.length) (by omega : rest.length - 1 < 128) (by omega)
    have inside : rest.length - 1 < 128 := by omega
    simp [readLoop, Nat.min_eq_right short.le, index, inside, chunk, short, List.dropLast_eq_take]
  rw [returns_again turn]
  exact returns_done (by simp [readLoop])

theorem returns_full (text : (0 : Octet) ∉ rest) (full : 128 ≤ rest.length) :
    Returns (readLoop past) ⟨rest, false, rst, written⟩ answer ↔
      Returns (readLoop past) ⟨rest.drop 128, false, rst ++ rest.take 127, written ++ [127]⟩ answer := by
  have index : terminator 128 = 127 := terminator_eq (by decide) le_rfl
  have chunk := cString_set text (past written.length) (by decide : 127 < 128) (by omega)
  apply returns_again
  simp [readLoop, Nat.min_eq_left full, index, chunk]

/-- Every full chunk costs a byte, and so does the short one at the end. Where there is no
short one, the last turn writes in front of the array. -/
theorem returned (text : (0 : Octet) ∉ rest) (ends : Returns (readLoop past) ⟨rest, false, rst, written⟩ answer) :
    (128 ∣ rest.length → 2 ^ 64 - 1 ∈ answer.written) ∧
      ∀ got, answer.rst = some got → got.length + rest.length / 128 + 1 = rst.length + rest.length := by
  induction size : rest.length using Nat.strongRecOn generalizing rest rst written with
  | ind length ih =>
    subst size
    rcases Nat.lt_or_ge rest.length 128 with short | full
    · rcases Nat.eq_zero_or_pos rest.length with empty | nonempty
      · obtain rfl := List.eq_nil_of_length_eq_zero empty
        rw [returns_nothing] at ends
        subst ends
        simp
      · rw [returns_short text nonempty short] at ends
        subst ends
        constructor
        · intro multiple
          exact absurd (Nat.le_of_dvd nonempty multiple) (by omega)
        · intro got eq
          obtain rfl := Option.some.inj eq
          simp only [List.length_append, List.length_dropLast]
          omega
    · rw [returns_full text full] at ends
      have text' : (0 : Octet) ∉ rest.drop 128 := fun mem => text (List.mem_of_mem_drop mem)
      obtain ⟨outside, lost⟩ := ih (rest.drop 128).length (by simp only [List.length_drop]; omega) text' ends rfl
      simp only [List.length_drop, List.length_append, List.length_take] at outside lost
      constructor
      · intro multiple
        exact outside (by omega)
      · intro got eq
        have := lost got eq
        omega

/-- The call comes to its end on every output, whatever it has returned or written by then. -/
theorem exeShellRet_returns (past : Nat → Nat → Octet) (popen : Option (List Octet)) :
    ∃ fuel answer, exeShellRet past fuel popen = some answer := by
  cases popen with
  | none => exact ⟨0, _, rfl⟩
  | some output =>
    have ends : ∃ answer, Returns (readLoop past) ⟨output, false, [], []⟩ answer := by
      apply returns_of_measure (fun s : Reader => 2 * s.rest.length + if s.eof then 0 else 1) fun _ => True
      · trivial
      · intro s next _ turn
        refine ⟨trivial, ?_⟩
        unfold readLoop at turn
        dsimp only at turn
        split_ifs at turn with ended inside
        obtain rfl := Iter.again.inj turn
        simp only [List.length_drop, decide_eq_true_eq, ended, Bool.false_eq_true, if_false]
        split_ifs <;> omega
    obtain ⟨answer, fuel, run⟩ := ends
    exact ⟨fuel, answer, run⟩

/-- Taking off the last element leaves the list up to a newline when it was one. -/
theorem dropLast_append_newline_iff (nonempty : 0 < output.length) :
    (output.dropLast = output ∨ output.dropLast ++ [newline] = output) ↔ output.getLast? = some newline := by
  obtain ⟨front, last, rfl⟩ := List.eq_nil_or_concat output |>.resolve_left (List.length_pos_iff.mp nonempty)
  simp [eq_comm]

/-- The whole output comes back exactly if it is a single short chunk with a newline at its
end, which is the byte that the terminator replaces. -/
theorem returnsOutput_iff (past : Nat → Nat → Octet) (text : (0 : Octet) ∉ output) :
    ReturnsOutput past output ↔
      (0 < output.length ∧ output.length < 128) ∧ output.getLast? = some newline := by
  constructor
  · rintro ⟨fuel, answer, run, inside, rst, eq, whole⟩
    have ends : Returns (readLoop past) ⟨output, false, [], []⟩ answer := ⟨fuel, run⟩
    obtain ⟨outside, lost⟩ := returned text ends
    have balance := lost rst eq
    simp only [List.length_nil, Nat.zero_add] at balance
    have atMostOne : output.length ≤ rst.length + 1 := by
      rcases whole with rfl | rfl
      · omega
      · simp
    have nonempty : 0 < output.length := by
      by_contra empty
      have := inside _ (outside (by simp [Nat.eq_zero_of_not_pos empty]))
      omega
    have short : output.length < 128 := by omega
    rw [returns_short text nonempty short] at ends
    subst ends
    obtain rfl := Option.some.inj eq
    exact ⟨⟨nonempty, short⟩, (dropLast_append_newline_iff nonempty).mp whole⟩
  · rintro ⟨⟨nonempty, short⟩, newlineLast⟩
    have ends : Returns (readLoop past) ⟨output, false, [], []⟩ ⟨some output.dropLast, [output.length - 1]⟩ :=
      (returns_short text nonempty short).mpr rfl
    obtain ⟨fuel, run⟩ := ends
    refine ⟨fuel, _, run, ?_, _, rfl, ?_⟩
    · intro i mem
      have index := List.mem_singleton.mp mem
      omega
    · exact (dropLast_append_newline_iff nonempty).mpr newlineLast

/-- `echo ok`. -/
theorem returnsOutput_echo : ReturnsOutput (fun _ _ => 0) [111, 107, newline] :=
  (returnsOutput_iff (fun _ _ => 0) (by decide)).mpr (by decide)

/-- `printf ok`: the terminator takes the place of the `k`. -/
theorem last_byte_lost : (0 : Octet) ∉ ([111, 107] : List Octet) ∧ ¬ ReturnsOutput (fun _ _ => 0) [111, 107] ∧
    exeShellRet (fun _ _ => 0) 2 (some [111, 107]) = some ⟨some [111], [1]⟩ := by
  refine ⟨by decide, ?_, by decide⟩
  rintro ⟨fuel, answer, run, inside, rst, eq, whole⟩
  have ends : Returns (readLoop fun _ _ => 0) ⟨[111, 107], false, [], []⟩ answer := ⟨fuel, run⟩
  rw [returns_short (by decide) (by decide) (by decide)] at ends
  subst ends
  obtain rfl := Option.some.inj eq
  exact absurd whole (by decide)

end ServicesFramework.Shell
