import Mathlib.Tactic

/-!
A growable array as its allocation sees it: the cells that are allocated, and how many of
them count as elements. A write may go behind the last element as long as it stays inside
the allocation.
-/

/-- `store` are the allocated cells, the first `size` of them the elements. -/
structure GrowArray (α : Type*) where
  store : List α
  size : Nat
  size_le : size ≤ store.length
  deriving DecidableEq, Repr

namespace GrowArray

variable {α : Type*}

def capacity (v : GrowArray α) : Nat := v.store.length

def contents (v : GrowArray α) : List α := v.store.take v.size

/-- An array of `n` elements, allocated to measure. -/
def replicate (n : Nat) (zero : α) : GrowArray α := ⟨List.replicate n zero, n, by simp⟩

/-- Change the number of elements: the first ones stay, added ones are `zero`, and an
allocation that is too small is replaced by one of at least twice the old size. -/
def resize (v : GrowArray α) (n : Nat) (zero : α) : GrowArray α :=
  if shrink : n ≤ v.size then ⟨v.store, n, shrink.trans v.size_le⟩
  else if room : n ≤ v.store.length then
    ⟨v.store.take v.size ++ List.replicate (n - v.size) zero ++ v.store.drop n, n, by
      have within := v.size_le
      simp; omega⟩
  else
    ⟨v.store.take v.size ++ List.replicate (max n (2 * v.size) - v.size) zero, n, by
      have within := v.size_le
      simp; omega⟩

/-- Overwrite the cells from `i` on. -/
def write (v : GrowArray α) (i : Nat) (xs : List α) (fits : i + xs.length ≤ v.capacity) : GrowArray α :=
  ⟨v.store.take i ++ xs ++ v.store.drop (i + xs.length), v.size, by
    have within := v.size_le
    unfold capacity at fits
    simp; omega⟩

@[simp] theorem replicate_size (n : Nat) (zero : α) : (replicate n zero).size = n := rfl

@[simp] theorem replicate_capacity (n : Nat) (zero : α) : (replicate n zero).capacity = n := by
  simp [replicate, capacity]

@[simp] theorem resize_size (v : GrowArray α) (n : Nat) (zero : α) : (v.resize n zero).size = n := by
  unfold resize
  split
  · rfl
  · split <;> rfl

@[simp] theorem write_size (v : GrowArray α) (i : Nat) (xs : List α) (fits : i + xs.length ≤ v.capacity) :
    (v.write i xs fits).size = v.size := rfl

@[simp] theorem write_capacity (v : GrowArray α) (i : Nat) (xs : List α)
    (fits : i + xs.length ≤ v.capacity) : (v.write i xs fits).capacity = v.capacity := by
  unfold capacity at fits
  simp only [write, capacity, List.length_append, List.length_take, List.length_drop]
  omega

theorem resize_store_of_le {v : GrowArray α} {n : Nat} (zero : α) (shrink : n ≤ v.size) :
    (v.resize n zero).store = v.store := by
  simp [resize, shrink]

/-- The elements after a resize: the old ones, and `zero` behind them, whatever was written
there. -/
theorem resize_getElem? (v : GrowArray α) (zero : α) {n i : Nat} (below : i < n) :
    (v.resize n zero).store[i]? = if i < v.size then v.store[i]? else some zero := by
  have within := v.size_le
  have length : (v.store.take v.size).length = v.size := List.length_take_of_le within
  unfold resize
  split_ifs with shrink old room old old
  · rfl
  · omega
  · dsimp only
    rw [List.append_assoc, List.getElem?_append_left (by omega), List.getElem?_take_of_lt old]
  · dsimp only
    rw [List.append_assoc, List.getElem?_append_right (by omega), length,
      List.getElem?_append_left (by rw [List.length_replicate]; omega), List.getElem?_replicate_of_lt (by omega)]
  · dsimp only
    rw [List.getElem?_append_left (by omega), List.getElem?_take_of_lt old]
  · dsimp only
    rw [List.getElem?_append_right (by omega), length, List.getElem?_replicate_of_lt (by omega)]

theorem write_getElem? (v : GrowArray α) (k : Nat) (xs : List α) (fits : k + xs.length ≤ v.capacity) (i : Nat)
    (below : i < k + xs.length) :
    (v.write k xs fits).store[i]? = if i < k then v.store[i]? else xs[i - k]? := by
  unfold capacity at fits
  have length : (v.store.take k).length = k := List.length_take_of_le (by omega)
  simp only [write]
  rw [List.append_assoc]
  split_ifs with old
  · rw [List.getElem?_append_left (by omega), List.getElem?_take_of_lt old]
  · rw [List.getElem?_append_right (by omega), length, List.getElem?_append_left (by omega)]

/-- A write at the end of a prefix extends that prefix. -/
theorem write_take {v : GrowArray α} {i : Nat} {xs : List α} (fits : i + xs.length ≤ v.capacity) :
    (v.write i xs fits).store.take (i + xs.length) = v.store.take i ++ xs := by
  unfold capacity at fits
  have length : (v.store.take i ++ xs).length = i + xs.length := by simp; omega
  simp only [write]
  rw [← length, List.take_left]

end GrowArray
