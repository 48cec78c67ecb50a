import Mathlib.Data.List.DropRight
import Mathlib.Data.List.Lex
import Mathlib.Tactic

/-!
Texts as lists over any alphabet: cutting blanks off both ends, lines, and the
lexicographic order on texts with a common beginning.
-/

namespace Text

variable {α : Type*}

def strip (blank : α → Bool) (s : List α) : List α := (s.dropWhile blank).rdropWhile blank

/-- Neither end is blank. -/
def Stripped (blank : α → Bool) (s : List α) : Prop :=
  (∀ c ∈ s.head?, blank c = false) ∧ ∀ c ∈ s.getLast?, blank c = false

instance (blank : α → Bool) (s : List α) : Decidable (Stripped blank s) :=
  inferInstanceAs (Decidable ((∀ c ∈ s.head?, blank c = false) ∧ ∀ c ∈ s.getLast?, blank c = false))

variable {blank : α → Bool} {s t : List α} {c : α}

theorem dropWhile_eq_self (first : ∀ c ∈ s.head?, blank c = false) : s.dropWhile blank = s := by
  cases s with
  | nil => rfl
  | cons c rest => rw [List.dropWhile_cons_of_neg (by simp [first c rfl])]

theorem rdropWhile_eq_self (last : ∀ c ∈ s.getLast?, blank c = false) : s.rdropWhile blank = s := by
  refine List.rdropWhile_eq_self_iff.mpr ?_
  intro nonempty
  simp [last (s.getLast nonempty) (List.getLast?_eq_some_getLast nonempty)]

theorem strip_eq_self (stripped : Stripped blank s) : strip blank s = s := by
  rw [strip, dropWhile_eq_self stripped.1, rdropWhile_eq_self stripped.2]

theorem head?_dropWhile (s : List α) : ∀ c ∈ (s.dropWhile blank).head?, blank c = false := by
  intro c first
  have found := List.head?_dropWhile_not blank s
  rw [Option.mem_def] at first
  simpa [first] using found

theorem getLast?_rdropWhile (s : List α) : ∀ c ∈ (s.rdropWhile blank).getLast?, blank c = false := by
  intro c last
  obtain ⟨nonempty, rfl⟩ := List.mem_getLast?_eq_getLast last
  simpa using List.rdropWhile_last_not blank s nonempty

theorem head?_of_initial (starts : s <+: t) (nonempty : s ≠ []) : s.head? = t.head? := by
  obtain ⟨rest, rfl⟩ := starts
  rw [List.head?_append_of_ne_nil _ nonempty]

theorem strip_stripped (s : List α) : Stripped blank (strip blank s) := by
  refine ⟨?_, getLast?_rdropWhile _⟩
  intro c first
  have starts : strip blank s <+: s.dropWhile blank := List.rdropWhile_prefix blank _
  have nonempty : strip blank s ≠ [] := by
    rintro equal
    simp [equal] at first
  rw [head?_of_initial starts nonempty] at first
  exact head?_dropWhile s c first

theorem strip_within (s : List α) : strip blank s <:+: s :=
  (List.rdropWhile_prefix blank _).isInfix.trans (List.dropWhile_suffix blank).isInfix

theorem length_strip_le (s : List α) : (strip blank s).length ≤ s.length := (strip_within s).length_le

/-- A text that loses no symbol is unchanged. -/
theorem strip_eq_of_length (same : (strip blank s).length = s.length) : strip blank s = s :=
  (strip_within s).eq_of_length same

/-- Blanks added at the ends are cut off again. -/
theorem strip_pad {left right : List α} (leftBlank : ∀ c ∈ left, blank c = true) (rightBlank : ∀ c ∈ right, blank c = true)
    (s : List α) : strip blank (left ++ s ++ right) = strip blank s := by
  rw [strip, strip, List.append_assoc, List.dropWhile_append_of_pos leftBlank]
  cases rest : s.dropWhile blank with
  | nil =>
    have all : (s ++ right).dropWhile blank = [] := by
      rw [List.dropWhile_eq_nil_iff] at rest ⊢
      intro c member
      rcases List.mem_append.mp member with inS | inRight
      · exact rest c inS
      · exact rightBlank c inRight
    rw [all]
  | cons c t =>
    have kept : (s ++ right).dropWhile blank = c :: t ++ right := by
      rw [List.dropWhile_append, rest]
      rfl
    rw [kept, List.rdropWhile, List.reverse_append, List.dropWhile_append_of_pos, List.rdropWhile]
    intro c member
    exact rightBlank c (List.mem_reverse.mp member)

theorem stripped_append_cons (first : Stripped blank s) (nonempty : s ≠ [])
    (last : ∀ x ∈ (c :: t).getLast?, blank x = false) : Stripped blank (s ++ c :: t) := by
  constructor
  · rw [List.head?_append_of_ne_nil _ nonempty]
    exact first.1
  · rw [List.getLast?_append_of_ne_nil _ (List.cons_ne_nil c t)]
    exact last

/-- Lines that are each ended by `sep` are read back, followed by an empty last one. -/
theorem splitOn_lines [DecidableEq α] {sep : α} {lines : List (List α)} (free : ∀ l ∈ lines, sep ∉ l) :
    (lines.flatMap fun l => l ++ [sep]).splitOn sep = lines ++ [[]] := by
  induction lines with
  | nil => simp
  | cons l rest ih =>
    have here : sep ∉ l := free l List.mem_cons_self
    have later := ih fun l' member => free l' (List.mem_cons_of_mem l member)
    rw [List.flatMap_cons, List.append_assoc, List.singleton_append,
      List.splitOn_append_cons_self_of_not_mem here, later, List.cons_append]

theorem not_mem_of_mem_splitOn [DecidableEq α] {sep : α} {piece : List α} (member : piece ∈ s.splitOn sep) :
    sep ∉ piece := by
  induction s generalizing piece with
  | nil =>
    obtain rfl : piece = [] := by simpa using member
    exact List.not_mem_nil
  | cons c s ih =>
    obtain ⟨first, rest, cut⟩ := List.exists_cons_of_ne_nil (List.splitOn_ne_nil sep s)
    rw [List.splitOn_cons_eq_if_modifyHead, cut] at member
    rw [cut] at ih
    split_ifs at member with same
    · rcases List.mem_cons.mp member with rfl | later
      · exact List.not_mem_nil
      · exact ih later
    · rw [List.modifyHead_cons] at member
      rcases List.mem_cons.mp member with rfl | later
      · have other : sep ≠ c := fun equal => same (by simp [equal])
        have none : sep ∉ first := ih List.mem_cons_self
        simp [other, none]
      · exact ih (List.mem_cons_of_mem first later)

theorem intercalate_cons (sep : α) (piece : List α) (pieces : List (List α)) :
    [sep].intercalate (piece :: pieces) = piece ++ pieces.flatMap (sep :: ·) := by
  induction pieces generalizing piece with
  | nil => simp
  | cons next rest ih =>
    rw [List.intercalate_cons_cons, ih]
    simp

theorem length_intercalate_cons (sep piece : List α) (pieces : List (List α)) :
    (sep.intercalate (piece :: pieces)).length =
      piece.length + (pieces.map List.length).sum + pieces.length * sep.length := by
  induction pieces generalizing piece with
  | nil => simp
  | cons next rest ih =>
    rw [List.intercalate_cons_cons, List.length_append, List.length_append, ih, List.map_cons, List.sum_cons,
      List.length_cons, Nat.succ_mul]
    omega

/-- Joined pieces can be taken apart again when the separator occurs in none of them. -/
theorem intercalate_injective [DecidableEq α] {sep : α} {pieces others : List (List α)}
    (free : ∀ p ∈ pieces, sep ∉ p) (some : pieces ≠ []) (free' : ∀ p ∈ others, sep ∉ p) (some' : others ≠ [])
    (same : [sep].intercalate pieces = [sep].intercalate others) : pieces = others := by
  rw [← List.splitOn_intercalate sep free some, same, List.splitOn_intercalate sep free' some']

theorem idxOf?_append_cons [DecidableEq α] {a b : List α} (fresh : c ∉ a) :
    (a ++ c :: b).idxOf? c = some a.length := by
  induction a with
  | nil => simp [List.idxOf?_cons]
  | cons d a ih =>
    have distinct : d ≠ c := fun equal => fresh (by simp [equal])
    have later : c ∉ a := fun member => fresh (List.mem_cons_of_mem d member)
    simp [List.idxOf?_cons, distinct, ih later]

/-- Between two texts that begin with `p` there are only texts that begin with `p`. -/
theorem prefix_convex [LinearOrder α] {p a b x : List α} (low : p ++ a < x) (high : x < p ++ b) : p <+: x := by
  induction p generalizing x with
  | nil => exact List.nil_prefix
  | cons c rest ih =>
    cases x with
    | nil => exact absurd low (List.not_lt_nil _)
    | cons d x =>
      rw [List.cons_append, List.cons_lt_cons_iff] at low high
      have equal : c = d := by
        rcases low with less | ⟨equal, -⟩
        · rcases high with more | ⟨equal, -⟩
          · exact absurd more less.asymm
          · exact equal.symm
        · exact equal
      subst d
      have low' : rest ++ a < x := by simpa using low
      have high' : x < rest ++ b := by simpa using high
      exact (List.prefix_cons_inj c).mpr (ih low' high')

end Text
