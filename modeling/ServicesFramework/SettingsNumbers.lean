import ServicesFramework.Settings

namespace ServicesFramework

open Ch

namespace Settings

theorem printNat_isdigit (n : Nat) : ∀ c ∈ printNat n, isdigit c = true := by
  intro c member
  unfold printNat at member
  split_ifs at member with zero
  · obtain rfl : c = Ch.zero := List.mem_singleton.mp member
    decide
  · obtain ⟨d, digit, rfl⟩ := List.mem_map.mp member
    have small : d < 10 := Nat.digits_lt_base (by decide) (List.mem_reverse.mp digit)
    interval_cases d <;> decide

theorem printNat_ne_nil (n : Nat) : printNat n ≠ [] := by
  unfold printNat
  split_ifs with zero
  · exact List.cons_ne_nil _ _
  · have some : Nat.digits 10 n ≠ [] := Nat.digits_ne_nil_iff_ne_zero.mpr zero
    simpa using some

theorem foldr_digits {l : List Nat} (small : ∀ d ∈ l, d < 10) :
    l.foldr (fun d n => 10 * n + ((Fin.ofNat 256 (48 + d)).val - 48)) 0 = Nat.ofDigits 10 l := by
  induction l with
  | nil => rfl
  | cons d l ih =>
    have here := small d List.mem_cons_self
    have later := ih fun x member => small x (List.mem_cons_of_mem d member)
    have digit : (Fin.ofNat 256 (48 + d)).val = 48 + d := Nat.mod_eq_of_lt (by omega)
    rw [List.foldr_cons, later, digit, Nat.ofDigits_cons]
    omega

/-- The decimal text has the number as its value. -/
theorem foldl_printNat (n : Nat) : (printNat n).foldl (fun n c => 10 * n + (c.val - 48)) 0 = n := by
  unfold printNat
  split_ifs with zero
  · simp [zero, Ch.zero]
  · rw [List.foldl_map, List.foldl_reverse]
    exact (foldr_digits fun d member => Nat.digits_lt_base (by decide) member).trans (Nat.ofDigits_digits 10 n)

theorem printNat_injective : Function.Injective printNat :=
  Function.LeftInverse.injective foldl_printNat

theorem isdigit_plain {c : Ch} (digit : isdigit c = true) : isspace c = false ∧ c ≠ minus ∧ c ≠ plus := by
  obtain ⟨low, high⟩ := of_decide_eq_true digit
  rw [Fin.le_def] at low high
  have number : 48 ≤ c.val ∧ c.val ≤ 57 := ⟨low, high⟩
  refine ⟨?_, ?_, ?_⟩
  · have notControl : ¬(9 ≤ c ∧ c ≤ 13) := by
      rw [Fin.le_def, Fin.le_def]
      exact fun control => absurd (number.1.trans control.2) (by decide)
    have notBlank : c ≠ 32 := by
      rintro rfl
      exact absurd number.1 (by decide)
    simp [isspace, notControl, notBlank]
  · rintro rfl
    exact absurd number.1 (by decide)
  · rintro rfl
    exact absurd number.1 (by decide)

theorem takeWhile_printNat (n : Nat) : (printNat n).takeWhile isdigit = printNat n :=
  List.takeWhile_eq_self_iff.mpr (printNat_isdigit n)

/-- No character of a printed number is a blank. -/
theorem printInt_no_space (v : Int32) : ∀ c ∈ printInt v, isspace c = false := by
  have digits (n : Nat) : ∀ c ∈ printNat n, isspace c = false :=
    fun c member => (isdigit_plain (printNat_isdigit n c member)).1
  unfold printInt
  split_ifs
  · intro c member
    rcases List.mem_cons.mp member with rfl | member
    · decide
    · exact digits _ c member
  · exact digits _

theorem printInt_ne_nil (v : Int32) : printInt v ≠ [] := by
  unfold printInt
  split_ifs
  · exact List.cons_ne_nil _ _
  · exact printNat_ne_nil _

/-- `std::stoi` reads back what the stream printed. -/
theorem stoi_printInt (v : Int32) : stoi (printInt v) = some v := by
  have low := v.le_toInt
  have high := v.toInt_lt
  have back : Int32.ofInt v.toInt = v := Int32.ofInt_toInt v
  have start : (printInt v).dropWhile isspace = printInt v :=
    Text.dropWhile_eq_self fun c first => printInt_no_space v c (List.mem_of_mem_head? first)
  have inRange : ¬(v.toInt < -2 ^ 31 ∨ 2 ^ 31 ≤ v.toInt) := by omega
  rw [stoi, start]
  unfold printInt
  split_ifs with negative
  · have number : -((v.toInt.natAbs : Nat) : Int) = v.toInt := by omega
    simp only [if_true, takeWhile_printNat, foldl_printNat, number, if_neg (printNat_ne_nil _), if_neg inRange, back]
  · obtain ⟨c, rest, shape⟩ := List.exists_cons_of_ne_nil (printNat_ne_nil v.toInt.natAbs)
    have digit := printNat_isdigit v.toInt.natAbs c (by rw [shape]; exact List.mem_cons_self)
    obtain ⟨-, notMinus, notPlus⟩ := isdigit_plain digit
    have number : ((v.toInt.natAbs : Nat) : Int) = v.toInt := by omega
    rw [shape]
    simp only [if_neg notMinus, if_neg notPlus]
    rw [← shape, takeWhile_printNat, foldl_printNat, number, if_neg (printNat_ne_nil _)]
    simp only [Bool.false_eq_true, if_false, if_neg inRange, back]

end Settings

end ServicesFramework
