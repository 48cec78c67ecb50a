import ServicesFramework.SettingsText

namespace ServicesFramework

open Ch

variable {s rest pattern str : Str} {pos size fuel : Nat}

/-- `find` gives an occurrence, and none begins before it. -/
theorem Str.occurs_of_find (found : Str.find pattern s = some pos) :
    pattern <+: s.drop pos ∧ ∀ i < pos, ¬ pattern <+: s.drop i := by
  induction s generalizing pos with
  | nil =>
    rw [Str.find] at found
    split_ifs at found with empty
    cases found
    exact ⟨by simp [empty], fun i below => absurd below (Nat.not_lt_zero i)⟩
  | cons c s ih =>
    rw [Str.find] at found
    split_ifs at found with here
    · cases found
      exact ⟨List.isPrefixOf_iff_prefix.mp here, fun i below => absurd below (Nat.not_lt_zero i)⟩
    · obtain ⟨later, foundLater, rfl⟩ := Option.map_eq_some_iff.mp found
      obtain ⟨occurs, first⟩ := ih foundLater
      refine ⟨occurs, ?_⟩
      intro i below
      cases i with
      | zero => exact fun starts => here (List.isPrefixOf_iff_prefix.mpr starts)
      | succ i => exact first i (by omega)

/-- `find` misses no occurrence. -/
theorem Str.find_of_occurs {i : Nat} (occurs : pattern <+: s.drop i) : ∃ pos ≤ i, Str.find pattern s = some pos := by
  induction s generalizing i with
  | nil =>
    rw [List.drop_nil, List.prefix_nil] at occurs
    exact ⟨0, Nat.zero_le i, by simp [Str.find, occurs]⟩
  | cons c s ih =>
    rw [Str.find]
    by_cases here : pattern.isPrefixOf (c :: s) = true
    · exact ⟨0, Nat.zero_le i, if_pos here⟩
    · cases i with
      | zero => exact absurd (List.isPrefixOf_iff_prefix.mpr occurs) here
      | succ i =>
        obtain ⟨pos, before, found⟩ := ih occurs
        exact ⟨pos + 1, by omega, by rw [if_neg here, found, Option.map_some]⟩

theorem Str.find_of_short (short : s.length < pattern.length) : Str.find pattern s = none := by
  cases found : Str.find pattern s with
  | none => rfl
  | some pos =>
    have fits := (Str.occurs_of_find found).1.length_le
    rw [List.length_drop] at fits
    omega

/-- The pattern occurs in the text that `split` searches only where `split` has appended it. -/
def OnlyAppended (pattern rest : Str) : Prop := ∀ i < rest.length, ¬ pattern <+: (rest ++ pattern).drop i

/-- One pass of the loop: the appended pattern is still there, so there is an occurrence, and
it is not behind the appended one. -/
theorem splitLoop_pass (fuel : Nat) (proper : pattern ≠ []) (fits : rest.length + pattern.length ≤ size) :
    ∃ pos ≤ rest.length, pattern <+: (rest ++ pattern).drop pos ∧
      (∀ i < pos, ¬ pattern <+: (rest ++ pattern).drop i) ∧
      splitLoop pattern size (fuel + 1) (rest ++ pattern) =
        (splitLoop pattern size fuel ((rest ++ pattern).drop (pos + 1))).map (rest.take pos :: ·) := by
  have appended : pattern <+: (rest ++ pattern).drop rest.length := by simp
  obtain ⟨pos, before, found⟩ := Str.find_of_occurs appended
  obtain ⟨occurs, first⟩ := Str.occurs_of_find found
  refine ⟨pos, before, occurs, first, ?_⟩
  have positive : 0 < pattern.length := List.length_pos_iff.mpr proper
  have total : (rest ++ pattern).length = rest.length + pattern.length := List.length_append
  have piece : Str.substr (rest ++ pattern) 0 (some pos) = some (rest.take pos) := by
    simp [Str.substr, List.take_append_of_le_length before]
  have later : Str.substr (rest ++ pattern) (pos + 1) (some size) = some ((rest ++ pattern).drop (pos + 1)) := by
    have short : ((rest ++ pattern).drop (pos + 1)).length ≤ size := by
      rw [List.length_drop]
      omega
    rw [Str.substr, if_neg (by omega), List.take_of_length_le short]
  rw [splitLoop, found]
  simp only [piece, later, Option.bind_eq_bind, Option.bind_some]
  cases splitLoop pattern size fuel ((rest ++ pattern).drop (pos + 1)) <;> rfl

/-- What the loop returns. Each piece but the last is followed by the one character that the
loop skips, so the lengths of the pieces fall short of the text by their number less one. -/
theorem splitLoop_pieces (proper : pattern ≠ []) (enough : rest.length + 2 ≤ fuel)
    (fits : rest.length + pattern.length ≤ size) :
    ∃ piece pieces, splitLoop pattern size fuel (rest ++ pattern) = some (piece :: pieces) ∧
      piece.length + (pieces.map List.length).sum + pieces.length = rest.length ∧
      (OnlyAppended pattern rest ∧ piece = rest ∧ pieces = [] ∨ ¬ OnlyAppended pattern rest ∧ pieces ≠ []) := by
  induction fuel generalizing rest with
  | zero => omega
  | succ fuel ih =>
    obtain ⟨pos, before, occurs, first, pass⟩ := splitLoop_pass fuel proper fits
    rcases Nat.lt_or_eq_of_le before with inside | atEnd
    · have shorter : (rest ++ pattern).drop (pos + 1) = rest.drop (pos + 1) ++ pattern :=
        List.drop_append_of_le_length inside
      have left : (rest.drop (pos + 1)).length = rest.length - (pos + 1) := List.length_drop
      obtain ⟨piece, pieces, returned, balance, -⟩ := @ih (rest.drop (pos + 1)) (by omega) (by omega)
      refine ⟨rest.take pos, piece :: pieces, ?_, ?_, ?_⟩
      · rw [pass, shorter, returned, Option.map_some]
      · rw [List.length_take_of_le before, List.map_cons, List.sum_cons, List.length_cons]
        omega
      · exact Or.inr ⟨fun only => only pos inside occurs, List.cons_ne_nil piece pieces⟩
    · subst pos
      have tail : (rest ++ pattern).drop (rest.length + 1) = pattern.drop 1 := by
        rw [← List.drop_drop, List.drop_left]
      have nothing : Str.find pattern (pattern.drop 1) = none := by
        have positive : 0 < pattern.length := List.length_pos_iff.mpr proper
        exact Str.find_of_short (by rw [List.length_drop]; omega)
      obtain ⟨fuel, rfl⟩ : ∃ n, fuel = n + 1 := ⟨fuel - 1, by omega⟩
      refine ⟨rest, [], ?_, by simp, Or.inl ⟨first, rfl, rfl⟩⟩
      rw [pass, tail, splitLoop, nothing, List.take_length]
      rfl

/-- For a pattern that is not empty `split` returns, whatever the text. -/
theorem split_pieces (nonempty : str ≠ []) (proper : pattern ≠ []) :
    ∃ piece pieces, split str pattern = some (piece :: pieces) ∧
      piece.length + (pieces.map List.length).sum + pieces.length = str.length ∧
      (OnlyAppended pattern str ∧ piece = str ∧ pieces = [] ∨ ¬ OnlyAppended pattern str ∧ pieces ≠ []) := by
  have positive : 0 < pattern.length := List.length_pos_iff.mpr proper
  rw [split, if_neg nonempty]
  simp only [List.length_append]
  exact splitLoop_pieces proper (by omega) le_rfl

/-- `split` returns, its pieces joined with the pattern are the text, and a pattern of one
character is in none of them. -/
def InvertedByJoin (str pattern : Str) : Prop :=
  ∃ pieces, split str pattern = some pieces ∧ pattern.intercalate pieces = str ∧
    ∀ c, pattern = [c] → ∀ piece ∈ pieces, c ∉ piece

theorem invertedByJoin_singleton (nonempty : str ≠ []) (c : Ch) : InvertedByJoin str [c] := by
  refine ⟨str.splitOn c, split_singleton c nonempty, List.intercalate_splitOn c, ?_⟩
  intro d same piece member
  cases List.singleton_inj.mp same
  exact Text.not_mem_of_mem_splitOn member

/-- The loop goes on one character behind the beginning of an occurrence, and not behind its
end. So a pattern of several characters is cut out correctly only where there is nothing to
cut but what was appended. -/
theorem split_inverted_iff (str pattern : Str) (nonempty : str ≠ []) (proper : pattern ≠ []) :
    InvertedByJoin str pattern ↔
      pattern.length = 1 ∨ ∀ i < str.length, ¬ pattern <+: (str ++ pattern).drop i := by
  obtain ⟨piece, pieces, returned, balance, kind⟩ := split_pieces nonempty proper
  constructor
  · rintro ⟨all, same, joined, -⟩
    cases Option.some.inj (returned.symm.trans same)
    have length := congrArg List.length joined
    rw [Text.length_intercalate_cons] at length
    rcases kind with ⟨only, -, -⟩ | ⟨-, more⟩
    · exact Or.inr only
    · left
      have count : pieces.length * pattern.length = pieces.length * 1 := by omega
      exact Nat.eq_of_mul_eq_mul_left (List.length_pos_iff.mpr more) count
  · intro condition
    by_cases one : pattern.length = 1
    · obtain ⟨c, rfl⟩ := List.length_eq_one_iff.mp one
      exact invertedByJoin_singleton nonempty c
    · have only := condition.resolve_left one
      rcases kind with ⟨-, rfl, rfl⟩ | ⟨more, -⟩
      · refine ⟨[piece], returned, List.intercalate_singleton, ?_⟩
        rintro c rfl
        exact absurd rfl one
      · exact absurd only more

/-- Two colons as the pattern, and none in the text. -/
theorem split_inverted_colons : InvertedByJoin [plus, minus] [colon, colon] :=
  (split_inverted_iff [plus, minus] [colon, colon] (by decide) (by decide)).mpr (.inr (by decide))

/-- Two colons between a plus and a minus: the second one stays in the second piece. -/
theorem split_keeps_colon :
    ¬ ∀ str pattern : Str, str ≠ [] → pattern ≠ [] → InvertedByJoin str pattern := by
  intro claim
  obtain ⟨pieces, returned, joined, -⟩ := claim [plus, colon, colon, minus] [colon, colon] (by decide) (by decide)
  have cut : split [plus, colon, colon, minus] [colon, colon] = some [[plus], [colon, minus]] := by decide
  cases Option.some.inj (cut.symm.trans returned)
  exact absurd joined (by decide)

end ServicesFramework
