import ServicesFramework.SettingsLines

namespace ServicesFramework

open Ch

namespace Settings

/-- The lines that, after trimming, `read_ini` has no use for. -/
def IsNoise (line : Str) : Prop :=
  match Str.trim line with
  | [] => True
  | c :: rest => c = semicolon ∨ c = Ch.hash ∨ c = lbracket ∧ rbracket ∉ c :: rest ∨
      c ≠ lbracket ∧ (equals ∉ c :: rest ∨ c = equals)

theorem ofLine_ignored_iff (line : Str) : IniLine.ofLine line = .ignored ↔ IsNoise line := by
  unfold IniLine.ofLine IsNoise
  cases Str.trim line with
  | nil => simp
  | cons c rest =>
    simp only
    by_cases comment : c = semicolon ∨ c = Ch.hash
    · rw [if_pos comment]
      tauto
    rw [if_neg comment]
    by_cases opening : c = lbracket
    · subst opening
      have other : rbracket ≠ lbracket := by decide
      by_cases closing : rbracket ∈ rest
      · simp [closing, not_or.mp comment]
      · simp [closing, other]
    · by_cases assigns : c ≠ equals ∧ equals ∈ rest
      · simp [opening, assigns, not_or.mp comment]
      · rw [if_neg opening, if_neg assigns]
        simp only [List.mem_cons]
        tauto

instance : DecidablePred IsNoise := fun line => decidable_of_iff _ (ofLine_ignored_iff line)

theorem assignments_ignored {line : Str} (noise : IsNoise line) (sect : Str) (lines : List Str) :
    assignments sect (line :: lines) = assignments sect lines := by
  rw [assignments, (ofLine_ignored_iff line).mpr noise]

/-- Only what is left after trimming counts. -/
theorem assignments_trim {line other : Str} (same : Str.trim line = Str.trim other) (sect : Str) (lines : List Str) :
    assignments sect (line :: lines) = assignments sect (other :: lines) := by
  have kind : IniLine.ofLine line = IniLine.ofLine other := by
    unfold IniLine.ofLine
    rw [same]
  rw [assignments, assignments, kind]

/-- Blanks that can stand in a line. -/
def IsPadding (pad : Str) : Prop := ∀ c ∈ pad, isspace c = true ∧ c ≠ newline

instance : DecidablePred IsPadding := fun pad =>
  inferInstanceAs (Decidable (∀ c ∈ pad, isspace c = true ∧ c ≠ newline))

/-- One change to the lines of a text that `read_ini` is not to notice. -/
inductive Noise : List Str → List Str → Prop
  | ignored (before after : List Str) (line : Str) :
      newline ∉ line → IsNoise line → Noise (before ++ after) (before ++ line :: after)
  | padded (before after : List Str) (left line right : Str) : IsPadding left → IsPadding right →
      Noise (before ++ line :: after) (before ++ (left ++ line ++ right) :: after)
  | finalNewline (lines : List Str) : Noise lines (lines ++ [[]])
  | again (before after : List Str) (line key data : Str) : newline ∉ line → IniLine.ofLine line = .assign key data →
      sectionAfter [] before ++ dot :: key ∈ (assignments [] before).map Prod.fst →
      Noise (before ++ after) (before ++ line :: after)

/-- The map that the lines give, put into a map that may hold entries already. -/
def readLines (lines : List Str) (kv : SectionKv) : SectionKv :=
  (assignments [] lines).foldl (fun kv e => kv.insert e.1 e.2) kv

variable {lines lines' : List Str}

theorem Noise.readLines_eq (noise : Noise lines lines') (kv : SectionKv) : readLines lines' kv = readLines lines kv := by
  unfold readLines
  cases noise with
  | ignored before after line oneLine ignored =>
    rw [assignments_append, assignments_append, assignments_ignored ignored]
  | padded before after left line right leftPad rightPad =>
    have trimmed : Str.trim (left ++ line ++ right) = Str.trim line :=
      Text.strip_pad (fun c member => (leftPad c member).1) (fun c member => (rightPad c member).1) line
    rw [assignments_append, assignments_append, assignments_trim trimmed]
  | finalNewline =>
    rw [assignments_snoc_nil]
  | again before after line key data oneLine kind known =>
    rw [assignments_append, assignments_append, assignments, kind]
    by_cases outside : sectionAfter [] before = []
    · simp only [if_pos outside]
    · simp only [if_neg outside]
      exact SortedMap.foldl_insert_again known data kv _

/-- The lines contain no newline. -/
def OneLine (lines : List Str) : Prop := ∀ l ∈ lines, newline ∉ l

theorem oneLine_append_cons (before after : List Str) (line : Str) :
    OneLine (before ++ line :: after) ↔ newline ∉ line ∧ OneLine (before ++ after) := by
  simp only [OneLine, List.mem_append, List.mem_cons]
  constructor
  · intro free
    refine ⟨free line (.inr (.inl rfl)), ?_⟩
    rintro l (member | member)
    · exact free l (.inl member)
    · exact free l (.inr (.inr member))
  · rintro ⟨here, free⟩ l (member | rfl | member)
    · exact free l (.inl member)
    · exact here
    · exact free l (.inr member)

theorem newline_notMem_padding {pad : Str} (padding : IsPadding pad) : newline ∉ pad :=
  fun member => (padding newline member).2 rfl

theorem Noise.oneLine_iff (noise : Noise lines lines') : OneLine lines ↔ OneLine lines' := by
  cases noise with
  | ignored before after line oneLine ignored => rw [oneLine_append_cons, and_iff_right oneLine]
  | padded before after left line right leftPad rightPad =>
    rw [oneLine_append_cons, oneLine_append_cons, List.mem_append, List.mem_append]
    simp only [newline_notMem_padding leftPad, newline_notMem_padding rightPad, false_or, or_false]
  | finalNewline => rw [oneLine_append_cons, and_iff_right List.not_mem_nil, List.append_nil]
  | again before after line key data oneLine kind known => rw [oneLine_append_cons, and_iff_right oneLine]

/-- The text that has these lines. -/
def joinLines (lines : List Str) : Str := [newline].intercalate lines

theorem joinLines_splitOn (text : Str) : joinLines (text.splitOn newline) = text := List.intercalate_splitOn newline

theorem readIni_joinLines (oneLine : OneLine lines) (kv : SectionKv) :
    readIni (joinLines lines) kv = some (readLines lines kv) := by
  rw [readIni_eq]
  cases lines with
  | nil => rfl
  | cons l lines => rw [joinLines, List.splitOn_intercalate newline oneLine (List.cons_ne_nil l lines), readLines]

theorem eqvGen_noise (noise : Relation.EqvGen Noise lines lines') (kv : SectionKv) :
    (OneLine lines ↔ OneLine lines') ∧ readLines lines' kv = readLines lines kv := by
  induction noise with
  | rel lines lines' change => exact ⟨change.oneLine_iff, change.readLines_eq kv⟩
  | refl lines => exact ⟨.rfl, rfl⟩
  | symm lines lines' _ same => exact ⟨same.1.symm, same.2.symm⟩
  | trans a b c _ _ first second => exact ⟨first.1.trans second.1, second.2.trans first.2⟩

/-- Any number of such changes to the lines of a text, made or undone, leaves what is read. -/
theorem readIni_ignores_noise (text : Str) (lines : List Str)
    (noise : Relation.EqvGen Noise (text.splitOn newline) lines) (kv : SectionKv) :
    readIni (joinLines lines) kv = readIni text kv := by
  have oneLine : OneLine (text.splitOn newline) := fun _ => Text.not_mem_of_mem_splitOn
  obtain ⟨lineByLine, same⟩ := eqvGen_noise noise kv
  rw [readIni_joinLines (lineByLine.mp oneLine), same, ← readIni_joinLines oneLine, joinLines_splitOn]

/-- The text `[a]`, `k=v`, and the same with a carriage return, a comment, a further value for
`a.k` and a final newline. -/
theorem readIni_ignores_noise_four :
    readIni (joinLines [[91, 97, 93, 13], [35], [107, 61, 118], [107, 61, 119], []]) .empty =
      readIni [91, 97, 93, 10, 107, 61, 118] .empty := by
  apply readIni_ignores_noise
  have lines : ([91, 97, 93, 10, 107, 61, 118] : Str).splitOn newline = [[91, 97, 93], [107, 61, 118]] := by decide
  rw [lines]
  have returned : Noise [[91, 97, 93], [107, 61, 118]] [[91, 97, 93, 13], [107, 61, 118]] :=
    .padded [] [[107, 61, 118]] [] [91, 97, 93] [13] (by decide +kernel) (by decide +kernel)
  have commented : Noise [[91, 97, 93, 13], [107, 61, 118]] [[91, 97, 93, 13], [35], [107, 61, 118]] :=
    .ignored [[91, 97, 93, 13]] [[107, 61, 118]] [35] (by decide) (by decide)
  have repeated : Noise [[91, 97, 93, 13], [35], [107, 61, 118]]
      [[91, 97, 93, 13], [35], [107, 61, 118], [107, 61, 119]] :=
    .again [[91, 97, 93, 13], [35], [107, 61, 118]] [] [107, 61, 119] [107] [119] (by decide) (by decide) (by decide)
  exact .trans _ _ _ (.rel _ _ returned) (.trans _ _ _ (.rel _ _ commented) (.trans _ _ _ (.rel _ _ repeated)
    (.rel _ _ (.finalNewline _))))

end Settings

end ServicesFramework
