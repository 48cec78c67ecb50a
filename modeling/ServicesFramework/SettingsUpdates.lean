import ServicesFramework.SettingsRewrite
import ServicesFramework.SettingsRuns

namespace ServicesFramework

open Ch

namespace Settings

variable {file name v : Str} {kv : SectionKv}

/-- What is extracted has no blank. -/
theorem extract_no_space (v : Str) : ∀ c ∈ extract v, isspace c = false := by
  intro c member
  simpa using List.mem_takeWhile_imp member

/-- A text that starts with a printing character gives at least that one. -/
theorem extract_ne_nil (nonempty : v ≠ []) (trimmed : Text.Stripped isspace v) : extract v ≠ [] := by
  obtain ⟨c, rest, rfl⟩ := List.exists_cons_of_ne_nil nonempty
  have first : isspace c = false := trimmed.1 c rfl
  rw [extract, List.dropWhile_cons_of_neg (by simp [first]), List.takeWhile_cons_of_pos (by simp [first])]
  exact List.cons_ne_nil _ _

theorem setValue_extract (file name v : Str) : setValue file name (extract v) = setValue file name v := by
  rw [setValue, setValue, extract_eq_self (extract_no_space v)]

/-- After the call the setting has the first word of the text. -/
theorem getValueString_setValue (read : readIni file .empty = some kv) (wellFormed : WellFormed kv)
    (named : WellFormedName name) (nonempty : v ≠ []) (trimmed : Text.Stripped isspace v) (d : Str) :
    (setValue file name v).bind (getValueString · name d) = some (extract v) := by
  have word : extract v ≠ [] := extract_ne_nil nonempty trimmed
  have fits : (SetCall.string name (extract v)).Fits := ⟨named, word, extract_no_space v⟩
  obtain ⟨file', written, stores⟩ := setValue_of_read read wellFormed fits
  have step : setValue file name v = some file' := (setValue_extract file name v).symm.trans written
  have found : (put kv (.string name (extract v))).find name = some (extract v) :=
    (find_put kv _ name).trans (if_pos rfl)
  rw [step, Option.bind_some, getValueString_stores stores, found]
  exact congrArg some (if_neg word)

/-- A text comes back from the store exactly when it is a single word. -/
theorem string_reads_back_iff (file name v : Str) (kv : SectionKv) (read : readIni file .empty = some kv)
    (wellFormed : WellFormed kv) (named : WellFormedName name) (nonempty : v ≠ [])
    (trimmed : Text.Stripped isspace v) :
    (∀ d, (setValue file name v).bind (getValueString · name d) = some v) ↔ ∀ c ∈ v, isspace c = false := by
  constructor
  · intro back
    have word : extract v = v := by
      have first := getValueString_setValue read wellFormed named nonempty trimmed []
      exact Option.some.inj (first.symm.trans (back []))
    rw [← word]
    exact extract_no_space v
  · intro noSpace d
    rw [getValueString_setValue read wellFormed named nonempty trimmed, extract_eq_self noSpace]

theorem wellFormed_empty : WellFormed .empty := by simp [WellFormed, SortedMap.empty]

/-- The name `0.0`. -/
def zeroName : Str := [zero, dot, zero]

theorem zeroName_wellFormed : WellFormedName zeroName := by decide +kernel

/-- A text without blanks comes back whatever else is in it, as `a=#` does. -/
theorem string_reads_back_word :
    (setValue [] zeroName [97, 61, 35]).bind (getValueString · zeroName [98]) = some [97, 61, 35] :=
  (string_reads_back_iff [] zeroName [97, 61, 35] .empty rfl wellFormed_empty zeroName_wellFormed (by decide)
    (by decide +kernel)).mpr (by decide +kernel) [98]

/-- Of `a b` only the `a` is stored. -/
theorem string_loses_words :
    ¬ ∀ (file name v : Str) (kv : SectionKv), readIni file .empty = some kv → WellFormed kv → WellFormedName name →
      v ≠ [] → newline ∉ v → Text.Stripped isspace v →
        ∀ d, (setValue file name v).bind (getValueString · name d) = some v := by
  intro claim
  have some : ([97, 32, 98] : Str) ≠ [] := List.cons_ne_nil _ _
  have trimmed : Text.Stripped isspace [97, 32, 98] := by decide +kernel
  have back := claim [] zeroName [97, 32, 98] .empty rfl wellFormed_empty zeroName_wellFormed some (by decide) trimmed []
  rw [getValueString_setValue rfl wellFormed_empty zeroName_wellFormed some trimmed] at back
  exact absurd back (by decide +kernel)

/-- `write_ini` stops at a name without a dot: what comes after it is not written. -/
theorem writeEntries_stops (noDot : dot ∉ name) (print : List Str) (smaller greater : List (Str × Str)) :
    writeEntries print (smaller ++ (name, v) :: greater) = writeEntries print smaller := by
  induction smaller generalizing print with
  | nil =>
    rw [List.nil_append, writeEntries, writeEntries]
    by_cases empty : name = []
    · simp [empty, split]
    · simp [split_dot empty, List.splitOn_eq_singleton noDot]
  | cons e smaller ih =>
    obtain ⟨n, data⟩ := e
    simp only [List.cons_append, writeEntries, ih]

/-- Of what is read, only the names can fail to be well-formed. -/
theorem wellFormed_of_read (read : readIni file .empty = some kv) (named : ∀ e ∈ kv.entries, WellFormedName e.1) :
    WellFormed kv := by
  intro e member
  have readable := readable_of_read read e member
  exact ⟨named e member, readable.dataOneLine, readable.dataTrimmed⟩

/-- The call with such a name leaves the settings whose names are smaller. -/
theorem setValue_undotted (read : readIni file .empty = some kv) (wellFormed : WellFormed kv) (noDot : dot ∉ name)
    (v : Str) : ∃ smaller greater : List (Str × Str), kv.entries = smaller ++ greater ∧
      (∀ e ∈ smaller, e.1 < name) ∧ (∀ e ∈ greater, name < e.1) ∧
      ∃ rest : SectionKv, rest.entries = smaller ∧ (setValue file name v).bind (readIni · .empty) = some rest := by
  have absent : ∀ e ∈ kv.entries, e.1 ≠ name := by
    intro e member same
    exact noDot (same ▸ (Readable.of_wellFormed (wellFormed e member).1 (wellFormed e member).2).dotted)
  have unknown : ¬ (kv.find name).isSome := by
    intro found
    obtain ⟨data, found⟩ := Option.isSome_iff_exists.mp found
    exact absent (name, data) (SortedMap.find_eq_some_iff.mp found) rfl
  obtain ⟨smaller, greater, whole, inserted, low, high⟩ := SortedMap.insertEntry_split kv.sorted absent (extract v)
  have sorted : smaller.Pairwise fun x y => x.1 < y.1 := by
    have sorted := kv.sorted
    rw [whole] at sorted
    exact (List.pairwise_append.mp sorted).1
  have kept : WellFormed ⟨smaller, sorted⟩ := by
    intro e member
    exact wellFormed e (whole ▸ List.mem_append_left greater member)
  obtain ⟨text, written, back⟩ := readIni_writeIni kept
  refine ⟨smaller, greater, whole, low, high, ⟨smaller, sorted⟩, rfl, ?_⟩
  have stops : writeIni (kv.insert name (extract v)) = some text := by
    change writeEntries [] (SortedMap.insertEntry name (extract v) kv.entries) = some text
    rw [inserted, writeEntries_stops noDot]
    exact written
  simp only [setValue, read, Option.bind_eq_bind, Option.bind_some, if_neg unknown, stops, back]

/-- A name without a dot does no harm exactly when it sorts after every stored name. -/
theorem undotted_harmless_iff (file name v : Str) (kv : SectionKv) (read : readIni file .empty = some kv)
    (named : ∀ e ∈ kv.entries, WellFormedName e.1) (noDot : dot ∉ name) :
    (setValue file name v).bind (readIni · .empty) = some kv ↔ ∀ e ∈ kv.entries, e.1 < name := by
  obtain ⟨smaller, greater, whole, low, high, rest, kept, back⟩ :=
    setValue_undotted read (wellFormed_of_read read named) noDot v
  rw [back, Option.some.injEq]
  constructor
  · rintro rfl e member
    rw [kept] at member
    exact low e member
  · intro last
    have none : greater = [] := by
      apply List.eq_nil_iff_forall_not_mem.mpr
      intro e member
      exact absurd (last e (whole ▸ List.mem_append_right smaller member)) (high e member).asymm
    have same : rest.entries = kv.entries := by
      rw [kept, whole, none, List.append_nil]
    cases rest
    cases kv
    cases same
    rfl

/-- The text `[0]` with `0=+` under it. -/
def oneSetting : Str := [lbracket, zero, rbracket, newline, zero, equals, plus]

/-- What is read from it: the value of `0.0`. -/
def oneSettingKv : SectionKv := SortedMap.empty.insert zeroName [plus]

theorem readIni_oneSetting : readIni oneSetting .empty = some oneSettingKv := rfl

theorem oneSettingKv_named : ∀ e ∈ oneSettingKv.entries, WellFormedName e.1 := by decide +kernel

/-- A name that sorts last, as `b` does, leaves the setting in place. -/
theorem undotted_harmless_last :
    (setValue oneSetting [98] [120]).bind (readIni · .empty) = some oneSettingKv :=
  (undotted_harmless_iff oneSetting [98] [120] oneSettingKv readIni_oneSetting oneSettingKv_named (by decide)).mpr
    (by decide)

/-- The empty name sorts first, and nothing is left. -/
theorem undotted_drops_settings :
    ¬ ∀ (file name v : Str) (kv : SectionKv), readIni file .empty = some kv →
      (∀ e ∈ kv.entries, WellFormedName e.1) → dot ∉ name →
        (setValue file name v).bind (readIni · .empty) = some kv := by
  intro claim
  have same := claim oneSetting [] [120] oneSettingKv readIni_oneSetting oneSettingKv_named List.not_mem_nil
  have counted := congrArg (Option.map fun kv => kv.entries.length) same
  revert counted
  decide

end Settings

end ServicesFramework
