import ServicesFramework.SettingsLines

namespace ServicesFramework

open Ch

namespace Settings

@[mk_iff]
structure WellFormedSection (s : Str) : Prop where
  nonempty : s ≠ []
  noDot : dot ∉ s
  noBracket : rbracket ∉ s
  oneLine : newline ∉ s
  trimmed : Text.Stripped isspace s

@[mk_iff]
structure WellFormedKey (k : Str) : Prop where
  nonempty : k ≠ []
  noEquals : equals ∉ k
  oneLine : newline ∉ k
  trimmed : Text.Stripped isspace k
  start : ∀ c ∈ k.head?, c ≠ dot ∧ c ≠ lbracket ∧ c ≠ semicolon ∧ c ≠ Ch.hash

/-- A name `s.k` that a file can hold. -/
def WellFormedName (name : Str) : Prop :=
  ∃ s k, name = s ++ dot :: k ∧ WellFormedSection s ∧ WellFormedKey k

@[mk_iff]
structure WellFormedValue (v : Str) : Prop where
  oneLine : newline ∉ v
  trimmed : Text.Stripped isspace v

def WellFormed (kv : SectionKv) : Prop := ∀ e ∈ kv.entries, WellFormedName e.1 ∧ WellFormedValue e.2

variable {s k v name : Str} {kv : SectionKv} {e : Str × Str}

theorem wellFormedName_iff :
    WellFormedName name ↔ dot ∈ name ∧ WellFormedSection (sectionOf name) ∧ WellFormedKey (restOf name) := by
  constructor
  · rintro ⟨s, k, rfl, sect, key⟩
    rw [sectionOf_append sect.noDot, restOf_append sect.noDot]
    exact ⟨List.mem_append_right s List.mem_cons_self, sect, key⟩
  · rintro ⟨dotted, sect, key⟩
    exact ⟨sectionOf name, restOf name, (sectionOf_restOf dotted).1, sect, key⟩

instance : DecidablePred WellFormedSection := fun s => decidable_of_iff' _ (wellFormedSection_iff s)

instance : DecidablePred WellFormedKey := fun k => decidable_of_iff' _ (wellFormedKey_iff k)

instance : DecidablePred WellFormedName := fun _ => decidable_of_iff' _ wellFormedName_iff

instance : DecidablePred WellFormedValue := fun v => decidable_of_iff' _ (wellFormedValue_iff v)

instance : DecidablePred WellFormed := fun kv =>
  inferInstanceAs (Decidable (∀ e ∈ kv.entries, WellFormedName e.1 ∧ WellFormedValue e.2))

theorem getLast?_equals_cons (trimmed : Text.Stripped isspace v) :
    ∀ c ∈ (equals :: v).getLast?, isspace c = false := by
  intro c last
  cases v with
  | nil =>
    obtain rfl : equals = c := Option.some.inj last
    decide
  | cons d v => exact trimmed.2 c (by simpa [List.getLast?_cons] using last)

theorem ofLine_assign (key : WellFormedKey k) (trimmed : Text.Stripped isspace v) :
    IniLine.ofLine (k ++ equals :: v) = .assign k v := by
  have whole : Str.trim (k ++ equals :: v) = k ++ equals :: v :=
    Text.strip_eq_self (Text.stripped_append_cons key.trimmed key.nonempty (getLast?_equals_cons trimmed))
  obtain ⟨c, rest, rfl⟩ := List.exists_cons_of_ne_nil key.nonempty
  obtain ⟨-, opening, comment, comment'⟩ := key.start c rfl
  have other : c ≠ equals := fun equal => key.noEquals (equal ▸ List.mem_cons_self)
  have marked : equals ∈ rest ++ equals :: v := List.mem_append_right _ List.mem_cons_self
  have before := IniLine.before_append_cons (b := v) key.noEquals
  have after := IniLine.after_append_cons (b := v) key.noEquals
  have keyTrimmed : Str.trim (c :: rest) = c :: rest := Text.strip_eq_self key.trimmed
  have dataTrimmed : Str.trim v = v := Text.strip_eq_self trimmed
  rw [List.cons_append] at whole before after
  rw [IniLine.ofLine, List.cons_append, whole]
  simp only [if_neg (not_or.mpr ⟨comment, comment'⟩), if_neg opening, if_pos (And.intro other marked), before, after,
    keyTrimmed, dataTrimmed]

theorem Readable.of_wellFormed (named : WellFormedName e.1) (value : WellFormedValue e.2) : Readable e := by
  obtain ⟨s, k, shape, sect, key⟩ := named
  refine ⟨?_, ?_, ?_, value.oneLine, value.trimmed⟩
  · rw [shape]
    exact List.mem_append_right s List.mem_cons_self
  · rw [shape, sectionOf_append sect.noDot]
    exact sect.noBracket
  · rw [shape, List.mem_append, List.mem_cons, not_or, not_or]
    exact ⟨sect.oneLine, by decide, key.oneLine⟩

theorem entryLine_wellFormed (sect : WellFormedSection s) (key : WellFormedKey k) (v : Str) :
    entryLine (s ++ dot :: k, v) = k ++ equals :: v := by
  have start : k.dropWhile (fun c => decide (c = dot)) = k :=
    Text.dropWhile_eq_self fun c first => decide_eq_false (key.start c first).1
  rw [entryLine, restOf_append sect.noDot, start]

theorem ofLine_entryLine (named : WellFormedName e.1) (value : WellFormedValue e.2) :
    IniLine.ofLine (entryLine e) = .assign (restOf e.1) e.2 := by
  obtain ⟨name, v⟩ := e
  obtain ⟨s, k, rfl, sect, key⟩ := named
  rw [entryLine_wellFormed sect key, ofLine_assign key value.trimmed, restOf_append sect.noDot]

/-- The line of a well-formed entry is read as that entry. -/
theorem readBack_wellFormed (named : WellFormedName e.1) (value : WellFormedValue e.2) : readBack e = some e := by
  have line := ofLine_entryLine named value
  obtain ⟨name, v⟩ := e
  obtain ⟨s, k, rfl, sect, key⟩ := named
  have trimmed : Str.trim s = s := Text.strip_eq_self sect.trimmed
  simp only [readBack, line, sectionOf_append sect.noDot, restOf_append sect.noDot, trimmed, if_neg sect.nonempty]

theorem filterMap_readBack (wellFormed : WellFormed kv) : kv.entries.filterMap readBack = kv.entries := by
  have same (e : Str × Str) (member : e ∈ kv.entries) : readBack e = some e :=
    readBack_wellFormed (wellFormed e member).1 (wellFormed e member).2
  rw [List.filterMap_congr same, List.filterMap_some]

/-- A well-formed map survives the file. -/
theorem readIni_writeIni (wellFormed : WellFormed kv) :
    ∃ text, writeIni kv = some text ∧ readIni text .empty = some kv := by
  have readable (e : Str × Str) (member : e ∈ kv.entries) : Readable e :=
    Readable.of_wellFormed (wellFormed e member).1 (wellFormed e member).2
  have grouped := Grouped.start kv fun e member => (readable e member).dotted
  have lines := assignments_entryLines grouped (fun e member => (readable e member).closed) fun e member s => by
    simp [ofLine_entryLine (wellFormed e member).1 (wellFormed e member).2]
  obtain ⟨text, written, read⟩ := readIni_writeIni_eq readable
  refine ⟨text, written, ?_⟩
  rw [read]
  have start : Str.trim [] = [] := rfl
  rw [start] at lines
  rw [lines, filterMap_readBack wellFormed, SortedMap.ofList_entries]

theorem readIni_undoes_writeIni (kv : SectionKv) (wellFormed : WellFormed kv) :
    (writeIni kv).bind (readIni · .empty) = some kv := by
  obtain ⟨text, written, read⟩ := readIni_writeIni wellFormed
  rw [written, Option.bind_some, read]

/-- Two sections; one key has a dot, and one value an equals sign. -/
theorem readIni_undoes_writeIni_dotted :
    let kv : SectionKv := ⟨[([97, 46, 98, 46, 99], [61, 49]), ([101, 46, 98], [])], by decide⟩
    WellFormed kv ∧ (writeIni kv).bind (readIni · .empty) = some kv := by
  intro kv
  have wellFormed : WellFormed kv := by decide +kernel
  exact ⟨wellFormed, readIni_undoes_writeIni kv wellFormed⟩

end Settings

end ServicesFramework
