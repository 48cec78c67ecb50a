import ServicesFramework.SettingsNumbers
import ServicesFramework.SettingsRoundTrip

namespace ServicesFramework

open Ch

/-- A call of `setValue<std::string>` or `setValue<int>`. -/
inductive SetCall
  | string (name v : Str)
  | int (name : Str) (v : Int32)
  deriving DecidableEq

namespace SetCall

def name : SetCall → Str
  | .string name _ => name
  | .int name _ => name

/-- What `ss << v` prints. -/
def printed : SetCall → Str
  | .string _ v => v
  | .int _ v => Settings.printInt v

/-- The file after the call. -/
def step (file : Str) (call : SetCall) : Option Str := Settings.setValue file call.name call.printed

/-- The calls that are made: a well-formed name, and for a text one without blanks. -/
def Fits : SetCall → Prop
  | .string name v => Settings.WellFormedName name ∧ v ≠ [] ∧ ∀ c ∈ v, isspace c = false
  | .int name _ => Settings.WellFormedName name

instance : DecidablePred Fits
  | .string name v =>
    inferInstanceAs (Decidable (Settings.WellFormedName name ∧ v ≠ [] ∧ ∀ c ∈ v, isspace c = false))
  | .int name _ => inferInstanceAs (Decidable (Settings.WellFormedName name))

/-- The last call for a name. -/
def last (calls : List SetCall) (name : Str) : Option SetCall := (calls.filter fun call => call.name = name).getLast?

variable {call a b : SetCall} {calls : List SetCall} {n : Str}

theorem Fits.wellFormedName (fits : call.Fits) : Settings.WellFormedName call.name := by
  cases call with
  | string name v => exact fits.1
  | int name v => exact fits

theorem Fits.printed_ne_nil (fits : call.Fits) : call.printed ≠ [] := by
  cases call with
  | string name v => exact fits.2.1
  | int name v => exact Settings.printInt_ne_nil v

theorem Fits.printed_no_space (fits : call.Fits) : ∀ c ∈ call.printed, isspace c = false := by
  cases call with
  | string name v => exact fits.2.2
  | int name v => exact Settings.printInt_no_space v

end SetCall

namespace Settings

variable {v file name : Str} {kv : SectionKv} {call a b : SetCall} {calls : List SetCall}

theorem extract_eq_self (noSpace : ∀ c ∈ v, isspace c = false) : extract v = v := by
  have start : v.dropWhile isspace = v :=
    Text.dropWhile_eq_self fun c first => noSpace c (List.mem_of_mem_head? first)
  rw [extract, start]
  exact List.takeWhile_eq_self_iff.mpr fun c member => by simp [noSpace c member]

theorem wellFormedValue_of_no_space (noSpace : ∀ c ∈ v, isspace c = false) : WellFormedValue v where
  oneLine := fun member => absurd (noSpace newline member) (by decide)
  trimmed := ⟨fun c first => noSpace c (List.mem_of_mem_head? first),
    fun c last => noSpace c (List.mem_of_mem_getLast? last)⟩

/-- The store as a map: the call replaces the value of its name. -/
def put (kv : SectionKv) (call : SetCall) : SectionKv := (kv.erase call.name).insert call.name call.printed

theorem find_put (kv : SectionKv) (call : SetCall) (n : Str) :
    (put kv call).find n = if n = call.name then some call.printed else kv.find n := by
  rw [put, SortedMap.find_insert, SortedMap.find_erase, SortedMap.find_erase]
  by_cases same : n = call.name
  · simp [same]
  · simp [same]

theorem put_comm (kv : SectionKv) (distinct : a.name ≠ b.name) : put (put kv a) b = put (put kv b) a := by
  apply SortedMap.ext_find
  intro n
  simp only [find_put]
  by_cases first : n = a.name
  · have other : n ≠ b.name := first ▸ distinct
    simp [first, distinct]
  · simp [first]

theorem put_wellFormed (wellFormed : WellFormed kv) (fits : call.Fits) : WellFormed (put kv call) := by
  intro e member
  rcases SortedMap.mem_insertEntry member with rfl | old
  · exact ⟨fits.wellFormedName, wellFormedValue_of_no_space fits.printed_no_space⟩
  · exact wellFormed e (List.mem_of_mem_filter old)

/-- The file holds the map. -/
def Stores (file : Str) (kv : SectionKv) : Prop := WellFormed kv ∧ writeIni kv = some file

theorem Stores.read (stores : Stores file kv) : readIni file .empty = some kv := by
  obtain ⟨text, written, read⟩ := readIni_writeIni stores.1
  obtain rfl : text = file := Option.some.inj (written.symm.trans stores.2)
  exact read

theorem erase_absent (kv : SectionKv) (name : Str) :
    (if (kv.find name).isSome then kv.erase name else kv) = kv.erase name := by
  split_ifs with present
  · rfl
  · apply SortedMap.ext_find
    intro n
    have none : kv.find name = none := by simpa using present
    rw [SortedMap.find_erase]
    split_ifs with same
    · rw [same, none]
    · rfl

/-- One call on a text from which a well-formed map is read: the file then holds that map with
the new value. -/
theorem setValue_of_read (read : readIni file .empty = some kv) (wellFormed : WellFormed kv) (fits : call.Fits) :
    ∃ file', call.step file = some file' ∧ Stores file' (put kv call) := by
  obtain ⟨text, written, -⟩ := readIni_writeIni (put_wellFormed wellFormed fits)
  refine ⟨text, ?_, put_wellFormed wellFormed fits, written⟩
  simp only [SetCall.step, setValue, read, Option.bind_eq_bind, Option.bind_some,
    extract_eq_self fits.printed_no_space, erase_absent]
  exact written

theorem setValue_stores (stores : Stores file kv) (fits : call.Fits) :
    ∃ file', call.step file = some file' ∧ Stores file' (put kv call) :=
  setValue_of_read stores.read stores.1 fits

/-- A whole run of calls. -/
theorem run_stores (stores : Stores file kv) (fits : ∀ call ∈ calls, call.Fits) :
    ∃ file', Machine.run SetCall.step file calls = some file' ∧ Stores file' (calls.foldl put kv) := by
  induction calls generalizing file kv with
  | nil => exact ⟨file, rfl, stores⟩
  | cons call calls ih =>
    obtain ⟨next, first, holds⟩ := setValue_stores stores (fits call List.mem_cons_self)
    obtain ⟨file', rest, holds'⟩ := ih holds fun c member => fits c (List.mem_cons_of_mem call member)
    exact ⟨file', Machine.run_cons.mpr ⟨next, first, rest⟩, holds'⟩

theorem stores_empty : Stores [] .empty := ⟨by simp [WellFormed, SortedMap.empty], rfl⟩

/-- The store has for each name what the last call for it printed. -/
theorem find_foldl_put (kv : SectionKv) (calls : List SetCall) (n : Str) :
    (calls.foldl put kv).find n = ((SetCall.last calls n).map SetCall.printed).or (kv.find n) := by
  induction calls generalizing kv with
  | nil => simp [SetCall.last]
  | cons call calls ih =>
    rw [List.foldl_cons, ih, find_put]
    by_cases same : n = call.name
    · subst same
      have here : SetCall.last (call :: calls) call.name = some ((SetCall.last calls call.name).getD call) := by
        simp [SetCall.last, List.getLast?_cons]
      rw [here]
      cases SetCall.last calls call.name <;> simp
    · have other : call.name ≠ n := fun equal => same equal.symm
      have here : SetCall.last (call :: calls) n = SetCall.last calls n := by
        simp [SetCall.last, other]
      rw [here, if_neg same]

theorem foldl_put_swap (kv : SectionKv) (before after : List SetCall) (distinct : a.name ≠ b.name) :
    (before ++ a :: b :: after).foldl put kv = (before ++ b :: a :: after).foldl put kv := by
  simp only [List.foldl_append, List.foldl_cons, put_comm _ distinct]

theorem getValueString_of_read (read : readIni file .empty = some kv) (name v : Str) :
    getValueString file name v = some (valueString ((kv.find name).getD []) v) := by
  simp [getValueString, read, subscript]

theorem getValueString_stores (stores : Stores file kv) (name v : Str) :
    getValueString file name v = some (valueString ((kv.find name).getD []) v) :=
  getValueString_of_read stores.read name v

theorem getValueInt_stores (stores : Stores file kv) (name : Str) (v : Int32) :
    getValueInt file name v = valueInt ((kv.find name).getD []) v := by
  simp [getValueInt, stores.read, subscript]

theorem last_fits (fits : ∀ call ∈ calls, call.Fits) (found : SetCall.last calls name = some call) : call.Fits :=
  fits call (List.mem_of_mem_filter (List.mem_of_getLast? found))

/-- Whatever is set on an empty file is read back: the value of the last call for a name, or
the default when there was none; calls on different names can change places. -/
theorem settings_key_value_store (calls : List SetCall) (fits : ∀ call ∈ calls, call.Fits) :
    ∃ file, Machine.run SetCall.step [] calls = some file ∧
      (∀ n d e, match SetCall.last calls n with
        | none => getValueString file n d = some d ∧ getValueInt file n e = some e
        | some (.string _ v) => getValueString file n d = some v
        | some (.int _ v) => getValueString file n d = some (printInt v) ∧ getValueInt file n e = some v) ∧
      ∀ before a b after, calls = before ++ a :: b :: after → a.name ≠ b.name →
        Machine.run SetCall.step [] (before ++ b :: a :: after) = some file := by
  obtain ⟨file, run, stores⟩ := run_stores stores_empty fits
  refine ⟨file, run, ?_, ?_⟩
  · intro n d e
    rw [getValueString_stores stores, getValueInt_stores stores, find_foldl_put, SortedMap.find_empty, Option.or_none]
    cases found : SetCall.last calls n with
    | none => exact ⟨rfl, rfl⟩
    | some call =>
      have nonempty := (last_fits fits found).printed_ne_nil
      cases call with
      | string name v => exact congrArg some (if_neg nonempty)
      | int name v =>
        refine ⟨congrArg some (if_neg nonempty), ?_⟩
        exact (if_neg nonempty).trans (stoi_printInt v)
  · rintro before a b after rfl distinct
    have fits' : ∀ call ∈ before ++ b :: a :: after, call.Fits := by
      intro call member
      refine fits call ?_
      simp only [List.mem_append, List.mem_cons] at member ⊢
      tauto
    obtain ⟨file', run', stores'⟩ := run_stores stores_empty fits'
    have same : file' = file := by
      rw [← foldl_put_swap _ _ _ distinct] at stores'
      exact Option.some.inj (stores'.2.symm.trans stores.2)
    rw [run', same]

/-- The name `a.b` is set twice, the second time as a number, with `a.c.d` between. -/
theorem settings_key_value_store_overwritten :
    ∃ file, Machine.run SetCall.step []
        [.string [97, 46, 98] [120], .string [97, 46, 99, 46, 100] [121, 61], .int [97, 46, 98] (-12)] = some file ∧
      getValueInt file [97, 46, 98] 7 = some (-12) ∧ getValueInt file [97, 46, 99] 7 = some 7 := by
  obtain ⟨file, run, values, -⟩ := settings_key_value_store
    [.string [97, 46, 98] [120], .string [97, 46, 99, 46, 100] [121, 61], .int [97, 46, 98] (-12)] (by decide +kernel)
  exact ⟨file, run, (values [97, 46, 98] [] 7).2, (values [97, 46, 99] [] 7).2⟩

end Settings

end ServicesFramework
