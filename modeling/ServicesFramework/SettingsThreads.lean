import ServicesFramework.Lib.SharedCell
import ServicesFramework.SettingsRuns

namespace ServicesFramework

open Ch SharedCell

namespace Settings

/-- What `setValue` makes of the map between reading the file and writing it. -/
def stored (res : SectionKv) (call : SetCall) : SectionKv :=
  let tmpstr := extract call.printed
  let res := if (res.find call.name).isSome then res.erase call.name else res
  res.insert call.name tmpstr

/-- The file, and the map `res` of every call that has read it and not yet written it. -/
structure Threads (ι : Type) where
  file : Str
  res : ι → Option SectionKv

variable {ι : Type} [DecidableEq ι]

/-- `setValue` in several threads, each of them with its call, at the grain of one read and one
write of the whole file. -/
def threadStep (calls : ι → SetCall) (s : Threads ι) : Act ι → Option (Threads ι)
  | .read t => do
    let res ← readIni s.file .empty
    some { s with res := Function.update s.res t (some res) }
  | .write t => do
    let res ← s.res t
    let file ← writeIni (stored res (calls t))
    some ⟨file, Function.update s.res t none⟩

/-- No thread has begun its call. -/
def idle (file : Str) : Threads ι := ⟨file, fun _ => none⟩

/-- A read with the write right behind it is the call. -/
theorem run_call (calls : ι → SetCall) (file : Str) (t : ι) :
    (Machine.run (threadStep calls) (idle file) [.read t, .write t]).map Threads.file = (calls t).step file := by
  simp only [Machine.run, threadStep, idle, SetCall.step, setValue, stored, Option.bind_eq_bind]
  cases readIni file .empty with
  | none => rfl
  | some res =>
    simp only [Option.bind_some, Function.update_self]
    cases writeIni _ <;> rfl

theorem stored_eq_put {call : SetCall} (fits : call.Fits) (res : SectionKv) : stored res call = put res call := by
  rw [stored, extract_eq_self fits.printed_no_space, erase_absent]
  rfl

/-- The file as a shared cell that holds a map. -/
structure Simulates (s : Threads ι) (cell : State ι SectionKv) : Prop where
  read : readIni s.file .empty = some cell.value
  wellFormed : WellFormed cell.value
  res : s.res = cell.held
  held : ∀ t r, cell.held t = some r → WellFormed r

variable {calls : ι → SetCall} {s : Threads ι} {cell cell' : State ι SectionKv} {a : Act ι} {acts : List (Act ι)}

theorem Simulates.step (simulates : Simulates s cell) (fits : ∀ t, (calls t).Fits)
    (next : SharedCell.step (fun t kv => put kv (calls t)) cell a = some cell') :
    ∃ s', threadStep calls s a = some s' ∧ Simulates s' cell' := by
  rcases step_cases next with ⟨t, rfl, rfl⟩ | ⟨t, r, rfl, held, rfl⟩
  · refine ⟨{ s with res := Function.update s.res t (some cell.value) }, ?_, simulates.read, simulates.wellFormed, ?_, ?_⟩
    · simp only [threadStep, simulates.read, Option.bind_eq_bind, Option.bind_some]
    · exact congrArg (fun held => Function.update held t (some cell.value)) simulates.res
    · intro w r holds
      rcases held_update holds with ⟨-, now⟩ | ⟨-, before⟩
      · exact Option.some.inj now ▸ simulates.wellFormed
      · exact simulates.held w r before
  · have wellFormed := put_wellFormed (simulates.held t r held) (fits t)
    obtain ⟨text, written, read⟩ := readIni_writeIni wellFormed
    refine ⟨⟨text, Function.update s.res t none⟩, ?_, read, wellFormed, ?_, ?_⟩
    · simp only [threadStep, simulates.res, held, stored_eq_put (fits t), written, Option.bind_eq_bind, Option.bind_some]
    · exact congrArg (fun held => Function.update held t none) simulates.res
    · intro w r' holds
      rcases held_update holds with ⟨-, none⟩ | ⟨-, before⟩
      · cases none
      · exact simulates.held w r' before

theorem Simulates.run (simulates : Simulates s cell) (fits : ∀ t, (calls t).Fits)
    (reach : Machine.run (SharedCell.step fun t kv => put kv (calls t)) cell acts = some cell') :
    ∃ s', Machine.run (threadStep calls) s acts = some s' ∧ Simulates s' cell' := by
  induction acts generalizing s cell with
  | nil => exact ⟨s, rfl, Option.some.inj reach ▸ simulates⟩
  | cons a acts ih =>
    obtain ⟨middle, first, later⟩ := Machine.run_cons.mp reach
    obtain ⟨s', next, simulates'⟩ := simulates.step fits first
    obtain ⟨s'', rest, simulates''⟩ := ih simulates' later
    exact ⟨s'', Machine.run_cons.mpr ⟨s', next, rest⟩, simulates''⟩

/-- The map has the value of the call. -/
def Shows (calls : ι → SetCall) (t : ι) (kv : SectionKv) : Prop := kv.find (calls t).name = some (calls t).printed

omit [DecidableEq ι] in
theorem shows_put (distinct : ∀ t u, t ≠ u → (calls t).name ≠ (calls u).name) (t u : ι) (kv : SectionKv) :
    Shows calls u (put kv (calls t)) ↔ u = t ∨ Shows calls u kv := by
  rw [Shows, find_put]
  by_cases same : u = t
  · subst same
    simp
  · simp [distinct u t same, same, Shows]

omit [DecidableEq ι] in
/-- A value is in the map exactly when it is read back under every default. -/
theorem shows_iff_reads_back {file : Str} {kv : SectionKv} {t : ι} (read : readIni file .empty = some kv)
    (fits : (calls t).Fits) :
    Shows calls t kv ↔ ∀ d, getValueString file (calls t).name d = some (calls t).printed := by
  simp only [getValueString_of_read read, Option.some.injEq, valueString]
  constructor
  · intro found d
    rw [found, Option.getD_some, if_neg fits.printed_ne_nil]
  · intro back
    have value := back []
    cases found : kv.find (calls t).name with
    | none =>
      rw [found] at value
      exact absurd value.symm fits.printed_ne_nil
    | some data =>
      rw [found, Option.getD_some] at value
      by_cases empty : data = []
      · rw [if_pos empty] at value
        exact absurd value.symm fits.printed_ne_nil
      · rw [if_neg empty] at value
        rw [Shows, found, value]

/-- Calls for different names, one in each thread, all return. Every value is read back if no
call writes between the read and the write of another one, and if no value was there before,
only then. -/
theorem concurrent_setValue (calls : ι → SetCall) (distinct : ∀ t u, t ≠ u → (calls t).name ≠ (calls u).name)
    (fits : ∀ t, (calls t).Fits) (file : Str) (kv : SectionKv) (read : readIni file .empty = some kv)
    (wellFormed : WellFormed kv) (acts : List (Act ι)) (interleaving : Interleaving acts) :
    ∃ s, Machine.run (threadStep calls) (idle file) acts = some s ∧
      (Serial acts → ∀ t d, getValueString s.file (calls t).name d = some (calls t).printed) ∧
      ((∀ t, kv.find (calls t).name ≠ some (calls t).printed) →
        (∀ t d, getValueString s.file (calls t).name d = some (calls t).printed) → Serial acts) := by
  have marks := shows_put distinct
  obtain ⟨cell, reach⟩ := run_legal (fun t kv => put kv (calls t)) kv interleaving.legal
  have start : Simulates (idle file : Threads ι) (init kv) := ⟨read, wellFormed, rfl, nofun⟩
  obtain ⟨s, run, simulates⟩ := start.run fits reach
  have back (t : ι) := shows_iff_reads_back simulates.read (fits t)
  refine ⟨s, run, ?_, ?_⟩
  · intro serial t
    rw [← back]
    exact kept_of_serial marks interleaving.legal serial reach t (interleaving.write_mem t)
  · intro fresh all
    exact serial_of_kept marks interleaving.legal fresh reach fun t _ => (back t).mpr (all t)

/-- Two threads: one sets `0.+`, the other `0.-`. -/
def twoCalls : Bool → SetCall
  | false => .string [zero, dot, plus] [zero]
  | true => .string [zero, dot, minus] [zero]

theorem twoCalls_distinct : ∀ t u, t ≠ u → (twoCalls t).name ≠ (twoCalls u).name := by decide

theorem twoCalls_fits : ∀ t, (twoCalls t).Fits := by decide +kernel

theorem twoCalls_serial : Interleaving [Act.read false, .write false, .read true, .write true] ∧
    Serial [Act.read false, .write false, .read true, .write true] := by
  refine ⟨⟨by decide, ?_⟩, ?_⟩
  · rintro (_ | _)
    · exact ⟨[], [], [.read true, .write true], rfl⟩
    · exact ⟨[.read false, .write false], [], [], rfl⟩
  · rw [show [Act.read false, .write false, .read true, .write true] =
      ((([] ++ [.read false]) ++ [.write false]) ++ [.read true]) ++ [.write true] from rfl,
      serial_snoc_write, serial_snoc_read, serial_snoc_write, serial_snoc_read, stale_snoc_read, stale_snoc_read]
    exact ⟨⟨serial_nil, fun stale => absurd stale.read_mem (by decide)⟩,
      fun stale => absurd stale.read_mem (by decide)⟩

/-- One call after the other. -/
theorem concurrent_setValue_in_turn :
    ∃ s, Machine.run (threadStep twoCalls) (idle []) [.read false, .write false, .read true, .write true] = some s ∧
      ∀ t d, getValueString s.file (twoCalls t).name d = some (twoCalls t).printed := by
  obtain ⟨s, run, kept, -⟩ := concurrent_setValue twoCalls twoCalls_distinct twoCalls_fits [] .empty rfl
    stores_empty.1 _ twoCalls_serial.1
  exact ⟨s, run, kept twoCalls_serial.2⟩

/-- Both threads read the file before either writes it, and the value of `0.+` is gone. -/
theorem concurrent_setValue_loses :
    ¬ ∀ (ι : Type) [DecidableEq ι] (calls : ι → SetCall), (∀ t u, t ≠ u → (calls t).name ≠ (calls u).name) →
      (∀ t, (calls t).Fits) → ∀ file kv, readIni file .empty = some kv → WellFormed kv →
        ∀ acts, Interleaving acts → ∀ s, Machine.run (threadStep calls) (idle file) acts = some s →
          ∀ t d, getValueString s.file (calls t).name d = some (calls t).printed := by
  intro claim
  have interleaving : Interleaving [Act.read false, .read true, .write false, .write true] := by
    refine ⟨by decide, ?_⟩
    rintro (_ | _)
    · exact ⟨[], [.read true], [.write true], rfl⟩
    · exact ⟨[.read false], [.write false], [], rfl⟩
  have back := claim Bool twoCalls twoCalls_distinct twoCalls_fits [] .empty rfl stores_empty.1 _ interleaving _ rfl
    false []
  revert back
  decide

end Settings

end ServicesFramework
