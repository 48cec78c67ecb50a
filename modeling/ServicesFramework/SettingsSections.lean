import ServicesFramework.SettingsLines

namespace ServicesFramework

open Ch

namespace Settings

/-- What the loop of `write_ini` sends to the stream: the header of a section, or the
assignment for the entry of this name. -/
inductive Emission
  | header (sect : Str)
  | assign (name key data : Str)
  deriving DecidableEq

/-- The emissions of the loop for the entries still to come, when the sections of `print` have
been printed. -/
def emit : List Str → List (Str × Str) → Option (List Emission)
  | _, [] => some []
  | print, (name, data) :: entries => do
    let res ← split name [dot]
    match res with
    | first :: pieces =>
      if pieces = [] then some []
      else
        let header := if first ∈ print then [] else [Emission.header first]
        let print := if first ∈ print then print else first :: print
        let later ← emit print entries
        some (header ++ .assign name (joinKey pieces) data :: later)
    | [] => some []

namespace Emission

/-- The text of an emission; a blank line sets off every header but the first. -/
def text (first : Bool) : Emission → Str
  | .header sect =>
    (if first then [] else [newline]) ++ [lbracket] ++ sect ++ [rbracket] ++ [newline]
  | .assign _ key data => key ++ [equals] ++ data ++ [newline]

def sect? : Emission → Option Str
  | .header sect => some sect
  | .assign _ _ _ => none

def entry? : Emission → Option (Str × Str)
  | .header _ => none
  | .assign name _ data => some (name, data)

end Emission

def render : Bool → List Emission → Str
  | _, [] => []
  | first, x :: xs => x.text first ++ render false xs

/-- The text that is written is that of the emissions. -/
theorem writeEntries_eq_render (print : List Str) (es : List (Str × Str)) :
    writeEntries print es = (emit print es).map (render print.isEmpty) := by
  induction es generalizing print with
  | nil => rfl
  | cons e es ih =>
    obtain ⟨name, data⟩ := e
    simp only [writeEntries, emit]
    cases split name [dot] with
    | none => rfl
    | some res =>
      cases res with
      | nil => rfl
      | cons first pieces =>
        simp only [Option.bind_eq_bind, Option.bind_some]
        by_cases alone : pieces = []
        · simp [alone, render]
        rw [if_neg alone, if_neg alone, ih]
        by_cases known : first ∈ print
        · have printed : print.isEmpty = false := by
            cases print with
            | nil => exact absurd known List.not_mem_nil
            | cons s print => rfl
          simp only [if_pos known, printed]
          cases emit print es with
          | none => rfl
          | some later => simp [render, Emission.text]
        · simp only [if_neg known]
          cases emit (first :: print) es with
          | none => rfl
          | some later =>
            cases print with
            | nil => simp [render, Emission.text]
            | cons s print => simp [render, Emission.text]

/-- The assignment of an entry whose name has a dot. -/
def assignment (e : Str × Str) : Emission :=
  .assign e.1 ((restOf e.1).dropWhile fun c => decide (c = dot)) e.2

/-- The emissions when every name has a dot. -/
def emissions : List Str → List (Str × Str) → List Emission
  | _, [] => []
  | print, e :: es =>
    if sectionOf e.1 ∈ print then assignment e :: emissions print es
    else .header (sectionOf e.1) :: assignment e :: emissions (sectionOf e.1 :: print) es

variable {print : List Str} {es : List (Str × Str)}

theorem emit_eq (dotted : ∀ e ∈ es, dot ∈ e.1) (print : List Str) : emit print es = some (emissions print es) := by
  induction es generalizing print with
  | nil => rfl
  | cons e es ih =>
    obtain ⟨name, data⟩ := e
    have here := split_name (dotted (name, data) List.mem_cons_self)
    have later := ih fun e member => dotted e (List.mem_cons_of_mem _ member)
    have more : (restOf name).splitOn dot ≠ [] := List.splitOn_ne_nil dot _
    simp only [emit, here, Option.bind_eq_bind, Option.bind_some, if_neg more, joinKey_splitOn, later, emissions]
    by_cases known : sectionOf name ∈ print
    · simp [known, assignment]
    · simp [known, assignment]

theorem emissions_entries (print : List Str) (es : List (Str × Str)) :
    (emissions print es).filterMap Emission.entry? = es := by
  induction es generalizing print with
  | nil => rfl
  | cons e es ih =>
    have here (out : List Emission) : (assignment e :: out).filterMap Emission.entry? =
        e :: out.filterMap Emission.entry? := rfl
    rw [emissions]
    split_ifs
    · rw [here, ih]
    · rw [List.filterMap_cons_none (by rfl), here, ih]

theorem count_header_assignment (s : Str) (e : Str × Str) (out : List Emission) :
    (assignment e :: out).count (.header s) = out.count (.header s) := by
  have distinct : assignment e ≠ .header s := nofun
  exact List.count_cons_of_ne distinct

/-- A section that is not printed yet gets one header if an entry has it. -/
theorem count_header (s : Str) (print : List Str) (es : List (Str × Str)) :
    (emissions print es).count (.header s) = if s ∉ print ∧ s ∈ es.map (sectionOf ·.1) then 1 else 0 := by
  induction es generalizing print with
  | nil => simp [emissions]
  | cons e es ih =>
    rw [emissions]
    by_cases known : sectionOf e.1 ∈ print
    · rw [if_pos known, count_header_assignment, ih]
      have other : s ∉ print → s ≠ sectionOf e.1 := by
        rintro fresh rfl
        exact fresh known
      apply if_congr _ rfl rfl
      rw [List.map_cons, List.mem_cons]
      tauto
    · rw [if_neg known]
      by_cases here : s = sectionOf e.1
      · subst here
        rw [List.count_cons_self, count_header_assignment, ih, if_neg (by simp), if_pos (by simp [known])]
      · have distinct : Emission.header (sectionOf e.1) ≠ .header s := by
          simp only [ne_eq, Emission.header.injEq]
          exact fun equal => here equal.symm
        rw [List.count_cons_of_ne distinct, count_header_assignment, ih]
        apply if_congr _ rfl rfl
        rw [List.map_cons, List.mem_cons, List.mem_cons]
        tauto

/-- The header that was sent last. -/
def lastHeader (out : List Emission) : Option Str := (out.filterMap Emission.sect?).getLast?

theorem lastHeader_cons_header (s : Str) (out : List Emission) (last : Option Str) :
    (lastHeader (.header s :: out)).or last = (lastHeader out).or (some s) := by
  rw [lastHeader, List.filterMap_cons_some (show Emission.sect? (.header s) = some s from rfl), List.getLast?_cons]
  cases found : (out.filterMap Emission.sect?).getLast? <;> simp [lastHeader, found]

theorem lastHeader_cons_assignment (e : Str × Str) (out : List Emission) :
    lastHeader (assignment e :: out) = lastHeader out := rfl

/-- The header in force at an assignment is that of its section. -/
theorem lastHeader_emissions {cur : Str} {last : Option Str} (grouped : Grouped print cur es)
    (sent : print = [] ∨ last = some cur) :
    ∀ before name key data after, emissions print es = before ++ .assign name key data :: after →
      (lastHeader before).or last = some (sectionOf name) := by
  induction es generalizing print cur last with
  | nil =>
    intro before name key data after cut
    simp [emissions] at cut
  | cons e es ih =>
    -- after the line of `e`, its section is the one whose header was sent last
    have rest {print' : List Str} (known : ∀ s ∈ print', s ∈ print ∨ s = sectionOf e.1) :=
      ih (grouped.next known) (.inr rfl)
    intro before name key data after cut
    rw [emissions] at cut
    split_ifs at cut with printed
    · have current : last = some (sectionOf e.1) := by
        rcases sent with none | sent
        · rw [none] at printed
          exact absurd printed List.not_mem_nil
        · rw [sent, grouped.current e List.mem_cons_self printed]
      cases before with
      | nil =>
        obtain ⟨rfl, -⟩ := Emission.assign.inj (List.cons.inj cut).1
        exact current
      | cons x before =>
        obtain ⟨rfl, later⟩ := List.cons.inj cut
        rw [lastHeader_cons_assignment, current]
        exact rest (fun s member => .inl member) before name key data after later
    · cases before with
      | nil => exact absurd (List.cons.inj cut).1 nofun
      | cons x before =>
        obtain ⟨rfl, assigned⟩ := List.cons.inj cut
        rw [lastHeader_cons_header]
        cases before with
        | nil =>
          obtain ⟨rfl, -⟩ := Emission.assign.inj (List.cons.inj assigned).1
          rfl
        | cons x before =>
          obtain ⟨rfl, later⟩ := List.cons.inj assigned
          rw [lastHeader_cons_assignment]
          exact rest (fun s member => (List.mem_cons.mp member).symm) before name key data after later

/-- For every map whose names all have a dot, `write_ini` sends one header for each section and
one assignment for each entry, in the order of the names and under the header of its section. -/
theorem writeIni_groups_sections (kv : SectionKv) (dotted : ∀ e ∈ kv.entries, dot ∈ e.1) :
    ∃ out, emit [] kv.entries = some out ∧ writeIni kv = some (render true out) ∧
      (∀ s, out.count (.header s) = if s ∈ kv.entries.map (sectionOf ·.1) then 1 else 0) ∧
      out.filterMap Emission.entry? = kv.entries ∧
      ∀ before name key data after, out = before ++ .assign name key data :: after →
        lastHeader before = some (sectionOf name) := by
  refine ⟨emissions [] kv.entries, emit_eq dotted [], ?_, ?_, emissions_entries [] kv.entries, ?_⟩
  · rw [writeIni, writeEntries_eq_render, emit_eq dotted]
    rfl
  · intro s
    rw [count_header]
    exact if_congr (and_iff_right List.not_mem_nil) rfl rfl
  · intro before name key data after cut
    have found : (lastHeader before).or none = some (sectionOf name) :=
      lastHeader_emissions (Grouped.start kv dotted) (.inl rfl) before name key data after cut
    rwa [Option.or_none] at found

/-- The section `a!` sorts between nothing of the section `a`, though `!` comes before the dot. -/
theorem writeIni_groups_sections_alike :
    let kv : SectionKv := ⟨[([97, 33, 46, 107], [49]), ([97, 46, 107], [50]), ([97, 46, 108], [51])], by decide⟩
    ∃ out, writeIni kv = some (render true out) ∧ out.count (.header [97]) = 1 ∧ out.count (.header [97, 33]) = 1 := by
  intro kv
  obtain ⟨out, -, written, headers, -⟩ := writeIni_groups_sections kv (by decide)
  refine ⟨out, written, ?_, ?_⟩
  · rw [headers, if_pos (by decide)]
  · rw [headers, if_pos (by decide)]

end Settings

end ServicesFramework
