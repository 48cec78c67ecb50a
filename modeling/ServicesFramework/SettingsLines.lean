import ServicesFramework.SettingsText

namespace ServicesFramework

open Ch

namespace Settings

/-- The part of a name before its first dot, which `write_ini` takes for the section. -/
def sectionOf (name : Str) : Str := IniLine.before dot name

def restOf (name : Str) : Str := IniLine.after dot name

/-- The line of one entry. -/
def entryLine (e : Str × Str) : Str := (restOf e.1).dropWhile (fun c => decide (c = dot)) ++ equals :: e.2

def headerLine (sect : Str) : Str := lbracket :: sect ++ [rbracket]

/-- The lines `write_ini` prints for the entries still to come. -/
def entryLines : List Str → List (Str × Str) → List Str
  | _, [] => []
  | print, e :: es =>
    if sectionOf e.1 ∈ print then entryLine e :: entryLines print es
    else if print = [] then headerLine (sectionOf e.1) :: entryLine e :: entryLines [sectionOf e.1] es
    else [] :: headerLine (sectionOf e.1) :: entryLine e :: entryLines (sectionOf e.1 :: print) es

variable {name s r : Str} {print : List Str} {e : Str × Str} {es : List (Str × Str)}

theorem sectionOf_append (fresh : dot ∉ s) : sectionOf (s ++ dot :: r) = s := IniLine.before_append_cons fresh

theorem restOf_append (fresh : dot ∉ s) : restOf (s ++ dot :: r) = r := IniLine.after_append_cons fresh

theorem sectionOf_restOf (dotted : dot ∈ name) :
    name = sectionOf name ++ dot :: restOf name ∧ dot ∉ sectionOf name := by
  obtain ⟨s, r, rfl, fresh⟩ := List.eq_append_cons_of_mem dotted
  rw [sectionOf_append fresh, restOf_append fresh]
  exact ⟨rfl, fresh⟩

theorem split_name (dotted : dot ∈ name) :
    split name [dot] = some (sectionOf name :: (restOf name).splitOn dot) := by
  obtain ⟨shape, fresh⟩ := sectionOf_restOf dotted
  have pieces : name.splitOn dot = sectionOf name :: (restOf name).splitOn dot := by
    conv => lhs; rw [shape]
    exact List.splitOn_append_cons_self_of_not_mem fresh _
  rw [split_dot (List.ne_nil_of_mem dotted), pieces]

theorem writeEntries_eq (dotted : ∀ e ∈ es, dot ∈ e.1) (print : List Str) :
    writeEntries print es = some ((entryLines print es).flatMap fun l => l ++ [newline]) := by
  induction es generalizing print with
  | nil => rfl
  | cons e es ih =>
    obtain ⟨name, data⟩ := e
    have here := split_name (dotted (name, data) List.mem_cons_self)
    have later := ih fun e member => dotted e (List.mem_cons_of_mem _ member)
    have more : (restOf name).splitOn dot ≠ [] := List.splitOn_ne_nil dot _
    simp only [writeEntries, here, Option.bind_eq_bind, Option.bind_some, if_neg more, joinKey_splitOn, later, entryLines]
    by_cases known : sectionOf name ∈ print
    · simp [known, entryLine]
    · by_cases first : print = []
      · simp [first, entryLine, headerLine]
      · simp [known, first, entryLine, headerLine]

/-- Two names of one section have only names of that section between them. -/
theorem sectionOf_convex {a b c : Str} (dottedA : dot ∈ a) (dottedC : dot ∈ c) (low : a < b) (high : b < c)
    (same : sectionOf a = sectionOf c) : sectionOf b = sectionOf a := by
  obtain ⟨shapeA, fresh⟩ := sectionOf_restOf dottedA
  obtain ⟨shapeC, -⟩ := sectionOf_restOf dottedC
  rw [shapeA, List.append_cons] at low
  rw [shapeC, ← same, List.append_cons] at high
  obtain ⟨rest, rfl⟩ := Text.prefix_convex low high
  rw [List.append_assoc, List.singleton_append, sectionOf_append fresh]

/-- What an entry must have for its two lines to stand in a file. Every name and value that
`read_ini` makes has it. -/
structure Readable (e : Str × Str) : Prop where
  dotted : dot ∈ e.1
  closed : rbracket ∉ sectionOf e.1
  oneLine : newline ∉ e.1
  dataOneLine : newline ∉ e.2
  dataTrimmed : Text.Stripped isspace e.2

theorem Readable.section_oneLine (readable : Readable e) : newline ∉ sectionOf e.1 := fun member =>
  readable.oneLine ((List.takeWhile_prefix _).subset member)

theorem Readable.entryLine_oneLine (readable : Readable e) : newline ∉ entryLine e := by
  obtain ⟨shape, -⟩ := sectionOf_restOf readable.dotted
  intro member
  rcases List.mem_append.mp member with inKey | inData
  · have inRest : newline ∈ restOf e.1 := (List.dropWhile_suffix _).subset inKey
    have inName : newline ∈ e.1 := by
      rw [shape]
      exact List.mem_append_right _ (List.mem_cons_of_mem dot inRest)
    exact readable.oneLine inName
  · rcases List.mem_cons.mp inData with equal | inData
    · exact absurd equal (by decide)
    · exact readable.dataOneLine inData

theorem entryLines_oneLine (readable : ∀ e ∈ es, Readable e) (print : List Str) :
    ∀ l ∈ entryLines print es, newline ∉ l := by
  induction es generalizing print with
  | nil => simp [entryLines]
  | cons e es ih =>
    have here := readable e List.mem_cons_self
    have later := ih fun e member => readable e (List.mem_cons_of_mem _ member)
    have header : newline ∉ headerLine (sectionOf e.1) := by
      have inside := here.section_oneLine
      have opening : newline ≠ lbracket := by decide
      have closing : newline ≠ rbracket := by decide
      simp [headerLine, inside, opening, closing]
    intro l member
    simp only [entryLines] at member
    split_ifs at member
    · rcases List.mem_cons.mp member with rfl | member
      · exact here.entryLine_oneLine
      · exact later _ l member
    · rcases List.mem_cons.mp member with rfl | member
      · exact header
      · rcases List.mem_cons.mp member with rfl | member
        · exact here.entryLine_oneLine
        · exact later _ l member
    · rcases List.mem_cons.mp member with rfl | member
      · exact List.not_mem_nil
      · rcases List.mem_cons.mp member with rfl | member
        · exact header
        · rcases List.mem_cons.mp member with rfl | member
          · exact here.entryLine_oneLine
          · exact later _ l member

theorem ofLine_nil : IniLine.ofLine [] = .ignored := rfl

theorem ofLine_headerLine (closed : rbracket ∉ s) : IniLine.ofLine (headerLine s) = .header (Str.trim s) := by
  have stripped : Text.Stripped isspace (headerLine s) := by
    constructor
    · intro c first
      obtain rfl : lbracket = c := by simpa [headerLine] using first
      decide
    · intro c last
      rw [headerLine, List.getLast?_concat] at last
      obtain rfl : rbracket = c := Option.some.inj last
      decide
  have trimmed : Str.trim (headerLine s) = lbracket :: (s ++ rbracket :: []) := Text.strip_eq_self stripped
  have plain : ¬(lbracket = semicolon ∨ lbracket = Ch.hash) := by decide
  rw [IniLine.ofLine, trimmed]
  simp only [if_neg plain, if_true, List.mem_append, List.mem_cons, true_or, or_true, IniLine.before_append_cons closed]

theorem assignments_snoc_nil (sect : Str) (lines : List Str) :
    assignments sect (lines ++ [[]]) = assignments sect lines := by
  rw [assignments_append]
  exact List.append_nil _

/-- Writing a map and reading the text, as one pass over the lines of the entries. -/
theorem readIni_writeIni_eq {kv : SectionKv} (readable : ∀ e ∈ kv.entries, Readable e) :
    ∃ text, writeIni kv = some text ∧
      readIni text .empty = some (.ofList (assignments [] (entryLines [] kv.entries))) := by
  refine ⟨_, writeEntries_eq (fun e member => (readable e member).dotted) [], ?_⟩
  rw [readIni_empty, Text.splitOn_lines (entryLines_oneLine readable []), assignments_snoc_nil]

/-- The entries still to come stand in the order of their names; the only printed section
that they can still have is the one whose header was printed last. -/
structure Grouped (print : List Str) (cur : Str) (es : List (Str × Str)) : Prop where
  sorted : es.Pairwise fun x y => x.1 < y.1
  dotted : ∀ e ∈ es, dot ∈ e.1
  current : ∀ e ∈ es, sectionOf e.1 ∈ print → sectionOf e.1 = cur
  previous : print = [] ∨ ∃ name, dot ∈ name ∧ sectionOf name = cur ∧ ∀ e ∈ es, name < e.1

variable {cur : Str}

theorem Grouped.start (kv : SectionKv) (dotted : ∀ e ∈ kv.entries, dot ∈ e.1) : Grouped [] [] kv.entries where
  sorted := kv.sorted
  dotted := dotted
  current := by simp
  previous := Or.inl rfl

theorem Grouped.next (grouped : Grouped print cur (e :: es)) {print' : List Str}
    (known : ∀ s ∈ print', s ∈ print ∨ s = sectionOf e.1) : Grouped print' (sectionOf e.1) es := by
  obtain ⟨above, sorted⟩ := List.pairwise_cons.mp grouped.sorted
  have dottedHead : dot ∈ e.1 := grouped.dotted e List.mem_cons_self
  refine ⟨sorted, fun x member => grouped.dotted x (List.mem_cons_of_mem e member), ?_, Or.inr ⟨e.1, dottedHead, rfl, above⟩⟩
  intro x member printed
  rcases known _ printed with old | here
  · have last : sectionOf x.1 = cur := grouped.current x (List.mem_cons_of_mem e member) old
    rcases grouped.previous with none | ⟨name, dotted, same, below⟩
    · rw [none] at old
      exact absurd old List.not_mem_nil
    · have between : sectionOf e.1 = sectionOf name :=
        sectionOf_convex dotted (grouped.dotted x (List.mem_cons_of_mem e member)) (below e List.mem_cons_self)
          (above x member) (same.trans last.symm)
      rw [last, between, same]
  · exact here

/-- What reading the line of an entry, under the header of its section, gives. -/
def readBack (e : Str × Str) : Option (Str × Str) :=
  match IniLine.ofLine (entryLine e) with
  | .assign key data =>
    if Str.trim (sectionOf e.1) = [] then none else some (Str.trim (sectionOf e.1) ++ dot :: key, data)
  | .ignored | .header _ => none

theorem assignments_entryLine (plain : ∀ s, IniLine.ofLine (entryLine e) ≠ .header s) (lines : List Str) :
    assignments (Str.trim (sectionOf e.1)) (entryLine e :: lines) =
      (readBack e).toList ++ assignments (Str.trim (sectionOf e.1)) lines := by
  rw [assignments, readBack]
  cases kind : IniLine.ofLine (entryLine e) with
  | ignored => rfl
  | header s => exact absurd kind (plain s)
  | assign key data =>
    by_cases outside : Str.trim (sectionOf e.1) = []
    · simp [outside]
    · simp [outside]

/-- The lines of the entries are each read under the header of their own section. -/
theorem assignments_entryLines (grouped : Grouped print cur es)
    (closed : ∀ e ∈ es, rbracket ∉ sectionOf e.1)
    (plain : ∀ e ∈ es, ∀ s, IniLine.ofLine (entryLine e) ≠ .header s) :
    assignments (Str.trim cur) (entryLines print es) = es.filterMap readBack := by
  induction es generalizing print cur with
  | nil => rfl
  | cons e es ih =>
    have rest {print' : List Str} (known : ∀ s ∈ print', s ∈ print ∨ s = sectionOf e.1) :=
      ih (grouped.next known) (fun x member => closed x (List.mem_cons_of_mem e member))
        (fun x member => plain x (List.mem_cons_of_mem e member))
    have entry := assignments_entryLine (plain e List.mem_cons_self)
    have header (sect : Str) (lines : List Str) :
        assignments sect (headerLine (sectionOf e.1) :: lines) = assignments (Str.trim (sectionOf e.1)) lines := by
      rw [assignments, ofLine_headerLine (closed e List.mem_cons_self)]
    have blank (sect : Str) (lines : List Str) : assignments sect ([] :: lines) = assignments sect lines := by
      rw [assignments, ofLine_nil]
    have first : (e :: es).filterMap readBack = (readBack e).toList ++ es.filterMap readBack := by
      cases read : readBack e <;> simp [read]
    rw [first, entryLines]
    split_ifs with known none
    · rw [← grouped.current e List.mem_cons_self known, entry, rest fun s member => Or.inl member]
    · rw [header, entry, rest fun s member => Or.inr (List.mem_singleton.mp member)]
    · rw [blank, header, entry, rest fun s member => (List.mem_cons.mp member).symm]

end Settings

end ServicesFramework
