import ServicesFramework.SettingsRoundTrip

namespace ServicesFramework

open Ch
open scoped List

namespace Settings

variable {s k v line name sect key data : Str} {lines : List Str} {kv : SectionKv} {e a : Str × Str}
  {es : List (Str × Str)}

theorem ofLine_eq_header (kind : IniLine.ofLine line = .header s) :
    ∃ rest, Str.trim line = lbracket :: rest ∧ rbracket ∈ rest ∧ s = Str.trim (IniLine.before rbracket rest) := by
  unfold IniLine.ofLine at kind
  split at kind
  · exact absurd kind (by simp)
  · rename_i c rest trimmed
    split_ifs at kind with comment opening closing assign
    cases kind
    exact ⟨rest, by rw [trimmed, opening], closing, rfl⟩

theorem ofLine_eq_assign (kind : IniLine.ofLine line = .assign key data) :
    ∃ c rest, Str.trim line = c :: rest ∧ (c ≠ lbracket ∧ c ≠ semicolon ∧ c ≠ Ch.hash ∧ c ≠ equals) ∧ equals ∈ rest ∧
      key = Str.trim (IniLine.before equals (c :: rest)) ∧ data = Str.trim (IniLine.after equals (c :: rest)) := by
  unfold IniLine.ofLine at kind
  split at kind
  · exact absurd kind (by simp)
  · rename_i c rest trimmed
    split_ifs at kind with comment opening closing assign
    cases kind
    obtain ⟨comment, comment'⟩ := not_or.mp comment
    exact ⟨c, rest, trimmed, ⟨opening, comment, comment', assign.1⟩, assign.2, rfl, rfl⟩

theorem mem_of_mem_before {c d : Ch} (member : c ∈ IniLine.before d s) : c ∈ s :=
  (List.takeWhile_prefix _).subset member

theorem mem_of_mem_after {c d : Ch} (member : c ∈ IniLine.after d s) : c ∈ s :=
  (List.dropWhile_suffix _).subset (List.mem_of_mem_tail member)

theorem not_mem_before (c : Ch) (s : Str) : c ∉ IniLine.before c s := by
  intro member
  simpa using List.mem_takeWhile_imp member

theorem before_initial (c : Ch) (a b : Str) : IniLine.before c (a ++ c :: b) <+: a := by
  by_cases member : c ∈ a
  · obtain ⟨x, y, rfl, fresh⟩ := List.eq_append_cons_of_mem member
    rw [List.append_assoc, List.cons_append, IniLine.before_append_cons fresh]
    exact List.prefix_append x _
  · rw [IniLine.before_append_cons member]

theorem header_readable (kind : IniLine.ofLine line = .header s) (oneLine : newline ∉ line) :
    rbracket ∉ s ∧ newline ∉ s := by
  obtain ⟨rest, trimmed, -, rfl⟩ := ofLine_eq_header kind
  constructor
  · exact fun member => not_mem_before rbracket rest (Str.mem_of_mem_trim member)
  · intro member
    have inRest : newline ∈ lbracket :: rest := List.mem_cons_of_mem _ (mem_of_mem_before (Str.mem_of_mem_trim member))
    rw [← trimmed] at inRest
    exact oneLine (Str.mem_of_mem_trim inRest)

theorem assign_readable (kind : IniLine.ofLine line = .assign key data) (oneLine : newline ∉ line) :
    newline ∉ key ∧ newline ∉ data ∧ Text.Stripped isspace data := by
  obtain ⟨c, rest, trimmed, -, -, rfl, rfl⟩ := ofLine_eq_assign kind
  rw [← trimmed]
  refine ⟨?_, ?_, Str.trim_trimmed _⟩
  · exact fun member => oneLine (Str.mem_of_mem_trim (mem_of_mem_before (Str.mem_of_mem_trim member)))
  · exact fun member => oneLine (Str.mem_of_mem_trim (mem_of_mem_after (Str.mem_of_mem_trim member)))

theorem Readable.of_parts (closed : rbracket ∉ sect) (sectOneLine : newline ∉ sect) (keyOneLine : newline ∉ key)
    (dataOneLine : newline ∉ data) (trimmed : Text.Stripped isspace data) : Readable (sect ++ dot :: key, data) where
  dotted := List.mem_append_right sect List.mem_cons_self
  closed := fun member => closed ((before_initial dot sect key).subset member)
  oneLine := by
    rw [List.mem_append, List.mem_cons, not_or, not_or]
    exact ⟨sectOneLine, by decide, keyOneLine⟩
  dataOneLine := dataOneLine
  dataTrimmed := trimmed

/-- Every entry that is read can be written. -/
theorem assignments_readable (closed : rbracket ∉ sect) (sectOneLine : newline ∉ sect)
    (oneLine : ∀ l ∈ lines, newline ∉ l) : ∀ e ∈ assignments sect lines, Readable e := by
  induction lines generalizing sect with
  | nil => simp [assignments]
  | cons line lines ih =>
    have here := oneLine line List.mem_cons_self
    have there : ∀ l ∈ lines, newline ∉ l := fun l member => oneLine l (List.mem_cons_of_mem line member)
    rw [assignments]
    cases kind : IniLine.ofLine line with
    | ignored => exact ih closed sectOneLine there
    | header s =>
      obtain ⟨closed', oneLine'⟩ := header_readable kind here
      exact ih closed' oneLine' there
    | assign key data =>
      obtain ⟨keyOneLine, dataOneLine, trimmed⟩ := assign_readable kind here
      have later := ih closed sectOneLine there
      by_cases outside : sect = []
      · simpa only [if_pos outside] using later
      · simp only [if_neg outside]
        intro e member
        rcases List.mem_cons.mp member with rfl | member
        · exact Readable.of_parts closed sectOneLine keyOneLine dataOneLine trimmed
        · exact later e member

theorem readable_of_read {text : Str} (read : readIni text .empty = some kv) : ∀ e ∈ kv.entries, Readable e := by
  rw [readIni_empty] at read
  obtain rfl := Option.some.inj read
  intro e member
  exact assignments_readable List.not_mem_nil List.not_mem_nil (fun _ => Text.not_mem_of_mem_splitOn) e
    (SortedMap.mem_of_mem_ofList member)

/-- A line that assigns. -/
def isAssign (line : Str) : Bool :=
  match IniLine.ofLine line with
  | .assign _ _ => true
  | .ignored | .header _ => false

theorem length_assignments_le (sect : Str) (lines : List Str) :
    (assignments sect lines).length ≤ lines.countP isAssign := by
  induction lines generalizing sect with
  | nil => simp [assignments]
  | cons line lines ih =>
    rw [assignments, List.countP_cons]
    cases kind : IniLine.ofLine line with
    | ignored => simpa [isAssign, kind] using ih sect
    | header s => simpa [isAssign, kind] using ih s
    | assign key data =>
      have later := ih sect
      by_cases outside : sect = []
      · simp only [if_pos outside, isAssign, kind]
        omega
      · simp only [if_neg outside, isAssign, kind, List.length_cons, if_true]
        omega

theorem countP_entryLines (closed : ∀ e ∈ es, rbracket ∉ sectionOf e.1) (print : List Str) :
    (entryLines print es).countP isAssign = es.countP fun e => isAssign (entryLine e) := by
  induction es generalizing print with
  | nil => rfl
  | cons e es ih =>
    have later := ih fun x member => closed x (List.mem_cons_of_mem e member)
    have header : isAssign (headerLine (sectionOf e.1)) = false := by
      simp only [isAssign, ofLine_headerLine (closed e List.mem_cons_self)]
    have blank : isAssign [] = false := rfl
    rw [entryLines]
    split_ifs
    · rw [List.countP_cons, List.countP_cons, later]
    · rw [List.countP_cons_of_neg (by simp [header]), List.countP_cons, List.countP_cons, later]
    · rw [List.countP_cons_of_neg (by simp [blank]), List.countP_cons_of_neg (by simp [header]), List.countP_cons,
        List.countP_cons, later]

/-- All that `trim` takes from a line before its first `=` are the leading blanks. -/
theorem before_trim_suffix (marked : equals ∈ Str.trim line) :
    IniLine.before equals (Str.trim line) <:+ IniLine.before equals line := by
  have blanks : ∀ c ∈ line.takeWhile isspace, decide (c ≠ equals) = true := by
    intro c member
    have blank := List.mem_takeWhile_imp member
    have other : c ≠ equals := by
      rintro rfl
      exact absurd blank (by decide)
    simpa using other
  have ending : line.dropWhile isspace = Str.trim line ++ (line.dropWhile isspace).rtakeWhile isspace :=
    List.rdropWhile_append_rtakeWhile.symm
  have start : line.takeWhile isspace ++ line.dropWhile isspace = line := List.takeWhile_append_dropWhile
  obtain ⟨x, y, cut, fresh⟩ := List.eq_append_cons_of_mem marked
  have whole : IniLine.before equals line = line.takeWhile isspace ++ x := by
    conv => lhs; rw [← start, ending, cut]
    rw [IniLine.before, List.takeWhile_append_of_pos blanks, List.append_assoc, List.cons_append]
    exact congrArg _ (IniLine.before_append_cons fresh)
  rw [whole, cut, IniLine.before_append_cons fresh]
  exact List.suffix_append _ x

/-- The key read from the line of an entry is no longer than the rest of its name, and only
a well-formed rest is read in its full length. -/
theorem key_length (readable : Readable e) (kind : IniLine.ofLine (entryLine e) = .assign key data) :
    key.length ≤ (restOf e.1).length ∧ (key.length = (restOf e.1).length → WellFormedKey (restOf e.1)) := by
  obtain ⟨c, rest, trimmed, ⟨opening, comment, comment', other⟩, later, rfl, -⟩ := ofLine_eq_assign kind
  have marked : equals ∈ Str.trim (entryLine e) := by
    rw [trimmed]
    exact List.mem_cons_of_mem c later
  have kept := before_trim_suffix marked
  rw [trimmed] at kept
  have cut : IniLine.before equals (entryLine e) <+: (restOf e.1).dropWhile fun c => decide (c = dot) :=
    before_initial equals _ e.2
  have dropped : (restOf e.1).dropWhile (fun c => decide (c = dot)) <:+ restOf e.1 := List.dropWhile_suffix _
  have short : (Str.trim (IniLine.before equals (c :: rest))).length ≤ (IniLine.before equals (c :: rest)).length :=
    Str.length_trim_le _
  have bound₁ := kept.length_le
  have bound₂ := cut.length_le
  have bound₃ := dropped.length_le
  refine ⟨by omega, fun full => ?_⟩
  have same₁ : Str.trim (IniLine.before equals (c :: rest)) = IniLine.before equals (c :: rest) :=
    Str.trim_eq_of_length (by omega)
  have same₂ := kept.eq_of_length (by omega)
  have same₃ := cut.eq_of_length (by omega)
  have same₄ := dropped.eq_of_length (by omega)
  have whole : IniLine.before equals (c :: rest) = restOf e.1 := by rw [same₂, same₃, same₄]
  have first : (restOf e.1).head? = some c := by
    rw [← whole, IniLine.before, List.takeWhile_cons_of_pos (by simpa using other), List.head?_cons]
  have notDot : ∀ x ∈ (restOf e.1).head?, x ≠ dot := by
    intro x member
    rw [← same₄] at member
    simpa using Text.head?_dropWhile (restOf e.1) x member
  obtain ⟨shape, -⟩ := sectionOf_restOf readable.dotted
  constructor
  · intro empty
    simp [empty] at first
  · rw [← whole]
    exact not_mem_before equals _
  · intro member
    refine readable.oneLine ?_
    rw [shape]
    exact List.mem_append_right _ (List.mem_cons_of_mem dot member)
  · rw [← whole, ← same₁]
    exact Str.trim_trimmed _
  · intro x member
    have equal : c = x := by simpa [first] using member
    subst equal
    exact ⟨notDot c member, opening, comment, comment'⟩

/-- Reading the line of an entry back never makes its name longer, and keeps its length only
when the name is well-formed. -/
theorem readBack_length (readable : Readable e) (read : readBack e = some a) :
    a.1.length ≤ e.1.length ∧ (a.1.length = e.1.length → WellFormedName e.1) := by
  obtain ⟨shape, noDot⟩ := sectionOf_restOf readable.dotted
  have total : e.1.length = (sectionOf e.1).length + (restOf e.1).length + 1 := by
    conv => lhs; rw [shape]
    rw [List.length_append, List.length_cons]
    omega
  unfold readBack at read
  split at read
  · rename_i key data kind
    split_ifs at read with outside
    cases read
    obtain ⟨keyShort, keyFull⟩ := key_length readable kind
    have sectShort : (Str.trim (sectionOf e.1)).length ≤ (sectionOf e.1).length := Str.length_trim_le _
    rw [List.length_append, List.length_cons]
    refine ⟨by omega, fun full => ?_⟩
    have trimmed : Str.trim (sectionOf e.1) = sectionOf e.1 := Str.trim_eq_of_length (by omega)
    refine ⟨sectionOf e.1, restOf e.1, shape, ?_, keyFull (by omega)⟩
    exact {
      nonempty := fun empty => outside (by rw [trimmed, empty])
      noDot := noDot
      noBracket := readable.closed
      oneLine := readable.section_oneLine
      trimmed := trimmed ▸ Str.trim_trimmed _ }
  · exact absurd read (by simp)
  · exact absurd read (by simp)

theorem sum_filterMap_le {α β : Type*} {f : α → Option β} {w : α → Nat} {w' : β → Nat} {l : List α}
    (shrinks : ∀ x ∈ l, ∀ y, f x = some y → w' y ≤ w x) : ((l.filterMap f).map w').sum ≤ (l.map w).sum := by
  induction l with
  | nil => simp
  | cons x l ih =>
    have later := ih fun z member => shrinks z (List.mem_cons_of_mem x member)
    cases image : f x with
    | none =>
      rw [List.filterMap_cons_none image, List.map_cons, List.sum_cons]
      omega
    | some y =>
      have here := shrinks x List.mem_cons_self y image
      rw [List.filterMap_cons_some image, List.map_cons, List.map_cons, List.sum_cons, List.sum_cons]
      omega

/-- If nothing is dropped and the weights do not shrink in total, none of them shrinks. -/
theorem weight_kept {α β : Type*} {f : α → Option β} {w : α → Nat} {w' : β → Nat} {l : List α}
    (shrinks : ∀ x ∈ l, ∀ y, f x = some y → w' y ≤ w x) (many : l.length ≤ (l.filterMap f).length)
    (heavy : (l.map w).sum ≤ ((l.filterMap f).map w').sum) : ∀ x ∈ l, ∃ y, f x = some y ∧ w' y = w x := by
  induction l with
  | nil => simp
  | cons x l ih =>
    have shrinks' : ∀ z ∈ l, ∀ y, f z = some y → w' y ≤ w z :=
      fun z member => shrinks z (List.mem_cons_of_mem x member)
    have light := sum_filterMap_le shrinks'
    have few := List.length_filterMap_le f l
    cases image : f x with
    | none =>
      rw [List.filterMap_cons_none image, List.length_cons] at many
      omega
    | some y =>
      have here := shrinks x List.mem_cons_self y image
      rw [List.filterMap_cons_some image, List.length_cons, List.length_cons] at many
      rw [List.filterMap_cons_some image, List.map_cons, List.map_cons, List.sum_cons, List.sum_cons] at heavy
      intro z member
      rcases List.mem_cons.mp member with rfl | member
      · exact ⟨y, image, by omega⟩
      · exact ih shrinks' (by omega) (by omega) z member

/-- If the map survives the file then every name in it is well-formed: each entry must be
read back, so the names are only permuted, and none of them can have become shorter. -/
theorem wellFormedName_of_survives (readable : ∀ e ∈ kv.entries, Readable e)
    (survives : SortedMap.ofList (assignments [] (entryLines [] kv.entries)) = kv) :
    ∀ e ∈ kv.entries, WellFormedName e.1 := by
  have closed : ∀ e ∈ kv.entries, rbracket ∉ sectionOf e.1 := fun e member => (readable e member).closed
  have distinct : (kv.entries.map Prod.fst).Nodup :=
    List.pairwise_map.mpr (kv.sorted.imp fun less => less.ne)
  have covered : kv.entries.map Prod.fst ⊆ (assignments [] (entryLines [] kv.entries)).map Prod.fst := by
    intro name member
    refine SortedMap.mem_keys_ofList.mp ?_
    rwa [survives]
  have many := (distinct.subperm covered).length_le
  have few := length_assignments_le [] (entryLines [] kv.entries)
  rw [countP_entryLines closed] at few
  rw [List.length_map, List.length_map] at many
  have all : ∀ e ∈ kv.entries, isAssign (entryLine e) = true :=
    List.countP_eq_length.mp (le_antisymm List.countP_le_length (many.trans few))
  have plain : ∀ e ∈ kv.entries, ∀ s, IniLine.ofLine (entryLine e) ≠ .header s := by
    intro e member s header
    have assigns := all e member
    simp [isAssign, header] at assigns
  have lines : assignments [] (entryLines [] kv.entries) = kv.entries.filterMap readBack :=
    assignments_entryLines (Grouped.start kv fun e member => (readable e member).dotted) closed plain
  rw [lines] at covered many
  have permuted : kv.entries.map Prod.fst ~ (kv.entries.filterMap readBack).map Prod.fst := by
    refine (distinct.subperm covered).perm_of_length_le ?_
    rw [List.length_map, List.length_map]
    exact List.length_filterMap_le readBack kv.entries
  have heavy := (permuted.map List.length).sum_eq
  rw [List.map_map, List.map_map] at heavy
  intro e member
  obtain ⟨a, read, full⟩ :=
    weight_kept (fun x inside y image => (readBack_length (readable x inside) image).1) many heavy.le e member
  exact (readBack_length (readable e member) read).2 full

/-- A line before the first header assigns `key`. -/
def AssignsFirst (lines : List Str) (key : Str) : Prop :=
  ∃ between line after data, lines = between ++ line :: after ∧
    (∀ l ∈ between, ∀ s, IniLine.ofLine l ≠ .header s) ∧ IniLine.ofLine line = .assign key data

/-- A line assigns `key`, and the last header before it is that of `sect`. -/
def Assigns (lines : List Str) (sect key : Str) : Prop :=
  ∃ before header after, lines = before ++ header :: after ∧
    IniLine.ofLine header = .header sect ∧ sect ≠ [] ∧ AssignsFirst after key

theorem assignsFirst_cons : AssignsFirst (line :: lines) key ↔
    (∃ data, IniLine.ofLine line = .assign key data) ∨
      ((∀ s, IniLine.ofLine line ≠ .header s) ∧ AssignsFirst lines key) := by
  constructor
  · rintro ⟨between, l, after, data, split, plain, kind⟩
    cases between with
    | nil =>
      obtain ⟨rfl, -⟩ := List.cons.inj split
      exact Or.inl ⟨data, kind⟩
    | cons first between =>
      obtain ⟨rfl, rest⟩ := List.cons.inj split
      refine Or.inr ⟨plain line List.mem_cons_self, between, l, after, data, rest, ?_, kind⟩
      exact fun x member => plain x (List.mem_cons_of_mem line member)
  · rintro (⟨data, kind⟩ | ⟨plain, between, l, after, data, rfl, plain', kind⟩)
    · exact ⟨[], line, lines, data, rfl, by simp, kind⟩
    · refine ⟨line :: between, l, after, data, rfl, ?_, kind⟩
      intro x member
      rcases List.mem_cons.mp member with rfl | member
      · exact plain
      · exact plain' x member

theorem assigns_cons : Assigns (line :: lines) sect key ↔
    (IniLine.ofLine line = .header sect ∧ sect ≠ [] ∧ AssignsFirst lines key) ∨ Assigns lines sect key := by
  constructor
  · rintro ⟨before, header, after, split, kind, nonempty, assigns⟩
    cases before with
    | nil =>
      obtain ⟨rfl, rfl⟩ := List.cons.inj split
      exact Or.inl ⟨kind, nonempty, assigns⟩
    | cons first before =>
      obtain ⟨rfl, rest⟩ := List.cons.inj split
      exact Or.inr ⟨before, header, after, rest, kind, nonempty, assigns⟩
  · rintro (⟨kind, nonempty, assigns⟩ | ⟨before, header, after, rfl, rest⟩)
    · exact ⟨[], line, lines, rfl, kind, nonempty, assigns⟩
    · exact ⟨line :: before, header, after, rfl, rest⟩

/-- The names that are read: those under a header of the text, and those before it under the
section that reading started with. -/
theorem mem_names_assignments : name ∈ (assignments sect lines).map Prod.fst ↔
    (∃ key, name = sect ++ dot :: key ∧ sect ≠ [] ∧ AssignsFirst lines key) ∨
      ∃ s key, name = s ++ dot :: key ∧ Assigns lines s key := by
  induction lines generalizing sect with
  | nil => simp [assignments, AssignsFirst, Assigns]
  | cons line lines ih =>
    rw [assignments]
    simp only [assignsFirst_cons, assigns_cons]
    cases kind : IniLine.ofLine line with
    | ignored =>
      simp only [ih]
      simp
    | header s =>
      simp only [ih]
      constructor
      · rintro (⟨key, rfl, nonempty, first⟩ | ⟨s', key, rfl, assigns⟩)
        · exact Or.inr ⟨s, key, rfl, Or.inl ⟨rfl, nonempty, first⟩⟩
        · exact Or.inr ⟨s', key, rfl, Or.inr assigns⟩
      · rintro (⟨key, rfl, -, ⟨data, equal⟩ | ⟨plain, -⟩⟩ | ⟨s', key, rfl, ⟨equal, nonempty, first⟩ | assigns⟩)
        · exact absurd equal (by simp)
        · exact absurd rfl (plain s)
        · cases equal
          exact Or.inl ⟨key, rfl, nonempty, first⟩
        · exact Or.inr ⟨s', key, rfl, assigns⟩
    | assign key data =>
      by_cases outside : sect = []
      · simp [outside, ih]
      · simp only [if_neg outside, List.map_cons, List.mem_cons, ih]
        constructor
        · rintro (rfl | ⟨key', rfl, nonempty, first⟩ | ⟨s, key', rfl, assigns⟩)
          · exact Or.inl ⟨key, rfl, outside, Or.inl ⟨data, rfl⟩⟩
          · exact Or.inl ⟨key', rfl, nonempty, Or.inr ⟨by simp, first⟩⟩
          · exact Or.inr ⟨s, key', rfl, Or.inr assigns⟩
        · rintro (⟨key', rfl, nonempty, ⟨data', equal⟩ | ⟨-, first⟩⟩ | ⟨s, key', rfl, ⟨equal, -⟩ | assigns⟩)
          · cases equal
            exact Or.inl rfl
          · exact Or.inr (Or.inl ⟨key', rfl, nonempty, first⟩)
          · exact absurd equal (by simp)
          · exact Or.inr (Or.inr ⟨s, key', rfl, assigns⟩)

/-- The text is read, the map written and the new text read: this gives the same map exactly
when every name that a line of the text assigns is well-formed. -/
theorem rewrite_preserves_iff (text : Str) :
    ((readIni text .empty).bind writeIni).bind (readIni · .empty) = readIni text .empty ↔
      ∀ sect key, Assigns (text.splitOn newline) sect key → WellFormedName (sect ++ dot :: key) := by
  have readable : ∀ e ∈ (SortedMap.ofList (assignments [] (text.splitOn newline))).entries, Readable e :=
    readable_of_read (readIni_empty text)
  obtain ⟨text', written, read⟩ := readIni_writeIni_eq readable
  have names (name : Str) : name ∈ (assignments [] (text.splitOn newline)).map Prod.fst ↔
      ∃ s key, name = s ++ dot :: key ∧ Assigns (text.splitOn newline) s key := by
    rw [mem_names_assignments]
    simp
  rw [readIni_empty, Option.bind_some, written, Option.bind_some, read, Option.some.injEq]
  constructor
  · intro survives sect key assigns
    have member := (names (sect ++ dot :: key)).mpr ⟨sect, key, rfl, assigns⟩
    obtain ⟨e, entry, equal⟩ := List.mem_map.mp (SortedMap.mem_keys_ofList.mpr member)
    rw [← equal]
    exact wellFormedName_of_survives readable survives e entry
  · intro wellFormed
    have whole : WellFormed (SortedMap.ofList (assignments [] (text.splitOn newline))) := by
      intro e entry
      have member := SortedMap.mem_keys_ofList.mp (List.mem_map_of_mem (f := Prod.fst) entry)
      obtain ⟨s, key, equal, assigns⟩ := (names e.1).mp member
      have ok := readable e entry
      exact ⟨equal ▸ wellFormed s key assigns, ok.dataOneLine, ok.dataTrimmed⟩
    obtain ⟨text'', written', read'⟩ := readIni_writeIni whole
    obtain rfl : text' = text'' := Option.some.inj (written.symm.trans written')
    exact Option.some.inj (read.symm.trans read')

/-- The text `[a.]` with `k=v` under it: the name `a..k` comes back as `a.k`. -/
theorem rewrite_renames_setting :
    ¬∀ text : Str, ((readIni text .empty).bind writeIni).bind (readIni · .empty) = readIni text .empty := by
  intro always
  have here := congrArg (Option.map SortedMap.entries) (always [lbracket, 97, dot, rbracket, newline, 107, equals, 118])
  revert here
  decide

end Settings

end ServicesFramework
