import ServicesFramework.Settings

namespace ServicesFramework

open Ch

variable {s r name data sect : Str} {c : Ch}

theorem Str.trim_trimmed (s : Str) : Text.Stripped isspace s.trim := Text.strip_stripped s

theorem Str.length_trim_le (s : Str) : s.trim.length ≤ s.length := Text.length_strip_le s

theorem Str.trim_eq_of_length (same : s.trim.length = s.length) : s.trim = s := Text.strip_eq_of_length same

theorem Str.mem_of_mem_trim (member : c ∈ s.trim) : c ∈ s := (Text.strip_within s).subset member

theorem Str.find_singleton (c : Ch) (s : Str) : Str.find [c] s = s.idxOf? c := by
  induction s with
  | nil => simp [Str.find]
  | cons d rest ih =>
    by_cases same : c = d
    · simp [Str.find, List.idxOf?_cons, same]
    · have other : d ≠ c := fun equal => same equal.symm
      simp [Str.find, List.idxOf?_cons, same, other, ih]

theorem Str.substr_initial (a b : Str) : Str.substr (a ++ b) 0 (some a.length) = some a := by
  simp [Str.substr]

theorem Str.substr_suffix (a b : Str) (c : Ch) {size : Nat} (fits : b.length ≤ size) :
    Str.substr (a ++ c :: b) (a.length + 1) (some size) = some b := by
  have dropped : (a ++ c :: b).drop (a.length + 1) = b := by
    rw [← List.drop_drop, List.drop_left, List.drop_succ_cons, List.drop_zero]
  simp [Str.substr, dropped, List.take_of_length_le fits]

theorem splitLoop_singleton (c : Ch) {size fuel : Nat} (enough : s.length + 2 ≤ fuel) (fits : s.length + 1 ≤ size) :
    splitLoop [c] size fuel (s ++ [c]) = some (s.splitOn c) := by
  induction fuel generalizing s with
  | zero => omega
  | succ fuel ih =>
    by_cases member : c ∈ s
    · obtain ⟨a, b, rfl, fresh⟩ := List.eq_append_cons_of_mem member
      rw [List.length_append, List.length_cons] at enough fits
      have shape : a ++ c :: b ++ [c] = a ++ c :: (b ++ [c]) := by simp
      have short : (b ++ [c]).length ≤ size := by
        rw [List.length_append, List.length_singleton]
        omega
      rw [splitLoop, Str.find_singleton, shape, Text.idxOf?_append_cons fresh]
      simp only [Str.substr_initial, Str.substr_suffix a _ c short, Option.bind_eq_bind, Option.bind_some]
      rw [ih (by omega) (by omega), List.splitOn_append_cons_self_of_not_mem fresh]
      rfl
    · obtain ⟨fuel, rfl⟩ : ∃ n, fuel = n + 1 := ⟨fuel - 1, by omega⟩
      have nothing : Str.substr (s ++ [c]) (s.length + 1) (some size) = some [] :=
        Str.substr_suffix s [] c (Nat.zero_le size)
      rw [splitLoop, Str.find_singleton, Text.idxOf?_append_cons member]
      simp only [Str.substr_initial, nothing, Option.bind_eq_bind, Option.bind_some]
      rw [List.splitOn_eq_singleton member]
      simp [splitLoop, Str.find]

/-- A pattern of one character cuts the text at each of its occurrences. -/
theorem split_singleton (c : Ch) (nonempty : name ≠ []) : split name [c] = some (name.splitOn c) := by
  rw [split, if_neg nonempty]
  exact splitLoop_singleton c (by simp) (by simp)

theorem split_dot (nonempty : name ≠ []) : split name [dot] = some (name.splitOn dot) := split_singleton dot nonempty

theorem foldl_join {key : Str} (nonempty : key ≠ []) (pieces : List Str) :
    pieces.foldl (fun key piece => (if key ≠ [] then key ++ [dot] else key) ++ piece) key =
      key ++ pieces.flatMap (dot :: ·) := by
  induction pieces generalizing key with
  | nil => simp
  | cons piece rest ih =>
    have more : key ++ [dot] ++ piece ≠ [] := by simp
    rw [List.foldl_cons, if_pos nonempty, ih more]
    simp

theorem splitOn_flatMap {piece : Str} {pieces : List Str} (cut : r.splitOn dot = piece :: pieces) :
    piece ++ pieces.flatMap (dot :: ·) = r := by
  have whole : [dot].intercalate (r.splitOn dot) = r := List.intercalate_splitOn dot
  rwa [cut, Text.intercalate_cons] at whole

/-- Putting the pieces together again loses the leading dots and nothing else. -/
theorem Settings.joinKey_splitOn (r : Str) :
    Settings.joinKey (r.splitOn dot) = r.dropWhile fun c => decide (c = dot) := by
  induction r with
  | nil => simp [Settings.joinKey]
  | cons c rest ih =>
    rw [List.splitOn_cons_eq_if_modifyHead]
    by_cases same : c = dot
    · rw [if_pos (by simpa using same), List.dropWhile_cons_of_pos (by simpa using same), ← ih]
      rfl
    · obtain ⟨piece, pieces, cut⟩ := List.exists_cons_of_ne_nil (List.splitOn_ne_nil dot rest)
      rw [if_neg (by simpa using same), List.dropWhile_cons_of_neg (by simpa using same), cut, List.modifyHead_cons]
      have joined := foldl_join (List.cons_ne_nil c piece) pieces
      rw [Settings.joinKey, List.foldl_cons]
      simp only [ne_eq, not_true_eq_false, if_false, List.nil_append] at joined ⊢
      rw [joined, List.cons_append, splitOn_flatMap cut]

/-- What `read_ini` sees in one line. -/
inductive IniLine
  | ignored
  | header (sect : Str)
  | assign (key data : Str)
  deriving DecidableEq

namespace IniLine

/-- The line up to the first `c`, and what follows it. -/
def before (c : Ch) (line : Str) : Str := line.takeWhile fun x => decide (x ≠ c)

def after (c : Ch) (line : Str) : Str := (line.dropWhile fun x => decide (x ≠ c)).tail

def ofLine (line : Str) : IniLine :=
  match Str.trim line with
  | [] => .ignored
  | c :: rest =>
    if c = semicolon ∨ c = hash then .ignored
    else if c = lbracket then
      if rbracket ∈ rest then .header (Str.trim (before rbracket rest)) else .ignored
    else if c ≠ equals ∧ equals ∈ rest then
      .assign (Str.trim (before equals (c :: rest))) (Str.trim (after equals (c :: rest)))
    else .ignored

theorem before_append_cons {a b : Str} (fresh : c ∉ a) : before c (a ++ c :: b) = a := by
  have all : ∀ x ∈ a, decide (x ≠ c) = true := by
    intro x member
    simpa using fun equal : x = c => fresh (equal ▸ member)
  rw [before, List.takeWhile_append_of_pos all, List.takeWhile_cons_of_neg (by simp), List.append_nil]

theorem after_append_cons {a b : Str} (fresh : c ∉ a) : after c (a ++ c :: b) = b := by
  have all : ∀ x ∈ a, decide (x ≠ c) = true := by
    intro x member
    simpa using fun equal : x = c => fresh (equal ▸ member)
  rw [after, List.dropWhile_append_of_pos all, List.dropWhile_cons_of_neg (by simp), List.tail_cons]

end IniLine

namespace Settings

theorem find_rbracket {rest : Str} (closing : rbracket ∈ rest) :
    ∃ last, (lbracket :: rest).idxOf? rbracket = some last ∧
      Str.substr (lbracket :: rest) 1 (some (last - 1)) = some (IniLine.before rbracket rest) := by
  obtain ⟨a, b, rfl, fresh⟩ := List.eq_append_cons_of_mem closing
  have none : rbracket ∉ lbracket :: a := by
    simp only [List.mem_cons, not_or]
    exact ⟨by decide, fresh⟩
  have found : (lbracket :: a ++ rbracket :: b).idxOf? rbracket = some (lbracket :: a).length :=
    Text.idxOf?_append_cons none
  refine ⟨a.length + 1, found, ?_⟩
  rw [IniLine.before_append_cons fresh]
  simp [Str.substr]

theorem find_equals {rest : Str} (other : c ≠ equals) (marked : equals ∈ rest) :
    ∃ eqpos, (c :: rest).idxOf? equals = some eqpos ∧ eqpos ≠ 0 ∧
      Str.substr (c :: rest) 0 (some eqpos) = some (IniLine.before equals (c :: rest)) ∧
      Str.substr (c :: rest) (eqpos + 1) none = some (IniLine.after equals (c :: rest)) := by
  obtain ⟨a, b, rfl, fresh⟩ := List.eq_append_cons_of_mem marked
  have none : equals ∉ c :: a := by
    simp only [List.mem_cons, not_or]
    exact ⟨other.symm, fresh⟩
  rw [← List.cons_append, IniLine.before_append_cons none, IniLine.after_append_cons none]
  refine ⟨(c :: a).length, Text.idxOf?_append_cons none, by simp, Str.substr_initial (c :: a) (equals :: b), ?_⟩
  simp [Str.substr]

theorem readLine_eq (line sect : Str) (kv : SectionKv) :
    readLine line sect kv = some (match IniLine.ofLine line with
      | .ignored => (sect, kv)
      | .header s => (s, kv)
      | .assign key data => if sect = [] then (sect, kv) else (sect, kv.insert (sect ++ dot :: key) data)) := by
  unfold readLine IniLine.ofLine
  cases Str.trim line with
  | nil => rfl
  | cons c rest =>
    simp only
    by_cases comment : c = semicolon ∨ c = hash
    · simp only [if_pos comment]
    · simp only [if_neg comment]
      by_cases opening : c = lbracket
      · subst opening
        by_cases closing : rbracket ∈ rest
        · obtain ⟨last, found, key⟩ := find_rbracket closing
          simp [found, key, closing]
        · have missing : (lbracket :: rest).idxOf? rbracket = none := by
            rw [List.idxOf?_eq_none_iff, List.mem_cons, not_or]
            exact ⟨by decide, closing⟩
          simp [missing, closing]
      · simp only [if_neg opening]
        by_cases assigns : c ≠ equals ∧ equals ∈ rest
        · obtain ⟨eqpos, found, later, key, data⟩ := find_equals assigns.1 assigns.2
          simp only [if_pos assigns]
          by_cases outside : sect = []
          · simp [outside]
          · simp [outside, found, later, key, data]
        · simp only [if_neg assigns]
          by_cases first : c = equals
          · have found : (c :: rest).idxOf? equals = some 0 := by simp [first, List.idxOf?_cons]
            simp [found]
          · have missing : (c :: rest).idxOf? equals = none := by
              rw [List.idxOf?_eq_none_iff, List.mem_cons, not_or]
              exact ⟨fun equal => first equal.symm, fun member => assigns ⟨first, member⟩⟩
            simp [missing]

/-- The names and values that the lines assign, in their order, from a section on. -/
def assignments : Str → List Str → List (Str × Str)
  | _, [] => []
  | sect, line :: lines =>
    match IniLine.ofLine line with
    | .ignored => assignments sect lines
    | .header s => assignments s lines
    | .assign key data =>
      if sect = [] then assignments sect lines
      else (sect ++ dot :: key, data) :: assignments sect lines

/-- The section in force after these lines. -/
def sectionAfter : Str → List Str → Str
  | sect, [] => sect
  | sect, line :: lines =>
    match IniLine.ofLine line with
    | .header s => sectionAfter s lines
    | .ignored | .assign _ _ => sectionAfter sect lines

theorem assignments_append (sect : Str) (before after : List Str) :
    assignments sect (before ++ after) = assignments sect before ++ assignments (sectionAfter sect before) after := by
  induction before generalizing sect with
  | nil => rfl
  | cons line before ih =>
    rw [List.cons_append, assignments, assignments, sectionAfter]
    cases IniLine.ofLine line with
    | ignored => exact ih sect
    | header s => exact ih s
    | assign key data =>
      simp only [ih sect]
      split_ifs <;> rfl

/-- One line, as the first of those that are left. -/
theorem readLine_assignments (line sect : Str) (kv : SectionKv) (lines : List Str) :
    ∃ sect' kv', readLine line sect kv = some (sect', kv') ∧
      (assignments sect' lines).foldl (fun kv e => kv.insert e.1 e.2) kv' =
        (assignments sect (line :: lines)).foldl (fun kv e => kv.insert e.1 e.2) kv := by
  rw [readLine_eq]
  cases kind : IniLine.ofLine line with
  | ignored => exact ⟨sect, kv, rfl, by simp only [assignments, kind]⟩
  | header s => exact ⟨s, kv, rfl, by simp only [assignments, kind]⟩
  | assign key data =>
    by_cases outside : sect = []
    · exact ⟨sect, kv, by simp only [if_pos outside], by simp only [assignments, kind, if_pos outside]⟩
    · refine ⟨sect, kv.insert (sect ++ dot :: key) data, by simp only [if_neg outside], ?_⟩
      simp only [assignments, kind, if_neg outside, List.foldl_cons]

theorem readLoop_eq {text : Str} {fuel : Nat} (enough : text.length + 2 ≤ fuel) (sect : Str) (kv : SectionKv) :
    readLoop fuel ⟨text, false, false⟩ sect kv =
      some ((assignments sect (text.splitOn newline)).foldl (fun kv e => kv.insert e.1 e.2) kv) := by
  induction fuel generalizing text sect kv with
  | zero => omega
  | succ fuel ih =>
    by_cases more : newline ∈ text
    · obtain ⟨a, b, rfl, fresh⟩ := List.eq_append_cons_of_mem more
      have line : (IStream.mk (a ++ newline :: b) false false).getline = (a, ⟨b, false, false⟩) := by
        simp [IStream.getline, Text.idxOf?_append_cons fresh]
      obtain ⟨sect', kv', read, later⟩ := readLine_assignments a sect kv (b.splitOn newline)
      rw [List.length_append, List.length_cons] at enough
      have next := @ih b (by omega) sect' kv'
      rw [readLoop, line, List.splitOn_append_cons_self_of_not_mem fresh, ← later, ← next]
      simp [IStream.good, read]
    · obtain ⟨fuel, rfl⟩ : ∃ n, fuel = n + 1 := ⟨fuel - 1, by omega⟩
      have line : (IStream.mk text false false).getline = (text, ⟨[], true, text.isEmpty⟩) := by
        simp [IStream.getline, List.idxOf?_eq_none_iff.mpr more]
      obtain ⟨sect', kv', read, later⟩ := readLine_assignments text sect kv []
      rw [readLoop, line, List.splitOn_eq_singleton more, ← later]
      simp [IStream.good, read, readLoop, assignments]

/-- Reading a text puts its assignments into the map one by one. -/
theorem readIni_eq (text : Str) (kv : SectionKv) :
    readIni text kv = some ((assignments [] (text.splitOn newline)).foldl (fun kv e => kv.insert e.1 e.2) kv) :=
  readLoop_eq (Nat.le_refl _) [] kv

theorem readIni_empty (text : Str) :
    readIni text .empty = some (.ofList (assignments [] (text.splitOn newline))) := readIni_eq text .empty

end Settings

end ServicesFramework
