import Mathlib.Tactic
import Mathlib.Data.List.Lex

/-!
A map kept as the list of its entries in strictly increasing key order, which is the order
an iteration over it sees.
-/

structure SortedMap (κ υ : Type*) [LinearOrder κ] where
  entries : List (κ × υ)
  sorted : entries.Pairwise fun x y => x.1 < y.1

namespace SortedMap

variable {κ υ : Type*} [LinearOrder κ]

def empty : SortedMap κ υ := ⟨[], .nil⟩

def find (m : SortedMap κ υ) (k : κ) : Option υ := m.entries.lookup k

def insertEntry (k : κ) (v : υ) : List (κ × υ) → List (κ × υ)
  | [] => [(k, v)]
  | e :: rest =>
    if k < e.1 then (k, v) :: e :: rest
    else if e.1 < k then e :: insertEntry k v rest
    else e :: rest

theorem mem_insertEntry {k : κ} {v : υ} {e : κ × υ} {es : List (κ × υ)} (member : e ∈ insertEntry k v es) :
    e = (k, v) ∨ e ∈ es := by
  induction es with
  | nil => simpa [insertEntry] using member
  | cons first rest ih =>
    simp only [insertEntry] at member
    split at member
    · simpa using member
    · split at member
      · rcases List.mem_cons.mp member with rfl | later
        · simp
        · exact (ih later).imp_right (List.mem_cons_of_mem _)
      · exact Or.inr member

theorem insertEntry_sorted {k : κ} {v : υ} {es : List (κ × υ)} (sorted : es.Pairwise fun x y => x.1 < y.1) :
    (insertEntry k v es).Pairwise fun x y => x.1 < y.1 := by
  induction es with
  | nil => simp [insertEntry]
  | cons first rest ih =>
    obtain ⟨above, tail⟩ := List.pairwise_cons.mp sorted
    simp only [insertEntry]
    split
    · rename_i below
      refine List.pairwise_cons.mpr ⟨?_, sorted⟩
      intro e member
      rcases List.mem_cons.mp member with rfl | later
      · exact below
      · exact below.trans (above e later)
    · split
      · rename_i after
        refine List.pairwise_cons.mpr ⟨?_, ih tail⟩
        intro e member
        rcases mem_insertEntry member with rfl | old
        · exact after
        · exact above e old
      · exact sorted

/-- A new entry comes between those with smaller and those with greater keys. -/
theorem insertEntry_split {k : κ} {es : List (κ × υ)} (sorted : es.Pairwise fun x y => x.1 < y.1)
    (absent : ∀ e ∈ es, e.1 ≠ k) (v : υ) :
    ∃ smaller greater, es = smaller ++ greater ∧ insertEntry k v es = smaller ++ (k, v) :: greater ∧
      (∀ e ∈ smaller, e.1 < k) ∧ ∀ e ∈ greater, k < e.1 := by
  induction es with
  | nil => exact ⟨[], [], rfl, rfl, by simp, by simp⟩
  | cons first rest ih =>
    obtain ⟨above, tail⟩ := List.pairwise_cons.mp sorted
    rcases lt_or_gt_of_ne (absent first List.mem_cons_self) with before | after
    · obtain ⟨smaller, greater, rfl, inserted, low, high⟩ :=
        ih tail fun e member => absent e (List.mem_cons_of_mem first member)
      refine ⟨first :: smaller, greater, rfl, ?_, ?_, high⟩
      · rw [insertEntry, if_neg before.asymm, if_pos before, inserted, List.cons_append]
      · intro e member
        rcases List.mem_cons.mp member with rfl | later
        · exact before
        · exact low e later
    · refine ⟨[], first :: rest, rfl, ?_, by simp, ?_⟩
      · rw [insertEntry, if_pos after, List.nil_append]
      · intro e member
        rcases List.mem_cons.mp member with rfl | later
        · exact after
        · exact after.trans (above e later)

/-- Insert an entry; a key that is already there keeps its value. -/
def insert (m : SortedMap κ υ) (k : κ) (v : υ) : SortedMap κ υ :=
  ⟨insertEntry k v m.entries, insertEntry_sorted m.sorted⟩

def erase (m : SortedMap κ υ) (k : κ) : SortedMap κ υ :=
  ⟨m.entries.filter fun e => decide (e.1 ≠ k), m.sorted.filter _⟩

theorem lookup_cons_ne {k k' : κ} (distinct : k ≠ k') (v : υ) (es : List (κ × υ)) :
    ((k', v) :: es).lookup k = es.lookup k := by
  rw [List.lookup_cons, beq_false_of_ne distinct]

theorem find_eq_some_iff {m : SortedMap κ υ} {k : κ} {v : υ} : m.find k = some v ↔ (k, v) ∈ m.entries := by
  have general (es : List (κ × υ)) (sorted : es.Pairwise fun x y => x.1 < y.1) :
      es.lookup k = some v ↔ (k, v) ∈ es := by
    induction es with
    | nil => simp
    | cons e rest ih =>
      obtain ⟨above, tail⟩ := List.pairwise_cons.mp sorted
      obtain ⟨k', v'⟩ := e
      by_cases same : k = k'
      · subst k'
        have fresh : (k, v) ∉ rest := fun member => lt_irrefl k (above (k, v) member)
        rw [List.lookup_cons_self, List.mem_cons, Option.some_inj, Prod.mk_inj]
        simp [fresh, eq_comm]
      · rw [lookup_cons_ne same, ih tail, List.mem_cons, Prod.mk_inj]
        simp [same]
  exact general m.entries m.sorted

theorem ext_find {m n : SortedMap κ υ} (same : ∀ k, m.find k = n.find k) : m = n := by
  obtain ⟨es, sorted⟩ := m
  obtain ⟨fs, sorted'⟩ := n
  have members (e : κ × υ) : e ∈ es ↔ e ∈ fs := by
    have here := same e.1
    exact (find_eq_some_iff (m := ⟨es, sorted⟩)).symm.trans
      ((by rw [here]) : _ ↔ _) |>.trans (find_eq_some_iff (m := ⟨fs, sorted'⟩))
  have nodup (l : List (κ × υ)) (h : l.Pairwise fun x y => x.1 < y.1) : l.Nodup :=
    h.imp fun less => fun equal => lt_irrefl _ (equal ▸ less)
  have perm := (List.perm_ext_iff_of_nodup (nodup es sorted) (nodup fs sorted')).mpr members
  congr
  exact perm.eq_of_pairwise (fun x y _ _ less more => absurd more (lt_asymm less)) sorted sorted'

theorem find_empty (k : κ) : (empty : SortedMap κ υ).find k = none := rfl

theorem find_insert (m : SortedMap κ υ) (k k' : κ) (v : υ) :
    (m.insert k v).find k' = if k' = k then some ((m.find k).getD v) else m.find k' := by
  have general (es : List (κ × υ)) (sorted : es.Pairwise fun x y => x.1 < y.1) :
      (insertEntry k v es).lookup k' = if k' = k then some ((es.lookup k).getD v) else es.lookup k' := by
    induction es with
    | nil =>
      by_cases same : k' = k
      · simp [insertEntry, same]
      · simp [insertEntry, lookup_cons_ne same, same]
    | cons e rest ih =>
      obtain ⟨above, tail⟩ := List.pairwise_cons.mp sorted
      obtain ⟨a, w⟩ := e
      simp only [insertEntry]
      split
      · rename_i below
        have fresh : rest.lookup k = none := by
          rw [List.lookup_eq_none_iff]
          intro p member
          simpa using (below.trans (above p member)).ne
        by_cases same : k' = k
        · subst k'
          simp [lookup_cons_ne below.ne, fresh]
        · simp [lookup_cons_ne same, same]
      · rename_i notBelow
        split
        · rename_i after
          by_cases same : k' = k
          · subst k'
            rw [lookup_cons_ne after.ne', ih tail, lookup_cons_ne after.ne']
          · rw [if_neg same]
            rw [if_neg same] at ih
            by_cases head : k' = a
            · subst a
              simp
            · rw [lookup_cons_ne head, lookup_cons_ne head, ih tail]
        · rename_i notAfter
          have equal : k = a := le_antisymm (not_lt.mp notAfter) (not_lt.mp notBelow)
          subst a
          by_cases same : k' = k
          · subst k'
            simp
          · simp [same]
  exact general m.entries m.sorted

theorem find_erase (m : SortedMap κ υ) (k k' : κ) :
    (m.erase k).find k' = if k' = k then none else m.find k' := by
  apply Option.ext
  intro v
  by_cases same : k' = k
  · simp only [if_pos same, find_eq_some_iff, erase, List.mem_filter]
    simp [same]
  · simp only [if_neg same, find_eq_some_iff, erase, List.mem_filter]
    simp [same]

/-- All the entries of a list, put in one after the other. -/
def ofList (es : List (κ × υ)) : SortedMap κ υ := es.foldl (fun m e => m.insert e.1 e.2) empty

theorem find_foldl_insert (es : List (κ × υ)) (m : SortedMap κ υ) (k : κ) :
    (es.foldl (fun m e => m.insert e.1 e.2) m).find k = (m.find k).or (es.lookup k) := by
  induction es generalizing m with
  | nil => simp
  | cons e rest ih =>
    obtain ⟨a, v⟩ := e
    rw [List.foldl_cons, ih, find_insert]
    by_cases same : k = a
    · subst a
      cases m.find k <;> simp
    · rw [if_neg same, lookup_cons_ne same]

theorem lookup_of_mem_keys {es : List (κ × υ)} {k : κ} (member : k ∈ es.map Prod.fst) : ∃ v, es.lookup k = some v := by
  obtain ⟨e, entry, rfl⟩ := List.mem_map.mp member
  exact Option.isSome_iff_exists.mp (List.lookup_isSome_iff.mpr ⟨e, entry, beq_self_eq_true e.1⟩)

/-- Entries whose key has come before change nothing. -/
theorem foldl_insert_again {es : List (κ × υ)} {k : κ} (before : k ∈ es.map Prod.fst) (v : υ) (m : SortedMap κ υ)
    (later : List (κ × υ)) :
    (es ++ (k, v) :: later).foldl (fun m e => m.insert e.1 e.2) m = (es ++ later).foldl (fun m e => m.insert e.1 e.2) m := by
  rw [List.foldl_append, List.foldl_append, List.foldl_cons]
  congr 1
  apply ext_find
  intro k'
  obtain ⟨v', known⟩ := lookup_of_mem_keys before
  rw [find_insert]
  split_ifs with same
  · rw [same, find_foldl_insert, known]
    cases m.find k <;> simp
  · rfl

theorem find_ofList (es : List (κ × υ)) (k : κ) : (ofList es).find k = es.lookup k := by
  simp [ofList, find_foldl_insert, find_empty]

theorem ofList_entries (m : SortedMap κ υ) : ofList m.entries = m :=
  ext_find fun k => find_ofList m.entries k

theorem mem_of_mem_ofList {es : List (κ × υ)} {e : κ × υ} (member : e ∈ (ofList es).entries) : e ∈ es := by
  have found : es.lookup e.1 = some e.2 := by
    rw [← find_ofList]
    exact find_eq_some_iff.mpr member
  obtain ⟨before, after, rfl, -⟩ := List.lookup_eq_some_iff.mp found
  exact List.mem_append_right before List.mem_cons_self

theorem mem_keys_ofList {es : List (κ × υ)} {k : κ} :
    k ∈ (ofList es).entries.map Prod.fst ↔ k ∈ es.map Prod.fst := by
  constructor
  · intro member
    obtain ⟨e, entry, rfl⟩ := List.mem_map.mp member
    exact List.mem_map_of_mem (mem_of_mem_ofList entry)
  · intro member
    obtain ⟨v, found⟩ := lookup_of_mem_keys member
    rw [← find_ofList] at found
    exact List.mem_map.mpr ⟨(k, v), find_eq_some_iff.mp found, rfl⟩

end SortedMap
