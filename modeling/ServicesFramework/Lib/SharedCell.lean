import Mathlib.Data.List.Induction
import Mathlib.Logic.Function.Basic
import ServicesFramework.Lib.Machine

/-!
A shared cell that calls update by reading it whole and later writing it whole, with nothing
to keep the two together. Every call leaves its mark on the value it writes. In an interleaving
of calls that each read and write once, all marks are in the cell at the end exactly when no
write has come between the read and the write of another call.
-/

namespace SharedCell

inductive Act (ι : Type*)
  | read (t : ι)
  | write (t : ι)
  deriving DecidableEq

/-- The cell, and what the calls in progress have read from it. -/
structure State (ι σ : Type*) where
  value : σ
  held : ι → Option σ

variable {ι σ : Type*} {p acts before after rest : List (Act ι)} {a : Act ι} {t u : ι}

/-- Every call that writes has read before, and none acts twice. -/
structure Legal (p : List (Act ι)) : Prop where
  nodup : p.Nodup
  ordered : ∀ before t after, p = before ++ .write t :: after → .read t ∈ before

/-- Every call reads once and then writes once. -/
structure Interleaving (acts : List (Act ι)) : Prop where
  nodup : acts.Nodup
  whole : ∀ t, ∃ before between after, acts = before ++ .read t :: (between ++ .write t :: after)

/-- The write of `u` comes between the read and the write of `t`. -/
def Overlaps (acts : List (Act ι)) (t u : ι) : Prop :=
  ∃ before between after, acts = before ++ .read t :: (between ++ .write t :: after) ∧ .write u ∈ between

def Serial (acts : List (Act ι)) : Prop := ∀ t u, ¬ Overlaps acts t u

/-- The cell has been written since `t` read it. -/
def Stale (p : List (Act ι)) (t : ι) : Prop := ∃ before after u, p = before ++ .read t :: after ∧ .write u ∈ after

theorem Interleaving.legal (interleaving : Interleaving acts) : Legal acts where
  nodup := interleaving.nodup
  ordered := by
    rintro before t after rfl
    obtain ⟨early, between, late, same⟩ := interleaving.whole t
    obtain ⟨-, tail, apart⟩ := List.nodup_append.mp interleaving.nodup
    have absent : Act.write t ∉ before := fun member => apart _ member _ List.mem_cons_self rfl
    have later : Act.write t ∉ after := (List.nodup_cons.mp tail).1
    rw [← List.cons_append, ← List.append_assoc, List.append_cons_inj_of_notMem absent later] at same
    rw [same.1]
    exact List.mem_append_right early List.mem_cons_self

theorem Interleaving.write_mem (interleaving : Interleaving acts) (t : ι) : .write t ∈ acts := by
  obtain ⟨before, between, after, rfl⟩ := interleaving.whole t
  simp

theorem Legal.initial (legal : Legal (p ++ [a])) : Legal p where
  nodup := (List.nodup_append.mp legal.nodup).1
  ordered := by
    rintro before t after rfl
    exact legal.ordered before t (after ++ [a]) (by simp)

theorem Legal.new (legal : Legal (p ++ [a])) : a ∉ p := fun member =>
  (List.nodup_append.mp legal.nodup).2.2 a member a (List.mem_singleton_self a) rfl

theorem Legal.read_mem (legal : Legal (p ++ [.write t])) : .read t ∈ p := legal.ordered p t [] rfl

theorem Legal.write_notMem (legal : Legal (p ++ [.read t])) : .write t ∉ p := by
  intro member
  obtain ⟨before, after, rfl⟩ := List.append_of_mem member
  have early := legal.initial.ordered before t after rfl
  exact legal.new (List.mem_append_left _ early)

theorem stale_snoc_read : Stale (p ++ [.read u]) t ↔ Stale p t := by
  constructor
  · rintro ⟨before, after, w, cut, member⟩
    rcases Machine.snoc_eq_append_cons.mp cut with ⟨rfl, -, -⟩ | ⟨rest, rfl, start⟩
    · exact absurd member List.not_mem_nil
    · rcases List.mem_append.mp member with member | last
      · exact ⟨before, rest, w, start, member⟩
      · exact absurd (List.mem_singleton.mp last) nofun
  · rintro ⟨before, after, w, rfl, member⟩
    exact ⟨before, after ++ [.read u], w, by simp, List.mem_append_left _ member⟩

theorem stale_snoc_write (member : .read t ∈ p) : Stale (p ++ [.write u]) t := by
  obtain ⟨before, after, rfl⟩ := List.append_of_mem member
  exact ⟨before, after ++ [.write u], u, by simp, List.mem_append_right _ (List.mem_singleton_self _)⟩

theorem Stale.read_mem (stale : Stale p t) : .read t ∈ p := by
  obtain ⟨before, after, w, rfl, -⟩ := stale
  exact List.mem_append_right before List.mem_cons_self

/-- An overlap in a longer sequence was there before, or comes with the write at its end. -/
theorem overlaps_snoc : Overlaps (p ++ [a]) t u ↔ Overlaps p t u ∨
    a = .write t ∧ ∃ before between, p = before ++ .read t :: between ∧ .write u ∈ between := by
  constructor
  · rintro ⟨before, between, after, cut, member⟩
    rw [← List.cons_append, ← List.append_assoc] at cut
    rcases Machine.snoc_eq_append_cons.mp cut with ⟨-, start, last⟩ | ⟨rest, -, start⟩
    · exact .inr ⟨last.symm, before, between, start.symm, member⟩
    · exact .inl ⟨before, between, rest, by rw [start]; simp, member⟩
  · rintro (⟨before, between, after, rfl, member⟩ | ⟨rfl, before, between, rfl, member⟩)
    · exact ⟨before, between, after ++ [a], by simp, member⟩
    · exact ⟨before, between, [], by simp, member⟩

theorem serial_nil : Serial ([] : List (Act ι)) := by
  rintro t u ⟨before, between, after, empty, -⟩
  simp at empty

theorem serial_snoc_read : Serial (p ++ [.read t]) ↔ Serial p := by
  unfold Serial
  simp only [overlaps_snoc, reduceCtorEq, false_and, or_false]

/-- The first overlap comes with the write of a call that has become stale. -/
theorem serial_snoc_write : Serial (p ++ [.write t]) ↔ Serial p ∧ ¬ Stale p t := by
  unfold Serial
  simp only [overlaps_snoc, not_or]
  constructor
  · intro none
    refine ⟨fun w x => (none w x).1, ?_⟩
    rintro ⟨before, between, x, cut, member⟩
    exact (none t x).2 ⟨rfl, before, between, cut, member⟩
  · rintro ⟨serial, current⟩ w x
    refine ⟨serial w x, ?_⟩
    rintro ⟨same, before, between, cut, member⟩
    cases same
    exact current ⟨before, between, x, cut, member⟩

variable [DecidableEq ι] {update : ι → σ → σ} {v r : σ} {s s' : State ι σ}

def step (update : ι → σ → σ) (s : State ι σ) : Act ι → Option (State ι σ)
  | .read t => some { s with held := Function.update s.held t (some s.value) }
  | .write t => (s.held t).map fun r => ⟨update t r, Function.update s.held t none⟩

/-- Before any call has begun. -/
def init (v : σ) : State ι σ := ⟨v, fun _ => none⟩

/-- The invariants of the runs of legal sequences: what one more action keeps. -/
theorem legal_invariant {I : List (Act ι) → State ι σ → Prop} (start : I [] (init v))
    (keep : ∀ p a s s', Legal (p ++ [a]) → I p s → step update s a = some s' → I (p ++ [a]) s')
    (legal : Legal p) (reach : Machine.run (step update) (init v) p = some s) : I p s := by
  induction p using List.reverseRecOn generalizing s with
  | nil => exact Option.some.inj reach ▸ start
  | append_singleton p a ih =>
    obtain ⟨middle, early, last⟩ := Machine.run_snoc.mp reach
    exact keep p a middle s legal (ih legal.initial early) last

/-- The calls in progress are those that have read and not written; what they have read is
still in the cell unless they have become stale. -/
structure Tracks (p : List (Act ι)) (s : State ι σ) : Prop where
  held : ∀ t, (s.held t).isSome ↔ .read t ∈ p ∧ .write t ∉ p
  current : ∀ t r, s.held t = some r → ¬ Stale p t → r = s.value

/-- Everything that an action can do. -/
theorem step_cases (next : step update s a = some s') :
    (∃ t, a = .read t ∧ s' = ⟨s.value, Function.update s.held t (some s.value)⟩) ∨
      ∃ t r, a = .write t ∧ s.held t = some r ∧ s' = ⟨update t r, Function.update s.held t none⟩ := by
  cases a with
  | read t => exact .inl ⟨t, rfl, (Option.some.inj next).symm⟩
  | write t =>
    obtain ⟨r, held, same⟩ := Option.map_eq_some_iff.mp next
    exact .inr ⟨t, r, rfl, held, same.symm⟩

/-- What a call holds after an action: what it held before, or what it has just read. -/
theorem held_update {t w : ι} {x : Option σ} (holds : Function.update s.held t x w = some r) :
    (w = t ∧ x = some r) ∨ (w ≠ t ∧ s.held w = some r) := by
  by_cases same : w = t
  · subst same
    rw [Function.update_self] at holds
    exact .inl ⟨rfl, holds⟩
  · rw [Function.update_of_ne same] at holds
    exact .inr ⟨same, holds⟩

theorem Tracks.step (tracks : Tracks p s) (legal : Legal (p ++ [a])) (next : step update s a = some s') :
    Tracks (p ++ [a]) s' := by
  rcases step_cases next with ⟨t, rfl, rfl⟩ | ⟨t, r, rfl, held, rfl⟩
  · constructor
    · intro w
      by_cases same : w = t
      · subst same
        simp [legal.write_notMem]
      · simp [tracks.held, same]
    · intro w r holds current
      rw [stale_snoc_read] at current
      rcases held_update holds with ⟨rfl, now⟩ | ⟨-, before⟩
      · exact (Option.some.inj now).symm
      · exact tracks.current w r before current
  · constructor
    · intro w
      by_cases same : w = t
      · subst same
        simp
      · simp [tracks.held, same]
    · intro w r' holds current
      rcases held_update holds with ⟨-, none⟩ | ⟨-, before⟩
      · cases none
      · have reading := ((tracks.held w).mp (by rw [before]; rfl)).1
        exact absurd (stale_snoc_write reading) current

omit [DecidableEq ι] in
theorem Tracks.start (v : σ) : Tracks [] (init v : State ι σ) where
  held t := by simp [init]
  current t r holds := by cases holds

theorem tracks_of_run (legal : Legal p) (reach : Machine.run (step update) (init v) p = some s) : Tracks p s :=
  legal_invariant (Tracks.start v) (fun _ _ _ _ legal tracks next => tracks.step legal next) legal reach

/-- A legal sequence of actions never gets stuck. -/
theorem run_legal (update : ι → σ → σ) (v : σ) (legal : Legal p) :
    ∃ s, Machine.run (step update) (init v) p = some s := by
  induction p using List.reverseRecOn with
  | nil => exact ⟨init v, rfl⟩
  | append_singleton p a ih =>
    obtain ⟨s, reach⟩ := ih legal.initial
    have enabled : ∃ s', step update s a = some s' := by
      cases a with
      | read t => exact ⟨_, rfl⟩
      | write t =>
        have holds := ((tracks_of_run legal.initial reach).held t).mpr ⟨legal.read_mem, legal.new⟩
        obtain ⟨r, held⟩ := Option.isSome_iff_exists.mp holds
        exact ⟨_, by rw [step, held, Option.map_some]⟩
    obtain ⟨s', next⟩ := enabled
    exact ⟨s', Machine.run_snoc.mpr ⟨s, reach, next⟩⟩

section Marks

/- `has t v`: the value shows the update of `t`. An update adds its own mark and keeps the
others. -/
variable {has : ι → σ → Prop} (marks : ∀ t u v, has u (update t v) ↔ u = t ∨ has u v)

include marks

/-- Without overlaps every write is still to be seen. -/
theorem kept_of_serial (legal : Legal p) (serial : Serial p)
    (reach : Machine.run (step update) (init v) p = some s) : ∀ u, .write u ∈ p → has u s.value := by
  induction p using List.reverseRecOn generalizing s with
  | nil => exact fun u none => absurd none List.not_mem_nil
  | append_singleton p a ih =>
    obtain ⟨middle, early, last⟩ := Machine.run_snoc.mp reach
    have tracks := tracks_of_run legal.initial early
    rcases step_cases last with ⟨t, rfl, rfl⟩ | ⟨t, r, rfl, held, rfl⟩
    · intro u member
      rcases List.mem_append.mp member with member | last
      · exact ih legal.initial (serial_snoc_read.mp serial) early u member
      · exact absurd (List.mem_singleton.mp last) nofun
    · obtain ⟨serial, current⟩ := serial_snoc_write.mp serial
      obtain rfl := tracks.current t r held current
      intro u member
      rw [marks]
      rcases List.mem_append.mp member with member | last
      · exact .inr (ih legal.initial serial early u member)
      · exact .inl (Act.write.inj (List.mem_singleton.mp last))

omit marks in
/-- A write that is not to be seen any more. -/
def Lost (has : ι → σ → Prop) (p : List (Act ι)) (v : σ) : Prop := ∃ u, .write u ∈ p ∧ ¬ has u v

omit [DecidableEq ι] marks in
theorem Lost.snoc (lost : Lost has p v) (a : Act ι) : Lost has (p ++ [a]) v := by
  obtain ⟨u, member, missing⟩ := lost
  exact ⟨u, List.mem_append_left _ member, missing⟩

/-- What the runs of overlapping calls keep: a value shows no update before it was written, a
stale call holds a value that lacks one, and once there was an overlap the cell lacks one. -/
structure Loses (has : ι → σ → Prop) (p : List (Act ι)) (s : State ι σ) : Prop where
  tracks : Tracks p s
  unwritten : ∀ u, .write u ∉ p → ¬ has u s.value ∧ ∀ t r, s.held t = some r → ¬ has u r
  stale : ∀ t r, s.held t = some r → Stale p t → Lost has p r
  overlap : Serial p ∨ Lost has p s.value

theorem Loses.step (loses : Loses has p s) (legal : Legal (p ++ [a])) (next : step update s a = some s') :
    Loses has (p ++ [a]) s' := by
  have tracks := loses.tracks.step legal next
  rcases step_cases next with ⟨t, rfl, rfl⟩ | ⟨t, r, rfl, held, rfl⟩
  · refine ⟨tracks, ?_, ?_, ?_⟩
    · intro u unwritten
      obtain ⟨missing, others⟩ := loses.unwritten u fun member => unwritten (List.mem_append_left _ member)
      refine ⟨missing, ?_⟩
      intro w r holds
      rcases held_update holds with ⟨-, now⟩ | ⟨-, before⟩
      · cases now
        exact missing
      · exact others w r before
    · intro w r holds stale
      rw [stale_snoc_read] at stale
      rcases held_update holds with ⟨rfl, -⟩ | ⟨-, before⟩
      · exact absurd stale.read_mem legal.new
      · exact (loses.stale w r before stale).snoc _
    · rcases loses.overlap with serial | lost
      · exact .inl (serial_snoc_read.mpr serial)
      · exact .inr (lost.snoc _)
  · -- a mark that `r` lacks and that is not the one `t` sets now is lacking afterwards
    have lacking (lost : Lost has p r) : Lost has (p ++ [.write t]) (update t r) := by
      obtain ⟨u, member, missing⟩ := lost
      refine ⟨u, List.mem_append_left _ member, ?_⟩
      rw [marks]
      rintro (rfl | shows)
      · exact legal.new member
      · exact missing shows
    refine ⟨tracks, ?_, ?_, ?_⟩
    · intro u unwritten
      have before := loses.unwritten u fun member => unwritten (List.mem_append_left _ member)
      constructor
      · rw [marks]
        rintro (rfl | shows)
        · exact unwritten (List.mem_append_right _ (List.mem_singleton_self _))
        · exact before.2 t r held shows
      · intro w r' holds
        rcases held_update holds with ⟨-, none⟩ | ⟨-, old⟩
        · cases none
        · exact before.2 w r' old
    · intro w r' holds _
      rcases held_update holds with ⟨-, none⟩ | ⟨-, old⟩
      · cases none
      · exact ⟨t, List.mem_append_right _ (List.mem_singleton_self _), (loses.unwritten t legal.new).2 w r' old⟩
    · by_cases stale : Stale p t
      · exact .inr (lacking (loses.stale t r held stale))
      · rcases loses.overlap with serial | lost
        · exact .inl (serial_snoc_write.mpr ⟨serial, stale⟩)
        · rw [← loses.tracks.current t r held stale] at lost
          exact .inr (lacking lost)

/-- Calls whose updates are all seen at the end, and none at the start, have not overlapped. -/
theorem serial_of_kept (legal : Legal p) (fresh : ∀ u, ¬ has u v)
    (reach : Machine.run (step update) (init v) p = some s) (kept : ∀ u, .write u ∈ p → has u s.value) : Serial p := by
  have loses : Loses has p s := by
    refine legal_invariant ⟨Tracks.start v, ?_, ?_, ?_⟩ (fun _ _ _ _ legal loses next => loses.step marks legal next)
      legal reach
    · exact fun u _ => ⟨fresh u, nofun⟩
    · exact fun t r holds => nomatch holds
    · exact .inl serial_nil
  rcases loses.overlap with serial | ⟨u, member, missing⟩
  · exact serial
  · exact absurd (kept u member) missing

end Marks

end SharedCell
