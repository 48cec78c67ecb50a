import Mathlib.Data.List.Basic
import Mathlib.Logic.Relation

/-!
Partial step functions and their finite runs. A step `step s a` is the state after
action `a`, or `none` when `a` is not enabled in `s`; every schedule of a system is one
list of actions, so a statement about all runs is a statement about all lists.
-/

namespace Machine

variable {σ ι : Type*} {step : σ → ι → Option σ} {s u v : σ} {a : ι} {acts : List ι}

/-- The state after the whole list of actions, if each was enabled in its turn. -/
def run (step : σ → ι → Option σ) : σ → List ι → Option σ
  | s, [] => some s
  | s, a :: rest => (step s a).bind fun u => run step u rest

@[simp] theorem run_nil : run step s [] = some s := rfl

theorem run_cons : run step s (a :: acts) = some v ↔ ∃ u, step s a = some u ∧ run step u acts = some v := by
  simp only [run, Option.bind_eq_some_iff]

theorem run_append {acts rest : List ι} :
    run step s (acts ++ rest) = some v ↔ ∃ u, run step s acts = some u ∧ run step u rest = some v := by
  induction acts generalizing s with
  | nil => simp
  | cons a acts ih =>
    simp only [List.cons_append, run_cons, ih]
    constructor
    · rintro ⟨w, first, u, middle, last⟩
      exact ⟨u, ⟨w, first, middle⟩, last⟩
    · rintro ⟨u, ⟨w, first, middle⟩, last⟩
      exact ⟨w, first, u, middle, last⟩

theorem run_snoc : run step s (acts ++ [a]) = some v ↔ ∃ u, run step s acts = some u ∧ step u a = some v := by
  simp only [run_append, run_cons, run_nil, Option.some.injEq, exists_eq_right]

/-- Where an element of a trace stands once the trace is extended by one action. -/
theorem snoc_eq_append_cons {before after : List ι} {x : ι} :
    acts ++ [a] = before ++ x :: after ↔
      (after = [] ∧ before = acts ∧ x = a) ∨ ∃ rest, after = rest ++ [a] ∧ acts = before ++ x :: rest := by
  constructor
  · intro split
    rcases List.eq_nil_or_concat after with rfl | ⟨rest, last, rfl⟩
    · obtain ⟨same, last⟩ := List.append_inj' split rfl
      exact Or.inl ⟨rfl, same.symm, (List.singleton_inj.mp last).symm⟩
    · rw [List.concat_eq_append, ← List.cons_append, ← List.append_assoc] at split
      obtain ⟨same, last⟩ := List.append_inj' split rfl
      exact Or.inr ⟨rest, by rw [List.concat_eq_append, List.singleton_inj.mp last], same⟩
  · rintro (⟨rfl, rfl, rfl⟩ | ⟨rest, rfl, rfl⟩)
    · rfl
    · simp

/-- An element that the extension of a trace lacks stands in the trace. -/
theorem split_of_notMem {more before after : List ι} {x : ι} (split : acts ++ more = before ++ x :: after)
    (absent : x ∉ more) : ∃ rest, after = rest ++ more ∧ acts = before ++ x :: rest := by
  rcases List.append_eq_append_iff.mp split with ⟨_, _, tail⟩ | ⟨rest, init, tail⟩
  · exact (absent (by simp [tail])).elim
  · cases rest with
    | nil =>
      rw [← show x :: after = more from tail] at absent
      exact (absent List.mem_cons_self).elim
    | cons y rest =>
      obtain ⟨rfl, rfl⟩ := List.cons.inj tail
      exact ⟨rest, rfl, init⟩

/-- What every enabled action keeps, every run keeps. -/
theorem run_invariant {I : σ → Prop} (keep : ∀ s a u, I s → step s a = some u → I u)
    (start : I s) (reach : run step s acts = some v) : I v := by
  induction acts generalizing s with
  | nil => exact Option.some.inj reach ▸ start
  | cons a acts ih =>
    obtain ⟨u, first, rest⟩ := run_cons.mp reach
    exact ih (keep s a u start first) rest

/-- Every action of the run is taken in a state that allows it: `P` is asked of the
state before each step, along the one run that the list of actions describes. -/
def Along (step : σ → ι → Option σ) (P : σ → ι → Prop) : σ → List ι → Prop
  | _, [] => True
  | s, a :: rest => P s a ∧ ∀ u, step s a = some u → Along step P u rest

instance Along.decidable {P : σ → ι → Prop} [∀ s a, Decidable (P s a)] :
    ∀ s acts, Decidable (Along step P s acts)
  | _, [] => isTrue trivial
  | s, a :: rest =>
    match next : step s a with
    | none => decidable_of_iff (P s a) ⟨fun meets => ⟨meets, by simp [next]⟩, And.left⟩
    | some u =>
      have : Decidable (Along step P u rest) := Along.decidable u rest
      decidable_of_iff (P s a ∧ Along step P u rest) (by simp [Along, next])

theorem along_split {P : σ → ι → Prop} {before after : List ι} (meets : Along step P s acts)
    (split : acts = before ++ a :: after) (reach : run step s before = some u) : P u a := by
  induction before generalizing s acts with
  | nil =>
    subst split
    cases Option.some.inj reach
    exact meets.1
  | cons b before ih =>
    subst split
    obtain ⟨w, first, rest⟩ := run_cons.mp reach
    exact ih (meets.2 w first) rfl rest

theorem along_suffix {P : σ → ι → Prop} {before rest : List ι} (meets : Along step P s (before ++ rest))
    (reach : run step s before = some u) : Along step P u rest := by
  induction before generalizing s with
  | nil => exact Option.some.inj reach ▸ meets
  | cons b before ih =>
    obtain ⟨w, first, later⟩ := run_cons.mp reach
    exact ih (meets.2 w first) later

theorem along_initial {P : σ → ι → Prop} {before rest : List ι} (meets : Along step P s (before ++ rest)) :
    Along step P s before := by
  induction before generalizing s with
  | nil => trivial
  | cons b before ih => exact ⟨meets.1, fun w first => ih (meets.2 w first)⟩

theorem along_snoc {P : σ → ι → Prop} :
    Along step P s (acts ++ [a]) ↔ Along step P s acts ∧ ∀ v, run step s acts = some v → P v a := by
  induction acts generalizing s with
  | nil => simp [Along]
  | cons b acts ih =>
    simp only [List.cons_append, Along, ih, run_cons]
    constructor
    · rintro ⟨now, later⟩
      exact ⟨⟨now, fun u first => (later u first).1⟩, fun v ⟨u, first, rest⟩ => (later u first).2 v rest⟩
    · rintro ⟨⟨now, later⟩, last⟩
      exact ⟨now, fun u first => ⟨later u first, fun v rest => last v ⟨u, first, rest⟩⟩⟩

theorem along_of_forall {P : σ → ι → Prop} (always : ∀ a ∈ acts, ∀ s, P s a) : Along step P s acts := by
  induction acts generalizing s with
  | nil => trivial
  | cons a acts ih =>
    exact ⟨always a List.mem_cons_self s, fun _ _ => ih fun b member => always b (List.mem_cons_of_mem a member)⟩

/-- The invariant rule for the runs whose steps all meet `P`. -/
theorem run_invariant_along {I : σ → Prop} {P : σ → ι → Prop}
    (keep : ∀ s a u, I s → P s a → step s a = some u → I u)
    (start : I s) (meets : Along step P s acts) (reach : run step s acts = some v) : I v := by
  induction acts generalizing s with
  | nil => exact Option.some.inj reach ▸ start
  | cons a acts ih =>
    obtain ⟨u, first, rest⟩ := run_cons.mp reach
    exact ih (keep s a u start meets.1 first) (meets.2 u first) rest

end Machine
