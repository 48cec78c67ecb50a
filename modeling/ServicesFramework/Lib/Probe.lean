import Mathlib.Logic.Basic

/-!
Computations that look at single cells of a memory. What such a computation returns depends on
the cells it looked at and on no other one.
-/

/-- A computation over cells of type `α`: it returns, or reads a cell and goes on with it. -/
inductive Probe (α β : Type)
  | done (result : β)
  | read (i : Nat) (next : α → Probe α β)

namespace Probe

variable {α β γ : Type} {memory other : Nat → α}

def bind : Probe α β → (β → Probe α γ) → Probe α γ
  | .done result, after => after result
  | .read i next, after => .read i fun cell => (next cell).bind after

instance : Monad (Probe α) where
  pure := .done
  bind := .bind

def cell (i : Nat) : Probe α α := .read i .done

def run (memory : Nat → α) : Probe α β → β
  | .done result => result
  | .read i next => (next (memory i)).run memory

/-- The cells that a run looks at, in order. -/
def reads (memory : Nat → α) : Probe α β → List Nat
  | .done _ => []
  | .read i next => i :: (next (memory i)).reads memory

@[simp] theorem run_pure (result : β) : (pure result : Probe α β).run memory = result := rfl

@[simp] theorem run_cell (i : Nat) : (cell i).run memory = memory i := rfl

@[simp] theorem run_bind (p : Probe α β) (after : β → Probe α γ) :
    (p >>= after).run memory = (after (p.run memory)).run memory := by
  change (p.bind after).run memory = _
  induction p with
  | done result => rfl
  | read i next ih => exact ih (memory i)

@[simp] theorem reads_pure (result : β) : (pure result : Probe α β).reads memory = [] := rfl

@[simp] theorem reads_cell (i : Nat) : (cell i).reads memory = [i] := rfl

@[simp] theorem reads_bind (p : Probe α β) (after : β → Probe α γ) :
    (p >>= after).reads memory = p.reads memory ++ (after (p.run memory)).reads memory := by
  change (p.bind after).reads memory = _
  induction p with
  | done result => rfl
  | read i next ih => exact congrArg (i :: ·) (ih (memory i))

/-- Two memories that agree where the run looks give the same result. -/
theorem run_eq_of_agree (p : Probe α β) (agree : ∀ i ∈ p.reads memory, memory i = other i) :
    p.run memory = p.run other := by
  induction p with
  | done result => rfl
  | read i next ih =>
    have here : memory i = other i := agree i List.mem_cons_self
    have later : (next (memory i)).run memory = (next (memory i)).run other :=
      ih (memory i) fun j member => agree j (List.mem_cons_of_mem i member)
    rw [run, run, later, here]

end Probe
