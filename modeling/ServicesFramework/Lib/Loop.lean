import Mathlib.Logic.Basic

/-!
Loops without a bound on their iterations, run with fuel. `Returns` is the meaning of the
loop itself: some number of iterations is enough, and then more change nothing.
-/

namespace Loop

/-- What one pass through the body does. -/
inductive Iter (σ ρ : Type*)
  | again (next : σ)
  | done (result : ρ)
  deriving DecidableEq, Repr

/-- Where a thread stands in a loop that tests a flag before each pass. -/
inductive Pc
  | test
  | body
  | out
  deriving DecidableEq, Repr

variable {σ ρ : Type*} {body : σ → Iter σ ρ} {s next : σ} {result other : ρ} {fuel : Nat}

def exec (body : σ → Iter σ ρ) : Nat → σ → Option ρ
  | 0, _ => none
  | fuel + 1, s =>
    match body s with
    | .again next => exec body fuel next
    | .done result => some result

/-- The loop ends from `s`, with this result. -/
def Returns (body : σ → Iter σ ρ) (s : σ) (result : ρ) : Prop :=
  ∃ fuel, exec body fuel s = some result

theorem returns_again (step : body s = .again next) : Returns body s result ↔ Returns body next result := by
  constructor
  · rintro ⟨fuel, run⟩
    cases fuel with
    | zero => simp [exec] at run
    | succ fuel => exact ⟨fuel, by simpa only [exec, step] using run⟩
  · rintro ⟨fuel, run⟩
    exact ⟨fuel + 1, by simpa only [exec, step] using run⟩

theorem returns_done (step : body s = .done result) : Returns body s other ↔ other = result := by
  constructor
  · rintro ⟨fuel, run⟩
    cases fuel with
    | zero => simp [exec] at run
    | succ fuel => exact (by simpa only [exec, step, Option.some.injEq] using run : result = other).symm
  · rintro rfl
    exact ⟨1, by simp only [exec, step]⟩

/-- The loop after this many passes: still running, or ended on the way. -/
def passes (body : σ → Iter σ ρ) : Nat → σ → Iter σ ρ
  | 0, s => .again s
  | n + 1, s =>
    match passes body n s with
    | .again t => body t
    | .done result => .done result

theorem passes_succ (n : Nat) (s : σ) : passes body (n + 1) s =
    match body s with
    | .again next => passes body n next
    | .done result => .done result := by
  induction n with
  | zero =>
    change body s = _
    cases body s <;> rfl
  | succ n ih =>
    rw [passes, ih]
    cases body s <;> rfl

theorem exec_eq_some_iff : exec body fuel s = some result ↔ passes body fuel s = .done result := by
  induction fuel generalizing s with
  | zero => simp [exec, passes]
  | succ fuel ih =>
    rw [exec, passes_succ]
    cases body s with
    | again next => exact ih
    | done other => simp

/-- A property of the states and one of the results. -/
def Iter.Holds (running : σ → Prop) (ended : ρ → Prop) : Iter σ ρ → Prop
  | .again s => running s
  | .done result => ended result

/-- The rule for loop invariants, at every number of passes. -/
theorem passes_invariant {running : σ → Prop} {ended : ρ → Prop} (start : running s)
    (pass : ∀ t, running t → (body t).Holds running ended) (n : Nat) :
    (passes body n s).Holds running ended := by
  induction n with
  | zero => exact start
  | succ n ih =>
    rw [passes]
    cases now : passes body n s with
    | again t => exact pass t (by simpa only [now, Iter.Holds] using ih)
    | done result => simpa only [now, Iter.Holds] using ih

/-- A loop that comes closer to its end with every pass returns. -/
theorem returns_of_measure (measure : σ → Nat) (running : σ → Prop) (start : running s)
    (pass : ∀ t next, running t → body t = .again next → running next ∧ measure next < measure t) :
    ∃ result, Returns body s result := by
  induction far : measure s using Nat.strongRecOn generalizing s with
  | ind m ih =>
    subst far
    cases step : body s with
    | done result => exact ⟨result, (returns_done step).mpr rfl⟩
    | again next =>
      obtain ⟨kept, closer⟩ := pass s next start step
      obtain ⟨result, ends⟩ := ih _ closer kept rfl
      exact ⟨result, (returns_again step).mpr ends⟩

/-- States that the loop never leaves are states it never returns from. -/
theorem not_returns (running : σ → Prop) (start : running s)
    (pass : ∀ t, running t → ∃ next, body t = .again next ∧ running next) : ¬ Returns body s result := by
  rintro ⟨fuel, run⟩
  induction fuel generalizing s with
  | zero => simp [exec] at run
  | succ fuel ih =>
    obtain ⟨next, step, kept⟩ := pass s start
    exact ih kept (by simpa only [exec, step] using run)

end Loop
