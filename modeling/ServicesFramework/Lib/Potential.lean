import Mathlib.Algebra.BigOperators.Group.Finset.Basic
import Mathlib.Data.Multiset.DershowitzManna
import Mathlib.Order.WellFounded
import Mathlib.Tactic.Abel
import ServicesFramework.Lib.Machine

/-!
Potentials: a value in a well-founded relation that no step of a system raises. Where every
state that is not at rest has a run that lowers it, rest can be reached; where each step keeps
or lowers it, it is lowered finitely often. A budget is a potential in the natural numbers that
pays for the actions of one party.
-/

namespace Machine

section Progress

variable {σ ι α : Type*} {step : σ → ι → Option σ} {r : α → α → Prop}

/-- From every state there is a run to rest, made of the actions that `P` allows. -/
theorem run_to_rest (wf : WellFounded r) (potential : σ → α) {I Rest : σ → Prop} {P : ι → Prop}
    (progress : ∀ s, I s → ¬ Rest s → ∃ acts u, (∀ a ∈ acts, P a) ∧ run step s acts = some u ∧ I u ∧
      r (potential u) (potential s))
    {s : σ} (start : I s) : ∃ acts u, (∀ a ∈ acts, P a) ∧ run step s acts = some u ∧ I u ∧ Rest u := by
  induction height : potential s using wf.induction generalizing s with
  | _ x ih =>
    subst height
    by_cases rest : Rest s
    · exact ⟨[], s, fun a member => absurd member List.not_mem_nil, rfl, start, rest⟩
    · obtain ⟨first, u, allowed, reach, kept, lower⟩ := progress s start rest
      obtain ⟨more, v, later, onward, good, still⟩ := ih _ lower kept rfl
      refine ⟨first ++ more, v, ?_, run_append.mpr ⟨u, reach, onward⟩, good, still⟩
      intro a member
      rcases List.mem_append.mp member with early | late
      · exact allowed a early
      · exact later a late

/-- A budget that pays for each action of a kind bounds how many of them a run can have, up to
what other actions add to it. -/
theorem run_budget {I : σ → Prop} (keep : ∀ s a u, I s → step s a = some u → I u) (budget : σ → Nat)
    (kind : ι → Bool) (gain : ι → Nat)
    (pays : ∀ s a u, I s → step s a = some u → budget u + (if kind a then 1 else 0) ≤ budget s + gain a)
    {acts : List ι} {s u : σ} (start : I s) (reach : run step s acts = some u) :
    budget u + acts.countP kind ≤ budget s + (acts.map gain).sum := by
  induction acts generalizing s with
  | nil =>
    cases Option.some.inj reach
    simp
  | cons a acts ih =>
    obtain ⟨v, first, rest⟩ := run_cons.mp reach
    have later := ih (keep s a v start first) rest
    have now := pays s a v start first
    rw [List.countP_cons, List.map_cons, List.sum_cons]
    omega

/-- A budget that pays for what is added to a log bounds what a run adds to it. -/
theorem run_log_budget {β : Type*} {I : σ → Prop} (keep : ∀ s a u, I s → step s a = some u → I u)
    (log : σ → List β) (budget : σ → Nat)
    (pays : ∀ s a u, I s → step s a = some u → ∃ new, log u = log s ++ new ∧ new.length + budget u ≤ budget s)
    {acts : List ι} {s u : σ} (start : I s) (reach : run step s acts = some u) :
    ∃ new, log u = log s ++ new ∧ new.length + budget u ≤ budget s := by
  induction acts generalizing s with
  | nil =>
    cases Option.some.inj reach
    exact ⟨[], by simp, by simp⟩
  | cons a acts ih =>
    obtain ⟨v, first, rest⟩ := run_cons.mp reach
    obtain ⟨now, put, paid⟩ := pays s a v start first
    obtain ⟨later, more, left⟩ := ih (keep s a v start first) rest
    refine ⟨now ++ later, by rw [more, put, List.append_assoc], ?_⟩
    rw [List.length_append]
    omega

/-- A sequence that only ever stays or falls is constant from some point on. -/
theorem settles (wf : WellFounded r) {f : Nat → α} (falls : ∀ n, f (n + 1) = f n ∨ r (f (n + 1)) (f n)) :
    ∃ N, ∀ n, N ≤ n → f n = f N := by
  obtain ⟨_, ⟨N, rfl⟩, least⟩ := wf.has_min (Set.range f) ⟨f 0, 0, rfl⟩
  refine ⟨N, fun n after => ?_⟩
  induction after with
  | refl => rfl
  | @step n _ ih =>
    rcases falls n with same | lower
    · exact same.trans ih
    · exact absurd (ih ▸ lower) (least _ ⟨n + 1, rfl⟩)

end Progress

section Loads

variable {ι β M : Type*} [DecidableEq ι] [AddCommMonoid M]

/-- What a sum of loads gains and loses when one place changes. -/
theorem load_update {places : Finset ι} (load : ι → β → M) (f : ι → β) {i : ι} (x : β) (member : i ∈ places) :
    ∑ j ∈ places, load j (Function.update f i x j) + load i (f i) = ∑ j ∈ places, load j (f j) + load i x := by
  have others : ∑ j ∈ places.erase i, load j (Function.update f i x j) = ∑ j ∈ places.erase i, load j (f j) := by
    refine Finset.sum_congr rfl fun j later => ?_
    rw [Function.update_of_ne (Finset.ne_of_mem_erase later)]
  rw [← Finset.add_sum_erase places (fun j => load j (Function.update f i x j)) member,
    ← Finset.add_sum_erase places (fun j => load j (f j)) member, others, Function.update_self]
  abel

end Loads

/-- Replacing one element by smaller ones. -/
theorem isDershowitzMannaLT_of_replace {α : Type*} [Preorder α] {before after smaller : Multiset α} {a : α}
    (balance : after + {a} = before + smaller) (below : ∀ b ∈ smaller, b < a) :
    after.IsDershowitzMannaLT before := by
  have member : a ∈ before := by
    have either : a ∈ before + smaller := balance ▸ Multiset.mem_add.mpr (.inr (Multiset.mem_singleton_self a))
    rcases Multiset.mem_add.mp either with here | there
    · exact here
    · exact absurd (below a there) (lt_irrefl a)
  obtain ⟨rest, rfl⟩ := Multiset.exists_cons_of_mem member
  refine ⟨rest, smaller, {a}, Multiset.singleton_ne_zero a, ?_, ?_, fun b small => ⟨a, by simp, below b small⟩⟩
  · refine add_right_cancel (b := {a}) ?_
    rw [balance, ← Multiset.singleton_add]
    abel
  · rw [← Multiset.singleton_add]
    abel

end Machine
