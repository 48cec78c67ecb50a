import ServicesFramework.PollerSteps

namespace ServicesFramework

/-- The milliseconds between two readings of `Time::Now`, as the unsigned difference has them:
a clock that was set back has gone almost once around. -/
def elapsedMs (before after : UInt64) : Nat :=
  (after.toNat + 2 ^ 64 - before.toNat) % 2 ^ 64 / 1000000

theorem elapsedMs_eq (before after : UInt64) : ((after - before) / 1000000).toNat = elapsedMs before after := by
  have below := before.toNat_lt
  rw [UInt64.toNat_div, UInt64.toNat_sub, elapsedMs, show (1000000 : UInt64).toNat = 1000000 from rfl,
    Nat.add_comm, ← Nat.add_sub_assoc below.le]

/-- The cast to `int` keeps the low 32 bits, with the highest of them as the sign. -/
theorem bmod_cases (n : Nat) :
    (n % 2 ^ 32 < 2 ^ 31 ∧ Int.bmod n 0x100000000 = (n % 2 ^ 32 : Nat)) ∨
      (2 ^ 31 ≤ n % 2 ^ 32 ∧ Int.bmod n 0x100000000 = (n % 2 ^ 32 : Nat) - 2 ^ 32) := by
  rw [Int.bmod_def]
  push_cast
  split_ifs with low
  · exact Or.inl ⟨by omega, rfl⟩
  · exact Or.inr ⟨by omega, rfl⟩

theorem intervalMs_cases (before after : UInt64) :
    (elapsedMs before after % 2 ^ 32 < 2 ^ 31 ∧ 1 ≤ intervalMs before after ∧ intervalMs before after < 0x80000000) ∨
      (2 ^ 31 ≤ elapsedMs before after % 2 ^ 32 ∧ intervalMs before after < 0) := by
  unfold intervalMs
  rw [elapsedMs_eq]
  dsimp only
  generalize elapsedMs before after = elapsed
  have below : elapsed % 2 ^ 32 < 2 ^ 32 := Nat.mod_lt _ (by omega)
  rcases bmod_cases elapsed with ⟨low, cut⟩ | ⟨high, cut⟩
  · left
    split_ifs with zero
    · exact ⟨low, by omega, by omega⟩
    · exact ⟨low, by omega, by omega⟩
  · right
    rw [if_neg (by omega)]
    exact ⟨high, by omega⟩

namespace Poller

variable {κ : Type*} {p : Poller κ} {interval : Int}

/-- What the countdown of `Poll` is there for: it counts at least a millisecond, without an
overflow, and leaves no running timeout longer than it was. -/
structure CountsDown (p : Poller κ) (before after : UInt64) : Prop where
  positive : 1 ≤ intervalMs before after
  fits : p.CountdownFits (intervalMs before after)
  shrinks : ∀ fd req left, p.requests.lookup fd = some req → 0 < req.timeoutMs →
    (p.countdown (intervalMs before after)).requests.lookup fd = some left → left.timeoutMs ≤ req.timeoutMs

theorem counting_le (positive : 1 ≤ interval) (req : PollRequest κ) (running : 0 < req.timeoutMs) :
    (p.counting interval req).timeoutMs ≤ req.timeoutMs := by
  unfold counting
  split
  · exact le_rfl
  · rcases req.countdown_cases interval with ⟨_, result⟩ | ⟨_, _, result⟩ | ⟨_, _, result⟩
    · rw [result]
    · rw [result]
      exact (show (-1 : Int) ≤ req.timeoutMs by omega)
    · rw [result]
      exact (show req.timeoutMs - interval ≤ req.timeoutMs by omega)

/-- The countdown does its work exactly for the readings whose distance in milliseconds, cut
to 32 bits, does not come out negative as an `int`. -/
theorem countsDown_iff (p : Poller κ) (ints : ∀ item ∈ p.requests.entries, FitsInt item.2.timeoutMs)
    (before after : UInt64) :
    p.CountsDown before after ↔ (after.toNat + 2 ^ 64 - before.toNat) % 2 ^ 64 / 1000000 % 2 ^ 32 < 2 ^ 31 := by
  change _ ↔ elapsedMs before after % 2 ^ 32 < 2 ^ 31
  rcases intervalMs_cases before after with ⟨low, positive, below⟩ | ⟨high, negative⟩
  · refine ⟨fun _ => low, fun _ => ⟨positive, ?_, ?_⟩⟩
    · intro item member _ running
      have within := (ints item member).2
      exact ⟨by omega, by omega⟩
    · intro fd req left found running counted
      rw [lookup_countdown, found] at counted
      cases Option.some.inj counted
      exact counting_le positive req running
  · constructor
    · intro counts
      exact absurd counts.positive (by omega)
    · intro low
      omega

/-- One request with a timeout of a second. -/
def oneSecond : Poller Unit where
  isShutdown := false
  requests := AList.insert 5 ⟨5, 0x001, 1000, some ()⟩ ∅
  ctrlParams := ∅

theorem oneSecond_ints : ∀ item ∈ oneSecond.requests.entries, FitsInt item.2.timeoutMs := by decide

/-- Ten milliseconds later, as the clock has it. -/
theorem countsDown_ten : oneSecond.CountsDown 5000000000 5010000000 :=
  (countsDown_iff oneSecond oneSecond_ints 5000000000 5010000000).mpr (by decide)

/-- The clock is set forward by 25 days while the poller waits: 2160000000 ms do not fit an
`int`, and the timeout grows. -/
theorem countdown_grows_timeout :
    ¬ ∀ (p : Poller Unit) (before after : UInt64), (∀ item ∈ p.requests.entries, FitsInt item.2.timeoutMs) →
      p.CountsDown before after := by
  intro claim
  have counts := claim oneSecond 0 2160000000000000 oneSecond_ints
  exact absurd (counts.shrinks 5 _ _ rfl (by decide) rfl) (by decide)

end Poller

end ServicesFramework
