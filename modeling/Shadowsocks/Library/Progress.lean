import Mathlib.Order.Nat
import Mathlib.Tactic.Choose

/-! Infinite executions: what holds from some point on, and what a fair one must come to. -/
namespace Progress

universe u v
variable {σ : Type u} {ι : Type v} {Step : σ → ι → σ → Prop}

/-- A state and an event for every time, each state made of the one before by its event. -/
structure Execution (Step : σ → ι → σ → Prop) where
  state : Nat → σ
  event : Nat → ι
  step : ∀ n, Step (state n) (event n) (state (n + 1))

namespace Execution

/-- From a state in which every event has an outcome of the same kind, every sequence of events
has an execution. -/
theorem exists_of_total {J : σ → Prop} (htotal : ∀ s i, J s → ∃ t, Step s i t ∧ J t) {s : σ}
    (h : J s) (events : Nat → ι) : ∃ E : Execution Step, E.state 0 = s ∧ E.event = events := by
  choose next hnext hJ using htotal
  let states : Nat → { s // J s } := fun n =>
    Nat.rec ⟨s, h⟩ (fun n t => ⟨next t.1 (events n) t.2, hJ t.1 (events n) t.2⟩) n
  exact ⟨⟨fun n => (states n).1, events, fun n => hnext (states n).1 (events n) (states n).2⟩,
    rfl, rfl⟩

variable (E : Execution Step) {m : Nat}

/-- What every event from some time on preserves holds from then on. -/
theorem holds_from (J : σ → Prop) (h : J (E.state m))
    (hstep : ∀ n, m ≤ n → J (E.state n) → J (E.state (n + 1))) :
    ∀ n, m ≤ n → J (E.state n) := by
  intro n hn
  induction n, hn using Nat.le_induction with
  | base => exact h
  | succ n hn ih => exact hstep n hn ih

/-- A rank that never rises on the way to the goal stays below its first value. -/
theorem rank_le_of_not_goal (goal : σ → Prop) (rank : σ → Nat)
    (hkeep : ∀ n, m ≤ n → ¬ goal (E.state n) →
      goal (E.state (n + 1)) ∨ rank (E.state (n + 1)) ≤ rank (E.state n))
    (hno : ∀ n, m ≤ n → ¬ goal (E.state n)) :
    ∀ n, m ≤ n → rank (E.state n) ≤ rank (E.state m) := by
  intro n hn
  induction n, hn using Nat.le_induction with
  | base => exact Nat.le_refl _
  | succ n hn ih =>
    rcases hkeep n hn (hno n hn) with hgoal | hle
    · exact absurd hgoal (hno (n + 1) (by omega))
    · exact Nat.le_trans hle ih

/-- A goal is reached when a rank never rises on the way, falls at every event that helps, and
some event that helps is always still to come. -/
theorem eventually_of_rank (goal : σ → Prop) (rank : σ → Nat) (helps : Nat → Prop)
    (hkeep : ∀ n, m ≤ n → ¬ goal (E.state n) →
      goal (E.state (n + 1)) ∨ rank (E.state (n + 1)) ≤ rank (E.state n))
    (hfall : ∀ n, m ≤ n → helps n → ¬ goal (E.state n) →
      goal (E.state (n + 1)) ∨ rank (E.state (n + 1)) < rank (E.state n))
    (hfair : ∀ n, m ≤ n → ¬ goal (E.state n) → ∃ n', n ≤ n' ∧ helps n') :
    ∃ n, m ≤ n ∧ goal (E.state n) := by
  generalize hrank : rank (E.state m) = r
  induction r using Nat.strongRecOn generalizing m with
  | ind r ih =>
    by_contra hnone
    have hno : ∀ n, m ≤ n → ¬ goal (E.state n) := fun n hn hgoal => hnone ⟨n, hn, hgoal⟩
    obtain ⟨n, hn, hhelps⟩ := hfair m (Nat.le_refl m) (hno m (Nat.le_refl m))
    have hle := E.rank_le_of_not_goal goal rank hkeep hno n hn
    have hlt : rank (E.state (n + 1)) < rank (E.state n) := by
      rcases hfall n hn hhelps (hno n hn) with hgoal | hlt
      · exact absurd hgoal (hno (n + 1) (by omega))
      · exact hlt
    obtain ⟨n', hn', hgoal⟩ := ih (rank (E.state (n + 1))) (by omega)
      (fun n' hn' => hkeep n' (by omega)) (fun n' hn' => hfall n' (by omega))
      (fun n' hn' => hfair n' (by omega)) rfl
    exact hno n' (by omega) hgoal

end Execution

end Progress
