import Mathlib.Logic.Relation

/-!
# Runs of a transition function under a guard

A run feeds inputs to a partial transition function. The guard restricts which
inputs may be given in which state; every statement about "all runs whose
steps meet a condition" is a statement about `Reach` with that guard.
-/

namespace Transition

variable {σ ι : Type*} {step : σ → ι → Option σ} {guard guard' : σ → ι → Prop}

/-- The states reached from `s₀` by steps that meet the guard. -/
inductive Reach (step : σ → ι → Option σ) (guard : σ → ι → Prop) (s₀ : σ) : σ → Prop
  | refl : Reach step guard s₀ s₀
  | tail {s s' : σ} {i : ι} : Reach step guard s₀ s → guard s i → step s i = some s' →
      Reach step guard s₀ s'

namespace Reach

variable {s₀ s₁ s s' : σ}

/-- A property that holds at the start and survives every guarded step holds
in every state reached. -/
theorem invariant {I : σ → Prop} (h : Reach step guard s₀ s) (start : I s₀)
    (preserved : ∀ {s s' : σ} {i : ι}, Reach step guard s₀ s → I s → guard s i →
      step s i = some s' → I s') : I s := by
  induction h with
  | refl => exact start
  | tail reach hg hs ih => exact preserved reach ih hg hs

theorem mono (h : Reach step guard s₀ s) (weaker : ∀ s i, guard s i → guard' s i) :
    Reach step guard' s₀ s := by
  induction h with
  | refl => exact .refl
  | tail _ hg hs ih => exact .tail ih (weaker _ _ hg) hs

theorem trans (h₁ : Reach step guard s₀ s₁) (h₂ : Reach step guard s₁ s) :
    Reach step guard s₀ s := by
  induction h₂ with
  | refl => exact h₁
  | tail _ hg hs ih => exact .tail ih hg hs

end Reach

variable [∀ s i, Decidable (guard s i)]

/-- Feed a list of inputs, stopping at the first that the guard or the
transition function refuses. -/
def run (step : σ → ι → Option σ) (guard : σ → ι → Prop) [∀ s i, Decidable (guard s i)] :
    σ → List ι → Option σ
  | s, [] => some s
  | s, i :: rest => if guard s i then (step s i).bind (run step guard · rest) else none

/-- The end of an executed run is reached. -/
theorem reach_of_run {s₀ s : σ} {inputs : List ι}
    (h : run step guard s₀ inputs = some s) : Reach step guard s₀ s := by
  induction inputs generalizing s₀ with
  | nil =>
      obtain rfl : s₀ = s := by simpa [run] using h
      exact .refl
  | cons i rest ih =>
      by_cases hg : guard s₀ i
      · simp only [run, hg, if_true] at h
        obtain ⟨s₁, hs, hrest⟩ := Option.bind_eq_some_iff.mp h
        exact (Reach.tail .refl hg hs).trans (ih hrest)
      · simp [run, hg] at h

/-- A run that is executed, and ends in a state with a decidable property. -/
theorem exists_run (step : σ → ι → Option σ) (guard : σ → ι → Prop)
    [∀ s i, Decidable (guard s i)] (s₀ : σ) (inputs : List ι) (p : σ → Prop) [DecidablePred p]
    (h : (run step guard s₀ inputs).map (fun s => decide (p s)) = some true) :
    ∃ s, run step guard s₀ inputs = some s ∧ p s := by
  obtain ⟨s, hs, hp⟩ := Option.map_eq_some_iff.mp h
  exact ⟨s, hs, of_decide_eq_true hp⟩

/-- A run that ends in a state with a decidable property reaches such a state. -/
theorem exists_reach_of_run (step : σ → ι → Option σ) (guard : σ → ι → Prop)
    [∀ s i, Decidable (guard s i)] (s₀ : σ) (inputs : List ι) (p : σ → Prop) [DecidablePred p]
    (h : (run step guard s₀ inputs).map (fun s => decide (p s)) = some true) :
    ∃ s, Reach step guard s₀ s ∧ p s := by
  cases hr : run step guard s₀ inputs with
  | none => simp [hr] at h
  | some s => exact ⟨s, reach_of_run hr, by simpa [hr] using h⟩

/-- The same for a run that starts after one step, which no guard restricts. -/
theorem exists_reach_after_step (step : σ → ι → Option σ) (guard : σ → ι → Prop)
    [∀ s i, Decidable (guard s i)] (s₀ : σ) (i : ι) (inputs : List ι) (p : σ → Prop)
    [DecidablePred p]
    (h : ((step s₀ i).bind fun s₁ => (run step guard s₁ inputs).map (fun s => decide (p s))) =
      some true) :
    ∃ s₁ s, step s₀ i = some s₁ ∧ Reach step guard s₁ s ∧ p s := by
  obtain ⟨s₁, hstep, hrun⟩ := Option.bind_eq_some_iff.mp h
  obtain ⟨s, hreach, hp⟩ := exists_reach_of_run step guard s₁ inputs p hrun
  exact ⟨s₁, s, hstep, hreach, hp⟩

end Transition
