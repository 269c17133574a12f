import Mathlib.Logic.Relation
import Mathlib.Data.Nat.Notation

/-!
# Transition systems that end

A system is a relation `step` between states, a run is a chain of steps, and `measure` is a
number that every step from the invariant `I` makes smaller.

Main results:

- `Decreasing.ends`: there is no endless run from the invariant;
- `Decreasing.finishes`: where some step keeps a condition until a final state is reached, a run
  leads to a final state that meets it;
- `invariant_reaches`: an invariant of the steps holds in every state that is reached.
-/

namespace Ending

open Relation

variable {σ : Type} {step : σ → σ → Prop}

/-- There is no endless run from the state. -/
def Ends (step : σ → σ → Prop) (s : σ) : Prop :=
  ¬ ∃ run : ℕ → σ, run 0 = s ∧ ∀ i, step (run i) (run (i + 1))

/-- Every step from the invariant keeps it and makes the number smaller. -/
def Decreasing (step : σ → σ → Prop) (I : σ → Prop) (measure : σ → ℕ) : Prop :=
  ∀ s s', I s → step s s' → I s' ∧ measure s' < measure s

theorem invariant_reaches {I : σ → Prop} (hstep : ∀ s s', I s → step s s' → I s') {s s' : σ}
    (hs : I s) (hreach : ReflTransGen step s s') : I s' := by
  induction hreach with
  | refl => exact hs
  | tail _ hlast ih => exact hstep _ _ ih hlast

namespace Decreasing

variable {I : σ → Prop} {measure : σ → ℕ}

/-- No endless run. -/
theorem ends (h : Decreasing step I measure) {s : σ} (hs : I s) : Ends step s := by
  rintro ⟨run, hstart, hrun⟩
  have hspent : ∀ i, I (run i) ∧ measure (run i) + i ≤ measure s := by
    intro i
    induction i with
    | zero =>
        rw [hstart]
        exact ⟨hs, Nat.le_refl _⟩
    | succ i ih =>
        obtain ⟨hnext, hless⟩ := h _ _ ih.1 (hrun i)
        refine ⟨hnext, ?_⟩
        omega
  have hall := (hspent (measure s + 1)).2
  omega

/-- A condition that some step keeps, in every state that is not final, holds in a final state
that is reached. -/
theorem finishes (h : Decreasing step I measure) {J final : σ → Prop}
    (hprogress : ∀ s, I s → J s → ¬ final s → ∃ s', step s s' ∧ J s') {s : σ} (hs : I s)
    (hJ : J s) : ∃ s', ReflTransGen step s s' ∧ J s' ∧ final s' := by
  induction hm : measure s using Nat.strongRecOn generalizing s with
  | ind m ih =>
      subst hm
      by_cases hfinal : final s
      · exact ⟨s, .refl, hJ, hfinal⟩
      · obtain ⟨s₁, hstep, hJ₁⟩ := hprogress s hs hJ hfinal
        obtain ⟨hs₁, hless⟩ := h s s₁ hs hstep
        obtain ⟨s', hreach, hJ', hfinal'⟩ := ih _ hless hs₁ hJ₁ rfl
        exact ⟨s', hreach.head hstep, hJ', hfinal'⟩

end Decreasing

end Ending
