import Mathlib.Tactic.TypeStar

/-! Runs of a step relation.

A component is a set of starting states and a step relation; what a run can
reach is the smallest set that contains the former and is closed under the
latter. Every safety result of the development is an invariant shown at the
start and kept by a step (`Reach.invariant`). A run that keeps to a condition on
its steps is a run of the restricted relation (`Kept`). -/
namespace Hsim.Lib

variable {σ : Type*} {init : σ → Prop} {step : σ → σ → Prop}

/-- The states a run can be in. -/
inductive Reach (init : σ → Prop) (step : σ → σ → Prop) : σ → Prop where
  | start {s : σ} : init s → Reach init step s
  | next {s s' : σ} : Reach init step s → step s s' → Reach init step s'

/-- Holds at the start and survives a step, so holds along every run. -/
theorem Reach.invariant {P : σ → Prop} (initial : ∀ s, init s → P s)
    (preserved : ∀ s s', P s → step s s' → P s') {s : σ} (h : Reach init step s) : P s := by
  induction h with
  | start hi => exact initial _ hi
  | next _ hs ih => exact preserved _ _ ih hs

/-- Steps that each lower a rank do not go on forever. -/
theorem Reach.finite {rank : σ → Nat} (lowers : ∀ s s', Reach init step s → step s s' → rank s' < rank s)
    {run : Nat → σ} (hstart : init (run 0)) : ¬ ∀ i, step (run i) (run (i + 1)) := by
  intro hsteps
  have hrun : ∀ i, Reach init step (run i) ∧ rank (run i) + i ≤ rank (run 0) := by
    intro i
    induction i with
    | zero => exact ⟨.start hstart, Nat.le_refl _⟩
    | succ i ih =>
      have hlower := lowers _ _ ih.1 (hsteps i)
      exact ⟨.next ih.1 (hsteps i), by omega⟩
  have hlast := (hrun (rank (run 0) + 1)).2
  omega

/-- The steps that meet a condition on the state they leave and the state they enter. -/
def Kept (step : σ → σ → Prop) (C : σ → σ → Prop) (s s' : σ) : Prop := step s s' ∧ C s s'

end Hsim.Lib
