import Mathlib.Data.List.Basic

/-!
# Runs of a labelled transition system

A run is a sequence of steps from a fixed state, with the list of its labels. `Run.invariant_on`
is the one induction over runs: a property of the labels so far and the current state that
holds at the start and is kept by every admitted step holds at the end.
-/

namespace Foundation

universe u v

variable {σ : Type u} {ε : Type v}

/-- The labels and the final state of a sequence of steps from `s₀`. -/
inductive Run (step : σ → ε → σ → Prop) (s₀ : σ) : List ε → σ → Prop where
  | start : Run step s₀ [] s₀
  | extend {labels : List ε} {s s' : σ} {label : ε} (hrun : Run step s₀ labels s)
      (hstep : step s label s') : Run step s₀ (labels ++ [label]) s'

namespace Run

variable {step : σ → ε → σ → Prop} {s₀ s : σ} {labels : List ε}

/-- What holds at the start and is kept by every admitted step holds after every run of
admitted steps. -/
theorem invariant_on {A : ε → Prop} (P : List ε → σ → Prop) (hstart : P [] s₀)
    (hstep : ∀ labels s label s', Run step s₀ labels s → P labels s → A label →
      step s label s' → P (labels ++ [label]) s')
    (hrun : Run step s₀ labels s) (hall : ∀ label ∈ labels, A label) : P labels s := by
  induction hrun with
  | start => exact hstart
  | extend hrun hlast ih =>
      have hprefix := ih fun label hin => hall label (by simp [hin])
      exact hstep _ _ _ _ hrun hprefix (hall _ (by simp)) hlast

/-- A run of admitted steps is a run of another relation, if an invariant makes every such step a
step of the other relation. -/
theorem refine_on {step' : σ → ε → σ → Prop} {A : ε → Prop} (P : σ → Prop)
    (hstart : P s₀)
    (hstep : ∀ s label s', P s → A label → step s label s' → step' s label s' ∧ P s')
    (hrun : Run step s₀ labels s) (hall : ∀ label ∈ labels, A label) :
    Run step' s₀ labels s := by
  have hboth : Run step' s₀ labels s ∧ P s := by
    refine invariant_on (fun labels s => Run step' s₀ labels s ∧ P s) ⟨.start, hstart⟩ ?_ hrun hall
    intro labels s label s' _ ⟨hrun', hs⟩ hadmitted hlast
    obtain ⟨hlast', hs'⟩ := hstep s label s' hs hadmitted hlast
    exact ⟨hrun'.extend hlast', hs'⟩
  exact hboth.1

/-- The runs of a step relation compose. -/
theorem append {s' : σ} {more : List ε} (hrun : Run step s₀ labels s)
    (hmore : Run step s more s') : Run step s₀ (labels ++ more) s' := by
  induction hmore with
  | start => simpa using hrun
  | extend _ hlast ih =>
      rw [← List.append_assoc]
      exact ih.extend hlast

end Run

end Foundation
