import Mathlib.Data.List.Basic

/-! Runs of a system that takes labelled steps. What holds at the start and is kept by every
step holds after every run, and a run splits wherever its list of labels does. -/

namespace Runs

variable {σ ι : Type}

/-- A run takes one step for each label, in order. -/
inductive Run (step : σ → ι → σ → Prop) : σ → List ι → σ → Prop where
  | done (s : σ) : Run step s [] s
  | next {s t u : σ} {a : ι} {rest : List ι} : step s a t → Run step t rest u → Run step s (a :: rest) u

variable {step : σ → ι → σ → Prop}

/-- An invariant of the steps is an invariant of the runs. -/
theorem Run.invariant {P : σ → Prop} (kept : ∀ s a t, step s a t → P s → P t) {s t : σ} {labels : List ι}
    (run : Run step s labels t) (start : P s) : P t := by
  induction run with
  | done s => exact start
  | next taken _ ih => exact ih (kept _ _ _ taken start)

theorem Run.append {s t u : σ} {first second : List ι} (before : Run step s first t) (after : Run step t second u) :
    Run step s (first ++ second) u := by
  induction before with
  | done s => exact after
  | next taken _ ih => exact Run.next taken (ih after)

theorem Run.split {s u : σ} {first second : List ι} (run : Run step s (first ++ second) u) :
    ∃ t, Run step s first t ∧ Run step t second u := by
  induction first generalizing s with
  | nil => exact ⟨s, .done s, run⟩
  | cons a rest ih =>
    cases run with
    | next taken after =>
      obtain ⟨t, before, later⟩ := ih after
      exact ⟨t, .next taken before, later⟩

/-- A run of steps that keep an invariant is a run of any steps they are under it. -/
theorem Run.refine {step' : σ → ι → σ → Prop} {P : σ → Prop} (kept : ∀ s a t, step s a t → P s → step' s a t ∧ P t)
    {s t : σ} {labels : List ι} (run : Run step s labels t) (start : P s) : Run step' s labels t := by
  induction run with
  | done s => exact .done s
  | next taken _ ih =>
    obtain ⟨taken', after⟩ := kept _ _ _ taken start
    exact .next taken' (ih after)

/-- A run of one system, seen as a run of another whose states are the images of its own. -/
theorem Run.simulate {τ κ : Type} {step' : τ → κ → τ → Prop} {image : σ → τ} {P : σ → Prop}
    (kept : ∀ s a t, step s a t → P s → (∃ b, step' (image s) b (image t)) ∧ P t) {s t : σ} {labels : List ι}
    (run : Run step s labels t) (start : P s) : (∃ labels', Run step' (image s) labels' (image t)) ∧ P t := by
  induction run with
  | done s => exact ⟨⟨[], .done _⟩, start⟩
  | next taken _ ih =>
    obtain ⟨⟨b, taken'⟩, after⟩ := kept _ _ _ taken start
    obtain ⟨⟨labels', later⟩, last⟩ := ih after
    exact ⟨⟨b :: labels', .next taken' later⟩, last⟩

/-- Steps of one system read as steps of another. -/
theorem Run.map {κ : Type} {step' : σ → κ → σ → Prop} {relabel : ι → κ}
    (steps : ∀ s a t, step s a t → step' s (relabel a) t) {s t : σ} {labels : List ι} (run : Run step s labels t) :
    Run step' s (labels.map relabel) t := by
  induction run with
  | done s => exact .done s
  | next taken _ ih => exact .next (steps _ _ _ taken) ih

/-- Every step of a run, seen from the state it was taken in. -/
inductive Always (step : σ → ι → σ → Prop) (C : σ → ι → Prop) : σ → List ι → σ → Prop where
  | done (s : σ) : Always step C s [] s
  | next {s t u : σ} {a : ι} {rest : List ι} :
    step s a t → C s a → Always step C t rest u → Always step C s (a :: rest) u

/-- What the steps that meet a condition keep holds after every run of such steps. -/
theorem Always.invariant {C : σ → ι → Prop} {P : σ → Prop} (kept : ∀ s a t, step s a t → C s a → P s → P t) {s t : σ}
    {labels : List ι} (always : Always step C s labels t) (start : P s) : P t := by
  induction always with
  | done s => exact start
  | next taken meets _ ih => exact ih (kept _ _ _ taken meets start)

end Runs
