/-
# Runs of a step function

A run applies a step function to one input after the other. What every step
keeps, every run keeps; and a property that a step keeps exactly when the step
is a good one holds along a run exactly when all of its steps are good.

Key theorems: `foldl_keeps`, `foldl_keeps_iff`.
-/
import Mathlib.Data.List.Induction

section Runs

variable {σ α : Type} {f : σ → α → σ} {I P : σ → Prop} {Good : σ → α → Prop}

/-- An invariant of the steps is one of the runs. -/
theorem foldl_keeps (hI : ∀ s a, I s → I (f s a)) : ∀ (l : List α) (s : σ), I s → I (l.foldl f s)
  | [], _, h => h
  | a :: l, s, h => foldl_keeps hI l (f s a) (hI s a h)

/-- `P` holds after every part of a run if and only if every step of the run is good. -/
theorem foldl_keeps_iff (hI : ∀ s a, I s → I (f s a)) (hstep : ∀ s a, I s → P s → (P (f s a) ↔ Good s a))
    {s : σ} (hs : I s) (hp : P s) (l : List α) :
    (∀ pre, pre <+: l → P (pre.foldl f s)) ↔ ∀ pre a, pre ++ [a] <+: l → Good (pre.foldl f s) a := by
  have hlast : ∀ pre a, P (pre.foldl f s) → (P ((pre ++ [a]).foldl f s) ↔ Good (pre.foldl f s) a) := by
    intro pre a hpre
    rw [List.foldl_append]
    exact hstep _ a (foldl_keeps hI pre s hs) hpre
  constructor
  · intro h pre a hpre
    have hbefore := h pre ((List.prefix_append _ _).trans hpre)
    exact (hlast pre a hbefore).mp (h (pre ++ [a]) hpre)
  · intro h pre
    induction pre using List.reverseRecOn with
    | nil => exact fun _ => hp
    | append_singleton pre a ih =>
      intro hpre
      have hbefore := ih ((List.prefix_append _ _).trans hpre)
      exact (hlast pre a hbefore).mpr (h pre a hpre)

end Runs
